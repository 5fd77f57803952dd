import AtomrAgents.Host.FileActions

set_option autoImplicit false

namespace AtomrAgents

open Shared Shared.UnixPath Shared.UnixPath.FileTree

variable (paths : AgentPaths) (skillId : String)

def targetDir : List Component := push (pathOf paths.skillsDir) skillId.toList

def skillTarget : List Component := push (targetDir paths skillId) "SKILL.md".toList

def historyDir : List Component := push (targetDir paths skillId) ".history".toList

def revertSkill (tree : FileTree) : FileTree × Except HostError (Option (List Component)) :=
  let history := historyDir paths skillId
  if tree.isDir history then
    match (sortNames (tree.children (resolve history))).getLast? with
    | none => (tree, .ok none)
    | some name =>
      let target := skillTarget paths skillId
      match tree.copy (history ++ [.normal name]) target with
      | (tree, true) => (tree, .ok (some target))
      | (tree, false) => (tree, .error (.io target))
  else (tree, .ok none)

def revertTimes : Nat → FileTree → FileTree
  | 0, tree => tree
  | k + 1, tree => revertTimes k (revertSkill paths skillId tree).1

structure Promotion where
  proposal : SkillProposal
  ts : Nat

def Promotion.run (historyLimit : Nat) (promotion : Promotion) (tree : FileTree) : FileTree × Bool :=
  performAll (promoteProposal paths promotion.proposal historyLimit promotion.ts (diskOf tree)).2 tree

def promoteAll (historyLimit : Nat) : List Promotion → FileTree → FileTree × Bool
  | [], tree => (tree, true)
  | promotion :: promotions, tree =>
    match promotion.run paths historyLimit tree with
    | (tree, true) => promoteAll historyLimit promotions tree
    | (tree, false) => (tree, false)

def snapshotName (ts : Nat) : List Char := (toString ts ++ ".md").toList

section Places

theorem skillTarget_eq : skillTarget paths skillId = targetDir paths skillId ++ [.normal "SKILL.md".toList] :=
  push_name (by decide) (by decide) _

theorem historyDir_eq : historyDir paths skillId = targetDir paths skillId ++ [.normal ".history".toList] :=
  push_name (by decide) (by decide) _

def skillPlace : Place := resolve (targetDir paths skillId) ++ ["SKILL.md".toList]

def historyPlace : Place := resolve (targetDir paths skillId) ++ [".history".toList]

theorem resolve_skillTarget : resolve (skillTarget paths skillId) = skillPlace paths skillId := by
  rw [skillTarget_eq, resolve_name, skillPlace]

theorem resolve_historyDir : resolve (historyDir paths skillId) = historyPlace paths skillId := by
  rw [historyDir_eq, resolve_name, historyPlace]

end Places

variable {paths skillId} {tree last : FileTree} {historyLimit : Nat} {name : List Char} {old : String}

structure NewestKept (paths : AgentPaths) (skillId : String) (name : List Char) (old : String)
    (tree : FileTree) : Prop where
  skill : tree.isDir (targetDir paths skillId) = true
  history : tree.isDir (historyDir paths skillId) = true
  clean : '\x00' ∉ name
  file : tree.node (historyPlace paths skillId ++ [name]) = some (.file old)
  newest : ∀ other ∈ tree.children (historyPlace paths skillId), other ≤ name
  present : ∃ body, tree.node (skillPlace paths skillId) = some (.file body)

section Reverting

theorem skillPlace_ne (name : List Char) : historyPlace paths skillId ++ [name] ≠ skillPlace paths skillId := by
  intro same
  have size := congrArg List.length same
  simp [historyPlace, skillPlace] at size

theorem NewestKept.revert (kept : NewestKept paths skillId name old tree) : revertSkill paths skillId tree =
    (tree.put (skillPlace paths skillId) (.file old), .ok (some (skillTarget paths skillId))) := by
  obtain ⟨body, present⟩ := kept.present
  have member : name ∈ tree.children (historyPlace paths skillId) := mem_children.mpr (by simp [kept.file])
  have file : tree.read (historyDir paths skillId ++ [.normal name]) = some old :=
    read_name kept.history kept.clean (by rw [resolve_historyDir, kept.file])
  have located : tree.locate (skillTarget paths skillId) = some (skillPlace paths skillId) := by
    rw [skillTarget_eq]
    exact locate_name kept.skill (by decide)
  have copied : tree.copy (historyDir paths skillId ++ [.normal name]) (skillTarget paths skillId) =
      (tree.put (skillPlace paths skillId) (.file old), true) := by
    simp [FileTree.copy, file, FileTree.write, located, present]
  rw [revertSkill, if_pos kept.history, resolve_historyDir, getLast_sortNames member kept.newest]
  simp only [copied]

theorem NewestKept.reverted (kept : NewestKept paths skillId name old tree) :
    NewestKept paths skillId name old (tree.put (skillPlace paths skillId) (.file old)) := by
  obtain ⟨body, present⟩ := kept.present
  have keeps : KeepsDirs tree (tree.put (skillPlace paths skillId) (.file old)) :=
    keepsDirs_put (by rw [← skillPlace, present]; simp)
  have same (other : List Char) : (tree.put (skillPlace paths skillId) (.file old)).node
      (historyPlace paths skillId ++ [other]) = tree.node (historyPlace paths skillId ++ [other]) := by
    rw [skillPlace, node_put, ← skillPlace, if_neg (skillPlace_ne other)]
  exact {
    skill := isDir_of_keepsDirs keeps kept.skill
    history := isDir_of_keepsDirs keeps kept.history
    clean := kept.clean
    file := by rw [same, kept.file]
    newest := fun other there => kept.newest other (by rw [mem_children, same] at there; exact mem_children.mpr there)
    present := ⟨old, by rw [skillPlace, node_put, if_pos rfl]⟩ }

theorem read_skillTarget {body : String} (entered : tree.isDir (targetDir paths skillId) = true)
    (file : tree.node (skillPlace paths skillId) = some (.file body)) :
    tree.read (skillTarget paths skillId) = some body := by
  rw [skillTarget_eq]
  exact read_name entered (by decide) file

theorem NewestKept.revertTimes (kept : NewestKept paths skillId name old tree) (k : Nat) :
    (revertTimes paths skillId (k + 1) tree).read (skillTarget paths skillId) = some old := by
  induction k generalizing tree with
  | zero =>
    rw [AtomrAgents.revertTimes, AtomrAgents.revertTimes, kept.revert]
    exact read_skillTarget kept.reverted.skill (by rw [skillPlace, node_put, if_pos rfl])
  | succ k ih =>
    rw [AtomrAgents.revertTimes, kept.revert]
    exact ih kept.reverted

end Reverting

section Promoting

variable {promotion : Promotion}

-- The way to the skill does not lead through its history.
def Aside (paths : AgentPaths) (skillId : String) : Prop :=
  ∀ through, Passes [] (targetDir paths skillId) through → ¬ Below (historyPlace paths skillId) through

theorem aside_history (aside : Aside paths skillId) (through : Place)
    (passes : Passes [] (historyDir paths skillId) through) : ¬ Below (historyPlace paths skillId) through := by
  obtain ⟨front, name, early, rfl⟩ := passes
  rw [historyDir_eq, List.prefix_concat_iff] at early
  rcases early with whole | before
  · rw [whole]
    rintro ⟨more, present, same⟩
    have place : walk [] (targetDir paths skillId ++ [.normal ".history".toList]) = historyPlace paths skillId :=
      resolve_name _ _
    rw [place] at same
    exact present (List.append_right_eq_self.mp same.symm)
  · exact aside _ ⟨front, name, before, rfl⟩

structure Promoted (paths : AgentPaths) (promotion : Promotion) (tree last : FileTree) : Prop where
  skill : last.isDir (targetDir paths promotion.proposal.skillId) = true
  file : last.node (skillPlace paths promotion.proposal.skillId) = some (.file promotion.proposal.toMarkdown)
  entries : ∀ name ∈ last.children (historyPlace paths promotion.proposal.skillId),
    name = snapshotName promotion.ts ∨ name ∈ tree.children (historyPlace paths promotion.proposal.skillId)
  snapshot : ∀ old, tree.node (skillPlace paths promotion.proposal.skillId) = some (.file old) →
    last.isDir (historyDir paths promotion.proposal.skillId) = true ∧
      last.node (historyPlace paths promotion.proposal.skillId ++ [snapshotName promotion.ts]) = some (.file old)

theorem not_mem_take {α : Type} {items : List α} {a : α} {n : Nat} (distinct : items.Nodup)
    (last : items.getLast? = some a) (fewer : n < items.length) : a ∉ items.take n := by
  obtain ⟨front, rfl⟩ := List.getLast?_eq_some_iff.mp last
  rw [List.length_append, List.length_singleton, Nat.lt_succ_iff] at fewer
  rw [List.take_append_of_le_length fewer]
  intro member
  exact (List.nodup_append.mp distinct).2.2 a (List.mem_of_mem_take member) a (List.mem_singleton_self a) rfl

theorem snapshotName_clean (ts : Nat) : '\x00' ∉ snapshotName ts := not_mem_numbered (by decide) (by decide) ts

theorem push_snapshotName (dir : List Component) (ts : Nat) :
    push dir (snapshotName ts) = dir ++ [.normal (snapshotName ts)] := push_numbered (by decide) (by decide) dir ts

theorem not_pruned {history : List Component} {snapshot : List Char} (positive : 0 < historyLimit)
    (later : ∀ name ∈ tree.children (resolve history), name < snapshot) :
    ∃ names : List (List Char), pruneHistory history snapshot historyLimit (diskOf tree) =
      names.map (fun name => .removeFile (history ++ [.normal name])) ∧ snapshot ∉ names := by
  let entries := sortNames (snapshot :: (diskOf tree).children (resolve history)).dedup
  refine ⟨entries.take (entries.length - historyLimit), rfl, ?_⟩
  have inside : snapshot ∈ (snapshot :: (diskOf tree).children (resolve history)).dedup := by simp
  have last : entries.getLast? = some snapshot := by
    refine getLast_sortNames inside fun other there => ?_
    rcases List.mem_cons.mp (List.mem_dedup.mp there) with rfl | there
    · exact le_refl other
    · exact le_of_lt (later other there)
  have distinct : entries.Nodup := (sortNames_perm _).nodup_iff.mpr (List.nodup_dedup _)
  have some : 0 < entries.length := by
    rw [List.length_pos_iff]
    rintro none
    rw [none] at last
    cases last
  exact not_mem_take distinct last (by omega)

theorem snapshot_copied {before copied : FileTree} {ts : Nat} {old : String}
    (entered : before.isDir (targetDir paths skillId) = true)
    (file : before.node (skillPlace paths skillId) = some (.file old))
    (done : performAll [.createDirAll (historyDir paths skillId),
      .copy (skillTarget paths skillId) (push (historyDir paths skillId) (snapshotName ts))] before =
        (copied, true)) :
    ∃ made, Grows before made (Passes [] (historyDir paths skillId)) ∧
      made.isDir (historyDir paths skillId) = true ∧
      made.node (historyPlace paths skillId ++ [snapshotName ts]) ≠ some .dir ∧
      copied = made.put (historyPlace paths skillId ++ [snapshotName ts]) (.file old) := by
  obtain ⟨made, create, steps⟩ := performAll_cons.mp done
  obtain ⟨copied', copy, steps⟩ := performAll_cons.mp steps
  cases steps
  simp only [perform] at create copy
  have reached := reach_createDirAll (congrArg Prod.snd create)
  have grows := createDirAll_grows before (historyDir paths skillId)
  rw [create] at reached grows
  have target : made.node (skillPlace paths skillId) = some (.file old) := grows.node_of_some file
  obtain ⟨body, read, written⟩ := copy_done copy
  rw [read_skillTarget (isDir_of_keepsDirs grows.keepsDirs entered) target, Option.some_inj] at read
  subst read
  obtain ⟨dir, name, place, free, -, stored⟩ := write_done written
  rw [push_snapshotName, resolve_name, resolve_historyDir] at place
  rw [← place] at free stored
  exact ⟨made, grows, isDir_iff.mpr reached, free, stored⟩

theorem snapshot_taken {before : FileTree} (positive : 0 < historyLimit) (aside : Aside paths skillId) {ts : Nat}
    {old : String} (entered : before.isDir (targetDir paths skillId) = true)
    (file : before.node (skillPlace paths skillId) = some (.file old))
    (same : ∀ name, before.node (historyPlace paths skillId ++ [name]) =
      tree.node (historyPlace paths skillId ++ [name]))
    (later : ∀ name ∈ tree.children (historyPlace paths skillId), name < snapshotName ts)
    (done : performAll ([.createDirAll (historyDir paths skillId),
      .copy (skillTarget paths skillId) (push (historyDir paths skillId) (snapshotName ts))] ++
        pruneHistory (historyDir paths skillId) (snapshotName ts) historyLimit (diskOf tree)) before = (last, true)) :
    KeepsDirs before last ∧ last.isDir (historyDir paths skillId) = true ∧
      last.node (historyPlace paths skillId ++ [snapshotName ts]) = some (.file old) ∧
      ∀ name ∈ last.children (historyPlace paths skillId),
        name = snapshotName ts ∨ name ∈ tree.children (historyPlace paths skillId) := by
  obtain ⟨names, pruned, kept⟩ := not_pruned positive (by rw [resolve_historyDir]; exact later)
  obtain ⟨copied, steps, removals⟩ := performAll_append.mp done
  obtain ⟨made, grows, history, free, rfl⟩ := snapshot_copied entered file steps
  obtain ⟨last', removed, left⟩ := performAll_removals (historyDir paths skillId) names
    (made.put (historyPlace paths skillId ++ [snapshotName ts]) (.file old))
  rw [pruned, removed, Prod.mk.injEq] at removals
  obtain ⟨rfl, -⟩ := removals
  have keeps : KeepsDirs made last' := by
    intro other here
    have still : (made.put (historyPlace paths skillId ++ [snapshotName ts]) (.file old)).node other = some .dir :=
      keepsDirs_put free other here
    rcases left other with unchanged | ⟨-, ⟨body, gone⟩, -⟩
    · rw [unchanged, still]
    · rw [still] at gone
      cases gone
  refine ⟨fun place here => keeps place (grows.keepsDirs place here), isDir_of_keepsDirs keeps history, ?_,
    fun name there => ?_⟩
  · rcases left (historyPlace paths skillId ++ [snapshotName ts]) with unchanged | ⟨-, -, name, gone, place⟩
    · rw [unchanged, node_put, if_pos rfl]
    · rw [resolve_historyDir] at place
      have equal : snapshotName ts = name := by simpa using place
      exact absurd (equal ▸ gone) kept
  · by_cases new : name = snapshotName ts
    · exact .inl new
    · right
      rw [mem_children] at there ⊢
      rw [← same, ← same_of_grows grows (aside_history aside)]
      intro absent
      rcases left (historyPlace paths skillId ++ [name]) with unchanged | ⟨gone, -⟩
      · rw [unchanged, node_put, if_neg (by simpa using new), absent] at there
        exact there rfl
      · exact there gone

theorem history_of_done {made before : FileTree} (positive : 0 < historyLimit) (aside : Aside paths skillId) {ts : Nat}
    (create : tree.createDirAll (targetDir paths skillId) = (made, true))
    (later : ∀ name ∈ tree.children (historyPlace paths skillId), name < snapshotName ts)
    (steps : performAll (if (diskOf tree).isFile (skillTarget paths skillId) then
      [.createDirAll (historyDir paths skillId),
        .copy (skillTarget paths skillId) (push (historyDir paths skillId) (snapshotName ts))] ++
          pruneHistory (historyDir paths skillId) (snapshotName ts) historyLimit (diskOf tree)
      else []) made = (before, true)) :
    before.isDir (targetDir paths skillId) = true ∧
      (∀ name ∈ before.children (historyPlace paths skillId),
        name = snapshotName ts ∨ name ∈ tree.children (historyPlace paths skillId)) ∧
      ∀ old, tree.node (skillPlace paths skillId) = some (.file old) →
        before.isDir (historyDir paths skillId) = true ∧
          before.node (historyPlace paths skillId ++ [snapshotName ts]) = some (.file old) := by
  have reached := reach_createDirAll (congrArg Prod.snd create)
  have grows := createDirAll_grows tree (targetDir paths skillId)
  rw [create] at reached grows
  have entered : made.isDir (targetDir paths skillId) = true := isDir_iff.mpr reached
  have same := same_of_grows grows aside
  split at steps
  next isFile =>
    obtain ⟨-, body, stored⟩ := isFile_diskOf.mp isFile
    rw [resolve_skillTarget] at stored
    have target : made.node (skillPlace paths skillId) = some (.file body) := grows.node_of_some stored
    obtain ⟨keeps, history, snapshot, entries⟩ := snapshot_taken positive aside entered target same later steps
    refine ⟨isDir_of_keepsDirs keeps entered, entries, fun old file => ⟨history, ?_⟩⟩
    rw [stored] at file
    cases file
    exact snapshot
  next absent =>
    cases steps
    refine ⟨entered, fun name there => .inr ?_, fun old file => absurd (isFile_diskOf.mpr ⟨?_, old, ?_⟩) absent⟩
    · rw [mem_children] at there ⊢
      rwa [← same]
    · rw [skillTarget_eq, isTaken_concat _ (by decide), reached.1]
    · rw [resolve_skillTarget, file]

theorem promoted_of_done (positive : 0 < historyLimit) (aside : Aside paths promotion.proposal.skillId)
    (later : ∀ name ∈ tree.children (historyPlace paths promotion.proposal.skillId), name < snapshotName promotion.ts)
    (done : promotion.run paths historyLimit tree = (last, true)) : Promoted paths promotion tree last := by
  rw [Promotion.run, promoteProposal] at done
  obtain ⟨before, steps, write⟩ := performAll_append.mp done
  obtain ⟨made, create, steps⟩ := performAll_cons.mp steps
  obtain ⟨written, write, none⟩ := performAll_cons.mp write
  cases none
  obtain ⟨skill, entries, snapshot⟩ := history_of_done positive aside create later steps
  obtain ⟨dir, name, place, free, -, rfl⟩ := write_done write
  have target : dir ++ [name] = skillPlace paths promotion.proposal.skillId :=
    place.symm.trans (resolve_skillTarget paths promotion.proposal.skillId)
  have keeps : KeepsDirs before (before.put (dir ++ [name]) (.file promotion.proposal.toMarkdown)) :=
    keepsDirs_put free
  have node (other : List Char) : (before.put (dir ++ [name]) (.file promotion.proposal.toMarkdown)).node
      (historyPlace paths promotion.proposal.skillId ++ [other]) =
        before.node (historyPlace paths promotion.proposal.skillId ++ [other]) := by
    rw [node_put, target, if_neg (skillPlace_ne other)]
  refine {
    skill := isDir_of_keepsDirs keeps skill
    file := by rw [node_put, target, if_pos rfl]
    entries := fun other there => entries other ?_
    snapshot := fun old file => ?_ }
  · rw [mem_children, node] at there
    exact mem_children.mpr there
  · obtain ⟨history, kept⟩ := snapshot old file
    exact ⟨isDir_of_keepsDirs keeps history, by rw [node, kept]⟩

end Promoting

section Series

variable {promotions : List Promotion}

-- Promotions of one skill, one after the other, at times of equally many digits.
structure Series (skillId : String) (promotions : List Promotion) : Prop where
  mine : ∀ p ∈ promotions, p.proposal.skillId = skillId
  ordered : promotions.Pairwise fun a b => a.ts < b.ts
  digits : ∀ a ∈ promotions, ∀ b ∈ promotions, (toString a.ts).length = (toString b.ts).length

theorem Series.front {promotion : Promotion} (series : Series skillId (promotions ++ [promotion])) :
    Series skillId promotions where
  mine p member := series.mine p (List.mem_append_left _ member)
  ordered := (List.pairwise_append.mp series.ordered).1
  digits a member b member' := series.digits a (List.mem_append_left _ member) b (List.mem_append_left _ member')

theorem Series.later {promotion : Promotion} (series : Series skillId (promotions ++ [promotion])) {p : Promotion}
    (member : p ∈ promotions) : snapshotName p.ts < snapshotName promotion.ts := by
  have less := (List.pairwise_append.mp series.ordered).2.2 p member promotion (List.mem_singleton_self _)
  exact numbered_lt less (series.digits p (List.mem_append_left _ member) promotion List.mem_concat_self) ".md"

theorem promoteAll_concat {promotion : Promotion} :
    promoteAll paths historyLimit (promotions ++ [promotion]) tree = (last, true) ↔
      ∃ mid, promoteAll paths historyLimit promotions tree = (mid, true) ∧
        promotion.run paths historyLimit mid = (last, true) := by
  induction promotions generalizing tree with
  | nil =>
    simp only [List.nil_append, promoteAll]
    split
    next mid run => simp [run]
    next mid run => simp [run]
  | cons first promotions ih =>
    rw [List.cons_append, promoteAll, promoteAll]
    split
    next mid run => exact ih
    next mid run => simp

theorem entries_promoteAll (positive : 0 < historyLimit) (aside : Aside paths skillId)
    (bare : tree.children (historyPlace paths skillId) = []) (series : Series skillId promotions)
    (done : promoteAll paths historyLimit promotions tree = (last, true)) :
    ∀ name ∈ last.children (historyPlace paths skillId), ∃ p ∈ promotions, name = snapshotName p.ts := by
  induction promotions using List.reverseRecOn generalizing last with
  | nil =>
    cases done
    simp [bare]
  | append_singleton front promotion ih =>
    obtain ⟨mid, before, run⟩ := promoteAll_concat.mp done
    have earlier := ih series.front before
    obtain rfl := series.mine promotion List.mem_concat_self
    have later : ∀ name ∈ mid.children (historyPlace paths promotion.proposal.skillId),
        name < snapshotName promotion.ts := by
      intro name there
      obtain ⟨p, member, rfl⟩ := earlier name there
      exact series.later member
    intro name there
    rcases (promoted_of_done positive aside later run).entries name there with new | old
    · exact ⟨promotion, List.mem_concat_self, new⟩
    · obtain ⟨p, member, same⟩ := earlier name old
      exact ⟨p, List.mem_append_left _ member, same⟩

theorem promoted_concat {promotion : Promotion} (positive : 0 < historyLimit) (aside : Aside paths skillId)
    (bare : tree.children (historyPlace paths skillId) = []) (series : Series skillId (promotions ++ [promotion]))
    (done : promoteAll paths historyLimit (promotions ++ [promotion]) tree = (last, true)) :
    ∃ mid, promoteAll paths historyLimit promotions tree = (mid, true) ∧ Promoted paths promotion mid last ∧
      ∀ name ∈ mid.children (historyPlace paths skillId), name < snapshotName promotion.ts := by
  obtain ⟨mid, before, run⟩ := promoteAll_concat.mp done
  have later : ∀ name ∈ mid.children (historyPlace paths skillId), name < snapshotName promotion.ts := by
    intro name there
    obtain ⟨p, member, rfl⟩ := entries_promoteAll positive aside bare series.front before name there
    exact series.later member
  obtain rfl := series.mine promotion List.mem_concat_self
  exact ⟨mid, before, promoted_of_done positive aside later run, later⟩

theorem newestKept_of_done {front : List Promotion} {a b : Promotion} (positive : 0 < historyLimit)
    (aside : Aside paths skillId) (bare : tree.children (historyPlace paths skillId) = [])
    (series : Series skillId (front ++ [a] ++ [b]))
    (done : promoteAll paths historyLimit (front ++ [a] ++ [b]) tree = (last, true)) :
    NewestKept paths skillId (snapshotName b.ts) a.proposal.toMarkdown last ∧
      (promoteAll paths historyLimit (front ++ [a]) tree).1.read (skillTarget paths skillId) =
        some a.proposal.toMarkdown := by
  obtain ⟨mid, before, promoted, later⟩ := promoted_concat positive aside bare series done
  obtain ⟨_, -, replaced, -⟩ := promoted_concat positive aside bare series.front before
  have mine : a.proposal.skillId = skillId := series.front.mine a List.mem_concat_self
  have mine' : b.proposal.skillId = skillId := series.mine b List.mem_concat_self
  have file := replaced.file
  have skill := replaced.skill
  have file' := promoted.file
  have skill' := promoted.skill
  have snapshot := promoted.snapshot
  have entries := promoted.entries
  rw [mine] at file skill
  rw [mine'] at file' skill' snapshot entries
  obtain ⟨history, kept⟩ := snapshot _ file
  constructor
  · exact {
      skill := skill'
      history
      clean := snapshotName_clean b.ts
      file := kept
      newest := fun other there => by
        rcases entries other there with same | earlier
        · exact le_of_eq same
        · exact le_of_lt (later other earlier)
      present := ⟨_, file'⟩ }
  · rw [before]
    exact read_skillTarget skill file

/-- To revert a skill, once or more often, is to undo one promotion. -/
theorem revert_restores (paths : AgentPaths) (skillId : String) (historyLimit : Nat) (promotions : List Promotion)
    (tree last : FileTree) (positive : 0 < historyLimit) (aside : Aside paths skillId)
    (bare : tree.children (historyPlace paths skillId) = []) (series : Series skillId promotions)
    (several : 2 ≤ promotions.length) (done : promoteAll paths historyLimit promotions tree = (last, true)) (k : Nat) :
    ∃ body,
      (promoteAll paths historyLimit (promotions.take (promotions.length - min k 1)) tree).1.read
        (skillTarget paths skillId) = some body ∧
      (revertTimes paths skillId k last).read (skillTarget paths skillId) = some body := by
  obtain ⟨front', b, rfl⟩ := (List.eq_nil_or_concat' promotions).resolve_left (by rintro rfl; simp at several)
  obtain ⟨front, a, rfl⟩ := (List.eq_nil_or_concat' front').resolve_left (by rintro rfl; simp at several)
  cases k with
  | zero =>
    obtain ⟨mid, -, promoted, -⟩ := promoted_concat positive aside bare series done
    obtain rfl := series.mine b List.mem_concat_self
    have read := read_skillTarget promoted.skill promoted.file
    refine ⟨_, ?_, read⟩
    rw [Nat.zero_min, Nat.sub_zero, List.take_length, done]
    exact read
  | succ k =>
    obtain ⟨kept, before⟩ := newestKept_of_done positive aside bare series done
    refine ⟨_, ?_, kept.revertTimes k⟩
    have size : (front ++ [a] ++ [b]).length - min (k + 1) 1 = (front ++ [a]).length := by simp
    rw [size, List.take_left]
    exact before

end Series

section Example

theorem aside_of_name {name : FileName} (same : skillId.toList = name.chars) : Aside paths skillId := by
  have path : targetDir paths skillId = pathOf (paths.skillsDir ++ [name.chars]) := by
    rw [targetDir, same, push_pathOf name.unseparated name.plain]
  rintro through ⟨front, last, early, rfl⟩ ⟨more, present, below⟩
  rw [path] at early
  have short := (resolve_front early).length_le
  rw [resolve, below, historyPlace, path, resolve_pathOf] at short
  simp only [List.length_append, List.length_singleton] at short
  omega

def Promotion.plainRun (paths : AgentPaths) (promotion : Promotion) (tree : FileTree) : FileTree × Bool :=
  performAll (.createDirAll (targetDir paths promotion.proposal.skillId) ::
    (if (diskOf tree).isFile (skillTarget paths promotion.proposal.skillId) then
      [.createDirAll (historyDir paths promotion.proposal.skillId),
        .copy (skillTarget paths promotion.proposal.skillId)
          (push (historyDir paths promotion.proposal.skillId) (snapshotName promotion.ts))]
    else []) ++ [.write (skillTarget paths promotion.proposal.skillId) promotion.proposal.toMarkdown]) tree

theorem pruneHistory_of_room (history : List Component) (snapshot : List Char) (disk : Disk)
    (room : (disk.children (resolve history)).length < historyLimit) :
    pruneHistory history snapshot historyLimit disk = [] := by
  let entries := sortNames (snapshot :: disk.children (resolve history)).dedup
  have size : entries.length ≤ historyLimit := by
    rw [(sortNames_perm _).length_eq]
    exact (List.dedup_sublist _).length_le.trans room
  change (entries.take (entries.length - historyLimit)).map _ = []
  rw [Nat.sub_eq_zero_of_le size, List.take_zero, List.map_nil]

theorem Promotion.run_of_room {promotion : Promotion}
    (room : (tree.children (historyPlace paths promotion.proposal.skillId)).length < historyLimit) :
    promotion.run paths historyLimit tree = promotion.plainRun paths tree := by
  have history := pruneHistory_of_room (historyDir paths promotion.proposal.skillId) (snapshotName promotion.ts)
    (diskOf tree) (by rw [resolve_historyDir]; exact room)
  rw [historyDir, targetDir, snapshotName] at history
  simp only [Promotion.run, promoteProposal, history, List.append_nil]
  rfl

def greet (body : String) (ts : Nat) : Promotion where
  proposal := {
    agentId := "alpha"
    skillId := "greet"
    name := "greet"
    body
    keywords := []
    toolOverlay := []
    priority := 0
    rationale := none }
  ts

def greetings : List Promotion := [greet "one" 10, greet "two" 11, greet "three" 12]

def greetedOnce : FileTree := ((greet "one" 10).plainRun alphaPaths .empty).1

def greetedTwice : FileTree := ((greet "two" 11).plainRun alphaPaths greetedOnce).1

def greetedThrice : FileTree := ((greet "three" 12).plainRun alphaPaths greetedTwice).1

theorem promoteAll_cons {promotion : Promotion} {promotions : List Promotion}
    (run : promotion.run paths historyLimit tree = (last, true)) :
    promoteAll paths historyLimit (promotion :: promotions) tree = promoteAll paths historyLimit promotions last := by
  rw [promoteAll, run]

theorem greet_once : (greet "one" 10).run alphaPaths 5 .empty = (greetedOnce, true) :=
  (Promotion.run_of_room (by decide)).trans rfl

theorem greetings_done : promoteAll alphaPaths 5 greetings .empty = (greetedThrice, true) := by
  have twice : (greet "two" 11).run alphaPaths 5 greetedOnce = (greetedTwice, true) :=
    (Promotion.run_of_room (by decide)).trans rfl
  have thrice : (greet "three" 12).run alphaPaths 5 greetedTwice = (greetedThrice, true) :=
    (Promotion.run_of_room (by decide)).trans rfl
  rw [greetings, promoteAll_cons greet_once, promoteAll_cons twice, promoteAll_cons thrice, promoteAll]

def greetName : FileName where
  chars := "greet".toList
  plain := by decide
  unseparated := by decide
  clean := by decide

theorem greet_aside : Aside alphaPaths "greet" := by
  have same : "greet".toList = greetName.chars := rfl
  exact aside_of_name same

theorem greetings_series : Series "greet" greetings where
  mine := by decide
  ordered := by decide
  digits := by decide

theorem greetings_reverted : ∃ body,
    (promoteAll alphaPaths 5 (greetings.take (greetings.length - min 2 1)) .empty).1.read
      (skillTarget alphaPaths "greet") = some body ∧
    (revertTimes alphaPaths "greet" 2 greetedThrice).read (skillTarget alphaPaths "greet") = some body :=
  revert_restores alphaPaths "greet" 5 greetings .empty greetedThrice (by decide) greet_aside rfl greetings_series
    (by decide) greetings_done 2

-- What was there two promotions ago does not come back.
theorem second_revert_stays : promoteAll alphaPaths 5 greetings .empty = (greetedThrice, true) ∧
    (revertTimes alphaPaths "greet" 2 greetedThrice).read (skillTarget alphaPaths "greet") ≠
      (promoteAll alphaPaths 5 (greetings.take 1) .empty).1.read (skillTarget alphaPaths "greet") := by
  refine ⟨greetings_done, ?_⟩
  have parts : greetings = [greet "one" 10] ++ [greet "two" 11] ++ [greet "three" 12] := rfl
  obtain ⟨kept, -⟩ := newestKept_of_done (by decide) greet_aside rfl (parts ▸ greetings_series)
    (parts ▸ greetings_done)
  have first : (promoteAll alphaPaths 5 (greetings.take 1) .empty).1.read (skillTarget alphaPaths "greet") =
      some (greet "one" 10).proposal.toMarkdown := by
    rw [greetings, List.take_succ_cons, promoteAll_cons greet_once]
    rfl
  rw [kept.revertTimes 1, first]
  decide

end Example

end AtomrAgents
