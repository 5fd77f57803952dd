import AtomrAgents.Host.Branching

set_option autoImplicit false

namespace AtomrAgents

open Shared Shared.UnixPath Shared.UnixPath.FileTree

section Names

theorem checkpointName_clean (ts : Nat) : '\x00' ∉ checkpointName ts := not_mem_numbered (by decide) (by decide) ts

theorem isJson_checkpointName (ts : Nat) : isJson (checkpointName ts) = true := by
  have name : checkpointName ts = (toString ts).toList ++ '.' :: "json".toList := by
    rw [checkpointName, String.toList_append]
    rfl
  rw [isJson, name, splitStem_append (toString_toList_ne_nil ts) (by decide) (by decide)]
  rfl

theorem push_checkpointName (dir : List Component) (ts : Nat) :
    push dir (checkpointName ts) = dir ++ [.normal (checkpointName ts)] := push_numbered (by decide) (by decide) dir ts

end Names

variable {json : CheckpointJson} {paths : AgentPaths} {branches : Set String} {branchId : String}
variable {tree grown : FileTree} {kept : List BranchCheckpoint} {cp : BranchCheckpoint}

def fileNames (kept : List BranchCheckpoint) : List (List Char) := kept.map fun cp => checkpointName cp.tsMs

structure StoredIn (json : CheckpointJson) (paths : AgentPaths) (branchId : String) (tree : FileTree)
    (cp : BranchCheckpoint) : Prop where
  file : tree.node (branchPlace paths branchId ++ [checkpointName cp.tsMs]) = some (.file (json.toVecPretty cp))
  reads : json.ReadsBack cp
  path : cp.path = some (branchDir paths branchId ++ [.normal (checkpointName cp.tsMs)])

structure Mirrors (json : CheckpointJson) (paths : AgentPaths) (branchId : String) (tree : FileTree)
    (kept : List BranchCheckpoint) : Prop where
  entries : ∀ name, name ∈ tree.children (branchPlace paths branchId) ↔ name ∈ fileNames kept
  ordered : (fileNames kept).Pairwise (· < ·)
  stored : ∀ cp ∈ kept, StoredIn json paths branchId tree cp
  entered : kept ≠ [] → tree.isDir (branchDir paths branchId) = true

section Reading

theorem Mirrors.eq_nil (mirrors : Mirrors json paths branchId tree kept)
    (absent : ¬ tree.isDir (branchDir paths branchId) = true) : kept = [] :=
  Classical.byContradiction fun some => absent (mirrors.entered some)

theorem Mirrors.jsonNames (mirrors : Mirrors json paths branchId tree kept) :
    jsonNames (branchDir paths branchId) tree = fileNames kept := by
  refine sortNames_eq (children_nodup.filter _) mirrors.ordered fun name => ?_
  rw [List.mem_filter, show resolve (branchDir paths branchId) = branchPlace paths branchId from rfl, mirrors.entries]
  refine ⟨And.left, fun member => ⟨member, ?_⟩⟩
  obtain ⟨cp, -, rfl⟩ := List.mem_map.mp member
  exact isJson_checkpointName cp.tsMs

theorem length_listCheckpoints_le (paths : AgentPaths) (branchId : String) (tree : FileTree) :
    (listCheckpoints paths branchId tree).length ≤ (tree.children (branchPlace paths branchId)).length := by
  rw [listCheckpoints]
  split
  · rw [List.length_map, AtomrAgents.jsonNames, (sortNames_perm _).length_eq]
    exact List.length_filter_le _ _
  · exact Nat.zero_le _

theorem Mirrors.listed (mirrors : Mirrors json paths branchId tree kept) :
    (listCheckpoints paths branchId tree).map some = kept.map BranchCheckpoint.path := by
  rw [listCheckpoints]
  split
  next entered =>
    rw [mirrors.jsonNames, fileNames, List.map_map, List.map_map]
    exact List.map_congr_left fun cp member => (mirrors.stored cp member).path.symm
  next absent =>
    rw [mirrors.eq_nil absent]
    rfl

theorem Mirrors.latest (mirrors : Mirrors json paths branchId tree kept) :
    latestCheckpoint json paths branchId tree = .ok kept.getLast? := by
  rw [latestCheckpoint]
  split
  next entered =>
    rw [mirrors.jsonNames, fileNames, List.getLast?_map]
    cases last : kept.getLast? with
    | none => rfl
    | some cp =>
      have stored := mirrors.stored cp (List.mem_of_getLast? last)
      have body := read_name entered (checkpointName_clean cp.tsMs) stored.file
      have reads : json.fromSlice (json.toVecPretty cp) = some cp := stored.reads
      simp only [Option.map_some, body, reads]
      rw [← stored.path]
  next absent =>
    rw [mirrors.eq_nil absent]
    rfl

theorem Mirrors.recovers {store : BranchStore}
    (mirrors : Mirrors json paths branchId store.tree (store.kept branchId))
    (newest : store.kept branchId <:+ store.written branchId) : store.Recovers json paths branchId where
  latest some := by
    obtain ⟨older, whole⟩ := newest
    rw [mirrors.latest, ← whole, List.getLast?_append_of_ne_nil _ some]
  emptied none := by rw [mirrors.latest, none]; rfl
  listed := mirrors.listed
  newest := newest

end Reading

section Keeping

theorem Mirrors.of_same (mirrors : Mirrors json paths branchId tree kept) (keeps : KeepsDirs tree grown)
    (same : ∀ name, grown.node (branchPlace paths branchId ++ [name]) =
      tree.node (branchPlace paths branchId ++ [name])) :
    Mirrors json paths branchId grown kept where
  entries name := by rw [mem_children, same, ← mem_children, mirrors.entries]
  ordered := mirrors.ordered
  stored cp member :=
    let stored := mirrors.stored cp member
    { file := by rw [same, stored.file], reads := stored.reads, path := stored.path }
  entered some := isDir_of_keepsDirs keeps (mirrors.entered some)

end Keeping

section Steps

theorem Mirrors.append (mirrors : Mirrors json paths cp.branchId tree kept)
    (entered : tree.isDir (branchDir paths cp.branchId) = true)
    (path : cp.path = some (branchDir paths cp.branchId ++ [.normal (checkpointName cp.tsMs)]))
    (last : ∀ name ∈ fileNames kept, name < checkpointName cp.tsMs) (reads : json.ReadsBack cp) :
    Mirrors json paths cp.branchId
      (tree.put (branchPlace paths cp.branchId ++ [checkpointName cp.tsMs]) (.file (json.toVecPretty cp)))
      (kept ++ [cp]) where
  entries name := by
    rw [mem_children, node_put, fileNames, List.map_append, List.mem_append]
    by_cases new : name = checkpointName cp.tsMs
    · simp [new]
    · have other : branchPlace paths cp.branchId ++ [name] ≠
          branchPlace paths cp.branchId ++ [checkpointName cp.tsMs] :=
        fun same => new (by simpa using same)
      rw [if_neg other, ← mem_children, mirrors.entries]
      simp [fileNames, new]
  ordered := by
    rw [fileNames, List.map_append, List.pairwise_append]
    refine ⟨mirrors.ordered, List.pairwise_singleton _ _, fun name member other here => ?_⟩
    rw [List.map_singleton, List.mem_singleton] at here
    rw [here]
    exact last name member
  stored other member := by
    rcases List.mem_append.mp member with older | new
    · have stored := mirrors.stored other older
      refine { file := ?_, reads := stored.reads, path := stored.path }
      have less := last _ (List.mem_map_of_mem older)
      rw [node_put, if_neg, stored.file]
      intro same
      have equal : checkpointName other.tsMs = checkpointName cp.tsMs := by simpa using same
      rw [equal] at less
      exact List.lt_irrefl _ less
    · rw [List.mem_singleton.mp new]
      exact { file := by rw [node_put, if_pos rfl], reads, path }
  entered _ := by
    refine isDir_of_keepsDirs (keepsDirs_put ?_) entered
    intro blocked
    have there : checkpointName cp.tsMs ∈ fileNames kept :=
      (mirrors.entries _).mp (mem_children.mpr (by simp [blocked]))
    exact List.lt_irrefl _ (last _ there)

theorem Mirrors.nodup (mirrors : Mirrors json paths branchId tree kept) : (fileNames kept).Nodup :=
  mirrors.ordered.imp fun {a b} less same => by
    subst same
    exact List.lt_irrefl a less

theorem Mirrors.file_of_name (mirrors : Mirrors json paths branchId tree kept) {name : List Char}
    (member : name ∈ fileNames kept) :
    '\x00' ∉ name ∧ ∃ body, tree.node (branchPlace paths branchId ++ [name]) = some (.file body) := by
  obtain ⟨cp, here, rfl⟩ := List.mem_map.mp member
  exact ⟨checkpointName_clean cp.tsMs, _, (mirrors.stored cp here).file⟩

def Loses (dir : Place) (names : List (List Char)) (tree grown : FileTree) : Prop :=
  ∀ other, grown.node other = if ∃ name ∈ names, other = dir ++ [name] then none else tree.node other

theorem Loses.keepsDirs {dir : Place} {names : List (List Char)} (loses : Loses dir names tree grown)
    (files : ∀ name ∈ names, ∃ body, tree.node (dir ++ [name]) = some (.file body)) : KeepsDirs tree grown := by
  intro other here
  rw [loses, if_neg, here]
  rintro ⟨name, member, rfl⟩
  obtain ⟨body, file⟩ := files name member
  rw [here] at file
  cases file

theorem Mirrors.drop (mirrors : Mirrors json paths branchId tree kept) {n : Nat}
    (loses : Loses (branchPlace paths branchId) ((fileNames kept).take n) tree grown) :
    Mirrors json paths branchId grown (kept.drop n) := by
  have names : fileNames (kept.drop n) = (fileNames kept).drop n := List.map_drop
  have split : ∀ name, name ∈ (fileNames kept).drop n ↔ name ∈ fileNames kept ∧ name ∉ (fileNames kept).take n := by
    intro name
    have apart := List.disjoint_take_drop mirrors.nodup (Nat.le_refl n)
    have whole : name ∈ fileNames kept ↔ name ∈ (fileNames kept).take n ∨ name ∈ (fileNames kept).drop n := by
      rw [← List.mem_append, List.take_append_drop]
    rw [whole]
    refine ⟨fun later => ⟨.inr later, fun early => apart early later⟩, ?_⟩
    rintro ⟨early | later, off⟩
    · exact absurd early off
    · exact later
  have node (name : List Char) : grown.node (branchPlace paths branchId ++ [name]) =
      if name ∈ (fileNames kept).take n then none else tree.node (branchPlace paths branchId ++ [name]) := by
    rw [loses]
    simp
  constructor
  case entries =>
    intro name
    rw [names, split, ← mirrors.entries, mem_children, mem_children, node]
    split
    next gone => simp [gone]
    next stays => simp [stays]
  case ordered =>
    rw [names]
    exact mirrors.ordered.sublist (List.drop_sublist _ _)
  case stored =>
    intro cp member
    have stored := mirrors.stored cp (List.mem_of_mem_drop member)
    refine { file := ?_, reads := stored.reads, path := stored.path }
    have stays : checkpointName cp.tsMs ∈ (fileNames kept).drop n := names ▸ List.mem_map_of_mem member
    rw [node, if_neg ((split _).mp stays).2, stored.file]
  case entered =>
    intro some
    have present : kept ≠ [] := by
      rintro rfl
      exact some List.drop_nil
    refine isDir_of_keepsDirs (loses.keepsDirs fun name member => ?_) (mirrors.entered present)
    exact (mirrors.file_of_name (List.mem_of_mem_take member)).2

theorem Mirrors.pruned (mirrors : Mirrors json paths branchId tree kept) (keep : Nat) :
    Loses (branchPlace paths branchId) ((fileNames kept).take (kept.length - keep)) tree
      (pruneBranch paths branchId keep tree).1 := by
  rw [pruneBranch]
  split
  next entered =>
    have names : sortNames (tree.children (resolve (branchDir paths branchId))) = fileNames kept :=
      sortNames_eq children_nodup mirrors.ordered mirrors.entries
    have size : (fileNames kept).length = kept.length := List.length_map _
    simp only [names, size]
    exact node_removeEach entered (mirrors.nodup.sublist (List.take_sublist _ _)) fun name member =>
      mirrors.file_of_name (List.mem_of_mem_take member)
  next absent =>
    obtain rfl : kept = [] := mirrors.eq_nil absent
    intro other
    simp [fileNames]

end Steps

section Runs

variable {initial : FileTree} {store : BranchStore}

structure BranchStore.Sound (json : CheckpointJson) (paths : AgentPaths) (branches : Set String)
    (store : BranchStore) : Prop where
  mirrors : ∀ b ∈ branches, Mirrors json paths b store.tree (store.kept b)
  newest : ∀ b, store.kept b <:+ store.written b

def saveActions (json : CheckpointJson) (paths : AgentPaths) (cp : BranchCheckpoint) : List FileAction :=
  [.createDirAll (branchDir paths cp.branchId),
    .write (branchDir paths cp.branchId ++ [.normal (checkpointName cp.tsMs)]) (json.toVecPretty cp)]

theorem writeCheckpoint_spec {workingMemory : Value} {threadHead : Option Value} {parentBranch : Option String}
    {ts : Nat} {actions : List FileAction}
    (written : writeCheckpoint json.toVecPretty paths branchId workingMemory threadHead parentBranch ts =
      (cp, actions)) :
    cp.branchId = branchId ∧ cp.tsMs = ts ∧ actions = saveActions json paths cp ∧
      cp.path = some (branchDir paths cp.branchId ++ [.normal (checkpointName cp.tsMs)]) := by
  have path := push_checkpointName (branchDir paths branchId) ts
  cases written
  refine ⟨rfl, rfl, ?_, congrArg some path⟩
  simp only [saveActions]
  rw [← path]
  rfl

theorem BranchStore.Sound.append (sound : store.Sound json paths branches)
    (here : Mirrors json paths cp.branchId grown (store.kept cp.branchId ++ [cp]))
    (elsewhere : ∀ b ∈ branches, b ≠ cp.branchId → Mirrors json paths b grown (store.kept b)) :
    (store.append cp grown).Sound json paths branches where
  mirrors b inside := by
    by_cases same : b = cp.branchId
    · subst same
      simpa [BranchStore.append] using here
    · simpa [BranchStore.append, same] using elsewhere b inside same
  newest b := by
    by_cases same : b = cp.branchId
    · subst same
      obtain ⟨older, whole⟩ := sound.newest cp.branchId
      refine ⟨older, ?_⟩
      simp only [BranchStore.append, Function.update_self]
      rw [← List.append_assoc, whole]
    · simpa [BranchStore.append, same] using sound.newest b

theorem BranchStore.Sound.save (own : OwnDirectories paths branches initial) (sound : store.Sound json paths branches)
    (member : cp.branchId ∈ branches) (last : NamedLast paths cp.branchId cp.tsMs store.tree)
    (reads : json.ReadsBack cp)
    (path : cp.path = some (branchDir paths cp.branchId ++ [.normal (checkpointName cp.tsMs)])) :
    (store.save cp (saveActions json paths cp)).Sound json paths branches := by
  obtain ⟨grown, grows, outcome⟩ := performAll_store store.tree (branchDir paths cp.branchId)
    (branchDir paths cp.branchId ++ [.normal (checkpointName cp.tsMs)]) (json.toVecPretty cp)
  have unhurt : ∀ b ∈ branches, Mirrors json paths b grown (store.kept b) := fun b inside =>
    (sound.mirrors b inside).of_same grows.keepsDirs (same_of_grows grows (own.outside cp.branchId member b inside))
  rcases outcome with failed | ⟨place, reached, taken, located, free, done⟩
  · rw [BranchStore.save, saveActions, failed]
    exact { mirrors := unhurt, newest := sound.newest }
  · rw [BranchStore.save, saveActions, done]
    have entered : grown.isDir (branchDir paths cp.branchId) = true := isDir_iff.mpr ⟨taken, reached⟩
    rw [locate_name entered (checkpointName_clean cp.tsMs), Option.some_inj] at located
    subst located
    refine sound.append ?_ fun b inside other => ?_
    · refine (unhurt _ member).append entered path (fun name there => last name ?_) reads
      exact ((sound.mirrors _ member).entries name).mpr there
    · refine (unhurt b inside).of_same (keepsDirs_put free) fun name => ?_
      rw [node_put, if_neg]
      intro same
      have places := (List.append_inj' same rfl).1
      exact own.apart b inside cp.branchId member other (by rw [places]; exact List.prefix_rfl)

theorem BranchStore.Sound.prune (own : OwnDirectories paths branches initial) (sound : store.Sound json paths branches)
    (member : branchId ∈ branches) (keep : Nat) :
    (store.step json paths (.prune branchId keep)).Sound json paths branches := by
  have mirrors := sound.mirrors branchId member
  have loses := mirrors.pruned keep
  have keeps := loses.keepsDirs fun name here => (mirrors.file_of_name (List.mem_of_mem_take here)).2
  constructor
  case mirrors =>
    intro b inside
    by_cases same : b = branchId
    · subst same
      simpa [BranchStore.step] using mirrors.drop loses
    · have unhurt : Mirrors json paths b (pruneBranch paths branchId keep store.tree).1 (store.kept b) := by
        refine (sound.mirrors b inside).of_same keeps fun name => ?_
        rw [loses, if_neg]
        rintro ⟨gone, -, places⟩
        have equal := (List.append_inj' places rfl).1
        exact own.apart b inside branchId member same (by rw [equal])
      simpa [BranchStore.step, same] using unhurt
  case newest =>
    intro b
    by_cases same : b = branchId
    · subst same
      simpa [BranchStore.step] using (List.drop_suffix _ _).trans (sound.newest b)
    · simpa [BranchStore.step, same] using sound.newest b

theorem BranchStore.Sound.write (own : OwnDirectories paths branches initial) (sound : store.Sound json paths branches)
    {workingMemory : Value} {threadHead : Option Value} {parentBranch : Option String} {ts : Nat}
    {actions : List FileAction} (written : writeCheckpoint json.toVecPretty paths branchId workingMemory threadHead
      parentBranch ts = (cp, actions))
    (member : branchId ∈ branches) (last : NamedLast paths branchId ts store.tree) (reads : json.ReadsBack cp) :
    (store.save cp actions).Sound json paths branches := by
  obtain ⟨rfl, rfl, rfl, path⟩ := writeCheckpoint_spec written
  exact sound.save own member last reads path

theorem BranchStore.Sound.step (own : OwnDirectories paths branches initial) (sound : store.Sound json paths branches)
    {call : BranchCall} (fits : call.Fits json paths branches store.tree) :
    (store.step json paths call).Sound json paths branches := by
  cases call with
  | write branchId workingMemory threadHead parentBranch ts =>
    obtain ⟨member, last, reads⟩ := fits
    exact sound.write own rfl member last reads
  | fork sourceBranch newBranch ts =>
    rw [BranchStore.step]
    split
    next cp actions forked =>
      obtain ⟨member, last, reads⟩ := fits cp actions forked
      rw [forkBranch] at forked
      split at forked
      next => cases forked
      next => cases forked
      next => exact sound.write own (Except.ok.inj forked) member last reads
    next => exact sound
  | prune branchId keep => exact sound.prune own fits keep

theorem BranchStore.Sound.run (own : OwnDirectories paths branches initial) (sound : store.Sound json paths branches)
    (calls : List BranchCall) (fit : AllFit json paths branches store calls) :
    (store.run json paths calls).Sound json paths branches := by
  induction calls generalizing store with
  | nil => exact sound
  | cons call calls ih => exact ih (sound.step own fit.1) fit.2

theorem BranchStore.sound_onTree (own : OwnDirectories paths branches initial) :
    (BranchStore.onTree initial).Sound json paths branches where
  mirrors b member := {
    entries := by simp [own.bare b member, BranchStore.onTree, fileNames]
    ordered := List.Pairwise.nil
    stored := by simp [BranchStore.onTree]
    entered := by simp [BranchStore.onTree] }
  newest b := List.suffix_rfl

/-- No checkpoint is lost in a run whose branches keep to themselves and whose new names come last. -/
theorem branches_recovered (own : OwnDirectories paths branches initial) (calls : List BranchCall)
    (fit : AllFit json paths branches (.onTree initial) calls) (branchId : String) (member : branchId ∈ branches) :
    ((BranchStore.onTree initial).run json paths calls).Recovers json paths branchId := by
  have sound := (BranchStore.sound_onTree own).run own calls fit
  exact (sound.mirrors branchId member).recovers (sound.newest branchId)

end Runs

section PlainIds

theorem branchDir_name {name : FileName} (same : branchId.toList = name.chars) :
    branchDir paths branchId = pathOf (paths.checkpointsDir ++ [name.chars]) := by
  rw [branchDir, same, push_pathOf name.unseparated name.plain]

theorem branchPlace_name {name : FileName} (same : branchId.toList = name.chars) :
    branchPlace paths branchId = paths.checkpointsDir ++ [name.chars] := by
  rw [branchPlace, branchDir_name same, resolve_pathOf]

theorem ownDirectories_of_names (named : ∀ b ∈ branches, ∃ name : FileName, b.toList = name.chars)
    (bare : ∀ b ∈ branches, tree.children (branchPlace paths b) = []) : OwnDirectories paths branches tree where
  bare := bare
  apart b inside b' inside' other front := by
    obtain ⟨name, same⟩ := named b inside
    obtain ⟨name', same'⟩ := named b' inside'
    rw [branchPlace_name same, branchPlace_name same', List.prefix_append_right_inj, List.cons_prefix_cons] at front
    exact other (String.toList_inj.mp (by rw [same, same', front.1]))
  outside b inside b' inside' through := by
    rintro ⟨front, last, early, rfl⟩ ⟨more, present, below⟩
    obtain ⟨name, same⟩ := named b inside
    obtain ⟨name', same'⟩ := named b' inside'
    rw [branchDir_name same] at early
    have short := (resolve_front early).length_le
    have long := List.length_pos_iff.mpr present
    rw [resolve, below, branchPlace_name same'] at short
    simp only [List.length_append, List.length_singleton] at short
    omega

end PlainIds

section Example

-- JSON for checkpoints without a thread, whose memory is null or true.
def alphaText (cp : BranchCheckpoint) : String :=
  let memory := match cp.workingMemory with
    | .null => "null"
    | _ => "true"
  let parent := (cp.parentBranch.map fun b => "\"" ++ b ++ "\"").getD "null"
  "\x7b\n  \"branch_id\": \"" ++ cp.branchId ++ "\",\n  \"agent_id\": \"" ++ cp.agentId ++ "\",\n  \"ts_ms\": " ++
    toString cp.tsMs ++ ",\n  \"working_memory\": " ++ memory ++ ",\n  \"thread_head\": null,\n  \"parent_branch\": " ++
    parent ++ ",\n  \"path\": \"/agents/alpha/state/checkpoints/" ++ cp.branchId ++ "/" ++ toString cp.tsMs ++
    ".json\"\n\x7d"

def alphaCheckpoint (branchId : String) (parentBranch : Option String) (ts : Nat) : BranchCheckpoint where
  branchId := branchId
  agentId := "alpha"
  tsMs := ts
  workingMemory := .null
  threadHead := none
  parentBranch := parentBranch
  path := some (push (branchDir alphaPaths branchId) (checkpointName ts))

def alphaCheckpoints : List BranchCheckpoint :=
  [alphaCheckpoint "main" none 10, alphaCheckpoint "main" none 11, alphaCheckpoint "side" (some "main") 12]

def alphaJson : CheckpointJson where
  toVecPretty := alphaText
  fromSlice text := alphaCheckpoints.find? fun cp => alphaText cp = text

theorem find?_of_nodup_map {α β : Type} [DecidableEq β] {f : α → β} {xs : List α} (distinct : (xs.map f).Nodup)
    {x : α} (member : x ∈ xs) : xs.find? (fun y => f y = f x) = some x := by
  obtain ⟨found, read⟩ : ∃ found, xs.find? (fun y => f y = f x) = some found := by
    rw [← Option.isSome_iff_exists]
    exact List.find?_isSome.mpr ⟨x, member, decide_eq_true rfl⟩
  have same : f found = f x := by simpa using List.find?_some read
  rw [read, List.inj_on_of_nodup_map distinct (List.mem_of_find?_eq_some read) member same]

theorem alphaCheckpoints_distinct : (alphaCheckpoints.map alphaText).Nodup := by decide +kernel

theorem alphaJson_readsBack {cp : BranchCheckpoint} (member : cp ∈ alphaCheckpoints) : alphaJson.ReadsBack cp := by
  have found := find?_of_nodup_map alphaCheckpoints_distinct member
  simp only [CheckpointJson.ReadsBack, alphaJson]
  exact found

theorem alpha_own : OwnDirectories alphaPaths {"main", "side"} .empty := by
  refine ownDirectories_of_names ?_ fun b _ => rfl
  rintro b (rfl | rfl)
  · exact ⟨{ chars := "main".toList, plain := by decide, unseparated := by decide, clean := by decide }, rfl⟩
  · exact ⟨{ chars := "side".toList, plain := by decide, unseparated := by decide, clean := by decide }, rfl⟩

def mainWrites : List BranchCall := [.write "main" .null none none 10, .write "main" .null none none 11]

theorem mainWrites_fit : AllFit alphaJson alphaPaths {"main", "side"} (.onTree .empty) mainWrites := by
  refine ⟨⟨.inl rfl, ?_, alphaJson_readsBack List.mem_cons_self⟩, ⟨.inl rfl, ?_, ?_⟩, trivial⟩
  · intro name there
    cases there
  · intro name there
    have only : name ∈ [checkpointName 10] := there
    rw [List.mem_singleton.mp only]
    decide
  · exact alphaJson_readsBack (List.mem_cons_of_mem _ List.mem_cons_self)

theorem mainWrites_latest : latestCheckpoint alphaJson alphaPaths "main"
    ((BranchStore.onTree .empty).run alphaJson alphaPaths mainWrites).tree =
      .ok (some (alphaCheckpoint "main" none 11)) := by
  have sound := (BranchStore.sound_onTree alpha_own).run alpha_own mainWrites mainWrites_fit
  exact (sound.mirrors "main" (.inl rfl)).latest.trans rfl

-- The first one is pruned after a fork of the second one.
def forkedRun : List BranchCall := mainWrites ++ [.fork "main" "side" 12, .prune "main" 1]

theorem forkedRun_fits : AllFit alphaJson alphaPaths {"main", "side"} (.onTree .empty) forkedRun := by
  obtain ⟨first, second, -⟩ := mainWrites_fit
  refine ⟨first, second, ?_, .inl rfl, trivial⟩
  intro cp actions forked
  have written : forkBranch alphaJson alphaPaths "main" "side" 12
      ((BranchStore.onTree .empty).run alphaJson alphaPaths mainWrites).tree =
        .ok (writeCheckpoint alphaText alphaPaths "side" .null none (some "main") 12) := by
    rw [forkBranch, mainWrites_latest]
    rfl
  have same := Except.ok.inj (forked.symm.trans written)
  have checkpoint : cp = alphaCheckpoint "side" (some "main") 12 := congrArg Prod.fst same
  refine ⟨?_, ?_, ?_⟩
  · exact .inr rfl
  · intro name there
    cases there
  · rw [checkpoint]
    exact alphaJson_readsBack (by simp [alphaCheckpoints])

theorem main_recovered :
    let store := (BranchStore.onTree .empty).run alphaJson alphaPaths forkedRun
    store.Recovers alphaJson alphaPaths "main" ∧ store.Recovers alphaJson alphaPaths "side" :=
  ⟨branches_recovered alpha_own _ forkedRun_fits "main" (.inl rfl),
    branches_recovered alpha_own _ forkedRun_fits "side" (.inr rfl)⟩

-- The second one takes the place of the first.
def sameTime : List BranchCall := [.write "main" .null none none 10, .write "main" (.bool true) none none 10]

theorem sameTime_files : (((BranchStore.onTree .empty).run alphaJson alphaPaths sameTime).tree.children
    (branchPlace alphaPaths "main")).length = 1 := by
  rfl

theorem sameTime_kept : (((BranchStore.onTree .empty).run alphaJson alphaPaths sameTime).kept "main").length = 2 := by
  rfl

theorem sameTime_lost : ¬ ((BranchStore.onTree .empty).run alphaJson alphaPaths sameTime).Recovers
    alphaJson alphaPaths "main" := by
  intro recovers
  have sizes := congrArg List.length recovers.listed
  have few := length_listCheckpoints_le alphaPaths "main"
    ((BranchStore.onTree .empty).run alphaJson alphaPaths sameTime).tree
  rw [List.length_map, List.length_map, sameTime_kept] at sizes
  rw [sizes, sameTime_files] at few
  omega

end Example

end AtomrAgents
