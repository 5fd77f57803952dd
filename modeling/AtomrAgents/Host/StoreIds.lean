import AtomrAgents.Host.StoreCalls

set_option autoImplicit false

namespace AtomrAgents

open Shared.UnixPath

section Calls

variable (prettyCheckpoint : BranchCheckpoint → String) (prettyArtifact : CachedArtifact → String)
variable (paths : AgentPaths) (host : HostPaths)

theorem writeCheckpoint_confined_iff (branchId : String) (workingMemory : Value) (threadHead : Option Value)
    (parentBranch : Option String) (ts : Nat) :
    Confined paths.checkpointsDir (fun _ =>
        (writeCheckpoint prettyCheckpoint paths branchId workingMemory threadHead parentBranch ts).2) ↔
      CreatesInside paths.checkpointsDir (.ofParts [branchId.toList]) ∧
        WritesInside paths.checkpointsDir (.ofParts [branchId.toList, (toString ts ++ ".json").toList]) := by
  have clean := paths.clean_checkpointsDir
  simp only [writeCheckpoint]
  rw [confined_pair_iff, ← createDirAll_confined_iff clean (Route.rootless_ofParts _),
    ← write_confined_iff clean (Route.rootless_ofParts _), Route.ofParts_onto, Route.ofParts_onto]
  rfl

theorem rejectProposal_confined_iff (skillId : String) :
    Confined paths.skillsDir (fun disk => (rejectProposal paths skillId disk).2) ↔
      RemovesInside paths.skillsDir (.ofParts [".proposed".toList, skillId.toList]) := by
  have actions (disk : Disk) : (rejectProposal paths skillId disk).2 =
      if disk.isDir (proposedDir paths skillId) then [.removeDirAll (proposedDir paths skillId)] else [] := by
    simp only [rejectProposal]
    split
    · rfl
    · rfl
  simp only [actions]
  rw [confined_removeDirAll_iff, ← removeDirAll_confined_iff paths.clean_skillsDir (Route.rootless_ofParts _),
    Route.ofParts_onto]
  rfl

theorem deleteArtifact_confined_iff (kind id version : String) :
    Confined host.registryDir (fun disk => (deleteArtifact host kind id version disk).2) ↔
      WritesInside host.registryDir (.ofParts [kind.toList, id.toList, (version ++ ".json").toList]) := by
  have actions (disk : Disk) : (deleteArtifact host kind id version disk).2 =
      if disk.isFile (artifactPath host kind id version) then
        [.removeFile (artifactPath host kind id version)] else [] := by
    simp only [deleteArtifact]
    split
    · rfl
    · rfl
  simp only [actions]
  rw [confined_removeFile_iff, ← removeFile_confined_iff host.clean_registryDir (Route.rootless_ofParts _),
    Route.ofParts_onto]
  rfl

theorem above_artifactPath (kind id version : String) :
    above (artifactPath host kind id version) = some
      ((Route.ofParts [kind.toList, id.toList, (version ++ ".json").toList]).up.onto (pathOf host.registryDir)) := by
  let front := Route.ofParts [kind.toList, id.toList]
  have file := @stepsOf_append ".json".toList (by decide) (by decide) version.toList
  rw [← String.toList_append] at file
  obtain ⟨steps, name, file⟩ := file
  have path : artifactPath host kind id version =
      (front.push (version ++ ".json").toList).onto (pathOf host.registryDir) := by
    rw [Route.onto_push, Route.ofParts_onto]
    rfl
  change _ = some ((front.push (version ++ ".json").toList).up.onto (pathOf host.registryDir))
  obtain ⟨steps, ends⟩ := Route.steps_push_concat front file
  generalize front.push (version ++ ".json").toList = route at path ends
  rw [path, Route.onto, ends, ← List.append_assoc, above_concat_name,
    trimmed_append (route.trimmed_start host.registryDir), Route.up, ends, List.dropLast_concat]
  rfl

theorem cacheArtifact_confined_iff (kind id version : String) (payload : Value) (ts : Nat) :
    Confined host.registryDir (fun _ => (cacheArtifact prettyArtifact host kind id version payload ts).2) ↔
      CreatesInside host.registryDir (Route.ofParts [kind.toList, id.toList, (version ++ ".json").toList]).up ∧
        WritesInside host.registryDir (.ofParts [kind.toList, id.toList, (version ++ ".json").toList]) := by
  have clean := host.clean_registryDir
  have rootless := Route.rootless_ofParts [kind.toList, id.toList, (version ++ ".json").toList]
  simp only [cacheArtifact, above_artifactPath, List.singleton_append]
  rw [confined_pair_iff, ← write_confined_iff clean rootless, createDirAll_confined_iff clean, Route.ofParts_onto]
  · rfl
  · exact fun member => rootless (List.dropLast_subset _ ((trimmed_front _).subset member))

-- There `main` has one checkpoint.
def mainDisk (paths : AgentPaths) : Disk := diskAt [mainDir paths] [mainDir paths ++ ["1.json".toList]]

theorem mainDisk_has : (mainDisk paths).Has paths.checkpointsDir :=
  diskAt_has (List.mem_singleton_self _) (List.prefix_append _ _)

theorem mainDisk_main {place : Place} (front : place <+: mainDir paths) :
    (mainDisk paths).entry place = some .dir := diskAt_dir_iff.mpr ⟨_, List.mem_singleton_self _, front⟩

theorem mainDisk_file : (mainDisk paths).entry (mainDir paths ++ ["1.json".toList]) = some .file := by
  refine diskAt_file (fun dir member front => ?_) (List.mem_singleton_self _)
  have shorter := front.length_le
  simp [List.mem_singleton.mp member] at shorter

theorem prefix_pair {first second : List Char} {more : Place} (front : more <+: [first, second]) :
    more = [] ∨ more = [first] ∨ more = [first, second] := by
  rw [List.prefix_cons_iff] at front
  rcases front with rfl | ⟨rest, rfl, front⟩
  · exact .inl rfl
  · simp only [List.prefix_cons_iff, List.prefix_nil] at front
    rcases front with rfl | ⟨rest, rfl, rfl⟩
    · exact .inr (.inl rfl)
    · exact .inr (.inr rfl)

theorem mainDisk_touched {path : List Component} (clear : hasNul path = false)
    (above : resolve path <+: mainDir paths) :
    ∃ place ∈ (mainDisk paths).touches (.removeDirAll path), place <+: mainDir paths ++ ["1.json".toList] := by
  have there := mainDisk_main paths above
  cases named : endsInName path with
  | true =>
    exact ⟨_, mem_touches_removeDirAll.mpr ⟨clear, there, .inl ⟨named, rfl⟩⟩, above.trans (List.prefix_append _ _)⟩
  | false =>
    obtain ⟨rest, split⟩ := above
    obtain ⟨name, last, next⟩ : ∃ name last, rest ++ ["1.json".toList] = name :: last :=
      List.exists_cons_of_ne_nil (by simp)
    have on : resolve path ++ [name] <+: mainDir paths ++ ["1.json".toList] := by
      refine ⟨last, ?_⟩
      rw [← split, List.append_assoc, List.append_assoc, next, List.singleton_append]
    refine ⟨_, mem_touches_removeDirAll.mpr ⟨clear, there, .inr ⟨named, name, ?_, rfl⟩⟩, on⟩
    rcases List.prefix_concat_iff.mp on with file | dir
    · rw [file, mainDisk_file]
      simp
    · rw [mainDisk_main paths dir]
      simp

theorem keepsMain_of_off {path : List Component} {more : Place} (present : more ≠ [])
    (off : more ≠ [defaultBranch.toList]) (names : resolve path = paths.checkpointsDir ++ more) (disk : Disk) :
    disk.KeepsMain paths (.removeDirAll path) := by
  intro place touched name file before
  obtain ⟨-, dir, kind⟩ := mem_touches_removeDirAll.mp touched
  have above : resolve path <+: place := by
    rcases kind with ⟨-, rfl⟩ | ⟨-, entry, -, rfl⟩
    · exact List.prefix_rfl
    · exact List.prefix_append _ _
  have on := above.trans before
  rw [mainDir, List.append_assoc] at file on
  rw [names] at on dir
  rw [List.prefix_append_right_inj] at on
  rcases prefix_pair on with rfl | rfl | rfl
  · exact present rfl
  · exact off rfl
  · rw [List.singleton_append, dir] at file
    cases file

theorem removesOther_iff {route : Route} (rootless : .rootDir ∉ route.steps) :
    FileAction.Confined paths.checkpointsDir (.removeDirAll (route.onto (pathOf paths.checkpointsDir))) ∧
        (∀ disk : Disk, disk.Has paths.checkpointsDir →
          disk.KeepsMain paths (.removeDirAll (route.onto (pathOf paths.checkpointsDir)))) ↔
      RemovesOther paths route := by
  have clean := paths.clean_checkpointsDir
  have leads (more : Place) := resolve_onto_eq_iff rootless paths.checkpointsDir more
  rw [removeDirAll_confined_iff clean rootless, RemovesInside, RemovesOther, ← hasNul_onto clean route]
  simp only [← leads]
  generalize route.onto (pathOf paths.checkpointsDir) = path
  constructor
  · rintro ⟨clear | ⟨more, -, names⟩, keeps⟩
    · exact .inl clear
    · by_cases nul : hasNul path = true
      · exact .inl nul
      · have outside : ¬resolve path <+: mainDir paths := by
          intro above
          obtain ⟨place, touched, before⟩ := mainDisk_touched paths (by simpa using nul) above
          exact keeps _ (mainDisk_has paths) place touched _ (mainDisk_file paths) before
        refine .inr ⟨more, ?_, ?_, names⟩
        · rintro rfl
          rw [names, List.append_nil] at outside
          exact outside (List.prefix_append _ _)
        · rintro rfl
          rw [names] at outside
          exact outside List.prefix_rfl
  · intro other
    rcases other with nul | ⟨more, present, off, names⟩
    · refine ⟨.inl nul, fun disk _ place touched => ?_⟩
      have clear := (mem_touches_removeDirAll.mp touched).1
      simp [nul] at clear
    · exact ⟨.inr ⟨more, fun _ => present, names⟩, fun disk _ => keepsMain_of_off paths present off names disk⟩

theorem branchDeletion_of_guarded {branchId : String} {force : Bool} (guarded : branchId = defaultBranch)
    (unforced : force = false) : branchDeletion paths branchId force = fun _ => [] := by
  funext disk
  simp [branchDeletion, deleteBranch, guarded, unforced]

theorem branchDeletion_of_unguarded {branchId : String} {force : Bool}
    (free : branchId = defaultBranch → force = true) :
    branchDeletion paths branchId force = fun disk =>
      if disk.isDir ((Route.ofParts [branchId.toList]).onto (pathOf paths.checkpointsDir)) then
        [.removeDirAll ((Route.ofParts [branchId.toList]).onto (pathOf paths.checkpointsDir))] else [] := by
  funext disk
  rw [branchDeletion, deleteBranch, if_neg]
  · rw [Route.ofParts_onto]
    rfl
  · simpa using free

theorem deleteBranch_forced_iff (branchId : String) :
    Confined paths.checkpointsDir (branchDeletion paths branchId true) ↔
      RemovesInside paths.checkpointsDir (.ofParts [branchId.toList]) := by
  rw [branchDeletion_of_unguarded paths (fun _ => rfl), confined_removeDirAll_iff,
    removeDirAll_confined_iff paths.clean_checkpointsDir (Route.rootless_ofParts _)]

theorem deleteBranch_unforced_iff (branchId : String) :
    Confined paths.checkpointsDir (branchDeletion paths branchId false) ∧
        KeepsMain paths (branchDeletion paths branchId false) ↔
      branchId = defaultBranch ∨ RemovesOther paths (.ofParts [branchId.toList]) := by
  by_cases main : branchId = defaultBranch
  · rw [branchDeletion_of_guarded paths main rfl]
    simp [main, Confined, KeepsMain]
  · rw [branchDeletion_of_unguarded paths (fun same => absurd same main), confined_removeDirAll_iff,
      keepsMain_removeDirAll_iff, removesOther_iff paths (Route.rootless_ofParts _)]
    simp [main]

section Promotion

variable {dir : Place} {path : List Component} {disk : Disk}

theorem eq_of_touches_file {action : FileAction} {place : Place} (touched : place ∈ disk.touches action)
    (file : (∃ body, action = .write path body) ∨ (∃ source, action = .copy source path) ∨
      action = .removeFile path) : place = resolve path := by
  rcases file with ⟨body, rfl⟩ | ⟨source, rfl⟩ | rfl
  all_goals
    simp only [Disk.touches] at touched
    split at touched
  all_goals simp_all

theorem confines_createDirAll_concat (has : disk.Has dir) (creates : disk.Confines dir (.createDirAll path))
    (inside : dir <+: resolve path) (name : List Char) :
    disk.Confines dir (.createDirAll (path ++ [.normal name])) := by
  intro place touched
  obtain ⟨clear, absent, front, last, early, -, rfl⟩ := mem_touches_createDirAll.mp touched
  rcases List.prefix_concat_iff.mp early with whole | early
  · rw [whole, resolve_name]
    exact below_concat inside name
  · rw [hasNul_append, Bool.or_eq_false_iff] at clear
    by_cases made : isMade path (front ++ [.normal last]) = true
    · exact creates _ (mem_touches_createDirAll.mpr ⟨clear.1, absent, front, last, early, made, rfl⟩)
    · have whole : front ++ [.normal last] = trimmed path := by
        simp [isMade, endsInName] at made
        exact made.2
      rw [whole, resolve_trimmed] at absent ⊢
      exact below_of_near (.inr inside) (not_prefix_of_entry has (by rw [absent]; simp))

theorem confines_pruneHistory {history : List Component} (inside : dir <+: resolve history) {snapshot : List Char}
    {keep : Nat} {action : FileAction} (member : action ∈ pruneHistory history snapshot keep disk) :
    disk.Confines dir action := by
  obtain ⟨name, -, rfl⟩ := List.mem_map.mp member
  intro place touched
  rw [eq_of_touches_file touched (.inr (.inr rfl)), resolve_name]
  exact below_concat inside name

theorem prefix_of_skillFile {targetDir : List Component} {name : List Char} {body : String}
    (writes : FileAction.Confined dir (.write (targetDir ++ [.normal name]) body)) (has : disk.Has dir)
    (file : disk.isFile (targetDir ++ [.normal name]) = true) : dir <+: resolve targetDir := by
  simp only [Disk.isFile, Bool.and_eq_true, Bool.not_eq_true', decide_eq_true_eq] at file
  refine prefix_of_below_concat (writes disk has (resolve targetDir ++ [name]) ?_)
  rw [← resolve_name]
  simp [Disk.touches, Disk.isDir, file.1, file.2]

theorem confines_snapshots {targetDir source : List Component} {history snapshot : List Char} {keep : Nat}
    {action : FileAction} (has : disk.Has dir) (inside : dir <+: resolve targetDir)
    (creates : disk.Confines dir (.createDirAll targetDir))
    (member : action ∈ [.createDirAll (targetDir ++ [.normal history]),
        .copy source (targetDir ++ [.normal history] ++ [.normal snapshot])] ++
      pruneHistory (targetDir ++ [.normal history]) snapshot keep disk) : disk.Confines dir action := by
  have deeper : dir <+: resolve (targetDir ++ [.normal history]) := by
    rw [resolve_name]
    exact inside.trans (List.prefix_append _ _)
  rcases List.mem_append.mp member with member | member
  · simp only [List.mem_cons, List.not_mem_nil, or_false] at member
    rcases member with rfl | rfl
    · exact confines_createDirAll_concat has creates inside history
    · intro place touched
      rw [eq_of_touches_file touched (.inr (.inl ⟨_, rfl⟩)), resolve_name]
      exact below_concat deeper snapshot
  · exact confines_pruneHistory deeper member

theorem promoteProposal_confined_iff (proposal : SkillProposal) (historyLimit ts : Nat) :
    Confined paths.skillsDir (fun disk => (promoteProposal paths proposal historyLimit ts disk).2) ↔
      CreatesInside paths.skillsDir (.ofParts [proposal.skillId.toList]) ∧
        WritesInside paths.skillsDir (.ofParts [proposal.skillId.toList, "SKILL.md".toList]) := by
  have clean := paths.clean_skillsDir
  rw [← createDirAll_confined_iff clean (Route.rootless_ofParts _),
    ← write_confined_iff clean (Route.rootless_ofParts _) proposal.toMarkdown, Route.ofParts_onto, Route.ofParts_onto]
  change _ ↔ FileAction.Confined _ (.createDirAll (push (pathOf paths.skillsDir) proposal.skillId.toList)) ∧
    FileAction.Confined _ (.write (push (push (pathOf paths.skillsDir) proposal.skillId.toList) "SKILL.md".toList) _)
  constructor
  · intro confined
    refine ⟨fun disk has => ?_, fun disk has => ?_⟩
    · exact confined disk has _ List.mem_cons_self
    · exact confined disk has _ (List.mem_append_right _ (List.mem_singleton_self _))
  · rintro ⟨creates, writes⟩ disk has action member
    rcases List.mem_append.mp member with member | member
    · rcases List.mem_cons.mp member with rfl | member
      · exact creates disk has
      · split at member
        next file =>
          rw [push_name (by decide) (by decide)] at writes file
          have inside := prefix_of_skillFile writes has file
          rw [push_name (by decide) (by decide), push_snapshot] at member
          exact confines_snapshots has inside (creates disk has) member
        next => cases member
    · rw [List.mem_singleton.mp member]
      exact writes disk has

end Promotion

theorem call_safe_iff (call : StoreCall) : call.Safe prettyCheckpoint prettyArtifact ↔ call.IdsStay := by
  cases call with
  | writeCheckpoint paths branchId workingMemory threadHead parentBranch ts =>
    exact (and_iff_left trivial).trans
      (writeCheckpoint_confined_iff prettyCheckpoint paths branchId workingMemory threadHead parentBranch ts)
  | deleteBranch paths branchId force =>
    cases force with
    | true => exact (and_iff_left trivial).trans (deleteBranch_forced_iff paths branchId)
    | false => exact deleteBranch_unforced_iff paths branchId
  | promoteProposal paths proposal historyLimit ts =>
    exact (and_iff_left trivial).trans (promoteProposal_confined_iff paths proposal historyLimit ts)
  | rejectProposal paths skillId =>
    exact (and_iff_left trivial).trans (rejectProposal_confined_iff paths skillId)
  | cacheArtifact host kind id version payload ts =>
    exact (and_iff_left trivial).trans (cacheArtifact_confined_iff prettyArtifact host kind id version payload ts)
  | deleteArtifact host kind id version =>
    exact (and_iff_left trivial).trans (deleteArtifact_confined_iff host kind id version)

end Calls

example : StoreCall.IdsStay (.deleteBranch scout "main/.." true) := .inr ⟨[], by decide, by decide⟩

/-- `./main` is not the string `main`, and the checkpoints' directory is in the one that `..` empties. -/
theorem unforced_deletion_of_main : ¬KeepsMain scout (branchDeletion scout "./main" false) ∧
    ¬Confined scout.checkpointsDir (branchDeletion scout ".." false) := by
  constructor
  · intro keeps
    exact keeps (mainDisk scout) (mainDisk_has scout) _ (List.mem_singleton_self _) (mainDir scout) (by decide)
      "1.json".toList (by decide) (List.prefix_append _ _)
  · intro confined
    obtain ⟨more, present, same⟩ := confined (mainDisk scout) (mainDisk_has scout) _ (List.mem_singleton_self _)
      scout.checkpointsDir (by decide)
    exact present (by simpa using same)

end AtomrAgents
