import AtomrAgents.Host.StoreConfinement

set_option autoImplicit false

namespace AtomrAgents

open Shared.UnixPath

inductive StoreCall where
  | writeCheckpoint (paths : AgentPaths) (branchId : String) (workingMemory : Value) (threadHead : Option Value)
      (parentBranch : Option String) (ts : Nat)
  | deleteBranch (paths : AgentPaths) (branchId : String) (force : Bool)
  | promoteProposal (paths : AgentPaths) (proposal : SkillProposal) (historyLimit ts : Nat)
  | rejectProposal (paths : AgentPaths) (skillId : String)
  | cacheArtifact (host : HostPaths) (kind id version : String) (payload : Value) (ts : Nat)
  | deleteArtifact (host : HostPaths) (kind id version : String)

def mainDir (paths : AgentPaths) : Place := paths.checkpointsDir ++ [defaultBranch.toList]

def Confined (dir : Place) (actions : Disk → List FileAction) : Prop :=
  ∀ disk : Disk, disk.Has dir → ∀ action ∈ actions disk, disk.Confines dir action

-- No checkpoint of `main` goes, neither by itself nor with a directory above it.
def Disk.KeepsMain (disk : Disk) (paths : AgentPaths) (action : FileAction) : Prop :=
  ∀ place ∈ disk.touches action, ∀ name,
    disk.entry (mainDir paths ++ [name]) = some .file → ¬place <+: mainDir paths ++ [name]

def KeepsMain (paths : AgentPaths) (actions : Disk → List FileAction) : Prop :=
  ∀ disk : Disk, disk.Has paths.checkpointsDir → ∀ action ∈ actions disk, disk.KeepsMain paths action

-- Like `RemovesInside`, but what the route enters is not the directory of `main`.
def RemovesOther (paths : AgentPaths) (route : Route) : Prop :=
  hasNul route.steps = true ∨ ∃ more, more ≠ [] ∧ more ≠ [defaultBranch.toList] ∧
    (climb route.steps).names = route.wayBack paths.checkpointsDir ++ more

def branchDeletion (paths : AgentPaths) (branchId : String) (force : Bool) (disk : Disk) : List FileAction :=
  match deleteBranch paths branchId force disk with
  | .ok actions => actions
  | .error _ => []

namespace StoreCall

def store : StoreCall → Place
  | writeCheckpoint paths .. | deleteBranch paths .. => paths.checkpointsDir
  | promoteProposal paths .. | rejectProposal paths .. => paths.skillsDir
  | cacheArtifact host .. | deleteArtifact host .. => host.registryDir

section Run

variable (prettyCheckpoint : BranchCheckpoint → String) (prettyArtifact : CachedArtifact → String)

def actions (disk : Disk) : StoreCall → List FileAction
  | writeCheckpoint paths branchId workingMemory threadHead parentBranch ts =>
    (AtomrAgents.writeCheckpoint prettyCheckpoint paths branchId workingMemory threadHead parentBranch ts).2
  | deleteBranch paths branchId force => branchDeletion paths branchId force disk
  | promoteProposal paths proposal historyLimit ts =>
    (AtomrAgents.promoteProposal paths proposal historyLimit ts disk).2
  | rejectProposal paths skillId => (AtomrAgents.rejectProposal paths skillId disk).2
  | cacheArtifact host kind id version payload ts =>
    (AtomrAgents.cacheArtifact prettyArtifact host kind id version payload ts).2
  | deleteArtifact host kind id version => (AtomrAgents.deleteArtifact host kind id version disk).2

def Safe (call : StoreCall) : Prop :=
  let actions disk := call.actions prettyCheckpoint prettyArtifact disk
  Confined call.store actions ∧
    match call with
    | deleteBranch paths _ false => KeepsMain paths actions
    | _ => True

end Run

def IdsStay : StoreCall → Prop
  | writeCheckpoint paths branchId _ _ _ ts =>
    CreatesInside paths.checkpointsDir (.ofParts [branchId.toList]) ∧
      WritesInside paths.checkpointsDir (.ofParts [branchId.toList, (toString ts ++ ".json").toList])
  | deleteBranch paths branchId true => RemovesInside paths.checkpointsDir (.ofParts [branchId.toList])
  | deleteBranch paths branchId false =>
    branchId = defaultBranch ∨ RemovesOther paths (.ofParts [branchId.toList])
  | promoteProposal paths proposal _ _ =>
    CreatesInside paths.skillsDir (.ofParts [proposal.skillId.toList]) ∧
      WritesInside paths.skillsDir (.ofParts [proposal.skillId.toList, "SKILL.md".toList])
  | rejectProposal paths skillId =>
    RemovesInside paths.skillsDir (.ofParts [".proposed".toList, skillId.toList])
  | cacheArtifact host kind id version _ _ =>
    let route := Route.ofParts [kind.toList, id.toList, (version ++ ".json").toList]
    CreatesInside host.registryDir route.up ∧ WritesInside host.registryDir route
  | deleteArtifact host kind id version =>
    WritesInside host.registryDir (.ofParts [kind.toList, id.toList, (version ++ ".json").toList])

end StoreCall

section Places

variable {dir place : Place} {path : List Component} {disk : Disk}

theorem clean_append (front back : Place) : Clean (front ++ back) ↔ Clean front ∧ Clean back := by
  simp only [Clean, List.mem_append, or_imp, forall_and]

theorem clean_names (names : List FileName) : Clean (names.map FileName.chars) := by
  intro name member
  obtain ⟨file, -, rfl⟩ := List.mem_map.mp member
  exact file.clean

theorem AgentPaths.clean_dir (paths : AgentPaths) : Clean paths.dir := by
  refine (clean_append _ _).mpr ⟨clean_names paths.root, ?_⟩
  simp only [Clean, List.forall_mem_cons, List.not_mem_nil, false_imp_iff, implies_true, and_true]
  exact ⟨by decide, paths.agentId.clean⟩

theorem AgentPaths.clean_skillsDir (paths : AgentPaths) : Clean paths.skillsDir :=
  (clean_append _ _).mpr ⟨paths.clean_dir, by unfold Clean; decide⟩

theorem AgentPaths.clean_checkpointsDir (paths : AgentPaths) : Clean paths.checkpointsDir :=
  (clean_append _ _).mpr ⟨paths.clean_dir, by unfold Clean; decide⟩

theorem HostPaths.clean_registryDir (host : HostPaths) : Clean host.registryDir :=
  (clean_append _ _).mpr ⟨clean_names host.root, by unfold Clean; decide⟩

end Places

section Names

theorem slash_not_mem_toString (n : Nat) : '/' ∉ (toString n).toList := by
  intro member
  rw [Nat.toString_eq_repr, Nat.toList_repr] at member
  have digit := Nat.isDigit_of_mem_toDigits (by decide) (by decide) member
  exact absurd digit (by decide)

theorem push_snapshot (ts : Nat) (base : List Component) :
    push base (toString ts ++ ".md").toList = base ++ [.normal (toString ts ++ ".md").toList] := by
  have digits : (toString ts).toList ≠ [] := by
    rw [Nat.toString_eq_repr, Nat.toList_repr]
    exact Nat.toDigits_ne_nil
  rw [String.toList_append]
  refine push_name ?_ (Component.ofPiece_of_long ?_) base
  · rw [List.mem_append, not_or]
    exact ⟨slash_not_mem_toString ts, by decide⟩
  · rw [List.length_append]
    have present := List.length_pos_of_ne_nil digits
    have ending : ".md".toList.length = 3 := by decide
    omega

end Names

section Lists

variable {dir : Place} {path : List Component} {first second : FileAction}

theorem confined_pair_iff :
    Confined dir (fun _ => [first, second]) ↔ first.Confined dir ∧ second.Confined dir := by
  simp only [Confined, FileAction.Confined, List.forall_mem_cons, List.not_mem_nil, false_imp_iff,
    implies_true, and_true]
  grind

-- A test before an action that touches nothing without it changes nothing.
theorem guarded_iff {test : Disk → Bool} {p : Disk → Place → Prop}
    (idle : ∀ disk, test disk = false → disk.touches first = []) :
    (∀ disk, disk.Has dir → ∀ action ∈ if test disk then [first] else [],
        ∀ place ∈ disk.touches action, p disk place) ↔
      ∀ disk, disk.Has dir → ∀ place ∈ disk.touches first, p disk place := by
  refine forall_congr' fun disk => imp_congr_right fun _ => ?_
  cases passed : test disk with
  | true => simp
  | false => simp [idle disk passed]

theorem confined_removeDirAll_iff :
    Confined dir (fun disk => if disk.isDir path then [.removeDirAll path] else []) ↔
      FileAction.Confined dir (.removeDirAll path) :=
  guarded_iff fun disk other => by simp [Disk.touches, other]

theorem confined_removeFile_iff :
    Confined dir (fun disk => if disk.isFile path then [.removeFile path] else []) ↔
      FileAction.Confined dir (.removeFile path) :=
  guarded_iff fun disk other => by simp [Disk.touches, other]

theorem keepsMain_removeDirAll_iff {paths : AgentPaths} :
    KeepsMain paths (fun disk => if disk.isDir path then [.removeDirAll path] else []) ↔
      ∀ disk : Disk, disk.Has paths.checkpointsDir → disk.KeepsMain paths (.removeDirAll path) :=
  guarded_iff fun disk other => by simp [Disk.touches, other]

end Lists

def srv : FileName := ⟨"srv".toList, by decide, by decide, by decide⟩

def scout : AgentPaths := ⟨[srv], ⟨"scout".toList, by decide, by decide, by decide⟩⟩

end AtomrAgents
