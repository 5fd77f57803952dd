import AtomrAgents.Host.FileActions

set_option autoImplicit false

namespace AtomrAgents

open Shared Shared.UnixPath

structure CheckpointJson where
  toVecPretty : BranchCheckpoint → String
  fromSlice : String → Option BranchCheckpoint

def CheckpointJson.ReadsBack (json : CheckpointJson) (cp : BranchCheckpoint) : Prop :=
  json.fromSlice (json.toVecPretty cp) = some cp

def isJson (name : List Char) : Bool := (splitStem name).map Prod.snd = some "json".toList

def checkpointName (ts : Nat) : List Char := (toString ts ++ ".json").toList

section Branching

variable (json : CheckpointJson) (paths : AgentPaths)

def branchDir (branchId : String) : List Component := push (pathOf paths.checkpointsDir) branchId.toList

def jsonNames (dir : List Component) (tree : FileTree) : List (List Char) :=
  sortNames ((tree.children (resolve dir)).filter isJson)

def latestCheckpoint (branchId : String) (tree : FileTree) : Except HostError (Option BranchCheckpoint) :=
  let dir := branchDir paths branchId
  if tree.isDir dir then
    match (jsonNames dir tree).getLast? with
    | none => .ok none
    | some name =>
      let last := dir ++ [.normal name]
      match tree.read last with
      | none => .error (.io last)
      | some body =>
        match json.fromSlice body with
        | none => .error (.json last)
        | some cp => .ok (some { cp with path := some last })
  else .ok none

def listCheckpoints (branchId : String) (tree : FileTree) : List (List Component) :=
  let dir := branchDir paths branchId
  if tree.isDir dir then (jsonNames dir tree).map fun name => dir ++ [.normal name] else []

def forkBranch (sourceBranch newBranch : String) (ts : Nat) (tree : FileTree) :
    Except HostError (BranchCheckpoint × List FileAction) :=
  match latestCheckpoint json paths sourceBranch tree with
  | .error e => .error e
  | .ok none => .error (.branching ("no checkpoint to fork from in `" ++ sourceBranch ++ "`"))
  | .ok (some source) =>
    .ok (writeCheckpoint json.toVecPretty paths newBranch source.workingMemory source.threadHead (some sourceBranch) ts)

-- Everything in the directory counts, and the first by name go.
def pruneBranch (branchId : String) (keep : Nat) (tree : FileTree) : FileTree × Nat :=
  let dir := branchDir paths branchId
  if tree.isDir dir then
    let entries := sortNames (tree.children (resolve dir))
    removeEach ((entries.take (entries.length - keep)).map fun name => dir ++ [.normal name]) tree
  else (tree, 0)

end Branching

inductive BranchCall where
  | write (branchId : String) (workingMemory : Value) (threadHead : Option Value) (parentBranch : Option String)
      (ts : Nat)
  | fork (sourceBranch newBranch : String) (ts : Nat)
  | prune (branchId : String) (keep : Nat)

-- The files, and of each branch what was written to it and what of that was not pruned.
structure BranchStore where
  tree : FileTree
  written : String → List BranchCheckpoint
  kept : String → List BranchCheckpoint

namespace BranchStore

variable (json : CheckpointJson) (paths : AgentPaths) (store : BranchStore)

def onTree (tree : FileTree) : BranchStore := { tree, written := fun _ => [], kept := fun _ => [] }

def append (cp : BranchCheckpoint) (tree : FileTree) : BranchStore where
  tree := tree
  written := Function.update store.written cp.branchId (store.written cp.branchId ++ [cp])
  kept := Function.update store.kept cp.branchId (store.kept cp.branchId ++ [cp])

-- A call that fails writes no checkpoint.
def save (cp : BranchCheckpoint) (actions : List FileAction) : BranchStore :=
  match performAll actions store.tree with
  | (tree, true) => store.append cp tree
  | (tree, false) => { store with tree }

def step : BranchCall → BranchStore
  | .write branchId workingMemory threadHead parentBranch ts =>
    let (cp, actions) := writeCheckpoint json.toVecPretty paths branchId workingMemory threadHead parentBranch ts
    store.save cp actions
  | .fork sourceBranch newBranch ts =>
    match forkBranch json paths sourceBranch newBranch ts store.tree with
    | .ok (cp, actions) => store.save cp actions
    | .error _ => store
  | .prune branchId keep =>
    { store with
      tree := (pruneBranch paths branchId keep store.tree).1
      kept := Function.update store.kept branchId
        ((store.kept branchId).drop ((store.kept branchId).length - keep)) }

def run (calls : List BranchCall) : BranchStore := calls.foldl (step json paths) store

structure Recovers (branchId : String) : Prop where
  latest : store.kept branchId ≠ [] →
    latestCheckpoint json paths branchId store.tree = .ok (store.written branchId).getLast?
  emptied : store.kept branchId = [] → latestCheckpoint json paths branchId store.tree = .ok none
  listed : (listCheckpoints paths branchId store.tree).map some = (store.kept branchId).map BranchCheckpoint.path
  newest : store.kept branchId <:+ store.written branchId

end BranchStore

section Conditions

variable (json : CheckpointJson) (paths : AgentPaths)

def branchPlace (branchId : String) : Place := resolve (branchDir paths branchId)

-- Every branch has a directory to itself: at first there is nothing in it, and no branch leads into the directory
-- of another one, or through its own.
structure OwnDirectories (branches : Set String) (tree : FileTree) : Prop where
  bare : ∀ b ∈ branches, tree.children (branchPlace paths b) = []
  apart : ∀ b ∈ branches, ∀ b' ∈ branches, b ≠ b' → ¬ branchPlace paths b <+: branchPlace paths b'
  outside : ∀ b ∈ branches, ∀ b' ∈ branches, ∀ through, FileTree.Passes [] (branchDir paths b) through →
    ¬ Below (branchPlace paths b') through

-- The name of the new file comes after all that are there.
def NamedLast (branchId : String) (ts : Nat) (tree : FileTree) : Prop :=
  ∀ name ∈ tree.children (branchPlace paths branchId), name < checkpointName ts

def BranchCall.Fits (branches : Set String) (tree : FileTree) : BranchCall → Prop
  | .write branchId workingMemory threadHead parentBranch ts =>
    branchId ∈ branches ∧ NamedLast paths branchId ts tree ∧
      json.ReadsBack
        (writeCheckpoint json.toVecPretty paths branchId workingMemory threadHead parentBranch ts).1
  | .fork sourceBranch newBranch ts =>
    ∀ cp actions, forkBranch json paths sourceBranch newBranch ts tree = .ok (cp, actions) →
      newBranch ∈ branches ∧ NamedLast paths newBranch ts tree ∧ json.ReadsBack cp
  | .prune branchId _ => branchId ∈ branches

def AllFit (branches : Set String) (store : BranchStore) : List BranchCall → Prop
  | [] => True
  | call :: calls => call.Fits json paths branches store.tree ∧ AllFit branches (store.step json paths call) calls

end Conditions

end AtomrAgents
