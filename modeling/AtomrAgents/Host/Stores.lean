import AtomrAgents.Core.Value
import AtomrAgents.Shared.LexicalPath
import Mathlib.Data.List.Dedup

set_option autoImplicit false

namespace AtomrAgents

structure SkillProposal where
  agentId : String
  skillId : String
  name : String
  body : String
  keywords : List String
  toolOverlay : List String
  priority : UInt8
  rationale : Option String

namespace SkillProposal

-- A list under its key, or nothing if it is empty.
def listLines (key : String) (items : List String) : String :=
  if items.isEmpty then "" else
    key ++ ":\n" ++ String.join (items.map fun item => "  - " ++ item ++ "\n")

def frontmatter (proposal : SkillProposal) : String :=
  "name: " ++ proposal.name ++ "\n" ++
    "priority: " ++ toString proposal.priority.toNat ++ "\n" ++
    listLines "keywords" proposal.keywords ++ listLines "tool_overlay" proposal.toolOverlay ++
    match proposal.rationale with
    | some r => "rationale: " ++ r ++ "\n"
    | none => ""

def toMarkdown (proposal : SkillProposal) : String :=
  "---\n" ++ proposal.frontmatter ++ "---\n" ++ proposal.body ++
    if proposal.body.toList.getLast? = some '\n' then "" else "\n"

end SkillProposal

end AtomrAgents

/-! Checkpoints, skills and cached artifacts are files below the root of the host. An operation is given as
what it asks of the disk. A path is the list of its components. -/

namespace AtomrAgents

open Shared.UnixPath

structure FileName where
  chars : List Char
  plain : Component.ofPiece chars = some (.normal chars)
  unseparated : '/' ∉ chars
  clean : '\x00' ∉ chars

-- The root is given by the place where it is.
structure HostPaths where
  root : List FileName

-- An agent is a directory below `agents`.
structure AgentPaths where
  root : List FileName
  agentId : FileName

def HostPaths.registryDir (host : HostPaths) : Place := host.root.map FileName.chars ++ ["registry".toList]

namespace AgentPaths

variable (paths : AgentPaths)

def dir : Place := paths.root.map FileName.chars ++ ["agents".toList, paths.agentId.chars]

def skillsDir : Place := paths.dir ++ ["skills".toList]

def checkpointsDir : Place := paths.dir ++ ["state".toList, "checkpoints".toList]

end AgentPaths

inductive FileAction where
  | createDirAll (path : List Component)
  | write (path : List Component) (body : String)
  | copy (source path : List Component)
  | removeFile (path : List Component)
  | removeDirAll (path : List Component)

inductive DiskEntry where
  | file
  | dir
  deriving DecidableEq

structure Disk where
  entry : Place → Option DiskEntry
  children : Place → List (List Char)
  listed : ∀ place name, name ∈ children place ↔ entry (place ++ [name]) ≠ none

def Component.hasNul : Component → Bool
  | .normal name => name.contains '\x00'
  | _ => false

-- No system call takes such a path.
def hasNul (path : List Component) : Bool := path.any Component.hasNul

-- A directory on the path is made, but not under a path that ends in `.`.
def isMade (path part : List Component) : Bool := endsInName part && (part = path || part ≠ trimmed path)

namespace Disk

variable (disk : Disk)

def isDir (path : List Component) : Bool := !hasNul path && disk.entry (resolve path) = some .dir

def isFile (path : List Component) : Bool := !hasNul path && disk.entry (resolve path) = some .file

def touches : FileAction → List Place
  | .createDirAll path =>
    if hasNul path then []
    else ((path.inits.filter (isMade path)).map resolve).filter fun place => disk.entry place = none
  | .write path _ | .copy _ path => if hasNul path || disk.isDir path then [] else [resolve path]
  | .removeFile path => if disk.isFile path then [resolve path] else []
  -- `rmdir` takes no path that ends in `.` or `..`, nor the root, so such a directory is only emptied.
  | .removeDirAll path =>
    if !disk.isDir path then []
    else if endsInName path then [resolve path]
    else (disk.children (resolve path)).map fun name => resolve path ++ [name]

end Disk

inductive HostError where
  | branching (message : String)
  | markdown (path : List Component) (reason : String)
  | yaml (path : List Component)
  | agentSpec (message : String)
  | config (message : String)
  | actorSystem (message : String)
  | scheduler (message : String)
  | registry (message : String)
  | io (path : List Component)
  | json (path : List Component)
  deriving DecidableEq

section Branching

structure BranchCheckpoint where
  branchId : String
  agentId : String
  tsMs : Nat
  workingMemory : Value
  threadHead : Option Value
  parentBranch : Option String
  path : Option (List Component)

def defaultBranch : String := "main"

variable (pretty : BranchCheckpoint → String) (paths : AgentPaths)

def writeCheckpoint (branchId : String) (workingMemory : Value) (threadHead : Option Value)
    (parentBranch : Option String) (ts : Nat) : BranchCheckpoint × List FileAction :=
  let dir := push (pathOf paths.checkpointsDir) branchId.toList
  let path := push dir (toString ts ++ ".json").toList
  let cp : BranchCheckpoint := {
    branchId
    agentId := String.ofList paths.agentId.chars
    tsMs := ts
    workingMemory
    threadHead
    parentBranch
    path := some path }
  (cp, [.createDirAll dir, .write path (pretty cp)])

def deleteBranch (branchId : String) (force : Bool) (disk : Disk) : Except HostError (List FileAction) :=
  if branchId = defaultBranch && !force then
    .error (.branching "refusing to delete `main` without force")
  else
    let dir := push (pathOf paths.checkpointsDir) branchId.toList
    .ok (if disk.isDir dir then [.removeDirAll dir] else [])

end Branching

section Curator

variable (paths : AgentPaths)

-- The oldest entries go, the new snapshot counts.
def pruneHistory (history : List Component) (snapshot : List Char) (keep : Nat) (disk : Disk) :
    List FileAction :=
  let entries := ((snapshot :: disk.children (resolve history)).dedup).mergeSort fun a b => decide (a ≤ b)
  (entries.take (entries.length - keep)).map fun name => .removeFile (history ++ [.normal name])

def promoteProposal (proposal : SkillProposal) (historyLimit ts : Nat) (disk : Disk) :
    List Component × List FileAction :=
  let targetDir := push (pathOf paths.skillsDir) proposal.skillId.toList
  let target := push targetDir "SKILL.md".toList
  let history := push targetDir ".history".toList
  let name := (toString ts ++ ".md").toList
  let snapshots :=
    if disk.isFile target then
      [.createDirAll history, .copy target (push history name)] ++ pruneHistory history name historyLimit disk
    else []
  (target, .createDirAll targetDir :: snapshots ++ [.write target proposal.toMarkdown])

def proposedDir (skillId : String) : List Component :=
  push (push (pathOf paths.skillsDir) ".proposed".toList) skillId.toList

def rejectProposal (skillId : String) (disk : Disk) : Bool × List FileAction :=
  let dir := proposedDir paths skillId
  if disk.isDir dir then (true, [.removeDirAll dir]) else (false, [])

end Curator

section Registry

structure CachedArtifact where
  kind : String
  id : String
  version : String
  payload : Value
  cachedAtMs : Nat
  path : Option (List Component)

variable (pretty : CachedArtifact → String) (host : HostPaths)

def artifactPath (kind id version : String) : List Component :=
  push (push (push (pathOf host.registryDir) kind.toList) id.toList) (version ++ ".json").toList

def cacheArtifact (kind id version : String) (payload : Value) (ts : Nat) :
    CachedArtifact × List FileAction :=
  let path := artifactPath host kind id version
  let art : CachedArtifact := { kind, id, version, payload, cachedAtMs := ts, path := some path }
  (art, (match above path with | some parent => [.createDirAll parent] | none => []) ++
    [.write path (pretty art)])

def deleteArtifact (kind id version : String) (disk : Disk) : Bool × List FileAction :=
  let path := artifactPath host kind id version
  if disk.isFile path then (true, [.removeFile path]) else (false, [])

end Registry

end AtomrAgents
