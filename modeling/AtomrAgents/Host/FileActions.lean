import AtomrAgents.Host.Stores
import AtomrAgents.Shared.FileTree

set_option autoImplicit false

namespace AtomrAgents

open Shared Shared.UnixPath

def perform (tree : FileTree) : FileAction → FileTree × Bool
  | .createDirAll path => tree.createDirAll path
  | .write path body => tree.write path body
  | .copy source path => tree.copy source path
  -- A file that cannot be removed stays, and the callers go on.
  | .removeFile path => ((tree.removeFile path).1, true)
  | .removeDirAll path => tree.removeDirAll path

def performAll : List FileAction → FileTree → FileTree × Bool
  | [], tree => (tree, true)
  | action :: actions, tree =>
    match perform tree action with
    | (tree, true) => performAll actions tree
    | (tree, false) => (tree, false)

def removeEach : List (List Component) → FileTree → FileTree × Nat
  | [], tree => (tree, 0)
  | path :: paths, tree =>
    let (tree, removed) := tree.removeFile path
    let (tree, count) := removeEach paths tree
    (tree, if removed then count + 1 else count)

def diskOf (tree : FileTree) : Disk where
  entry place := (tree.node place).map fun
    | .file _ => .file
    | .dir => .dir
  children := tree.children
  listed place name := by
    rw [FileTree.mem_children]
    simp

variable {tree last : FileTree} {dir path : List Component} {place : Place}

theorem hasNul_eq (path : List Component) : hasNul path = !isTaken path := by
  rw [hasNul, isTaken, List.not_all_eq_any_not]
  congr 1
  funext component
  cases component with
  | normal name => simp [Component.hasNul]
  | rootDir | curDir | parentDir => rfl

theorem isFile_diskOf : (diskOf tree).isFile path = true ↔
    isTaken path = true ∧ ∃ body, tree.node (resolve path) = some (.file body) := by
  rw [Disk.isFile, hasNul_eq, Bool.not_not, Bool.and_eq_true, decide_eq_true_eq, diskOf]
  refine and_congr_right fun _ => ?_
  cases found : tree.node (resolve path) with
  | none => simp [found]
  | some node => cases node <;> simp [found]

theorem performAll_cons {action : FileAction} {actions : List FileAction} :
    performAll (action :: actions) tree = (last, true) ↔
      ∃ mid, perform tree action = (mid, true) ∧ performAll actions mid = (last, true) := by
  rw [performAll]
  split
  next mid performed => simp [performed]
  next mid performed => simp [performed]

theorem performAll_append {front back : List FileAction} :
    performAll (front ++ back) tree = (last, true) ↔
      ∃ mid, performAll front tree = (mid, true) ∧ performAll back mid = (last, true) := by
  induction front generalizing tree with
  | nil => simp [performAll]
  | cons action front ih =>
    simp only [List.cons_append, performAll_cons, ih]
    grind

theorem performAll_store (tree : FileTree) (dir path : List Component) (body : String) :
    ∃ grown, FileTree.Grows tree grown (FileTree.Passes [] dir) ∧
      (performAll [.createDirAll dir, .write path body] tree = (grown, false) ∨
        ∃ place, grown.reach [] dir = some (resolve dir) ∧ isTaken dir = true ∧
          grown.locate path = some place ∧ grown.node place ≠ some .dir ∧
          performAll [.createDirAll dir, .write path body] tree = (grown.put place (.file body), true)) := by
  refine ⟨(tree.createDirAll dir).1, FileTree.createDirAll_grows tree dir, ?_⟩
  cases made : tree.createDirAll dir with
  | mk grown done =>
    cases done with
    | false => exact .inl (by simp only [performAll, perform, made])
    | true =>
      have entered := FileTree.reach_createDirAll (congrArg Prod.snd made)
      rw [made] at entered
      cases found : grown.locate path with
      | none => exact .inl (by simp only [performAll, perform, made, FileTree.write, found])
      | some place =>
        by_cases blocked : grown.node place = some .dir
        · exact .inl (by simp only [performAll, perform, made, FileTree.write, found, blocked, if_true])
        · refine .inr ⟨place, entered.2, entered.1, rfl, blocked, ?_⟩
          simp only [performAll, perform, made, FileTree.write, found, if_neg blocked]

theorem performAll_removals (dir : List Component) (names : List (List Char)) (tree : FileTree) :
    ∃ last, performAll (names.map fun name => .removeFile (dir ++ [.normal name])) tree = (last, true) ∧
      ∀ other, last.node other = tree.node other ∨ last.node other = none ∧
        (∃ body, tree.node other = some (.file body)) ∧ ∃ name ∈ names, other = resolve dir ++ [name] := by
  induction names generalizing tree with
  | nil => exact ⟨tree, rfl, fun _ => .inl rfl⟩
  | cons name names ih =>
    obtain ⟨last, done, later⟩ := ih (tree.removeFile (dir ++ [.normal name])).1
    refine ⟨last, performAll_cons.mpr ⟨_, rfl, done⟩, fun other => ?_⟩
    rcases later other with same | ⟨gone, ⟨body, file⟩, later, member, place⟩
    · rw [same]
      refine (FileTree.node_removeFile tree (dir ++ [.normal name]) other).imp_right ?_
      rintro ⟨gone, file, rfl⟩
      exact ⟨gone, file, name, List.mem_cons_self, resolve_name dir name⟩
    · rcases FileTree.node_removeFile tree (dir ++ [.normal name]) other with same | ⟨before, -⟩
      · exact .inr ⟨gone, ⟨body, same ▸ file⟩, later, List.mem_cons_of_mem name member, place⟩
      · rw [before] at file
        cases file

theorem node_removeEach {names : List (List Char)} (entered : tree.isDir dir = true) (distinct : names.Nodup)
    (files : ∀ name ∈ names, '\x00' ∉ name ∧ ∃ body, tree.node (resolve dir ++ [name]) = some (.file body))
    (other : Place) :
    (removeEach (names.map fun name => dir ++ [.normal name]) tree).1.node other =
      if ∃ name ∈ names, other = resolve dir ++ [name] then none else tree.node other := by
  induction names generalizing tree with
  | nil => simp [removeEach]
  | cons name names ih =>
    obtain ⟨fresh, distinct⟩ := List.nodup_cons.mp distinct
    obtain ⟨clean, body, file⟩ := files name List.mem_cons_self
    have keeps : FileTree.KeepsDirs tree (tree.remove (resolve dir ++ [name])) :=
      FileTree.keepsDirs_remove (by simp [file])
    have later := ih (FileTree.isDir_of_keepsDirs keeps entered) distinct fun later member => by
      obtain ⟨clean, body, file⟩ := files later (List.mem_cons_of_mem name member)
      refine ⟨clean, body, ?_⟩
      rw [FileTree.node_remove, if_neg, file]
      intro same
      have equal : later = name := by simpa using same
      exact fresh (equal ▸ member)
    rw [List.map_cons, removeEach, FileTree.removeFile_name entered clean file]
    simp only [later, FileTree.node_remove, List.exists_mem_cons_iff]
    by_cases here : other = resolve dir ++ [name]
    · simp [here]
    · simp [here]

def alphaName : FileName where
  chars := "alpha".toList
  plain := by decide
  unseparated := by decide
  clean := by decide

def alphaPaths : AgentPaths := { root := [], agentId := alphaName }

end AtomrAgents
