import Mathlib.Data.List.Basic

set_option autoImplicit false

/-! Paths as lists of characters, cut into components the way `std::path` does it: repeated separators and `.`
count for nothing, except for a `.` at the very beginning. A path is within a directory if it goes on from
there and never goes up. -/

namespace Shared

section SplitOnP

variable {α : Type}

theorem splitOnP_or (p q : α → Bool) (xs : List α) :
    xs.splitOnP (fun x => p x || q x) = (xs.splitOnP p).flatMap (List.splitOnP q) := by
  induction xs with
  | nil => simp
  | cons x xs ih =>
    obtain ⟨head, tail, parts⟩ := List.exists_cons_of_ne_nil (List.splitOnP_ne_nil p xs)
    rw [List.splitOnP_cons_eq_if_modifyHead, List.splitOnP_cons_eq_if_modifyHead, ih, parts]
    cases hp : p x with
    | true => simp
    | false =>
      obtain ⟨first, rest, pieces⟩ := List.exists_cons_of_ne_nil (List.splitOnP_ne_nil q head)
      cases hq : q x <;> simp [List.splitOnP_cons_eq_if_modifyHead, hq, pieces]

theorem mem_splitOnP_or {p q : α → Bool} {xs piece : List α} (member : piece ∈ xs.splitOnP p)
    (plain : ∀ x ∈ piece, q x = false) : piece ∈ xs.splitOnP (fun x => p x || q x) := by
  rw [splitOnP_or, List.mem_flatMap]
  refine ⟨piece, member, ?_⟩
  rw [List.splitOnP_eq_singleton plain]
  exact List.mem_singleton.mpr rfl

theorem of_mem_splitOnP {p : α → Bool} {xs piece : List α} (member : piece ∈ xs.splitOnP p) :
    ∀ x ∈ piece, p x = false := by
  induction xs generalizing piece with
  | nil => simp_all
  | cons y xs ih =>
    rw [List.splitOnP_cons_eq_if_modifyHead] at member
    by_cases ends : p y = true
    · simp only [ends, if_true, List.mem_cons] at member
      cases member with
      | inl none => simp [none]
      | inr later => exact ih later
    · obtain ⟨first, rest, parts⟩ := List.exists_cons_of_ne_nil (List.splitOnP_ne_nil p xs)
      simp only [ends, Bool.false_eq_true, if_false, parts, List.modifyHead_cons, List.mem_cons] at member
      cases member with
      | inl here =>
        have inside := ih (parts ▸ List.mem_cons_self)
        simpa [here, ends] using inside
      | inr later => exact ih (parts ▸ List.mem_cons_of_mem first later)

end SplitOnP

namespace UnixPath

inductive Component where
  | rootDir
  | curDir
  | parentDir
  | normal (name : List Char)
  deriving DecidableEq

def Component.ofPiece (piece : List Char) : Option Component :=
  if piece = [] ∨ piece = ['.'] then none
  else if piece = ['.', '.'] then some .parentDir
  else some (.normal piece)

def isSeparator (c : Char) : Bool := c == '/'

def pieces (path : List Char) : List (List Char) := path.splitOnP isSeparator

def isAbsolute (path : List Char) : Bool := path.head? == some '/'

-- What stands before the names: the root, or the current directory.
def leading (path : List Char) : List Component :=
  if isAbsolute path then [.rootDir]
  else if (pieces path).head? = some ['.'] then [.curDir]
  else []

def names (path : List Char) : List Component := (pieces path).filterMap Component.ofPiece

-- `Path::components`
def components (path : List Char) : List Component := leading path ++ names path

-- `Path::join`
def join (base path : List Char) : List Char :=
  if isAbsolute path then path
  else if base = [] ∨ base.getLast? = some '/' then base ++ path
  else base ++ '/' :: path

-- `Path::parent`: the components of the parent directory.
def parent (path : List Component) : Option (List Component) :=
  match path.getLast? with
  | none | some .rootDir => none
  | some _ => some path.dropLast

variable {base path : List Char}

@[simp] theorem components_nil : components [] = [] := rfl

theorem names_append (a b : List Char) : names (a ++ '/' :: b) = names a ++ names b := by
  rw [names, pieces, List.splitOnP_append_cons a b (by rfl), List.filterMap_append]
  rfl

theorem names_cons (path : List Char) : names ('/' :: path) = names path := names_append [] path

theorem components_cons (path : List Char) : components ('/' :: path) = .rootDir :: names path := by
  rw [components, names_cons]
  rfl

theorem leading_append {a : List Char} (present : a ≠ []) (b : List Char) :
    leading (a ++ '/' :: b) = leading a := by
  obtain ⟨c, rest, rfl⟩ := List.exists_cons_of_ne_nil present
  have head : (pieces (c :: rest ++ '/' :: b)).head? = (pieces (c :: rest)).head? := by
    rw [pieces, List.splitOnP_append_cons _ b (by rfl), List.head?_append_of_ne_nil]
    · rfl
    · exact List.splitOnP_ne_nil _ _
  rw [leading, leading, head]
  rfl

theorem components_append {a : List Char} (present : a ≠ []) (b : List Char) :
    components (a ++ '/' :: b) = components a ++ names b := by
  rw [components, components, leading_append present, names_append, List.append_assoc]

theorem join_of_absolute (absolute : isAbsolute path = true) : join base path = path :=
  if_pos absolute

theorem join_nil (path : List Char) : join [] path = path := by
  simp [join]

theorem components_join (present : base ≠ []) (relative : isAbsolute path = false) :
    components (join base path) = components base ++ names path := by
  rw [join, relative]
  simp only [Bool.false_eq_true, if_false, present, false_or]
  split
  · next last =>
    obtain ⟨front, rfl⟩ := List.getLast?_eq_some_iff.mp last
    rw [List.append_assoc, List.singleton_append]
    cases front with
    | nil => simp [components_cons, names, pieces, Component.ofPiece]
    | cons c front =>
      rw [components_append (by simp), components_append (by simp)]
      simp [names, pieces, Component.ofPiece]
  · exact components_append present path

theorem ofPiece_ne (piece : List Char) : Component.ofPiece piece ≠ some .rootDir := by
  unfold Component.ofPiece
  split
  · simp
  · split <;> simp

theorem rootDir_not_mem_names (path : List Char) : .rootDir ∉ names path := by
  intro member
  obtain ⟨piece, -, root⟩ := List.mem_filterMap.mp member
  exact ofPiece_ne piece root

theorem parentDir_mem_names : .parentDir ∈ names path ↔ ['.', '.'] ∈ pieces path := by
  rw [names, List.mem_filterMap]
  constructor
  · rintro ⟨piece, member, up⟩
    unfold Component.ofPiece at up
    split at up
    · cases up
    · split at up
      · next same => exact same ▸ member
      · cases up
  · intro member
    exact ⟨_, member, rfl⟩

theorem leading_of_relative (relative : isAbsolute path = false) :
    leading path = [] ∨ leading path = [.curDir] := by
  rw [leading, relative]
  simp only [Bool.false_eq_true, if_false]
  split
  · exact .inr rfl
  · exact .inl rfl

section Within

variable {root dir rest : List Component}

def Within (root path : List Component) : Prop :=
  ∃ rest, path = root ++ rest ∧ .parentDir ∉ rest ∧ .rootDir ∉ rest

theorem Within.length_le (within : Within root dir) : root.length ≤ dir.length := by
  obtain ⟨rest, rfl, -, -⟩ := within
  simp

theorem length_of_parent {path : List Component} (above : parent path = some dir) :
    dir.length + 1 = path.length := by
  unfold parent at above
  split at above
  · cases above
  · cases above
  · next last =>
    cases above
    cases path with
    | nil => cases last
    | cons c path => simp

theorem parent_append {rest : List Component} (present : rest ≠ []) (plain : .rootDir ∉ rest) :
    parent (root ++ rest) = some (root ++ rest.dropLast) := by
  have last : (root ++ rest).getLast? = some (rest.getLast present) := by
    rw [List.getLast?_append_of_ne_nil root present, List.getLast?_eq_some_getLast present]
  have member := List.getLast_mem present
  unfold parent
  rw [last, List.dropLast_append_of_ne_nil present]
  split
  · next none => cases none
  · next root =>
    rw [Option.some_inj] at root
    rw [root] at member
    exact absurd member plain
  · rfl

theorem Within.of_parent (present : rest ≠ []) (up : .parentDir ∉ rest) (plain : .rootDir ∉ rest)
    (above : parent (root ++ rest) = some dir) : Within root dir := by
  rw [parent_append present plain, Option.some_inj] at above
  subst above
  refine ⟨rest.dropLast, rfl, ?_, ?_⟩
  · exact fun member => up (List.dropLast_subset rest member)
  · exact fun member => plain (List.dropLast_subset rest member)

theorem not_within_parent (above : parent root = some dir) : ¬ Within root dir := by
  intro within
  have shorter := length_of_parent above
  have longer := within.length_le
  omega

end Within

end UnixPath

end Shared
