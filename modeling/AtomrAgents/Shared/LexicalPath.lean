import AtomrAgents.Shared.UnixPath
import Mathlib.Data.List.DropRight
import Mathlib.Data.List.Infix
import Mathlib.Data.List.Induction

set_option autoImplicit false

/-! A place is the list of names that lead to it from the root. Path components lead from place to place, `..`
to the directory above. Where a relative path leads from a directory depends only on how far up it goes by
itself, and on the names it has then. -/

namespace Shared.UnixPath

abbrev Place : Type := List (List Char)

def enter (place : Place) : Component → Place
  | .rootDir => []
  | .curDir => place
  | .parentDir => place.dropLast
  | .normal name => place ++ [name]

def walk (place : Place) (steps : List Component) : Place := steps.foldl enter place

def resolve (path : List Component) : Place := walk [] path

def pathOf (place : Place) : List Component := .rootDir :: place.map .normal

-- A system call walks each `.`, which `Path::components` drops.
def Component.ofStep (piece : List Char) : Option Component :=
  if piece = ['.'] then some .curDir else ofPiece piece

def stepsOf (path : List Char) : List Component := (pieces path).filterMap Component.ofStep

-- `Path::join`
def push (base : List Component) (path : List Char) : List Component :=
  if isAbsolute path then .rootDir :: stepsOf path else base ++ stepsOf path

def endsInName (path : List Component) : Bool :=
  match path.getLast? with
  | some (.normal _) => true
  | _ => false

def trimmed (path : List Component) : List Component := path.rdropWhile (· = .curDir)

-- `Path::parent`
def above (path : List Component) : Option (List Component) := (parent (trimmed path)).map trimmed

theorem Component.ofPiece_of_long {piece : List Char} (long : 2 < piece.length) :
    Component.ofPiece piece = some (.normal piece) := by
  rw [ofPiece, if_neg, if_neg]
  · rintro rfl
    exact absurd long (by decide)
  · rintro (rfl | rfl)
    all_goals exact absurd long (by decide)

theorem pieces_of_unseparated {piece : List Char} (unseparated : '/' ∉ piece) : pieces piece = [piece] := by
  refine List.splitOnP_eq_singleton fun c member => beq_eq_false_iff_ne.mpr ?_
  rintro rfl
  exact unseparated member

theorem Component.ofStep_of_plain {piece : List Char} (plain : ofPiece piece = some (.normal piece)) :
    ofStep piece = some (.normal piece) := by
  rw [ofStep, if_neg, plain]
  rintro rfl
  cases plain

theorem Component.ofStep_ne (piece : List Char) : ofStep piece ≠ some .rootDir := by
  rw [ofStep]
  split
  · simp
  · exact ofPiece_ne piece

theorem rootDir_not_mem_stepsOf (path : List Char) : .rootDir ∉ stepsOf path := by
  intro member
  obtain ⟨piece, -, root⟩ := List.mem_filterMap.mp member
  exact Component.ofStep_ne piece root

theorem normal_mem_stepsOf {path name : List Char} : .normal name ∈ stepsOf path ↔ .normal name ∈ names path := by
  simp only [stepsOf, names, List.mem_filterMap]
  refine exists_congr fun piece => and_congr_right fun _ => ?_
  rw [Component.ofStep]
  split
  next dot => simp [dot, Component.ofPiece]
  next => rfl

theorem push_name {name : List Char} (unseparated : '/' ∉ name)
    (plain : Component.ofPiece name = some (.normal name)) (base : List Component) :
    push base name = base ++ [.normal name] := by
  have relative : isAbsolute name = false := by
    cases name with
    | nil => rfl
    | cons c rest =>
      refine beq_eq_false_iff_ne.mpr fun absolute => unseparated ?_
      rw [List.head?_cons, Option.some_inj] at absolute
      rw [absolute]
      exact List.mem_cons_self
  rw [push, relative, stepsOf, pieces_of_unseparated unseparated]
  simp [Component.ofStep_of_plain plain]

theorem push_pathOf {name : List Char} (unseparated : '/' ∉ name)
    (plain : Component.ofPiece name = some (.normal name)) (dir : Place) :
    push (pathOf dir) name = pathOf (dir ++ [name]) := by
  rw [push_name unseparated plain]
  simp [pathOf]

theorem stepsOf_append {suffix : List Char} (unseparated : '/' ∉ suffix) (long : 2 < suffix.length)
    (front : List Char) : ∃ steps name, stepsOf (front ++ suffix) = steps ++ [.normal name] := by
  have last : ∃ before piece, pieces (front ++ suffix) = before ++ [piece] ∧ suffix <:+ piece := by
    induction front with
    | nil => exact ⟨[], suffix, pieces_of_unseparated unseparated, List.suffix_rfl⟩
    | cons c front ih =>
      obtain ⟨before, piece, parts, ends⟩ := ih
      rw [pieces] at parts ⊢
      rw [List.cons_append, List.splitOnP_cons_eq_if_modifyHead, parts]
      split
      next => exact ⟨[] :: before, piece, rfl, ends⟩
      next =>
        cases before with
        | nil => exact ⟨[], c :: piece, rfl, ends.trans (List.suffix_cons c piece)⟩
        | cons head before => exact ⟨(c :: head) :: before, piece, rfl, ends⟩
  obtain ⟨before, piece, parts, ends⟩ := last
  have plain := Component.ofStep_of_plain (Component.ofPiece_of_long (long.trans_le ends.length_le))
  refine ⟨before.filterMap Component.ofStep, piece, ?_⟩
  rw [stepsOf, parts, List.filterMap_append]
  simp [plain]

theorem trimmed_concat_name (path : List Component) (name : List Char) :
    trimmed (path ++ [.normal name]) = path ++ [.normal name] :=
  List.rdropWhile_concat_neg _ _ _ (by simp)

theorem trimmed_append {front : List Component} (ends : trimmed front = front) (back : List Component) :
    trimmed (front ++ back) = front ++ trimmed back := by
  induction back using List.reverseRecOn with
  | nil => simpa [trimmed] using ends
  | append_singleton back last ih =>
    rw [← List.append_assoc]
    simp only [trimmed, List.rdropWhile_concat] at ih ⊢
    split
    · exact ih
    · exact List.append_assoc ..

theorem trimmed_pathOf (dir : Place) : trimmed (pathOf dir) = pathOf dir := by
  rcases List.eq_nil_or_concat' dir with rfl | ⟨front, name, rfl⟩
  · rfl
  · have last : pathOf (front ++ [name]) = pathOf front ++ [.normal name] := by simp [pathOf]
    rw [last, trimmed_concat_name]

theorem above_concat_name (path : List Component) (name : List Char) :
    above (path ++ [.normal name]) = some (trimmed path) := by
  rw [above, trimmed_concat_name, parent, List.getLast?_concat, List.dropLast_concat]
  rfl

theorem trimmed_front (path : List Component) : trimmed path <+: path := List.rdropWhile_prefix _ path

theorem above_front {path dir : List Component} (up : above path = some dir) : dir <+: path := by
  obtain ⟨front, before, rfl⟩ := Option.map_eq_some_iff.mp up
  rw [parent] at before
  split at before
  · cases before
  · cases before
  · cases before
    exact (trimmed_front _).trans ((List.dropLast_prefix _).trans (trimmed_front path))

theorem resolve_append (front back : List Component) : resolve (front ++ back) = walk (resolve front) back :=
  List.foldl_append ..

theorem walk_concat (place : Place) (front : List Component) (last : Component) :
    walk place (front ++ [last]) = enter (walk place front) last := List.foldl_concat ..

theorem resolve_trimmed (path : List Component) : resolve (trimmed path) = resolve path := by
  induction path using List.reverseRecOn with
  | nil => rfl
  | append_singleton front last ih =>
    rw [trimmed, List.rdropWhile_concat]
    split
    next dot =>
      obtain rfl : last = .curDir := by simpa using dot
      rw [resolve_append]
      exact ih
    next => rfl

theorem resolve_pathOf (place : Place) : resolve (pathOf place) = place := by
  rw [resolve, pathOf, walk, List.foldl_cons]
  change walk [] (place.map .normal) = place
  induction place using List.reverseRecOn with
  | nil => rfl
  | append_singleton front name ih =>
    rw [List.map_append, List.map_singleton, walk_concat, ih]
    rfl

-- What is joined to a directory: one part after the other, an absolute one in place of all before.
structure Route where
  absolute : Bool
  steps : List Component

namespace Route

def push (route : Route) (part : List Char) : Route :=
  if isAbsolute part then ⟨true, stepsOf part⟩ else ⟨route.absolute, route.steps ++ stepsOf part⟩

def ofParts (parts : List (List Char)) : Route := parts.foldl push ⟨false, []⟩

def up (route : Route) : Route := { route with steps := trimmed route.steps.dropLast }

def start (route : Route) (base : List Component) : List Component :=
  if route.absolute then [.rootDir] else base

def onto (route : Route) (base : List Component) : List Component := route.start base ++ route.steps

theorem trimmed_start (route : Route) (dir : Place) :
    trimmed (route.start (pathOf dir)) = route.start (pathOf dir) := by
  rw [start]
  split
  · rfl
  · exact trimmed_pathOf dir

theorem onto_push (route : Route) (base : List Component) (part : List Char) :
    (route.push part).onto base = UnixPath.push (route.onto base) part := by
  rw [push, UnixPath.push]
  split
  next => rfl
  next => simp only [onto, start, List.append_assoc]

theorem ofParts_onto (parts : List (List Char)) (base : List Component) :
    (ofParts parts).onto base = parts.foldl UnixPath.push base := by
  induction parts using List.reverseRecOn with
  | nil => simp [ofParts, onto, start]
  | append_singleton front part ih =>
    rw [List.foldl_concat, ← ih, ← onto_push]
    simp only [ofParts, List.foldl_concat]

theorem steps_push_concat (route : Route) {part : List Char} {steps : List Component} {name : List Char}
    (ends : stepsOf part = steps ++ [.normal name]) :
    ∃ steps, (route.push part).steps = steps ++ [.normal name] := by
  rw [push]
  split
  next => exact ⟨steps, ends⟩
  next => exact ⟨route.steps ++ steps, by rw [ends, List.append_assoc]⟩

theorem rootless_push {route : Route} (rootless : .rootDir ∉ route.steps) (part : List Char) :
    .rootDir ∉ (route.push part).steps := by
  rw [push]
  split
  next => exact rootDir_not_mem_stepsOf part
  next => simp [rootless, rootDir_not_mem_stepsOf part]

theorem rootless_ofParts (parts : List (List Char)) : .rootDir ∉ (ofParts parts).steps := by
  induction parts using List.reverseRecOn with
  | nil => exact List.not_mem_nil
  | append_singleton front part ih =>
    rw [ofParts, List.foldl_concat]
    exact rootless_push ih part

end Route

-- How far up the steps go, and the names that they have then.
structure Climb where
  ups : Nat
  names : Place

def Climb.enter (climb : Climb) : Component → Climb
  | .rootDir | .curDir => climb
  | .parentDir => if climb.names = [] then { climb with ups := climb.ups + 1 } else
    { climb with names := climb.names.dropLast }
  | .normal name => { climb with names := climb.names ++ [name] }

def climb (steps : List Component) : Climb := steps.foldl Climb.enter ⟨0, []⟩

theorem climb_concat (front : List Component) (last : Component) :
    climb (front ++ [last]) = (climb front).enter last := List.foldl_concat ..

theorem walk_eq_climb (place : Place) (steps : List Component) (rootless : .rootDir ∉ steps) :
    walk place steps = place.take (place.length - (climb steps).ups) ++ (climb steps).names := by
  induction steps using List.reverseRecOn with
  | nil => simp [walk, climb]
  | append_singleton front last ih =>
    rw [List.mem_append, not_or] at rootless
    have before := ih rootless.1
    rw [walk_concat, before, climb_concat]
    cases last with
    | rootDir => exact absurd (List.mem_singleton_self _) rootless.2
    | curDir => rfl
    | normal name => simp [enter, Climb.enter]
    | parentDir =>
      simp only [enter, Climb.enter]
      split
      next none =>
        rw [none, List.append_nil, List.append_nil, List.dropLast_eq_take, List.take_take, List.length_take]
        congr 1
        change min _ _ = place.length - ((climb front).ups + 1)
        omega
      next some => rw [List.dropLast_append_of_ne_nil some]

section Stores

variable {dir place : Place} {route : Route}

def Below (dir place : Place) : Prop := ∃ more, more ≠ [] ∧ place = dir ++ more

def Near (dir place : Place) : Prop := place <+: dir ∨ dir <+: place

def Route.wayBack (route : Route) (dir : Place) : Place :=
  dir.drop ((if route.absolute then 0 else dir.length) - (climb route.steps).ups)

def Route.Enters (route : Route) (dir : Place) : Prop :=
  ∃ more, more ≠ [] ∧ (climb route.steps).names = route.wayBack dir ++ more

def Route.StaysNear (route : Route) (dir : Place) : Prop :=
  (climb route.steps).names <+: route.wayBack dir ∨ route.wayBack dir <+: (climb route.steps).names

theorem resolve_onto (rootless : .rootDir ∉ route.steps) (dir : Place) :
    ∃ front, dir = front ++ route.wayBack dir ∧
      resolve (route.onto (pathOf dir)) = front ++ (climb route.steps).names := by
  rw [Route.wayBack, Route.onto, Route.start]
  cases route.absolute with
  | true =>
    refine ⟨[], by simp, ?_⟩
    have walked := walk_eq_climb [] route.steps rootless
    rw [List.take_nil] at walked
    exact walked
  | false =>
    refine ⟨dir.take (dir.length - (climb route.steps).ups), by simp, ?_⟩
    have walked := walk_eq_climb dir route.steps rootless
    simp only [Bool.false_eq_true, if_false]
    rw [resolve_append, resolve_pathOf]
    exact walked

theorem resolve_onto_eq_iff (rootless : .rootDir ∉ route.steps) (dir more : Place) :
    resolve (route.onto (pathOf dir)) = dir ++ more ↔ (climb route.steps).names = route.wayBack dir ++ more := by
  obtain ⟨front, split, resolved⟩ := resolve_onto rootless dir
  rw [resolved]
  generalize route.wayBack dir = back at split ⊢
  subst split
  rw [List.append_assoc, List.append_cancel_left_eq]

theorem near_onto_iff (rootless : .rootDir ∉ route.steps) (dir : Place) :
    Near dir (resolve (route.onto (pathOf dir))) ↔ route.StaysNear dir := by
  obtain ⟨front, split, resolved⟩ := resolve_onto rootless dir
  rw [Near, resolved, Route.StaysNear]
  generalize route.wayBack dir = back at split ⊢
  subst split
  rw [List.prefix_append_right_inj, List.prefix_append_right_inj]

theorem resolve_front {path : List Component} (front : path <+: pathOf dir) : resolve path <+: dir := by
  rw [pathOf, List.prefix_cons_iff] at front
  rcases front with rfl | ⟨rest, rfl, front⟩
  · exact List.nil_prefix
  · rw [List.prefix_iff_eq_take, ← List.map_take] at front
    rw [front]
    change resolve (pathOf _) <+: dir
    rw [resolve_pathOf]
    exact List.take_prefix ..

theorem prefix_onto_cases {path base : List Component} (front : path <+: route.onto base) :
    path <+: route.start base ∨ ∃ back last, path = route.start base ++ (back ++ [last]) ∧
      back ++ [last] <+: route.steps := by
  rcases List.prefix_or_prefix_of_prefix front (List.prefix_append _ _) with early | ⟨rest, rfl⟩
  · exact .inl early
  · rw [Route.onto, List.prefix_append_right_inj] at front
    rcases List.eq_nil_or_concat' rest with rfl | ⟨back, last, rfl⟩
    · exact .inl (by simp)
    · exact .inr ⟨back, last, rfl, front⟩

theorem start_front (dir : Place) : route.start (pathOf dir) <+: pathOf dir := by
  rw [Route.start]
  split
  · exact ⟨_, rfl⟩
  · exact List.prefix_rfl

theorem resolve_name (path : List Component) (name : List Char) :
    resolve (path ++ [.normal name]) = resolve path ++ [name] := walk_concat [] path (.normal name)

theorem below_concat (front : dir <+: place) (name : List Char) : Below dir (place ++ [name]) := by
  obtain ⟨more, rfl⟩ := front
  exact ⟨more ++ [name], by simp, by rw [List.append_assoc]⟩

theorem prefix_of_below_concat {name : List Char} (below : Below dir (place ++ [name])) : dir <+: place := by
  obtain ⟨more, present, same⟩ := below
  rcases List.eq_nil_or_concat' more with rfl | ⟨front, last, rfl⟩
  · exact absurd rfl present
  · rw [← List.append_assoc] at same
    rw [(List.append_inj' same rfl).1]
    exact List.prefix_append dir front

end Stores

end Shared.UnixPath
