import AtomrAgents.Host.Stores
import AtomrAgents.Shared.FileTree

set_option autoImplicit false

namespace AtomrAgents

open Shared.UnixPath

def Disk.Has (disk : Disk) (dir : Place) : Prop := ∀ place, place <+: dir → disk.entry place = some .dir

def Clean (dir : Place) : Prop := ∀ name ∈ dir, '\x00' ∉ name

def Disk.Confines (disk : Disk) (dir : Place) (action : FileAction) : Prop :=
  ∀ place ∈ disk.touches action, Below dir place

def FileAction.Confined (dir : Place) (action : FileAction) : Prop :=
  ∀ disk : Disk, disk.Has dir → disk.Confines dir action

-- Every directory that is made is below the store or leads to it.
def CreatesInside (dir : Place) (route : Route) : Prop :=
  hasNul route.steps = true ∨ ∀ front name, front ++ [.normal name] <+: route.steps →
    isMade route.steps (front ++ [.normal name]) = true →
    (Route.mk route.absolute (front ++ [.normal name])).StaysNear dir

def WritesInside (dir : Place) (route : Route) : Prop := hasNul route.steps = true ∨ route.StaysNear dir

-- The store itself may be emptied, but not removed.
def RemovesInside (dir : Place) (route : Route) : Prop :=
  hasNul route.steps = true ∨ ∃ more, (endsInName (route.onto (pathOf dir)) = true → more ≠ []) ∧
    (climb route.steps).names = route.wayBack dir ++ more

def entryAt (dirs files : List Place) (place : Place) : Option DiskEntry :=
  if dirs.any fun dir => place <+: dir then some .dir
  else if place ∈ files then some .file
  else none

def diskAt (dirs files : List Place) : Disk where
  entry := entryAt dirs files
  children place := (dirs.flatMap List.inits ++ files).filterMap (nameIn place)
  listed place name := by
    simp only [List.mem_filterMap, nameIn_eq_some_iff, exists_eq_right, List.mem_append, List.mem_flatMap,
      List.mem_inits, entryAt, List.any_eq_true, decide_eq_true_eq]
    split
    next dir => simp [dir]
    next other =>
      split
      next file => simp [file]
      next absent => simpa [absent] using other

section Actions

variable {dir place : Place} {route : Route} {disk : Disk}

theorem diskAt_dir_iff {dirs files : List Place} :
    (diskAt dirs files).entry place = some .dir ↔ ∃ dir ∈ dirs, place <+: dir := by
  simp only [diskAt, entryAt]
  split
  next there => simpa using there
  next other =>
    rw [List.any_eq_true] at other
    simp only [decide_eq_true_eq] at other
    simp only [other, iff_false]
    split
    · simp
    · simp

theorem diskAt_file {dirs files : List Place} (off : ∀ dir ∈ dirs, ¬place <+: dir) (file : place ∈ files) :
    (diskAt dirs files).entry place = some .file := by
  simp only [diskAt, entryAt]
  rw [if_neg, if_pos file]
  simpa using off

theorem not_prefix_dropLast (off : ¬place <+: dir) : ¬place <+: place.dropLast := by
  intro front
  refine off ?_
  have shorter := front.length_le
  rw [List.length_dropLast] at shorter
  rw [List.length_eq_zero_iff.mp (by omega : place.length = 0)]
  exact List.nil_prefix

theorem diskAt_has {dir near : Place} {dirs files : List Place} (present : near ∈ dirs) (front : dir <+: near) :
    (diskAt dirs files).Has dir :=
  fun _ before => diskAt_dir_iff.mpr ⟨near, present, before.trans front⟩

theorem Below.near (below : Below dir place) : Near dir place := by
  obtain ⟨more, -, rfl⟩ := below
  exact .inr (List.prefix_append dir more)

theorem below_of_near (near : Near dir place) (off : ¬place <+: dir) : Below dir place := by
  rcases near with above | ⟨more, rfl⟩
  · exact absurd above off
  · refine ⟨more, ?_, rfl⟩
    rintro rfl
    exact off (by simp)

theorem not_prefix_of_entry (has : disk.Has dir) (other : disk.entry place ≠ some .dir) : ¬place <+: dir :=
  fun front => other (has place front)

theorem hasNul_append (front back : List Component) : hasNul (front ++ back) = (hasNul front || hasNul back) :=
  List.any_append

theorem hasNul_pathOf (clean : Clean dir) : hasNul (pathOf dir) = false := by
  rw [hasNul, List.any_eq_false]
  intro component member
  rw [pathOf, List.mem_cons] at member
  rcases member with rfl | member
  · exact Bool.false_ne_true
  · obtain ⟨name, present, rfl⟩ := List.mem_map.mp member
    simpa [Component.hasNul] using clean name present

theorem hasNul_onto (clean : Clean dir) (route : Route) :
    hasNul (route.onto (pathOf dir)) = hasNul route.steps := by
  rw [Route.onto, Route.start, hasNul_append]
  cases route.absolute with
  | true => rfl
  | false =>
    simp only [Bool.false_eq_true, if_false]
    rw [hasNul_pathOf clean, Bool.false_or]

theorem isMade_onto (route : Route) (dir : Place) (front : List Component) (name : List Char) :
    isMade (route.onto (pathOf dir)) (route.start (pathOf dir) ++ (front ++ [.normal name])) =
      isMade route.steps (front ++ [.normal name]) := by
  have ends : endsInName (route.start (pathOf dir) ++ (front ++ [.normal name])) =
      endsInName (front ++ [.normal name]) := by
    rw [← List.append_assoc, endsInName, endsInName, List.getLast?_concat, List.getLast?_concat]
  rw [isMade, isMade, ends, Route.onto, trimmed_append (route.trimmed_start dir)]
  simp only [ne_eq, List.append_cancel_left_eq]

theorem mem_touches_createDirAll {path : List Component} :
    place ∈ disk.touches (.createDirAll path) ↔ hasNul path = false ∧ disk.entry place = none ∧
      ∃ front name, front ++ [.normal name] <+: path ∧ isMade path (front ++ [.normal name]) = true ∧
        resolve (front ++ [.normal name]) = place := by
  simp only [Disk.touches]
  split
  next nul => simp [nul]
  next clear =>
    have clear : hasNul path = false := by simpa using clear
    simp only [List.mem_filter, List.mem_map, List.mem_inits, decide_eq_true_eq, clear, true_and]
    constructor
    · rintro ⟨⟨part, ⟨front, made⟩, rfl⟩, absent⟩
      refine ⟨absent, ?_⟩
      have named := (Bool.and_eq_true_iff.mp made).1
      simp only [endsInName] at named
      split at named
      next last =>
        obtain ⟨start, rfl⟩ := List.getLast?_eq_some_iff.mp last
        exact ⟨start, _, front, made, rfl⟩
      next => cases named
    · rintro ⟨absent, front, name, early, made, rfl⟩
      exact ⟨⟨_, ⟨early, made⟩, rfl⟩, absent⟩

theorem write_confined_iff (clean : Clean dir) (rootless : .rootDir ∉ route.steps) (body : String) :
    FileAction.Confined dir (.write (route.onto (pathOf dir)) body) ↔ WritesInside dir route := by
  rw [WritesInside, ← hasNul_onto clean route, ← near_onto_iff rootless]
  generalize route.onto (pathOf dir) = path
  constructor
  · intro confined
    by_cases nul : hasNul path = true
    · exact .inl nul
    · right
      by_cases front : resolve path <+: dir
      · exact .inl front
      · have has : (diskAt [dir, (resolve path).dropLast] []).Has dir :=
          diskAt_has List.mem_cons_self List.prefix_rfl
        have free : (diskAt [dir, (resolve path).dropLast] []).entry (resolve path) ≠ some .dir := by
          rw [Ne, diskAt_dir_iff]
          simpa [front] using not_prefix_dropLast front
        refine Below.near (confined _ has (resolve path) ?_)
        simp [Disk.touches, Disk.isDir, nul, free]
  · intro inside disk has place touched
    simp only [Disk.touches] at touched
    split at touched
    next => cases touched
    next free =>
      rw [List.mem_singleton.mp touched]
      simp only [Disk.isDir, Bool.or_eq_true, Bool.and_eq_true, Bool.not_eq_true', decide_eq_true_eq,
        not_or, not_and] at free
      have near := inside.resolve_left free.1
      exact below_of_near near (not_prefix_of_entry has (free.2 (by simpa using free.1)))

theorem isFile_below (clean : Clean dir) (rootless : .rootDir ∉ route.steps) (inside : WritesInside dir route)
    (has : disk.Has dir) (file : disk.isFile (route.onto (pathOf dir)) = true) :
    Below dir (resolve (route.onto (pathOf dir))) := by
  rw [WritesInside, ← hasNul_onto clean route, ← near_onto_iff rootless] at inside
  simp only [Disk.isFile, Bool.and_eq_true, Bool.not_eq_true', decide_eq_true_eq] at file
  have near := inside.resolve_left (by simp [file.1])
  exact below_of_near near (not_prefix_of_entry has (by simp [file.2]))

theorem removeFile_confined_iff (clean : Clean dir) (rootless : .rootDir ∉ route.steps) :
    FileAction.Confined dir (.removeFile (route.onto (pathOf dir))) ↔ WritesInside dir route := by
  constructor
  · intro confined
    rw [WritesInside, ← hasNul_onto clean route, ← near_onto_iff rootless]
    generalize route.onto (pathOf dir) = path at confined ⊢
    by_cases nul : hasNul path = true
    · exact .inl nul
    · right
      by_cases front : resolve path <+: dir
      · exact .inl front
      · have has : (diskAt [dir, (resolve path).dropLast] [resolve path]).Has dir :=
          diskAt_has List.mem_cons_self List.prefix_rfl
        have file : (diskAt [dir, (resolve path).dropLast] [resolve path]).entry (resolve path) = some .file :=
          diskAt_file (by simpa [front] using not_prefix_dropLast front) (List.mem_singleton_self _)
        refine Below.near (confined _ has (resolve path) ?_)
        simp [Disk.touches, Disk.isFile, nul, file]
  · intro inside disk has place touched
    simp only [Disk.touches] at touched
    split at touched
    next file =>
      rw [List.mem_singleton.mp touched]
      exact isFile_below clean rootless inside has file
    next => cases touched

theorem mem_touches_removeDirAll {path : List Component} : place ∈ disk.touches (.removeDirAll path) ↔
    hasNul path = false ∧ disk.entry (resolve path) = some .dir ∧
      (endsInName path = true ∧ place = resolve path ∨ endsInName path = false ∧
        ∃ name, disk.entry (resolve path ++ [name]) ≠ none ∧ place = resolve path ++ [name]) := by
  simp only [Disk.touches]
  split
  next other =>
    simp only [List.not_mem_nil, false_iff]
    rintro ⟨clear, there, -⟩
    simp [Disk.isDir, clear, there] at other
  next dir =>
    have dir : hasNul path = false ∧ disk.entry (resolve path) = some .dir := by simpa [Disk.isDir] using dir
    rw [← and_assoc, and_iff_right dir]
    cases named : endsInName path with
    | true => simp
    | false => simp [disk.listed, eq_comm]

theorem removeDirAll_confined_iff (clean : Clean dir) (rootless : .rootDir ∉ route.steps) :
    FileAction.Confined dir (.removeDirAll (route.onto (pathOf dir))) ↔ RemovesInside dir route := by
  have leads (more : Place) := resolve_onto_eq_iff rootless dir more
  rw [RemovesInside, ← hasNul_onto clean route]
  simp only [← leads]
  generalize route.onto (pathOf dir) = path
  constructor
  · intro confined
    by_cases nul : hasNul path = true
    · exact .inl nul
    · right
      -- There the directory has one entry.
      let disk := diskAt [dir, resolve path ++ [['x']]] []
      have has : disk.Has dir := diskAt_has List.mem_cons_self List.prefix_rfl
      have there : disk.entry (resolve path) = some .dir :=
        diskAt_dir_iff.mpr ⟨_, List.mem_cons_of_mem _ (List.mem_singleton_self _), List.prefix_append _ _⟩
      have entry : disk.entry (resolve path ++ [['x']]) = some .dir :=
        diskAt_dir_iff.mpr ⟨_, List.mem_cons_of_mem _ (List.mem_singleton_self _), List.prefix_rfl⟩
      have clear : hasNul path = false := by simpa using nul
      cases named : endsInName path with
      | true =>
        obtain ⟨more, present, same⟩ :=
          confined disk has _ (mem_touches_removeDirAll.mpr ⟨clear, there, .inl ⟨named, rfl⟩⟩)
        exact ⟨more, fun _ => present, same⟩
      | false =>
        have emptied : Below dir (resolve path ++ [['x']]) := by
          refine confined disk has _ (mem_touches_removeDirAll.mpr ⟨clear, there, .inr ⟨named, _, ?_, rfl⟩⟩)
          simp [entry]
        obtain ⟨more, same⟩ := prefix_of_below_concat emptied
        exact ⟨more, fun named => (by cases named), same.symm⟩
  · intro inside disk _ place touched
    obtain ⟨clear, -, kind⟩ := mem_touches_removeDirAll.mp touched
    obtain ⟨more, present, same⟩ := inside.resolve_left (by simp [clear])
    rcases kind with ⟨named, rfl⟩ | ⟨-, name, -, rfl⟩
    · exact ⟨more, present named, same⟩
    · exact below_concat ⟨more, same.symm⟩ name

theorem createDirAll_confined_iff (clean : Clean dir) (rootless : .rootDir ∉ route.steps) :
    FileAction.Confined dir (.createDirAll (route.onto (pathOf dir))) ↔ CreatesInside dir route := by
  -- A directory on the route is the route cut short there.
  have nearby (front : List Component) (name : List Char) (early : front ++ [.normal name] <+: route.steps) :
      Near dir (resolve (route.start (pathOf dir) ++ (front ++ [.normal name]))) ↔
        (Route.mk route.absolute (front ++ [.normal name])).StaysNear dir := by
    let part : Route := ⟨route.absolute, front ++ [.normal name]⟩
    have rootless : .rootDir ∉ part.steps := fun root => rootless (early.subset root)
    exact near_onto_iff rootless dir
  constructor
  · intro confined
    by_cases nul : hasNul route.steps = true
    · exact .inl nul
    · refine .inr fun front name early made => (nearby front name early).mp ?_
      by_cases before : resolve (route.start (pathOf dir) ++ (front ++ [.normal name])) <+: dir
      · exact .inl before
      · have has : (diskAt [dir] []).Has dir := diskAt_has (List.mem_singleton_self _) List.prefix_rfl
        refine Below.near (confined _ has _ ?_)
        rw [mem_touches_createDirAll, hasNul_onto clean]
        refine ⟨by simpa using nul, by simp [diskAt, entryAt, before], route.start (pathOf dir) ++ front, name, ?_, ?_,
          ?_⟩
        · rw [List.append_assoc]
          exact (List.prefix_append_right_inj _).mpr early
        · rw [List.append_assoc, isMade_onto]
          exact made
        · rw [List.append_assoc]
  · intro inside disk has place touched
    obtain ⟨clear, absent, front, name, early, made, rfl⟩ := mem_touches_createDirAll.mp touched
    rw [hasNul_onto clean] at clear
    have off := not_prefix_of_entry has (by rw [absent]; simp)
    rcases prefix_onto_cases early with before | ⟨back, last, same, early⟩
    · exact absurd (resolve_front (before.trans (start_front dir))) off
    · rw [← List.append_assoc] at same
      obtain ⟨rfl, ending⟩ := List.append_inj' same rfl
      obtain rfl := List.singleton_inj.mp ending
      rw [List.append_assoc, isMade_onto] at made
      have close := inside.resolve_left (by simp [clear]) back name early made
      rw [← nearby back name early, ← List.append_assoc] at close
      exact below_of_near close off

end Actions

end AtomrAgents
