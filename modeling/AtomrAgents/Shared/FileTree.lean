import AtomrAgents.Shared.FileNames
import AtomrAgents.Shared.LexicalPath
import AtomrAgents.Shared.Table

set_option autoImplicit false

/-! Directories and files below a root, and the calls of `std::fs` on paths. A path leads only through
directories that there are; what a call has created before it fails stays. -/

namespace Shared.UnixPath

inductive Node where
  | file (body : String)
  | dir
  deriving DecidableEq

structure FileTree where
  nodes : Table (Prod.fst : Place × Node → Place)

-- No system call takes a path with a zero in it.
def isTaken (path : List Component) : Bool :=
  path.all fun
    | .normal name => !name.contains '\x00'
    | _ => true

def nameIn (dir place : Place) : Option (List Char) := if place.dropLast = dir then place.getLast? else none

namespace FileTree

def empty : FileTree := { nodes := .empty }

variable (tree : FileTree)

def node (place : Place) : Option Node :=
  if place = [] then some .dir else (tree.nodes.find place).map Prod.snd

def put (place : Place) (node : Node) : FileTree := { nodes := tree.nodes.upsert (place, node) }

def remove (place : Place) : FileTree := { nodes := tree.nodes.delete place }

-- `read_dir`, in no order that the callers rely on.
def children (dir : Place) : List (List Char) := (tree.nodes.rows.map Prod.fst).filterMap (nameIn dir)

def reach : Place → List Component → Option Place
  | place, [] => some place
  | place, .normal name :: steps =>
    if tree.node (place ++ [name]) = some .dir then reach (place ++ [name]) steps else none
  | place, step :: steps => reach (enter place step) steps

def isDir (path : List Component) : Bool := isTaken path && (tree.reach [] path).isSome

def locate (path : List Component) : Option Place :=
  if isTaken path then
    match path.getLast? with
    | some (.normal name) => (tree.reach [] path.dropLast).map (· ++ [name])
    | _ => none
  else none

def read (path : List Component) : Option String :=
  match (tree.locate path).bind tree.node with
  | some (.file body) => some body
  | _ => none

def write (path : List Component) (body : String) : FileTree × Bool :=
  match tree.locate path with
  | some place => if tree.node place = some .dir then (tree, false) else (tree.put place (.file body), true)
  | none => (tree, false)

def removeFile (path : List Component) : FileTree × Bool :=
  match tree.locate path with
  | some place => if (tree.read path).isSome then (tree.remove place, true) else (tree, false)
  | none => (tree, false)

def onlyDots (steps : List Component) : Bool := steps ≠ [] && steps.all (· = .curDir)

def createFrom : FileTree → Place → List Component → FileTree × Bool
  | tree, _, [] => (tree, true)
  | tree, place, .normal name :: steps =>
    match tree.node (place ++ [name]) with
    | some .dir => createFrom tree (place ++ [name]) steps
    | some (.file _) => (tree, false)
    -- A directory that is missing is not made under a path that ends in `.`.
    | none => if onlyDots steps then (tree, false) else
      createFrom (tree.put (place ++ [name]) .dir) (place ++ [name]) steps
  | tree, place, step :: steps => createFrom tree (enter place step) steps

def createDirAll (path : List Component) : FileTree × Bool :=
  if isTaken path then createFrom tree [] path else (tree, false)

def copy (source path : List Component) : FileTree × Bool :=
  match tree.read source with
  | some body => tree.write path body
  | none => (tree, false)

def without (gone : Place → Bool) : FileTree where
  nodes := {
    rows := tree.nodes.rows.filter fun row => !gone row.1
    unique := tree.nodes.unique.sublist (List.filter_sublist.map Prod.fst) }

-- `rmdir` takes no path that ends in `.` or `..`, nor the root, so such a directory is only emptied. That is an
-- error unless the way to it has gone.
def removeDirAll (path : List Component) : FileTree × Bool :=
  match tree.isDir path, tree.reach [] path with
  | true, some dir =>
    if endsInName path then (tree.without fun place => dir <+: place, true)
    else
      let emptied := tree.without fun place => dir <+: place ∧ place ≠ dir
      (emptied, !emptied.isDir path)
  | _, _ => (tree, false)

end FileTree

theorem nameIn_eq_some_iff {dir place : Place} {name : List Char} :
    nameIn dir place = some name ↔ place = dir ++ [name] := by
  rw [nameIn]
  constructor
  · intro found
    split at found
    next same =>
      obtain ⟨front, rfl⟩ := List.getLast?_eq_some_iff.mp found
      rw [← same, List.dropLast_concat]
    next => cases found
  · rintro rfl
    rw [List.dropLast_concat, if_pos rfl, List.getLast?_concat]

namespace FileTree

variable {tree grown : FileTree} {place dir : Place} {path steps : List Component}

theorem node_put (place other : Place) (name : List Char) (node : Node) :
    (tree.put (place ++ [name]) node).node other = if other = place ++ [name] then some node else tree.node other := by
  by_cases root : other = []
  · subst root
    simp [FileTree.node]
  · rw [FileTree.node, if_neg root, put, Table.find_upsert, FileTree.node, if_neg root]
    by_cases same : other = place ++ [name]
    · simp [same]
    · simp [same, Ne.symm same]

theorem node_remove (place other : Place) (name : List Char) :
    (tree.remove (place ++ [name])).node other = if other = place ++ [name] then none else tree.node other := by
  by_cases root : other = []
  · subst root
    simp [FileTree.node]
  · rw [FileTree.node, if_neg root, remove, Table.find_delete, FileTree.node, if_neg root]
    split
    · rfl
    · rfl

theorem mem_children {name : List Char} : name ∈ tree.children dir ↔ tree.node (dir ++ [name]) ≠ none := by
  have named : dir ++ [name] ≠ [] := by simp
  rw [children, FileTree.node, if_neg named, List.mem_filterMap, ← Option.isSome_iff_ne_none, Option.isSome_map,
    Option.isSome_iff_exists]
  constructor
  · rintro ⟨place, member, within⟩
    obtain ⟨row, stored, rfl⟩ := List.mem_map.mp member
    exact ⟨row, Table.find_eq_some_iff.mpr ⟨stored, nameIn_eq_some_iff.mp within⟩⟩
  · rintro ⟨row, found⟩
    obtain ⟨stored, same⟩ := Table.find_eq_some_iff.mp found
    exact ⟨row.1, List.mem_map_of_mem stored, nameIn_eq_some_iff.mpr same⟩

theorem children_nodup : (tree.children dir).Nodup := by
  refine tree.nodes.unique.filterMap fun place other name here there => ?_
  rw [nameIn_eq_some_iff.mp here, nameIn_eq_some_iff.mp there]

def Grows (tree grown : FileTree) (fresh : Place → Prop) : Prop :=
  ∀ place, grown.node place = tree.node place ∨
    tree.node place = none ∧ grown.node place = some .dir ∧ fresh place

def KeepsDirs (tree grown : FileTree) : Prop :=
  ∀ place, tree.node place = some .dir → grown.node place = some .dir

theorem Grows.node_of_some {fresh : Place → Prop} (grows : Grows tree grown fresh) {node : Node}
    (here : tree.node place = some node) : grown.node place = some node := by
  rcases grows place with same | ⟨absent, -, -⟩
  · rw [same, here]
  · rw [here] at absent
    cases absent

theorem Grows.keepsDirs {fresh : Place → Prop} (grows : Grows tree grown fresh) : KeepsDirs tree grown :=
  fun _ here => grows.node_of_some here

theorem reach_eq_walk (found : tree.reach place steps = some dir) : dir = walk place steps := by
  induction steps generalizing place with
  | nil =>
    cases found
    rfl
  | cons step steps ih =>
    cases step with
    | normal name =>
      rw [reach] at found
      split at found
      next => exact ih found
      next => cases found
    | rootDir | curDir | parentDir => exact ih found

theorem reach_of_keepsDirs (keeps : KeepsDirs tree grown) (found : tree.reach place steps = some dir) :
    grown.reach place steps = some dir := by
  induction steps generalizing place with
  | nil => exact found
  | cons step steps ih =>
    cases step with
    | normal name =>
      rw [reach] at found ⊢
      split at found
      next entered => rw [if_pos (keeps _ entered), ih found]
      next => cases found
    | rootDir | curDir | parentDir => exact ih found

def Passes (place : Place) (steps : List Component) (through : Place) : Prop :=
  ∃ front name, front ++ [.normal name] <+: steps ∧ walk place (front ++ [.normal name]) = through

theorem passes_cons {step : Component} {through : Place} (later : Passes (enter place step) steps through) :
    Passes place (step :: steps) through := by
  obtain ⟨front, name, early, rfl⟩ := later
  exact ⟨step :: front, name, List.cons_prefix_cons.mpr ⟨rfl, early⟩, rfl⟩

theorem passes_head (place : Place) (name : List Char) (steps : List Component) :
    Passes place (.normal name :: steps) (place ++ [name]) :=
  ⟨[], name, List.cons_prefix_cons.mpr ⟨rfl, List.nil_prefix⟩, rfl⟩

theorem grows_put {fresh : Place → Prop} {name : List Char} (absent : tree.node (place ++ [name]) = none)
    (new : fresh (place ++ [name])) : Grows tree (tree.put (place ++ [name]) .dir) fresh := by
  intro other
  rw [node_put]
  split
  next same => exact .inr ⟨same ▸ absent, rfl, same ▸ new⟩
  next => exact .inl rfl

theorem Grows.trans {last : FileTree} {fresh : Place → Prop} (first : Grows tree grown fresh)
    (second : Grows grown last fresh) : Grows tree last fresh := by
  intro place
  rcases second place with same | ⟨absent, made, new⟩
  · rw [same]
    exact first place
  · refine .inr ⟨?_, made, new⟩
    rcases first place with same | ⟨before, -, -⟩
    · rw [← same, absent]
    · exact before

theorem same_of_grows {fresh : Place → Prop} (grows : Grows tree grown fresh) {dir : Place}
    (outside : ∀ through, fresh through → ¬ Below dir through) (name : List Char) :
    grown.node (dir ++ [name]) = tree.node (dir ++ [name]) := by
  rcases grows (dir ++ [name]) with same | ⟨-, -, through⟩
  · exact same
  · exact absurd (below_concat List.prefix_rfl name) (outside _ through)

theorem createFrom_grows (tree : FileTree) (place : Place) (steps : List Component) :
    Grows tree (createFrom tree place steps).1 (Passes place steps) := by
  induction steps generalizing tree place with
  | nil => exact fun _ => .inl rfl
  | cons step steps ih =>
    have later (start : FileTree) : Grows start (createFrom start (enter place step) steps).1
        (Passes place (step :: steps)) :=
      fun other => (ih start (enter place step) other).imp_right
        fun ⟨absent, made, through⟩ => ⟨absent, made, passes_cons through⟩
    cases step with
    | normal name =>
      rw [createFrom]
      split
      next => exact later tree
      next => exact fun _ => .inl rfl
      next absent =>
        split
        next => exact fun _ => .inl rfl
        next => exact (grows_put absent (passes_head place name steps)).trans (later _)
    | rootDir | curDir | parentDir => exact later tree

theorem reach_createFrom (made : (createFrom tree place steps).2 = true) :
    (createFrom tree place steps).1.reach place steps = some (walk place steps) := by
  induction steps generalizing tree place with
  | nil => rfl
  | cons step steps ih =>
    cases step with
    | normal name =>
      have keeps (start : FileTree) := (createFrom_grows start (place ++ [name]) steps).keepsDirs
      rw [createFrom] at made ⊢
      split at made
      next there =>
        rw [reach, if_pos (keeps tree _ there)]
        exact ih made
      next => cases made
      next =>
        split at made
        next => cases made
        next more =>
          have new : (tree.put (place ++ [name]) .dir).node (place ++ [name]) = some .dir := by
            rw [node_put, if_pos rfl]
          rw [if_neg more, reach, if_pos (keeps _ _ new)]
          exact ih made
    | rootDir | curDir | parentDir => exact ih made

theorem createDirAll_grows (tree : FileTree) (path : List Component) :
    Grows tree (tree.createDirAll path).1 (Passes [] path) := by
  rw [createDirAll]
  split
  · exact createFrom_grows tree [] path
  · exact fun _ => .inl rfl

theorem reach_createDirAll (made : (tree.createDirAll path).2 = true) :
    isTaken path = true ∧ (tree.createDirAll path).1.reach [] path = some (resolve path) := by
  rw [createDirAll] at made ⊢
  split at made
  next taken =>
    rw [if_pos taken]
    exact ⟨taken, reach_createFrom made⟩
  next => cases made

theorem isTaken_concat (path : List Component) {name : List Char} (clean : '\x00' ∉ name) :
    isTaken (path ++ [.normal name]) = isTaken path := by
  simp [isTaken, clean]

theorem locate_concat {name : List Char} (taken : isTaken (path ++ [.normal name]) = true)
    (found : tree.reach [] path = some dir) : tree.locate (path ++ [.normal name]) = some (dir ++ [name]) := by
  rw [locate, if_pos taken, List.getLast?_concat, List.dropLast_concat, found]
  rfl

theorem isDir_iff : tree.isDir path = true ↔ isTaken path = true ∧ tree.reach [] path = some (resolve path) := by
  rw [isDir, Bool.and_eq_true, Option.isSome_iff_exists]
  constructor
  · rintro ⟨taken, dir, found⟩
    rw [found, reach_eq_walk found]
    exact ⟨taken, rfl⟩
  · exact fun ⟨taken, found⟩ => ⟨taken, _, found⟩

theorem locate_name {name : List Char} (entered : tree.isDir path = true) (clean : '\x00' ∉ name) :
    tree.locate (path ++ [.normal name]) = some (resolve path ++ [name]) := by
  obtain ⟨taken, found⟩ := isDir_iff.mp entered
  exact locate_concat (by rw [isTaken_concat path clean, taken]) found

theorem read_name {name : List Char} {body : String} (entered : tree.isDir path = true) (clean : '\x00' ∉ name)
    (stored : tree.node (resolve path ++ [name]) = some (.file body)) :
    tree.read (path ++ [.normal name]) = some body := by
  rw [read, locate_name entered clean, Option.bind_some, stored]

theorem removeFile_name {name : List Char} {body : String} (entered : tree.isDir path = true) (clean : '\x00' ∉ name)
    (stored : tree.node (resolve path ++ [name]) = some (.file body)) :
    tree.removeFile (path ++ [.normal name]) = (tree.remove (resolve path ++ [name]), true) := by
  simp only [removeFile, locate_name entered clean, read_name entered clean stored, Option.isSome_some, if_true]

theorem isDir_of_keepsDirs (keeps : KeepsDirs tree grown) (entered : tree.isDir path = true) :
    grown.isDir path = true := by
  rw [isDir_iff] at entered ⊢
  exact ⟨entered.1, reach_of_keepsDirs keeps entered.2⟩

theorem keepsDirs_put {name : List Char} {body : String} (free : tree.node (place ++ [name]) ≠ some .dir) :
    KeepsDirs tree (tree.put (place ++ [name]) (.file body)) := by
  intro other here
  rw [node_put, if_neg, here]
  rintro rfl
  exact free here

theorem keepsDirs_remove {name : List Char} (free : tree.node (place ++ [name]) ≠ some .dir) :
    KeepsDirs tree (tree.remove (place ++ [name])) := by
  intro other here
  rw [node_remove, if_neg, here]
  rintro rfl
  exact free here

theorem locate_eq_some (found : tree.locate path = some place) : isTaken path = true ∧
    ∃ front name dir, path = front ++ [.normal name] ∧ tree.reach [] front = some dir ∧ place = dir ++ [name] := by
  rw [locate] at found
  split at found
  next taken =>
    split at found
    next name last =>
      obtain ⟨front, rfl⟩ := List.getLast?_eq_some_iff.mp last
      rw [List.dropLast_concat] at found
      obtain ⟨dir, reached, rfl⟩ := Option.map_eq_some_iff.mp found
      exact ⟨taken, front, name, dir, rfl, reached, rfl⟩
    next => cases found
  next => cases found

theorem locate_of_keepsDirs (keeps : KeepsDirs tree grown)
    (found : tree.locate path = some place) : grown.locate path = some place := by
  obtain ⟨taken, front, name, dir, rfl, reached, rfl⟩ := locate_eq_some found
  exact locate_concat taken (reach_of_keepsDirs keeps reached)

theorem locate_eq_resolve (found : tree.locate path = some place) : place = resolve path := by
  obtain ⟨-, front, name, dir, rfl, reached, rfl⟩ := locate_eq_some found
  rw [resolve_name, reach_eq_walk reached]
  rfl

theorem read_eq_some {body : String} (found : tree.read path = some body) :
    tree.locate path = some (resolve path) ∧ tree.node (resolve path) = some (.file body) := by
  rw [read] at found
  split at found
  next stored =>
    obtain ⟨place, located, node⟩ := Option.bind_eq_some_iff.mp stored
    obtain rfl := locate_eq_resolve located
    cases found
    exact ⟨located, node⟩
  next => cases found

variable (tree path) in
theorem node_removeFile (other : Place) : (tree.removeFile path).1.node other = tree.node other ∨
    (tree.removeFile path).1.node other = none ∧ (∃ body, tree.node other = some (.file body)) ∧
      other = resolve path := by
  rw [removeFile]
  split
  next place located =>
    split
    next file =>
      obtain ⟨body, found⟩ := Option.isSome_iff_exists.mp file
      obtain ⟨front, name, dir, -, -, named⟩ := (locate_eq_some located).2
      have here := locate_eq_resolve located
      subst named
      rw [node_remove]
      split
      next same => exact .inr ⟨rfl, ⟨body, by rw [same, here, (read_eq_some found).2]⟩, same.trans here⟩
      next => exact .inl rfl
    next => exact .inl rfl
  next => exact .inl rfl

theorem write_done {body : String} (done : tree.write path body = (grown, true)) :
    ∃ dir name, resolve path = dir ++ [name] ∧ tree.node (dir ++ [name]) ≠ some .dir ∧
      tree.locate path = some (dir ++ [name]) ∧ grown = tree.put (dir ++ [name]) (.file body) := by
  rw [write] at done
  split at done
  next place located =>
    split at done
    next => cases done
    next free =>
      cases done
      obtain ⟨front, name, dir, -, -, named⟩ := (locate_eq_some located).2
      have here := locate_eq_resolve located
      subst named
      exact ⟨dir, name, here.symm, free, located, rfl⟩
  next => cases done

theorem copy_done {source : List Component} (done : tree.copy source path = (grown, true)) :
    ∃ body, tree.read source = some body ∧ tree.write path body = (grown, true) := by
  rw [copy] at done
  split at done
  next body found => exact ⟨body, found, done⟩
  next => cases done

structure IsName (name : List Char) : Prop where
  plain : Component.ofPiece name = some (.normal name)
  unseparated : '/' ∉ name
  clean : '\x00' ∉ name

def Named (tree : FileTree) : Prop := ∀ place, tree.node place ≠ none → ∀ name ∈ place, IsName name

def Nameable (path : List Component) : Prop := ∀ name, .normal name ∈ path → '\x00' ∉ name → IsName name

theorem nameable_names (text : List Char) : Nameable (names text) := by
  intro name member clean
  obtain ⟨piece, inside, same⟩ := List.mem_filterMap.mp member
  have plain : piece = name := by
    unfold Component.ofPiece at same
    split at same
    · cases same
    · split at same
      · cases same
      · exact Component.normal.inj (Option.some_inj.mp same)
  subst plain
  refine { plain := same, unseparated := fun there => ?_, clean }
  cases of_mem_splitOnP inside '/' there

theorem nameable_push {base : List Component} (nameable : Nameable base) (text : List Char) :
    Nameable (push base text) := by
  intro name member clean
  rw [push] at member
  split at member
  next =>
    rcases List.mem_cons.mp member with root | inside
    · cases root
    · exact nameable_names text name (normal_mem_stepsOf.mp inside) clean
  next =>
    rcases List.mem_append.mp member with before | inside
    · exact nameable name before clean
    · exact nameable_names text name (normal_mem_stepsOf.mp inside) clean

theorem isName_of_mem {dir : Place} {name : List Char} (named : Named tree) (member : name ∈ tree.children dir) :
    IsName name := named _ (mem_children.mp member) name List.mem_concat_self

theorem mem_walk {name : List Char} (member : name ∈ walk place steps) : name ∈ place ∨ .normal name ∈ steps := by
  induction steps generalizing place with
  | nil => exact .inl member
  | cons step steps ih =>
    rcases ih member with here | later
    · cases step with
      | rootDir => cases here
      | curDir => exact .inl here
      | parentDir => exact .inl (List.dropLast_subset _ here)
      | normal other =>
        rcases List.mem_append.mp here with before | new
        · exact .inl before
        · exact .inr (by rw [List.mem_singleton.mp new]; exact List.mem_cons_self)
    · exact .inr (List.mem_cons_of_mem _ later)

theorem isName_of_passes (nameable : Nameable path) (taken : isTaken path = true) {through : Place}
    (passes : Passes [] path through) : ∀ name ∈ through, IsName name := by
  obtain ⟨front, last, early, rfl⟩ := passes
  intro name member
  have inside : .normal name ∈ path := early.subset ((mem_walk member).resolve_left List.not_mem_nil)
  refine nameable name inside ?_
  have clean := List.all_eq_true.mp taken _ inside
  simpa using clean

theorem Named.of_grows {fresh : Place → Prop} (named : Named tree) (grows : Grows tree grown fresh)
    (new : ∀ through, fresh through → ∀ name ∈ through, IsName name) : Named grown := by
  intro place there
  rcases grows place with same | ⟨-, -, through⟩
  · exact named place (same ▸ there)
  · exact new place through

theorem Named.put {name : List Char} {node : Node} (named : Named tree) (new : ∀ n ∈ place ++ [name], IsName n) :
    Named (tree.put (place ++ [name]) node) := by
  intro other there
  rw [node_put] at there
  split at there
  next same => exact same ▸ new
  next => exact named other there

def Leads (tree : FileTree) (place : Place) : Prop := ∀ front, front <+: place → tree.node front = some .dir

theorem leads_root : Leads tree [] := by
  intro front early
  rw [List.prefix_nil.mp early]
  rfl

theorem leads_concat {name : List Char} (leads : Leads tree place) (last : tree.node (place ++ [name]) = some .dir) :
    Leads tree (place ++ [name]) := by
  intro front early
  rcases List.prefix_concat_iff.mp early with rfl | before
  · exact last
  · exact leads front before

theorem Leads.of_reach (leads : Leads tree place) (found : tree.reach place steps = some dir) : Leads tree dir := by
  induction steps generalizing place with
  | nil =>
    cases found
    exact leads
  | cons step steps ih =>
    cases step with
    | normal name =>
      rw [reach] at found
      split at found
      next entered => exact ih (leads_concat leads entered) found
      next => cases found
    | rootDir => exact ih leads_root found
    | curDir => exact ih leads found
    | parentDir => exact ih (fun front early => leads front (early.trans (List.dropLast_prefix place))) found

theorem reach_names (leads : Leads tree (place ++ dir)) :
    tree.reach place (dir.map .normal) = some (place ++ dir) := by
  induction dir generalizing place with
  | nil => simp [reach]
  | cons name dir ih =>
    have whole : place ++ name :: dir = place ++ [name] ++ dir := by simp
    rw [whole] at leads ⊢
    rw [List.map_cons, reach, if_pos (leads _ (List.prefix_append _ _))]
    exact ih leads

theorem isDir_pathOf (leads : Leads tree dir) (clean : ∀ name ∈ dir, '\x00' ∉ name) :
    tree.isDir (pathOf dir) = true := by
  rw [isDir_iff, resolve_pathOf]
  constructor
  · refine List.all_eq_true.mpr fun component member => ?_
    rcases List.mem_cons.mp member with rfl | member
    · rfl
    · obtain ⟨name, here, rfl⟩ := List.mem_map.mp member
      simpa using clean name here
  · have found : tree.reach [] (dir.map .normal) = some ([] ++ dir) := reach_names leads
    exact found

end FileTree

end Shared.UnixPath
