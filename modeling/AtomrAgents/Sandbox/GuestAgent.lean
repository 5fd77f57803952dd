import AtomrAgents.Shared.UnixPath

set_option autoImplicit false

/-! A path that the host sends is checked and joined to the root of the sandbox's file system. The check looks
for a leading `/` and for `..`; then every leading `./` is cut off. -/

namespace AtomrAgents

open Shared.UnixPath

namespace GuestAgent

def escapes (path : String) : Bool :=
  path.toList.head? == some '/' ||
    (path.toList.splitOnP fun c => c == '/' || c == '\\').any fun piece => piece == ['.', '.']

-- `trim_start_matches("./")`
def trimStart : List Char → List Char
  | '.' :: '/' :: path => trimStart path
  | path => path

def resolve (root path : String) : Except String String :=
  if escapes path then .error ("path escapes sandbox root: " ++ path)
  else .ok (String.ofList (join root.toList (trimStart path.toList)))

inductive FileOp where
  | createDirAll (dir : List Component)
  | write (path : String) (bytes : List UInt8)
  | read (path : String)

-- The path that the operation is about; nothing is created for the empty path.
def FileOp.touched : FileOp → Option (List Component)
  | .createDirAll dir => if dir = [] then none else some dir
  | .write path _ | .read path => some (components path.toList)

def handleWrite (root path : String) (bytes : List UInt8) (made wrote : Except String Unit) :
    List FileOp × Except String Unit :=
  match resolve root path with
  | .error e => ([], .error e)
  | .ok full =>
    let write := wrote.mapError ("write: " ++ ·)
    match parent (components full.toList) with
    | none => ([.write full bytes], write)
    | some dir =>
      match made with
      | .error e => ([.createDirAll dir], .error ("mkdir: " ++ e))
      | .ok () => ([.createDirAll dir, .write full bytes], write)

def handleRead (root path : String) (found : Except String (List UInt8)) :
    List FileOp × Except String (List UInt8) :=
  match resolve root path with
  | .error e => ([], .error e)
  | .ok full => ([.read full], found.mapError ("read: " ++ ·))

def WithinRoot (root : String) (path : List Component) : Prop := Within (components root.toList) path

-- What is accepted is within the root, and so is all that is done with it.
structure Confined (root path : String) : Prop where
  resolved : ∀ full, resolve root path = .ok full → WithinRoot root (components full.toList)
  written : ∀ bytes made wrote, ∀ op ∈ (handleWrite root path bytes made wrote).1,
    ∀ touched, op.touched = some touched → WithinRoot root touched
  read : ∀ found, ∀ op ∈ (handleRead root path found).1,
    ∀ touched, op.touched = some touched → WithinRoot root touched

-- One or more `./`, and then an absolute path.
def Rooted (path : String) (rest : List Char) : Prop :=
  ∃ n, path.toList = (List.replicate n ['.', '/']).flatten ++ '/' :: rest

def ParentWithin (root : String) (path : List Component) : Prop :=
  ∀ dir, parent path = some dir → dir ≠ [] → WithinRoot root dir

structure Sheltered (root path : String) : Prop where
  rooted : ∀ rest, Rooted path rest → WithinRoot root (components ('/' :: rest)) ∧
    ParentWithin root (components ('/' :: rest))
  relative : (∀ rest, ¬ Rooted path rest) → names path.toList = [] →
    ∀ dir, parent (components root.toList) = some dir → dir = []

variable {root path full : String}

theorem resolve_of_accepted (accepted : escapes path = false) :
    resolve root path = .ok (String.ofList (join root.toList (trimStart path.toList))) := by
  simp [resolve, accepted]

theorem up_not_mem (accepted : escapes path = false) : .parentDir ∉ names path.toList := by
  rw [parentDir_mem_names]
  intro member
  have plain : ∀ c ∈ ['.', '.'], (c == '\\') = false := by simp
  have split := Shared.mem_splitOnP_or member plain
  have found : (path.toList.splitOnP fun c => c == '/' || c == '\\').any
      (fun piece => piece == ['.', '.']) = true := List.any_eq_true.mpr ⟨_, split, by rfl⟩
  rw [escapes, found, Bool.or_true] at accepted
  cases accepted

theorem names_trimStart (path : List Char) : names (trimStart path) = names path := by
  fun_induction trimStart path with
  | case1 path ih =>
    rw [ih]
    exact (names_append ['.'] path).symm
  | case2 path _ => rfl

theorem trimStart_spec (path : List Char) :
    ∃ n, path = (List.replicate n ['.', '/']).flatten ++ trimStart path := by
  fun_induction trimStart path with
  | case1 path ih =>
    obtain ⟨n, same⟩ := ih
    exact ⟨n + 1, by simpa [List.replicate_succ] using same⟩
  | case2 path _ => exact ⟨0, rfl⟩

theorem trimStart_replicate (n : Nat) (rest : List Char) :
    trimStart ((List.replicate n ['.', '/']).flatten ++ '/' :: rest) = '/' :: rest := by
  induction n with
  | zero => rfl
  | succ n ih => simpa [List.replicate_succ, trimStart] using ih

theorem rooted_iff (path : String) (rest : List Char) :
    Rooted path rest ↔ trimStart path.toList = '/' :: rest := by
  constructor
  · rintro ⟨n, same⟩
    rw [same, trimStart_replicate]
  · intro trimmed
    obtain ⟨n, same⟩ := trimStart_spec path.toList
    rw [trimmed] at same
    exact ⟨n, same⟩

theorem confined_iff (accepted : resolve root path = .ok full) :
    Confined root path ↔
      WithinRoot root (components full.toList) ∧ ParentWithin root (components full.toList) := by
  constructor
  · intro confined
    refine ⟨confined.resolved full accepted, fun dir above some => ?_⟩
    apply confined.written [] (.ok ()) (.ok ()) (.createDirAll dir)
    · simp [handleWrite, accepted, above]
    · simp [FileOp.touched, some]
  · rintro ⟨within, parentWithin⟩
    constructor
    · intro other resolved
      rw [accepted] at resolved
      cases resolved
      exact within
    · intro bytes made wrote op member touched touches
      simp only [handleWrite, accepted] at member
      cases above : parent (components full.toList) with
      | none =>
        simp only [above, List.mem_singleton] at member
        subst member
        cases touches
        exact within
      | some dir =>
        have done : op = .createDirAll dir ∨ op = .write full bytes := by
          cases made <;> simp_all
        rcases done with rfl | rfl
        · simp only [FileOp.touched, Option.ite_none_left_eq_some, Option.some_inj] at touches
          obtain ⟨some, rfl⟩ := touches
          exact parentWithin dir above some
        · cases touches
          exact within
    · intro found op member touched touches
      simp only [handleRead, accepted, List.mem_singleton] at member
      subst member
      cases touches
      exact within

theorem confined_of_escapes (rejected : escapes path = true) : Confined root path := by
  have error : resolve root path = .error ("path escapes sandbox root: " ++ path) := by
    simp [resolve, rejected]
  constructor
  · intro full resolved
    rw [error] at resolved
    cases resolved
  · intro bytes made wrote op member
    simp [handleWrite, error] at member
  · intro found op member
    simp [handleRead, error] at member

theorem components_relative (root : String) (accepted : escapes path = false)
    (relative : isAbsolute (trimStart path.toList) = false) :
    ∃ rest, components (join root.toList (trimStart path.toList)) = components root.toList ++ rest ∧
      .parentDir ∉ rest ∧ .rootDir ∉ rest ∧ (rest = names path.toList ∨ root.toList = []) := by
  have up := up_not_mem accepted
  have plain := rootDir_not_mem_names path.toList
  rw [← names_trimStart] at up plain
  by_cases empty : root.toList = []
  · refine ⟨components (trimStart path.toList), ?_, ?_, ?_, .inr empty⟩
    · rw [empty, join_nil, components_nil, List.nil_append]
    · rcases leading_of_relative relative with none | here
      · simpa [components, none] using up
      · simpa [components, here] using up
    · rcases leading_of_relative relative with none | here
      · simpa [components, none] using plain
      · simpa [components, here] using plain
  · exact ⟨names (trimStart path.toList), components_join empty relative, up, plain,
      .inl (names_trimStart path.toList)⟩

theorem sheltered_iff_of_rooted {rest : List Char} (rooted : Rooted path rest) :
    Sheltered root path ↔
      WithinRoot root (components ('/' :: rest)) ∧ ParentWithin root (components ('/' :: rest)) := by
  constructor
  · intro sheltered
    exact sheltered.rooted rest rooted
  · intro within
    refine ⟨fun other also => ?_, fun not_rooted => absurd rooted (not_rooted rest)⟩
    have same := ((rooted_iff path rest).mp rooted).symm.trans ((rooted_iff path other).mp also)
    cases same
    exact within

theorem sheltered_iff_of_relative (accepted : escapes path = false)
    (relative : isAbsolute (trimStart path.toList) = false) :
    Sheltered root path ↔
      WithinRoot root (components (join root.toList (trimStart path.toList))) ∧
        ParentWithin root (components (join root.toList (trimStart path.toList))) := by
  have not_rooted : ∀ rest, ¬ Rooted path rest := by
    intro rest rooted
    rw [(rooted_iff path rest).mp rooted] at relative
    cases relative
  obtain ⟨rest, same, up, plain, named⟩ := components_relative root accepted relative
  rw [same]
  constructor
  · intro sheltered
    refine ⟨⟨rest, rfl, up, plain⟩, fun dir above some => ?_⟩
    by_cases present : rest = []
    · rw [present, List.append_nil] at above
      rcases named with names | empty
      · exact absurd (sheltered.relative not_rooted (names.symm.trans present) dir above) some
      · rw [empty] at above
        cases above
    · exact Within.of_parent present up plain above
  · rintro ⟨-, parentWithin⟩
    refine ⟨fun rest rooted => absurd rooted (not_rooted rest), fun _ none dir above => ?_⟩
    rcases named with names | empty
    · rw [names, none, List.append_nil] at parentWithin
      by_contra some
      exact not_within_parent above (parentWithin dir above some)
    · rw [empty] at above
      cases above

/-- What a path is resolved to, and all that is read, written or created for it, is within the root just
when the path is refused or sheltered. -/
theorem resolve_confined (root path : String) :
    Confined root path ↔ escapes path = true ∨ Sheltered root path := by
  cases rejected : escapes path with
  | true => exact iff_of_true (confined_of_escapes rejected) (.inl rfl)
  | false =>
    rw [confined_iff (resolve_of_accepted rejected), String.toList_ofList]
    simp only [Bool.false_eq_true, false_or]
    symm
    cases absolute : isAbsolute (trimStart path.toList) with
    | true =>
      obtain ⟨rest, trimmed⟩ : ∃ rest, trimStart path.toList = '/' :: rest := by
        rw [isAbsolute, beq_iff_eq] at absolute
        exact ⟨_, List.eq_cons_of_mem_head? absolute⟩
      rw [join_of_absolute absolute, trimmed]
      exact sheltered_iff_of_rooted ((rooted_iff path rest).mpr trimmed)
    | false => exact sheltered_iff_of_relative rejected absolute

section Example

-- The check lets the path pass, and once `./` is cut off it is absolute.
theorem resolve_confined_fails : ¬ Confined "/workspace" ".//etc/passwd" := by
  intro confined
  obtain ⟨rest, same, -, -⟩ := confined.resolved "/etc/passwd" (by decide)
  have different : components "/etc/passwd".toList ≠ components "/workspace".toList ++ rest := by
    simp only [show components "/etc/passwd".toList =
        [.rootDir, .normal ['e', 't', 'c'], .normal ['p', 'a', 's', 's', 'w', 'd']] by decide,
      show components "/workspace".toList =
        [.rootDir, .normal ['w', 'o', 'r', 'k', 's', 'p', 'a', 'c', 'e']] by decide]
    simp
  exact different same

end Example

end GuestAgent

end AtomrAgents
