import Mathlib.Data.List.Basic

set_option autoImplicit false

/-! A policy is narrowed level by level. An empty list of grants says that a level inherits; the intersection
of two lists can be empty as well. -/

namespace AtomrAgents

abbrev ToolSetId := String

structure Policy where
  allowedToolsets : List ToolSetId
  maxTokensPerCall : Option Nat
  maxMoneyMicroUsdPerCall : Option Nat
  allowedModels : List String
  deriving DecidableEq

def narrowGrants (parent child : List String) : List String :=
  if child = [] then parent else child.filter (fun c => c ∈ parent)

def narrowLimit : Option Nat → Option Nat → Option Nat
  | some p, some c => some (min p c)
  | some v, none => some v
  | none, some v => some v
  | none, none => none

namespace Policy

def default : Policy :=
  { allowedToolsets := [], maxTokensPerCall := none, maxMoneyMicroUsdPerCall := none
    allowedModels := [] }

def narrow (parent child : Policy) : Policy where
  allowedToolsets := narrowGrants parent.allowedToolsets child.allowedToolsets
  maxTokensPerCall := narrowLimit parent.maxTokensPerCall child.maxTokensPerCall
  maxMoneyMicroUsdPerCall :=
    narrowLimit parent.maxMoneyMicroUsdPerCall child.maxMoneyMicroUsdPerCall
  allowedModels := narrowGrants parent.allowedModels child.allowedModels

end Policy

section Grants

variable {g p c : List String}

@[simp] theorem narrowGrants_nil (parent : List String) : narrowGrants parent [] = parent := rfl

theorem mem_narrowGrants (parent child : List String) (t : String) :
    t ∈ narrowGrants parent child ↔ t ∈ parent ∧ (child = [] ∨ t ∈ child) := by
  by_cases inherits : child = []
  · simp [inherits]
  · simp [narrowGrants, inherits, and_comm]

theorem narrowGrants_eq_nil (inherits : p = []) : narrowGrants p c = [] := by
  subst inherits
  by_cases empty : c = [] <;> simp [narrowGrants, empty]

def Inside (grants : List String) (levels : List (List String)) : Prop :=
  ∀ level ∈ levels, level ≠ [] → ∀ t ∈ grants, t ∈ level

theorem Inside.narrow {grants : List String} {levels : List (List String)}
    (inside : Inside grants levels) (child : List String) :
    Inside (narrowGrants grants child) (levels ++ [child]) := by
  intro level member lists t granted
  rw [mem_narrowGrants] at granted
  rcases List.mem_append.mp member with earlier | last
  · exact inside level earlier lists t granted.1
  · rw [List.mem_singleton] at last
    subst last
    exact granted.2.resolve_left lists

-- An empty intersection at the two lower levels is not read as "inherit" one level up.
def Composes (g p c : List String) : Prop :=
  c = [] ∨ g = [] ∨ (∃ t ∈ c, t ∈ p) ∨ p = [] ∧ c.filter (fun t => t ∈ g) = g

theorem narrowGrants_assoc_of_overlap (lists : p ≠ []) (overlap : ∃ t ∈ c, t ∈ p) :
    narrowGrants (narrowGrants g p) c = narrowGrants g (narrowGrants p c) := by
  obtain ⟨t, child, parent⟩ := overlap
  have listed : c ≠ [] := List.ne_nil_of_mem child
  have kept : c.filter (fun t => t ∈ p) ≠ [] :=
    List.ne_nil_of_mem (List.mem_filter.mpr ⟨child, by simpa using parent⟩)
  simp only [narrowGrants, lists, listed, kept, if_false, List.filter_filter, List.mem_filter]
  apply List.filter_congr
  intro t _
  simp [and_comm]

theorem narrowGrants_assoc_iff :
    narrowGrants (narrowGrants g p) c = narrowGrants g (narrowGrants p c) ↔ Composes g p c := by
  by_cases inherits : c = []
  · simp [inherits, Composes]
  by_cases free : p = []
  · subst free
    have empty : narrowGrants [] c = [] := narrowGrants_eq_nil rfl
    simp only [narrowGrants_nil, empty]
    constructor
    · intro same
      exact .inr (.inr (.inr ⟨rfl, by simpa [narrowGrants, inherits] using same⟩))
    · rintro (child | top | ⟨t, _, absent⟩ | ⟨_, same⟩)
      · exact absurd child inherits
      · exact (narrowGrants_eq_nil top).trans top.symm
      · cases absent
      · simpa [narrowGrants, inherits] using same
  · by_cases overlap : ∃ t ∈ c, t ∈ p
    · simp only [narrowGrants_assoc_of_overlap free overlap, Composes, overlap, true_or, or_true]
    · -- the lower two have nothing in common: the left side grants nothing, the right side `g`
      have none : narrowGrants p c = [] := by
        apply List.eq_nil_iff_forall_not_mem.mpr
        intro t both
        rw [mem_narrowGrants] at both
        exact overlap ⟨t, both.2.resolve_left inherits, both.1⟩
      have nothing : narrowGrants (narrowGrants g p) c = [] := by
        apply List.eq_nil_iff_forall_not_mem.mpr
        intro t all
        rw [mem_narrowGrants, mem_narrowGrants] at all
        exact overlap ⟨t, all.2.resolve_left inherits, all.1.2.resolve_left free⟩
      rw [none, nothing, narrowGrants_nil]
      constructor
      · exact fun top => .inr (.inl top.symm)
      · rintro (child | top | shared | ⟨parent, _⟩)
        · exact absurd child inherits
        · exact top.symm
        · exact absurd shared overlap
        · exact absurd parent free

end Grants

section Limits

theorem narrowLimit_assoc (g p c : Option Nat) :
    narrowLimit (narrowLimit g p) c = narrowLimit g (narrowLimit p c) := by
  cases g <;> cases p <;> cases c <;> simp [narrowLimit, Nat.min_assoc]

def Below (limit : Option Nat) (levels : List (Option Nat)) : Prop :=
  ∀ bound, some bound ∈ levels → ∃ l, limit = some l ∧ l ≤ bound

theorem Below.narrow {limit : Option Nat} {levels : List (Option Nat)} (below : Below limit levels)
    (child : Option Nat) : Below (narrowLimit limit child) (levels ++ [child]) := by
  intro bound member
  rcases List.mem_append.mp member with earlier | last
  · obtain ⟨l, rfl, le⟩ := below bound earlier
    cases child with
    | none => exact ⟨l, rfl, le⟩
    | some own => exact ⟨min l own, rfl, Nat.le_trans (Nat.min_le_left l own) le⟩
  · rw [List.mem_singleton] at last
    subst last
    cases limit with
    | none => exact ⟨bound, rfl, Nat.le_refl bound⟩
    | some l => exact ⟨min l bound, rfl, Nat.min_le_right l bound⟩

end Limits

namespace Policy

structure Within (policy : Policy) (levels : List Policy) : Prop where
  toolsets : Inside policy.allowedToolsets (levels.map allowedToolsets)
  models : Inside policy.allowedModels (levels.map allowedModels)
  tokens : Below policy.maxTokensPerCall (levels.map maxTokensPerCall)
  money : Below policy.maxMoneyMicroUsdPerCall (levels.map maxMoneyMicroUsdPerCall)

theorem Within.self (policy : Policy) : policy.Within [policy] := by
  constructor <;> simp only [Inside, Below, List.map_cons, List.map_nil, List.mem_singleton]
  · rintro level rfl _ t granted
    exact granted
  · rintro level rfl _ t granted
    exact granted
  · exact fun bound set => ⟨bound, set.symm, Nat.le_refl bound⟩
  · exact fun bound set => ⟨bound, set.symm, Nat.le_refl bound⟩

theorem Within.narrow {policy : Policy} {levels : List Policy} (within : policy.Within levels)
    (child : Policy) : (policy.narrow child).Within (levels ++ [child]) := by
  constructor
  · rw [List.map_append]
    exact within.toolsets.narrow child.allowedToolsets
  · rw [List.map_append]
    exact within.models.narrow child.allowedModels
  · rw [List.map_append]
    exact within.tokens.narrow child.maxTokensPerCall
  · rw [List.map_append]
    exact within.money.narrow child.maxMoneyMicroUsdPerCall

-- `OrgUnit::resolve_policy`: a unit narrows what its parent has resolved to.
def resolvePolicy (own : Policy) : Option Policy → Policy
  | some parent => parent.narrow own
  | none => own

theorem descend_within (levels : List Policy) (policy : Policy) (above : List Policy)
    (within : policy.Within above) :
    (levels.foldl (fun parent own => own.resolvePolicy (some parent)) policy).Within (above ++ levels) := by
  induction levels generalizing policy above with
  | nil => simpa using within
  | cons child rest ih =>
    simpa [resolvePolicy] using ih (policy.narrow child) (above ++ [child]) (within.narrow child)

structure NeverWidens (g p c : Policy) : Prop where
  left : ((g.narrow p).narrow c).Within [g, p, c]
  right : (g.narrow (p.narrow c)).Within [g, p, c]
  assoc : (g.narrow p).narrow c = g.narrow (p.narrow c)

theorem narrow_assoc_iff (g p c : Policy) :
    (g.narrow p).narrow c = g.narrow (p.narrow c) ↔
      Composes g.allowedToolsets p.allowedToolsets c.allowedToolsets ∧
        Composes g.allowedModels p.allowedModels c.allowedModels := by
  rw [← narrowGrants_assoc_iff, ← narrowGrants_assoc_iff]
  simp only [narrow, mk.injEq, narrowLimit_assoc, true_and]

/-- Both bracketings agree, and then stay inside every level, exactly when no empty intersection
of the lower two levels meets a restriction above it. -/
theorem never_widens (g p c : Policy) :
    NeverWidens g p c ↔
      Composes g.allowedToolsets p.allowedToolsets c.allowedToolsets ∧
        Composes g.allowedModels p.allowedModels c.allowedModels := by
  rw [← narrow_assoc_iff]
  constructor
  · exact NeverWidens.assoc
  · intro assoc
    have within : ((g.narrow p).narrow c).Within [g, p, c] := descend_within [p, c] g [g] (Within.self g)
    exact ⟨within, assoc ▸ within, assoc⟩

def grants (toolsets : List ToolSetId) : Policy := { default with allowedToolsets := toolsets }

-- `c` is allowed only `x` and `p` only `b`, yet together they are allowed `a`.
theorem never_widens_fails :
    ((grants ["a"]).narrow ((grants ["b"]).narrow (grants ["x"]))).allowedToolsets = ["a"] ∧
      ¬ NeverWidens (grants ["a"]) (grants ["b"]) (grants ["x"]) := by
  refine ⟨by decide, fun never => ?_⟩
  have inside := never.right.toolsets ["b"] (by decide) (by decide) "a" (by decide)
  exact absurd inside (by decide)

end Policy

end AtomrAgents
