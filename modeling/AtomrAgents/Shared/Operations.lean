import Mathlib.Data.List.Basic
import Mathlib.Data.List.Count

set_option autoImplicit false

/-! A store answers one operation after the other. What every guarded operation keeps holds after a whole
sequence, and an event that closes the store for itself happens at most once. -/

namespace Shared.Operations

variable {σ ω α : Type} (step : σ → ω → α × σ)

def final (s : σ) : List ω → σ
  | [] => s
  | op :: rest => final (step s op).2 rest

def trace (s : σ) : List ω → List (ω × α)
  | [] => []
  | op :: rest => (op, (step s op).1) :: trace (step s op).2 rest

def Along (guard : σ → ω → Prop) (s : σ) : List ω → Prop
  | [] => True
  | op :: rest => guard s op ∧ Along guard (step s op).2 rest

instance decidableAlong (guard : σ → ω → Prop) [∀ s op, Decidable (guard s op)] :
    ∀ (s : σ) (ops : List ω), Decidable (Along step guard s ops)
  | _, [] => isTrue trivial
  | s, op :: rest =>
    have := decidableAlong guard (step s op).2 rest
    inferInstanceAs (Decidable (guard s op ∧ Along step guard (step s op).2 rest))

variable {step}

theorem final_append (s : σ) (front back : List ω) :
    final step s (front ++ back) = final step (final step s front) back := by
  induction front generalizing s with
  | nil => rfl
  | cons op front ih => exact ih _

theorem along_append (guard : σ → ω → Prop) (s : σ) (front back : List ω) :
    Along step guard s (front ++ back) ↔
      Along step guard s front ∧ Along step guard (final step s front) back := by
  induction front generalizing s with
  | nil => simp [Along, final]
  | cons op front ih => simp [Along, final, ih, and_assoc]

theorem trace_append (s : σ) (front back : List ω) :
    trace step s (front ++ back) = trace step s front ++ trace step (final step s front) back := by
  induction front generalizing s with
  | nil => rfl
  | cons op front ih => simp [trace, final, ih]

/-- The invariant rule. -/
theorem final_invariant (guard : σ → ω → Prop) (invariant : σ → Prop)
    (kept : ∀ s op, invariant s → guard s op → invariant (step s op).2) (s : σ) (ops : List ω)
    (holds : invariant s) (along : Along step guard s ops) : invariant (final step s ops) := by
  induction ops generalizing s with
  | nil => exact holds
  | cons op rest ih => exact ih _ (kept s op holds along.1) along.2

theorem final_keeps (invariant : σ → Prop) (kept : ∀ s op, invariant s → invariant (step s op).2) (s : σ)
    (ops : List ω) (holds : invariant s) : invariant (final step s ops) := by
  induction ops generalizing s with
  | nil => exact holds
  | cons op rest ih => exact ih _ (kept s op holds)

theorem along_of_invariant {guard : σ → ω → Prop} (invariant : σ → Prop)
    (guarded : ∀ s op, invariant s → guard s op) (kept : ∀ s op, invariant s → invariant (step s op).2) (s : σ)
    (ops : List ω) (holds : invariant s) : Along step guard s ops := by
  induction ops generalizing s with
  | nil => trivial
  | cons op rest ih => exact ⟨guarded s op holds, ih _ (kept s op holds)⟩

theorem exists_break {guard : σ → ω → Prop} (s : σ) (ops : List ω) (broken : ¬ Along step guard s ops) :
    ∃ front op rest, ops = front ++ op :: rest ∧ Along step guard s front ∧
      ¬ guard (final step s front) op := by
  induction ops generalizing s with
  | nil => exact absurd trivial broken
  | cons op ops ih =>
    by_cases here : guard s op
    · obtain ⟨front, next, rest, rfl, along, fails⟩ := ih _ fun later => broken ⟨here, later⟩
      exact ⟨op :: front, next, rest, rfl, ⟨here, along⟩, fails⟩
    · exact ⟨[], op, ops, rfl, trivial, here⟩

theorem along_congr {guard guard' : σ → ω → Prop} (invariant : σ → Prop)
    (same : ∀ s op, invariant s → (guard s op ↔ guard' s op))
    (kept : ∀ s op, invariant s → guard s op → invariant (step s op).2) (s : σ) (ops : List ω)
    (holds : invariant s) : Along step guard s ops ↔ Along step guard' s ops := by
  induction ops generalizing s with
  | nil => exact Iff.rfl
  | cons op rest ih =>
    constructor
    · rintro ⟨here, later⟩
      exact ⟨(same s op holds).mp here, (ih _ (kept s op holds here)).mp later⟩
    · rintro ⟨here, later⟩
      have here := (same s op holds).mpr here
      exact ⟨here, (ih _ (kept s op holds here)).mpr later⟩

section Once

variable {guard : σ → ω → Prop} {closed : σ → Prop} {event : ω × α → Bool}

theorem countP_eq_zero_of_closed
    (kept : ∀ s op, closed s → guard s op → event (op, (step s op).1) = false ∧ closed (step s op).2)
    (s : σ) (ops : List ω) (shut : closed s) (along : Along step guard s ops) :
    (trace step s ops).countP event = 0 := by
  induction ops generalizing s with
  | nil => rfl
  | cons op rest ih =>
    obtain ⟨none, shut⟩ := kept s op shut along.1
    rw [trace, List.countP_cons_of_neg (by simp [none])]
    exact ih _ shut along.2

/-- At most once: an event leaves the store closed, and a closed store stays so without events. -/
theorem countP_le_one (closed : σ → Prop)
    (kept : ∀ s op, closed s → guard s op → event (op, (step s op).1) = false ∧ closed (step s op).2)
    (closes : ∀ s op, guard s op → event (op, (step s op).1) = true → closed (step s op).2)
    (s : σ) (ops : List ω) (along : Along step guard s ops) :
    (trace step s ops).countP event ≤ 1 := by
  induction ops generalizing s with
  | nil => simp [trace]
  | cons op rest ih =>
    cases happens : event (op, (step s op).1) with
    | true =>
      have none := countP_eq_zero_of_closed kept _ rest (closes s op along.1 happens) along.2
      rw [trace, List.countP_cons_of_pos happens]
      omega
    | false =>
      rw [trace, List.countP_cons_of_neg (by simp [happens])]
      exact ih _ along.2

theorem exists_first (s : σ) (ops : List ω) (happens : 0 < (trace step s ops).countP event) :
    ∃ front op back, ops = front ++ op :: back ∧ (trace step s front).countP event = 0 ∧
      event (op, (step (final step s front) op).1) = true := by
  induction ops generalizing s with
  | nil => simp [trace] at happens
  | cons op rest ih =>
    cases now : event (op, (step s op).1) with
    | true => exact ⟨[], op, rest, rfl, rfl, now⟩
    | false =>
      rw [trace, List.countP_cons_of_neg (by simp [now])] at happens
      obtain ⟨front, later, back, rfl, none, first⟩ := ih _ happens
      refine ⟨op :: front, later, back, rfl, ?_, first⟩
      rw [trace, List.countP_cons_of_neg (by simp [now]), none]

end Once

section Simulation

variable {σ' α' : Type} {step' : σ' → ω → α' × σ'}

theorem countP_trace_eq (related : σ → σ' → Prop) (event : ω × α → Bool) (event' : ω × α' → Bool)
    (kept : ∀ s s' op, related s s' →
      event (op, (step s op).1) = event' (op, (step' s' op).1) ∧
        related (step s op).2 (step' s' op).2)
    (s : σ) (s' : σ') (ops : List ω) (start : related s s') :
    (trace step s ops).countP event = (trace step' s' ops).countP event' := by
  induction ops generalizing s s' with
  | nil => rfl
  | cons op rest ih =>
    obtain ⟨same, later⟩ := kept s s' op start
    rw [trace, trace, List.countP_cons, List.countP_cons, same, ih _ _ later]

theorem map_trace_eq {β : Type} (related : σ → σ' → Prop) (fit : ω → Prop) (look : α → β) (look' : α' → β)
    (kept : ∀ s s' op, related s s' → fit op →
      look (step s op).1 = look' (step' s' op).1 ∧ related (step s op).2 (step' s' op).2)
    (s : σ) (s' : σ') (ops : List ω) (start : related s s') (all : ∀ op ∈ ops, fit op) :
    (trace step s ops).map (fun entry => look entry.2) = (trace step' s' ops).map (fun entry => look' entry.2) ∧
      related (final step s ops) (final step' s' ops) := by
  induction ops generalizing s s' with
  | nil => exact ⟨rfl, start⟩
  | cons op rest ih =>
    rw [List.forall_mem_cons] at all
    obtain ⟨same, later⟩ := kept s s' op start all.1
    obtain ⟨sames, end_⟩ := ih _ _ later all.2
    exact ⟨by rw [trace, trace, List.map_cons, List.map_cons, same, sames], end_⟩

end Simulation

end Shared.Operations
