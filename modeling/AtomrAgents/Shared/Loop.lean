import Mathlib.Data.List.Basic

set_option autoImplicit false

/-! A `for` loop whose body either falls through with the next loop state or returns from the enclosing
function, and the rules for reasoning about a whole pass from one turn of the body. -/

namespace Shared

/-- How one piece of a function ends: it falls through, or it returns from the function. -/
inductive Flow (σ ρ : Type) where
  | next (state : σ)
  | ret (result : ρ)

namespace Flow

variable {σ ρ α β : Type}

def Post (falls : σ → Prop) (returns : ρ → Prop) : Flow σ ρ → Prop
  | .next state => falls state
  | .ret result => returns result

@[simp] theorem post_next (falls : σ → Prop) (returns : ρ → Prop) (state : σ) :
    (Flow.next state : Flow σ ρ).Post falls returns ↔ falls state := Iff.rfl

@[simp] theorem post_ret (falls : σ → Prop) (returns : ρ → Prop) (result : ρ) :
    (Flow.ret result : Flow σ ρ).Post falls returns ↔ returns result := Iff.rfl

theorem Post.mono {falls falls' : σ → Prop} {returns returns' : ρ → Prop} {flow : Flow σ ρ}
    (post : flow.Post falls returns) (onNext : ∀ state, falls state → falls' state)
    (onRet : ∀ result, returns result → returns' result) : flow.Post falls' returns' := by
  cases flow with
  | next state => exact onNext state post
  | ret result => exact onRet result post

def bind {τ : Type} (flow : Flow σ ρ) (rest : σ → Flow τ ρ) : Flow τ ρ :=
  match flow with
  | .next state => rest state
  | .ret result => .ret result

@[simp] theorem bind_next {τ : Type} (state : σ) (rest : σ → Flow τ ρ) :
    (Flow.next state).bind rest = rest state := rfl

@[simp] theorem bind_ret {τ : Type} (result : ρ) (rest : σ → Flow τ ρ) :
    (Flow.ret result).bind rest = .ret result := rfl

def finish (after : σ → ρ) : Flow σ ρ → ρ
  | .next state => after state
  | .ret result => result

theorem Post.finish {falls : σ → Prop} {flow : Flow σ ρ} {after : σ → ρ} (returns : ρ → Prop)
    (post : flow.Post falls returns) (onNext : ∀ state, falls state → returns (after state)) :
    returns (flow.finish after) := by
  cases flow with
  | next state => exact onNext state post
  | ret result => exact post

end Flow

variable {σ ρ α : Type}

def forEach (body : σ → α → Flow σ ρ) : List α → σ → Flow σ ρ
  | [], state => .next state
  | item :: rest, state => (body state item).bind (forEach body rest)

theorem forEach_append (body : σ → α → Flow σ ρ) (front back : List α) (state : σ) :
    forEach body (front ++ back) state = (forEach body front state).bind (forEach body back) := by
  induction front generalizing state with
  | nil => rfl
  | cons item rest ih =>
    cases turn : body state item with
    | next state' => simp [forEach, turn, ih]
    | ret result => simp [forEach, turn]

/-- The loop rule: the invariant speaks of the items still to come, and every turn keeps it. -/
theorem forEach_post (body : σ → α → Flow σ ρ) (invariant : List α → σ → Prop)
    (returns : ρ → Prop)
    (turn : ∀ item rest state, invariant (item :: rest) state →
      (body state item).Post (invariant rest) returns) :
    ∀ items state, invariant items state →
      (forEach body items state).Post (invariant []) returns := by
  intro items
  induction items with
  | nil => exact fun state holds => holds
  | cons item rest ih =>
    intro state holds
    have first := turn item rest state holds
    cases step : body state item with
    | next state' =>
      rw [step] at first
      simpa [forEach, step] using ih state' first
    | ret result =>
      rw [step] at first
      simpa [forEach, step] using first

section Log

variable {ε : Type} {P : ε → Prop} {log before after : List ε}

def Appends (P : ε → Prop) (before after : List ε) : Prop :=
  ∃ more, after = before ++ more ∧ ∀ entry ∈ more, P entry

namespace Appends

theorem refl (P : ε → Prop) (log : List ε) : Appends P log log := ⟨[], by simp⟩

theorem trans (first : Appends P before log) (second : Appends P log after) :
    Appends P before after := by
  obtain ⟨more, rfl, holds⟩ := first
  obtain ⟨rest, rfl, holds'⟩ := second
  refine ⟨more ++ rest, by simp, ?_⟩
  intro entry member
  exact (List.mem_append.mp member).elim (holds entry) (holds' entry)

theorem subset (appends : Appends P before after) : before ⊆ after := by
  obtain ⟨more, rfl, -⟩ := appends
  exact List.subset_append_left before more

theorem forall_of_nil (appends : Appends P [] after) : ∀ entry ∈ after, P entry := by
  obtain ⟨more, rfl, holds⟩ := appends
  exact holds

end Appends

theorem forEach_appends (body : σ → α → Flow σ ρ) (log : σ → List ε) (logged : ρ → List ε)
    (turn : ∀ state item, (body state item).Post (fun next => Appends P (log state) (log next))
      (fun result => Appends P (log state) (logged result)))
    (items : List α) (state : σ) : (forEach body items state).Post
      (fun last => Appends P (log state) (log last))
      (fun result => Appends P (log state) (logged result)) :=
  forEach_post body (fun _ reached => Appends P (log state) (log reached)) _
    (fun item _ reached so_far => (turn reached item).mono (fun _ => so_far.trans) fun _ => so_far.trans)
    items state (.refl P _)

end Log

theorem forEach_skip (body : σ → α → Flow σ ρ) (front back : List α) (state : σ)
    (skip : ∀ item ∈ front, body state item = .next state) :
    forEach body (front ++ back) state = forEach body back state := by
  induction front with
  | nil => rfl
  | cons item rest ih =>
    rw [List.cons_append, forEach, skip item (by simp), Flow.bind_next]
    exact ih (fun other member => skip other (List.mem_cons_of_mem _ member))

theorem forEach_enumerated (body : σ → α × Nat → Flow σ ρ) (items : List α) (n : Nat)
    (skip : ∀ item i state, i < n → body state (item, i) = .next state)
    (invariant : Nat → σ → Prop) (returns : ρ → Prop)
    (turn : ∀ p item state, items[p]? = some item → n ≤ p → invariant p state →
      (body state (item, p)).Post (invariant (p + 1)) returns)
    (state : σ) (start : invariant n state) :
    (forEach body items.zipIdx state).Post
      (fun last => ∃ p, items.length ≤ p ∧ n ≤ p ∧ invariant p last) returns := by
  -- what is still to come, from the position `p` on
  have from_position (rest : List α) (p : Nat) (state : σ) (tail : items.drop p = rest)
      (position : p < n ∧ invariant n state ∨ n ≤ p ∧ invariant p state) :
      (forEach body (rest.zipIdx p) state).Post
        (fun last => ∃ p, items.length ≤ p ∧ n ≤ p ∧ invariant p last) returns := by
    induction rest generalizing p state with
    | nil =>
      have past : items.length ≤ p := List.drop_eq_nil_iff.mp tail
      cases position with
      | inl early => exact ⟨n, by omega, Nat.le_refl n, early.2⟩
      | inr late => exact ⟨p, past, late⟩
    | cons item rest ih =>
      have found : items[p]? = some item := by
        rw [← List.head?_drop, tail, List.head?_cons]
      have tail' : items.drop (p + 1) = rest := by
        rw [← List.drop_drop, tail, List.drop_one, List.tail_cons]
      rw [List.zipIdx_cons, forEach]
      cases position with
      | inl early =>
        rw [skip item p state early.1]
        apply ih (p + 1) state tail'
        by_cases reached : p + 1 = n
        · exact .inr ⟨by omega, by rw [reached]; exact early.2⟩
        · exact .inl ⟨by omega, early.2⟩
      | inr late =>
        have first := turn p item state found late.1 late.2
        cases step : body state (item, p) with
        | next state' =>
          rw [step] at first
          exact ih (p + 1) state' tail' (.inr ⟨by omega, first⟩)
        | ret result =>
          rw [step] at first
          exact first
  refine from_position items 0 state (by simp) ?_
  by_cases zero : 0 < n
  · exact .inl ⟨zero, start⟩
  · obtain rfl : n = 0 := by omega
    exact .inr ⟨Nat.le_refl 0, start⟩

end Shared
