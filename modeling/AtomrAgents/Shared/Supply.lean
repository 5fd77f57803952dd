import AtomrAgents.Shared.Operations
import Mathlib.Data.List.Perm.Subperm

set_option autoImplicit false

/-! A run is supplied with items by its operations, and what it holds is taken from them: none that was not
supplied, and none oftener than it was. -/

namespace Shared

section Holders

variable {α β : Type} {f : α → Option β} {items : List α} {i : Nat} {old new : α}

theorem filterMap_set_perm (f : α → Option β) (here : items[i]? = some old) (new : α) :
    ((items.set i new).filterMap f ++ (f old).toList).Perm (items.filterMap f ++ (f new).toList) := by
  induction items generalizing i with
  | nil => simp at here
  | cons head items ih =>
    cases i with
    | zero =>
      simp only [List.getElem?_cons_zero, Option.some_inj] at here
      subst here
      have first (a : α) : (a :: items).filterMap f = (f a).toList ++ items.filterMap f := by
        cases f_a : f a <;> simp [f_a]
      rw [List.set_cons_zero, first, first]
      refine (List.perm_append_comm.append_right _).trans ?_
      rw [List.append_assoc]
      exact List.perm_append_comm.append_left _ |>.trans (by
        rw [← List.append_assoc]
        exact List.perm_append_comm.append_right _)
    | succ i =>
      have rest := ih (i := i) (by simpa using here)
      rw [List.set_cons_succ]
      cases f_head : f head with
      | none => simpa [f_head] using rest
      | some b => simpa [f_head] using rest.cons b

theorem filterMap_set_same (here : items[i]? = some old) (same : f new = f old) :
    (items.set i new).filterMap f = items.filterMap f := by
  have bound := (List.getElem?_eq_some_iff.mp here).1
  have value := (List.getElem?_eq_some_iff.mp here).2
  have unchanged : (items.set i new).map f = items.map f := by
    apply List.ext_getElem?
    intro j
    by_cases there : j = i
    · subst there
      simp [bound, value, same]
    · simp [List.getElem?_set_ne (Ne.symm there)]
  have onMap (xs : List α) : xs.filterMap f = (xs.map f).filterMap id := by
    rw [List.filterMap_map]
    rfl
  rw [onMap, unchanged, ← onMap]

theorem filterMap_sublist {told : α → Option β}
    (each : ∀ item ∈ items, ∀ b, told item = some b → f item = some b) :
    (items.filterMap told).Sublist (items.filterMap f) := by
  induction items with
  | nil => exact List.Sublist.refl _
  | cons item items ih =>
    have rest := ih fun item member => each item (List.mem_cons_of_mem _ member)
    cases said : told item with
    | none =>
      rw [List.filterMap_cons_none said, List.filterMap_cons]
      split
      · exact rest
      · exact rest.cons _
    | some b =>
      rw [List.filterMap_cons_some said, List.filterMap_cons_some (each item List.mem_cons_self b said)]
      exact rest.cons_cons _

end Holders

namespace Operations

variable {σ ω α β : Type} {step : σ → ω → α × σ}

section Rule

variable (held : σ → List β) (supply : ω → Option β) (guard : σ → ω → Prop)

-- `related` is one way of being a part of a list that can grow behind.
theorem final_related {related : List β → List β → Prop} (refl : ∀ xs, related xs xs)
    (trans : ∀ xs ys zs, related xs ys → related ys zs → related xs zs)
    (append : ∀ xs ys zs, related xs ys → related (xs ++ zs) (ys ++ zs))
    (conserved : ∀ s op, guard s op → related (held (step s op).2) (held s ++ (supply op).toList)) (s : σ)
    (ops : List ω) (along : Along step guard s ops) :
    related (held (final step s ops)) (held s ++ ops.filterMap supply) := by
  induction ops generalizing s with
  | nil =>
    rw [List.filterMap_nil, List.append_nil]
    exact refl _
  | cons op rest ih =>
    have later := ih _ along.2
    have now := append _ _ (rest.filterMap supply) (conserved s op along.1)
    have all : held s ++ (op :: rest).filterMap supply =
        held s ++ (supply op).toList ++ rest.filterMap supply := by
      cases supplied : supply op <;> simp [supplied]
    rw [all]
    exact trans _ _ _ later now

theorem along_of_forall (always : ∀ s op, guard s op) (s : σ) (ops : List ω) : Along step guard s ops :=
  along_of_invariant (fun _ => True) (fun s op _ => always s op) (fun _ _ _ => trivial) s ops trivial

/-- The conservation rule: what one operation adds to what is held, it was supplied with. -/
theorem final_supplied
    (conserved : ∀ s op, (held (step s op).2).Subperm (held s ++ (supply op).toList)) (s : σ) (ops : List ω) :
    (held (final step s ops)).Subperm (held s ++ ops.filterMap supply) :=
  final_related held supply (fun _ _ => True) List.Subperm.refl (fun _ _ _ first second => first.trans second)
    (fun _ _ zs => (List.subperm_append_right zs).mpr) (fun s op _ => conserved s op) s ops
    (along_of_forall _ (fun _ _ => trivial) s ops)

theorem final_sublist
    (conserved : ∀ s op, (held (step s op).2).Sublist (held s ++ (supply op).toList)) (s : σ) (ops : List ω) :
    (held (final step s ops)).Sublist (held s ++ ops.filterMap supply) :=
  final_related held supply (fun _ _ => True) List.Sublist.refl (fun _ _ _ first second => first.trans second)
    (fun _ _ zs part => part.append (List.Sublist.refl zs)) (fun s op _ => conserved s op) s ops
    (along_of_forall _ (fun _ _ => trivial) s ops)

theorem final_exact
    (conserved : ∀ s op, guard s op → held (step s op).2 = held s ++ (supply op).toList) (s : σ) (ops : List ω)
    (along : Along step guard s ops) : held (final step s ops) = held s ++ ops.filterMap supply :=
  final_related held supply guard (fun _ => rfl) (fun _ _ _ first second => first.trans second)
    (fun _ _ zs same => congrArg (· ++ zs) same) conserved s ops along

theorem final_recorded (recorded : ω × α → Option β)
    (conserved : ∀ s op, guard s op →
      held (step s op).2 = held s ++ (recorded (op, (step s op).1)).toList) (s : σ) (ops : List ω)
    (along : Along step guard s ops) :
    held (final step s ops) = held s ++ (trace step s ops).filterMap recorded := by
  induction ops generalizing s with
  | nil => simp [final, trace]
  | cons op rest ih =>
    rw [final, trace, ih _ along.2, conserved s op along.1, List.append_assoc]
    cases record : recorded (op, (step s op).1) <;> simp [record]

end Rule

end Operations

end Shared
