import Mathlib.Data.List.Basic

set_option autoImplicit false

/-! Threads take atomic turns on a shared state, in the order that a schedule gives. An invariant that speaks
of each thread by itself is kept by a turn if the thread whose turn it is keeps its own and the turn leaves
those of the others alone. -/

namespace Shared

structure Threads (σ π : Type) where
  shared : σ
  locals : List π

namespace Threads

variable {σ π : Type}

-- `none`: there is no such thread, or it has no turn to take.
def step (turn : π → σ → Option (π × σ)) (threads : Threads σ π) (i : Nat) : Option (Threads σ π) :=
  match threads.locals[i]? with
  | none => none
  | some own =>
    match turn own threads.shared with
    | none => none
    | some (own, shared) => some { shared, locals := threads.locals.set i own }

def run (turn : π → σ → Option (π × σ)) : Threads σ π → List Nat → Option (Threads σ π)
  | threads, [] => some threads
  | threads, i :: rest =>
    match threads.step turn i with
    | none => none
    | some next => run turn next rest

def Along (turn : π → σ → Option (π × σ)) (guard : Threads σ π → Nat → Prop) :
    Threads σ π → List Nat → Prop
  | _, [] => True
  | threads, i :: rest =>
    guard threads i ∧ ∀ next, threads.step turn i = some next → Along turn guard next rest

variable {turn : π → σ → Option (π × σ)} {threads next last : Threads σ π} {i : Nat}

structure Turn (turn : π → σ → Option (π × σ)) (threads : Threads σ π) (i : Nat) (own own' : π)
    (next : Threads σ π) : Prop where
  before : threads.locals[i]? = some own
  takes : turn own threads.shared = some (own', next.shared)
  after : next.locals[i]? = some own'
  others : ∀ j, j ≠ i → next.locals[j]? = threads.locals[j]?

theorem step_turn (stepped : threads.step turn i = some next) :
    ∃ own own', Turn turn threads i own own' next := by
  rw [step] at stepped
  split at stepped
  · cases stepped
  · next own before =>
    split at stepped
    · cases stepped
    · next own' shared takes =>
      cases stepped
      refine ⟨own, own', before, takes, ?_, fun j other => ?_⟩
      · have bound := (List.getElem?_eq_some_iff.mp before).1
        simp [bound]
      · simp [List.getElem?_set_ne (Ne.symm other)]

theorem Turn.each {own own' : π} (turned : Turn turn threads i own own' next)
    {P : σ → Nat → π → Prop} (mine : P next.shared i own')
    (theirs : ∀ j other, j ≠ i → threads.locals[j]? = some other → P next.shared j other) :
    ∀ j other, next.locals[j]? = some other → P next.shared j other := by
  intro j other found
  by_cases same : j = i
  · subst same
    rw [turned.after, Option.some_inj] at found
    subst found
    exact mine
  · rw [turned.others j same] at found
    exact theirs j other same found

theorem Turn.map_locals {own own' : π} (turned : Turn turn threads i own own' next) {α : Type}
    (f : π → α) (same : f own' = f own) : next.locals.map f = threads.locals.map f := by
  apply List.ext_getElem?
  intro j
  rw [List.getElem?_map, List.getElem?_map]
  by_cases mine : j = i
  · rw [mine, turned.before, turned.after, Option.map_some, Option.map_some, same]
  · rw [turned.others j mine]

/-- The invariant rule: turns that meet the guard keep the invariant. -/
theorem run_invariant (guard : Threads σ π → Nat → Prop) (invariant : Threads σ π → Prop)
    (kept : ∀ threads i own own' next, invariant threads → guard threads i →
      Turn turn threads i own own' next → invariant next) :
    ∀ (schedule : List Nat) (threads : Threads σ π), invariant threads →
      Along turn guard threads schedule → run turn threads schedule = some last →
      invariant last := by
  intro schedule
  induction schedule with
  | nil =>
    intro threads holds _ ran
    cases ran
    exact holds
  | cons i rest ih =>
    intro threads holds along ran
    rw [run] at ran
    split at ran
    · cases ran
    · next next stepped =>
      obtain ⟨own, own', turned⟩ := step_turn stepped
      exact ih next (kept threads i own own' next holds along.1 turned) (along.2 next stepped) ran

theorem along_true (schedule : List Nat) (threads : Threads σ π) :
    Along turn (fun _ _ => True) threads schedule := by
  induction schedule generalizing threads with
  | nil => trivial
  | cons i rest ih => exact ⟨trivial, fun next _ => ih next⟩

theorem run_keeps (invariant : Threads σ π → Prop)
    (kept : ∀ threads i own own' next, invariant threads → Turn turn threads i own own' next →
      invariant next)
    (schedule : List Nat) (threads : Threads σ π) (holds : invariant threads)
    (ran : run turn threads schedule = some last) : invariant last :=
  run_invariant (fun _ _ => True) invariant
    (fun threads i own own' next holds _ turned => kept threads i own own' next holds turned)
    schedule threads holds (along_true schedule threads) ran

theorem along_cons {guard : Threads σ π → Nat → Prop} {rest : List Nat} (here : guard threads i)
    (taken : threads.step turn i = some next) (later : Along turn guard next rest) :
    Along turn guard threads (i :: rest) := by
  refine ⟨here, fun next' stepped => ?_⟩
  rw [taken, Option.some_inj] at stepped
  rwa [← stepped]

theorem exists_break {guard : Threads σ π → Nat → Prop} :
    ∀ (schedule : List Nat) (threads : Threads σ π), run turn threads schedule = some last →
      ¬ Along turn guard threads schedule →
      ∃ front i rest reached own own' next, schedule = front ++ i :: rest ∧
        run turn threads front = some reached ∧ ¬ guard reached i ∧
        Turn turn reached i own own' next ∧ run turn next rest = some last := by
  intro schedule
  induction schedule with
  | nil => exact fun _ _ broken => absurd trivial broken
  | cons i rest ih =>
    intro threads ran broken
    rw [run] at ran
    split at ran
    · cases ran
    · next next stepped =>
      by_cases here : guard threads i
      · have later : ¬ Along turn guard next rest := fun along => broken (along_cons here stepped along)
        obtain ⟨front, j, back, reached, own, own', next', split, before, breaks, after⟩ :=
          ih next ran later
        refine ⟨i :: front, j, back, reached, own, own', next', by rw [split]; rfl, ?_, breaks, after⟩
        rw [run, stepped]
        exact before
      · obtain ⟨own, own', turned⟩ := step_turn stepped
        exact ⟨[], i, rest, threads, own, own', next, rfl, rfl, here, turned, ran⟩

section Answers

variable {ε : Type}

-- Each turn begins with an answer from outside. Who has no turn to take is passed over.
def heard (turn : ε → π → σ → Option (π × σ)) (threads : Threads σ π) (event : Nat × ε) :
    Unit × Threads σ π :=
  ((), (threads.step (turn event.2) event.1).getD threads)

variable {turn : ε → π → σ → Option (π × σ)}

theorem heard_cases (threads : Threads σ π) (i : Nat) (answer : ε) :
    threads.step (turn answer) i = none ∧ (heard turn threads (i, answer)).2 = threads ∨
      ∃ own own', Turn (turn answer) threads i own own' (heard turn threads (i, answer)).2 := by
  cases stepped : threads.step (turn answer) i with
  | none =>
    left
    simp [heard, stepped]
  | some next =>
    right
    simpa [heard, stepped] using step_turn stepped

theorem step_ne_none {answer : ε} {own : π} (here : threads.locals[i]? = some own)
    (able : turn answer own threads.shared ≠ none) : threads.step (turn answer) i ≠ none := by
  rw [step, here]
  cases takes : turn answer own threads.shared with
  | none => exact absurd takes able
  | some next => simp [takes]

end Answers

theorem Turn.locals_eq {own own' : π} (turned : Turn turn threads i own own' next) :
    next.locals = threads.locals.set i own' := by
  have bound := (List.getElem?_eq_some_iff.mp turned.before).1
  apply List.ext_getElem?
  intro j
  by_cases mine : j = i
  · rw [mine, turned.after, List.getElem?_set_self bound]
  · rw [turned.others j mine, List.getElem?_set_ne (Ne.symm mine)]

theorem Turn.countP_locals {own own' : π} (turned : Turn turn threads i own own' next) (p : π → Bool) :
    next.locals.countP p + (if p own then 1 else 0) =
      threads.locals.countP p + (if p own' then 1 else 0) := by
  obtain ⟨bound, own_⟩ := List.getElem?_eq_some_iff.mp turned.before
  have counted : (if p own then 1 else 0) ≤ threads.locals.countP p := by
    split
    · next holds => exact List.countP_pos_iff.mpr ⟨own, List.mem_of_getElem? turned.before, holds⟩
    · exact Nat.zero_le _
  rw [turned.locals_eq, List.countP_set bound, own_]
  omega

end Threads

end Shared
