import Mathlib.Algebra.BigOperators.Fin
import Mathlib.Data.Fintype.BigOperators

set_option autoImplicit false

/-! A task asks for answers and forks groups of tasks, which it awaits in their order. It goes on at the first
of them that has failed and leaves the others to themselves. A group has permits for those of its tasks that
are under way. Which task takes the next turn is open. -/

namespace Shared.ForkJoin

variable {q a v ε : Type}

-- Without a number, all tasks of a group may be under way at once.
abbrev Permits := Option { n : Nat // 0 < n }

inductive Job (q a v ε : Type) where
  | done (result : Except ε v)
  | ask (request : q) (resume : a → Job q a v ε)
  | fork (permits : Permits) (n : Nat) (children : Fin n → Job q a v ε)
      (join : Except ε (List v) → Job q a v ε)

-- A task in its run. `beside`: the tasks of a group that was joined may still be under way.
inductive Proc (q a v ε : Type) where
  | queued (task : Job q a v ε)
  | done (result : Except ε v)
  | ask (request : q) (resume : a → Job q a v ε)
  | wait (permits : Permits) (n : Nat) (children : Fin n → Proc q a v ε)
      (join : Except ε (List v) → Job q a v ε)
  | beside (permits : Permits) (n : Nat) (children : Fin n → Proc q a v ε) (main : Proc q a v ε)

def Job.start : Job q a v ε → Proc q a v ε
  | .done result => .done result
  | .ask request resume => .ask request resume
  | .fork permits n children join => .wait permits n (fun i => .queued (children i)) join

def gather : List (Except ε v) → Except ε (List v)
  | [] => .ok []
  | .ok x :: rest => (gather rest).map fun xs => x :: xs
  | .error e :: _ => .error e

-- The same of the results that are there: one that is missing is only awaited if none before it has failed.
def await : List (Option (Except ε v)) → Option (Except ε (List v))
  | [] => some (.ok [])
  | some (.ok x) :: rest => (await rest).map fun result => result.map fun xs => x :: xs
  | some (.error e) :: _ => some (.error e)
  | none :: _ => none

namespace Proc

def result? : Proc q a v ε → Option (Except ε v)
  | .done result => some result
  | .beside _ _ _ main => main.result?
  | _ => none

def load : Proc q a v ε → Nat
  | .queued _ => 0
  | proc => if proc.result?.isNone then 1 else 0

def active {n : Nat} (children : Fin n → Proc q a v ε) : Nat := ∑ i, (children i).load

def admits (permits : Permits) (active : Nat) : Bool :=
  match permits with
  | none => true
  | some most => active < most.val

-- One task of a group takes a turn; a queued one needs a permit for it.
def crew {n : Nat} (turn : Proc q a v ε → Option (Proc q a v ε × Option (q × a))) (permits : Permits)
    (children : Fin n → Proc q a v ε) (i : Nat) :
    Option ((Fin n → Proc q a v ε) × Option (q × a)) :=
  if bound : i < n then
    match children ⟨i, bound⟩ with
    | .queued task =>
      if admits permits (active children) then some (Function.update children ⟨i, bound⟩ task.start, none)
      else none
    | child =>
      (turn child).map fun (child, event) => (Function.update children ⟨i, bound⟩ child, event)
  else none

def turn : List Nat → a → Proc q a v ε → Option (Proc q a v ε × Option (q × a))
  | [], _, .queued task => some (task.start, none)
  | [], answer, .ask request resume => some ((resume answer).start, some (request, answer))
  | [], _, .wait permits n children join =>
    (await (List.ofFn fun i => (children i).result?)).map fun joined =>
      (.beside permits n children (join joined).start, none)
  | i :: path, answer, .wait permits n children join =>
    (crew (turn path answer) permits children i).map fun (children, event) =>
      (.wait permits n children join, event)
  | 0 :: path, answer, .beside permits n children main =>
    (turn path answer main).map fun (main, event) => (.beside permits n children main, event)
  | (i + 1) :: path, answer, .beside permits n children main =>
    (crew (turn path answer) permits children i).map fun (children, event) =>
      (.beside permits n children main, event)
  | _, _, _ => none

-- A schedule says whose turn it is and gives the answer. The run logs what was asked.
def run : List (List Nat × a) → Proc q a v ε → Option (Proc q a v ε × List (q × a))
  | [], proc => some (proc, [])
  | (path, answer) :: rest, proc =>
    (turn path answer proc).bind fun (next, event) =>
      (run rest next).map fun (last, log) => (last, event.toList ++ log)

end Proc

namespace Proc

section Rule

variable {n : Nat} {permits : Permits} {children children' : Fin n → Proc q a v ε}
  {event : Option (q × a)}

inductive Crewed (motive : Proc q a v ε → Proc q a v ε → Option (q × a) → Prop) (permits : Permits)
    (children : Fin n → Proc q a v ε) : (Fin n → Proc q a v ε) → Option (q × a) → Prop where
  | admitted (i : Fin n) (task : Job q a v ε) (queued : children i = .queued task)
      (free : admits permits (active children) = true) :
      Crewed motive permits children (Function.update children i task.start) none
  | within (i : Fin n) (child : Proc q a v ε) (event : Option (q × a))
      (started : ∀ task, children i ≠ .queued task) (holds : motive (children i) child event) :
      Crewed motive permits children (Function.update children i child) event

theorem crew_cases {motive : Proc q a v ε → Proc q a v ε → Option (q × a) → Prop}
    {turn : Proc q a v ε → Option (Proc q a v ε × Option (q × a))} {i : Nat}
    (each : ∀ proc next event, turn proc = some (next, event) → motive proc next event)
    (taken : crew turn permits children i = some (children', event)) :
    Crewed motive permits children children' event := by
  unfold crew at taken
  split at taken
  · next bound =>
    split at taken
    · next task queued =>
      split at taken
      · next free =>
        cases taken
        exact .admitted ⟨i, bound⟩ task queued free
      · cases taken
    · next started =>
      obtain ⟨⟨child, event⟩, took, same⟩ := Option.map_eq_some_iff.mp taken
      cases same
      exact .within ⟨i, bound⟩ child event started (each _ _ _ took)
  · cases taken

/-- What holds of every kind of turn, given that it holds of the turn of the task inside. -/
theorem turn_rule {motive : Proc q a v ε → Proc q a v ε → Option (q × a) → Prop}
    (queued : ∀ task, motive (.queued task) task.start none)
    (asked : ∀ request resume answer,
      motive (.ask request resume) (resume answer).start (some (request, answer)))
    (joined : ∀ permits n children join joined,
      await (List.ofFn fun i => (children i).result?) = some joined →
        motive (.wait permits n children join) (.beside permits n children (join joined).start) none)
    (waiting : ∀ permits n children children' join event, Crewed motive permits children children' event →
      motive (.wait permits n children join) (.wait permits n children' join) event)
    (main : ∀ permits n children main main' event, motive main main' event →
      motive (.beside permits n children main) (.beside permits n children main') event)
    (beside : ∀ permits n children children' main event, Crewed motive permits children children' event →
      motive (.beside permits n children main) (.beside permits n children' main) event)
    {path : List Nat} {answer : a} {proc next : Proc q a v ε}
    (taken : turn path answer proc = some (next, event)) : motive proc next event := by
  induction path generalizing proc next event with
  | nil =>
    cases proc with
    | queued task =>
      cases taken
      exact queued task
    | done result => cases taken
    | ask request resume =>
      cases taken
      exact asked request resume answer
    | wait permits n children join =>
      obtain ⟨result, awaited, same⟩ := Option.map_eq_some_iff.mp taken
      cases same
      exact joined permits n children join result awaited
    | beside permits n children main => cases taken
  | cons i path ih =>
    cases proc with
    | queued task => cases taken
    | done result => cases taken
    | ask request resume => cases taken
    | wait permits n children join =>
      obtain ⟨⟨children', event⟩, took, same⟩ := Option.map_eq_some_iff.mp taken
      cases same
      exact waiting permits n children children' join event
        (crew_cases (fun _ _ _ took => ih took) took)
    | beside permits n children main_ =>
      cases i with
      | zero =>
        obtain ⟨⟨main', event⟩, took, same⟩ := Option.map_eq_some_iff.mp taken
        cases same
        exact main permits n children main_ main' event (ih took)
      | succ i =>
        obtain ⟨⟨children', event⟩, took, same⟩ := Option.map_eq_some_iff.mp taken
        cases same
        exact beside permits n children children' main_ event
          (crew_cases (fun _ _ _ took => ih took) took)

end Rule

theorem run_cons {head : List Nat × a} {rest : List (List Nat × a)} {proc last : Proc q a v ε}
    {log : List (q × a)} (ran : run (head :: rest) proc = some (last, log)) :
    ∃ next event later, turn head.1 head.2 proc = some (next, event) ∧ run rest next = some (last, later) ∧
      log = event.toList ++ later := by
  obtain ⟨⟨next, event⟩, taken, went⟩ := Option.bind_eq_some_iff.mp ran
  obtain ⟨⟨last, later⟩, on, same⟩ := Option.map_eq_some_iff.mp went
  cases same
  exact ⟨next, event, later, taken, on, rfl⟩

end Proc

def Job.value (f : q → a) : Job q a v ε → Except ε v
  | .done result => result
  | .ask request resume => (resume (f request)).value f
  | .fork _ _ children join => (join (gather (List.ofFn fun i => (children i).value f))).value f

def Job.work (f : q → a) : Job q a v ε → Nat
  | .done _ => 0
  | .ask request resume => 1 + (resume (f request)).work f
  | .fork _ _ children join =>
    1 + ∑ i, (1 + (children i).work f) + (join (gather (List.ofFn fun i => (children i).value f))).work f

namespace Proc

def value (f : q → a) : Proc q a v ε → Except ε v
  | .queued task => task.value f
  | .done result => result
  | .ask request resume => (resume (f request)).value f
  | .wait _ _ children join => (join (gather (List.ofFn fun i => (children i).value f))).value f
  | .beside _ _ _ main => main.value f

def work (f : q → a) : Proc q a v ε → Nat
  | .queued task => 1 + task.work f
  | .done _ => 0
  | .ask request resume => 1 + (resume (f request)).work f
  | .wait _ _ children join =>
    1 + ∑ i, (children i).work f + (join (gather (List.ofFn fun i => (children i).value f))).work f
  | .beside _ _ children main => ∑ i, (children i).work f + main.work f

variable {f : q → a}

@[simp] theorem value_start (task : Job q a v ε) : task.start.value f = task.value f := by
  cases task <;> rfl

@[simp] theorem work_start (task : Job q a v ε) : task.start.work f = task.work f := by
  cases task <;> rfl

theorem value_of_result {proc : Proc q a v ε} {result : Except ε v} (there : proc.result? = some result) :
    proc.value f = result := by
  induction proc with
  | queued task => cases there
  | done result => cases there; rfl
  | ask request resume => cases there
  | wait permits n children join ih => cases there
  | beside permits n children main ih ihMain => exact ihMain there

theorem await_eq {known : List (Option (Except ε v))} {values : List (Except ε v)}
    (agree : List.Forall₂ (fun known value => ∀ result, known = some result → value = result) known values)
    {joined : Except ε (List v)} (awaited : await known = some joined) : gather values = joined := by
  induction agree generalizing joined with
  | nil =>
    cases awaited
    rfl
  | @cons known value knowns values here later ih =>
    cases known with
    | none => cases awaited
    | some result =>
      rw [here result rfl]
      cases result with
      | error e =>
        cases awaited
        rfl
      | ok x =>
        obtain ⟨rest, others, same⟩ := Option.map_eq_some_iff.mp awaited
        subst same
        rw [gather, ih others]

theorem await_children {n : Nat} {children : Fin n → Proc q a v ε} {joined : Except ε (List v)}
    (awaited : await (List.ofFn fun i => (children i).result?) = some joined) :
    gather (List.ofFn fun i => (children i).value f) = joined := by
  refine await_eq ?_ awaited
  rw [List.forall₂_iff_get]
  refine ⟨by simp, ?_⟩
  intro i _ _ result there
  simp only [List.get_ofFn] at there ⊢
  exact value_of_result there

theorem sum_update {α : Type} {n : Nat} (g : α → Nat) (group : Fin n → α) (i : Fin n) (x : α) :
    ∑ j, g (Function.update group i x j) + g (group i) = ∑ j, g (group j) + g x := by
  have split (members : Fin n → α) :
      ∑ j, g (members j) = g (members i) + ∑ j ∈ Finset.univ.erase i, g (members j) :=
    (Finset.add_sum_erase _ _ (Finset.mem_univ i)).symm
  have others : ∑ j ∈ Finset.univ.erase i, g (Function.update group i x j) =
      ∑ j ∈ Finset.univ.erase i, g (group j) :=
    Finset.sum_congr rfl fun j other => by rw [Function.update_of_ne (Finset.ne_of_mem_erase other)]
  rw [split, split group, others, Function.update_self]
  omega

def Follows (f : q → a) (event : Option (q × a)) : Prop :=
  ∀ request answer, event = some (request, answer) → answer = f request

theorem turn_value {path : List Nat} {answer : a} {proc next : Proc q a v ε} {event : Option (q × a)}
    (taken : turn path answer proc = some (next, event)) (follows : Follows f event) :
    next.value f = proc.value f ∧ next.work f + 1 = proc.work f := by
  have crewed {n : Nat} {permits : Permits} {children children' : Fin n → Proc q a v ε} {event : Option (q × a)}
      (follows : Follows f event)
      (turned : Crewed (fun proc next event => Follows f event →
        next.value f = proc.value f ∧ next.work f + 1 = proc.work f) permits children children' event) :
      (∀ i, (children' i).value f = (children i).value f) ∧
        ∑ i, (children' i).work f + 1 = ∑ i, (children i).work f := by
    cases turned with
    | admitted i task queued free =>
      have total := sum_update (work f) children i task.start
      rw [queued, work_start, work] at total
      refine ⟨?_, by omega⟩
      intro j
      by_cases same : j = i
      · subst same
        rw [Function.update_self, queued, value_start, value]
      · rw [Function.update_of_ne same]
    | within i child event started holds =>
      obtain ⟨sameValue, less⟩ := holds follows
      have total := sum_update (work f) children i child
      refine ⟨?_, by omega⟩
      intro j
      by_cases same : j = i
      · subst same
        rw [Function.update_self, sameValue]
      · rw [Function.update_of_ne same]
  refine turn_rule ?_ ?_ ?_ ?_ ?_ ?_ taken follows
    (motive := fun proc next event => Follows f event →
      next.value f = proc.value f ∧ next.work f + 1 = proc.work f)
  · intro task _
    simp [value, work, Nat.add_comm]
  · intro request resume answer follows
    rw [follows request answer rfl]
    simp [value, work, Nat.add_comm]
  · intro permits n children join joined awaited _
    simp only [value, work, value_start, work_start, await_children awaited, true_and]
    omega
  · intro permits n children children' join event turned follows
    obtain ⟨same, less⟩ := crewed follows turned
    simp only [value, work, same, true_and]
    omega
  · intro permits n children main main' event holds follows
    obtain ⟨same, less⟩ := holds follows
    simp only [value, work, same, true_and]
    omega
  · intro permits n children children' main event turned follows
    obtain ⟨same, less⟩ := crewed follows turned
    simp only [value, work, true_and]
    omega

theorem run_value {schedule : List (List Nat × a)} {proc last : Proc q a v ε} {log : List (q × a)}
    (ran : run schedule proc = some (last, log)) (follows : ∀ entry ∈ log, entry.2 = f entry.1) :
    last.value f = proc.value f ∧ last.work f + schedule.length = proc.work f := by
  induction schedule generalizing proc log with
  | nil =>
    cases ran
    exact ⟨rfl, rfl⟩
  | cons head rest ih =>
    obtain ⟨next, event, later, taken, on, rfl⟩ := run_cons ran
    rw [List.forall_mem_append] at follows
    obtain ⟨sameValue, less⟩ := turn_value taken fun request answer asked => by
      subst asked
      exact follows.1 _ (List.mem_singleton_self _)
    obtain ⟨same, left⟩ := ih on follows.2
    rw [List.length_cons]
    exact ⟨same.trans sameValue, by omega⟩

theorem work_pos_of_no_result {proc : Proc q a v ε} (none_ : proc.result? = none) : 0 < proc.work f := by
  induction proc with
  | queued task =>
    rw [work]
    omega
  | done result => cases none_
  | ask request resume =>
    rw [work]
    omega
  | wait permits n children join ih =>
    rw [work]
    omega
  | beside permits n children main ih ihMain =>
    have left := ihMain none_
    rw [work]
    omega

theorem await_of_results {known : List (Option (Except ε v))} (all : ∀ result ∈ known, result ≠ none) :
    ∃ joined, await known = some joined := by
  induction known with
  | nil => exact ⟨_, rfl⟩
  | cons result rest ih =>
    rw [List.forall_mem_cons] at all
    obtain ⟨joined, awaited⟩ := ih all.2
    cases result with
    | none => exact absurd rfl all.1
    | some result =>
      cases result with
      | ok x => exact ⟨_, by rw [await, awaited]; rfl⟩
      | error e => exact ⟨_, rfl⟩

theorem active_eq_zero {n : Nat} {children : Fin n → Proc q a v ε} (idle : ∀ i, (children i).load = 0) :
    active children = 0 :=
  Finset.sum_eq_zero fun i _ => idle i

theorem admits_zero (permits : Permits) : admits permits 0 = true := by
  cases permits with
  | none => rfl
  | some most => exact decide_eq_true most.property

theorem load_eq_zero {proc : Proc q a v ε} (spent : proc.work f = 0) : proc.load = 0 := by
  cases result : proc.result? with
  | none =>
    have left : 0 < proc.work f := work_pos_of_no_result result
    omega
  | some _ => cases proc <;> simp [load, result]

theorem crew_progress {n : Nat} {children : Fin n → Proc q a v ε} (permits : Permits) {i : Fin n}
    (left : 0 < (children i).work f)
    (each : ∀ i, 0 < (children i).work f → ∃ path, ∀ answer, (turn path answer (children i)).isSome) :
    ∃ j path, ∀ answer, (crew (turn path answer) permits children j).isSome := by
  by_cases started : ∃ j, (∀ task, children j ≠ .queued task) ∧ 0 < (children j).work f
  · obtain ⟨j, started, left⟩ := started
    obtain ⟨path, able⟩ := each j left
    refine ⟨j, path, fun answer => ?_⟩
    unfold crew
    rw [dif_pos j.isLt]
    split
    · next task queued => exact absurd queued (started task)
    · rw [Option.isSome_map]
      exact able answer
  · have idle (j : Fin n) : (children j).load = 0 := by
      cases here : children j with
      | queued task => rfl
      | _ =>
        rw [← here]
        apply @load_eq_zero _ _ _ _ f
        by_contra left
        exact started ⟨j, by simp [here], by omega⟩
    have queued : ∃ task, children i = .queued task := by
      cases here : children i with
      | queued task => exact ⟨task, rfl⟩
      | _ => exact absurd ⟨i, by simp [here], left⟩ started
    obtain ⟨task, queued⟩ := queued
    refine ⟨i, [], fun answer => ?_⟩
    unfold crew
    rw [dif_pos i.isLt]
    simp [queued, active_eq_zero idle, admits_zero]

theorem progress {proc : Proc q a v ε} (left : 0 < proc.work f) :
    ∃ path, ∀ answer, (turn path answer proc).isSome := by
  induction proc with
  | queued task => exact ⟨[], fun _ => rfl⟩
  | done result => simp [work] at left
  | ask request resume => exact ⟨[], fun _ => rfl⟩
  | wait permits n children join ih =>
    by_cases spent : ∀ i, (children i).work f = 0
    · have all : ∀ result ∈ List.ofFn fun i => (children i).result?, result ≠ none := by
        intro result member
        obtain ⟨i, same⟩ := List.mem_ofFn.mp member
        subst same
        intro none_
        have left : 0 < (children i).work f := work_pos_of_no_result none_
        have spent := spent i
        omega
      obtain ⟨joined, awaited⟩ := await_of_results all
      exact ⟨[], fun _ => by simp [turn, awaited]⟩
    · obtain ⟨i, left⟩ := not_forall.mp spent
      obtain ⟨j, path, able⟩ := crew_progress permits (Nat.pos_of_ne_zero left) fun i left => ih i left
      exact ⟨j :: path, fun answer => by simpa [turn] using able answer⟩
  | beside permits n children main ih ihMain =>
    by_cases spent : main.work f = 0
    · have group : ∃ i, (children i).work f ≠ 0 := by
        by_contra none_
        have none_ : ∀ i, (children i).work f = 0 := by simpa using none_
        rw [work, spent, Finset.sum_eq_zero fun i _ => none_ i] at left
        omega
      obtain ⟨i, left⟩ := group
      obtain ⟨j, path, able⟩ := crew_progress permits (Nat.pos_of_ne_zero left) fun i left => ih i left
      exact ⟨(j + 1) :: path, fun answer => by simpa [turn] using able answer⟩
    · obtain ⟨path, able⟩ := ihMain (Nat.pos_of_ne_zero spent)
      exact ⟨0 :: path, fun answer => by simpa [turn] using able answer⟩

theorem run_confluent {schedule : List (List Nat × a)} {proc last : Proc q a v ε} {log : List (q × a)}
    (ran : run schedule proc = some (last, log)) (follows : ∀ entry ∈ log, entry.2 = f entry.1) :
    (∀ result, last.result? = some result → result = proc.value f) ∧
      schedule.length ≤ proc.work f ∧
      (schedule.length = proc.work f → last.result? = some (proc.value f)) ∧
      (schedule.length < proc.work f → ∃ path, ∀ answer, (turn path answer last).isSome) := by
  obtain ⟨same, left⟩ := run_value ran follows
  refine ⟨?_, by omega, ?_, ?_⟩
  · intro result there
    rw [← same, value_of_result there]
  · intro all
    cases there : last.result? with
    | none =>
      have more : 0 < last.work f := work_pos_of_no_result there
      omega
    | some result => rw [← same, value_of_result there]
  · intro less
    exact @progress _ _ _ _ f _ (by omega)

end Proc

end Shared.ForkJoin
