import AtomrAgents.Shared.ForkJoin

set_option autoImplicit false

namespace Shared.ForkJoin

variable {q a v ε : Type}

namespace Job

def AtMost : Job q a v ε → Nat → Prop
  | .done _, _ => True
  | .ask _ resume, n => ∃ rest, rest + 1 ≤ n ∧ ∀ answer, (resume answer).AtMost rest
  | .fork _ m children join, n =>
    ∃ (share : Fin m → Nat) (rest : Nat), ∑ i, share i + rest ≤ n ∧ (∀ i, (children i).AtMost (share i)) ∧
      ∀ joined, (join joined).AtMost rest

def Asks (P : q → Prop) : Job q a v ε → Prop
  | .done _ => True
  | .ask request resume => P request ∧ ∀ answer, (resume answer).Asks P
  | .fork _ _ children join => (∀ i, (children i).Asks P) ∧ ∀ joined, (join joined).Asks P

def bind (task : Job q a v ε) (next : Except ε v → Job q a v ε) : Job q a v ε :=
  match task with
  | .done result => next result
  | .ask request resume => .ask request fun answer => (resume answer).bind next
  | .fork permits n children join => .fork permits n children fun joined => (join joined).bind next

variable {task : Job q a v ε} {next : Except ε v → Job q a v ε} {P : q → Prop} {m n : Nat}

theorem AtMost.mono (bounded : task.AtMost m) (le : m ≤ n) : task.AtMost n := by
  cases task with
  | done result => trivial
  | ask request resume =>
    obtain ⟨rest, less, later⟩ := bounded
    exact ⟨rest, less.trans le, later⟩
  | fork permits k children join =>
    obtain ⟨share, rest, less, each, later⟩ := bounded
    exact ⟨share, rest, less.trans le, each, later⟩

@[simp] theorem value_bind (f : q → a) (task : Job q a v ε) :
    (task.bind next).value f = (next (task.value f)).value f := by
  induction task with
  | done result => rfl
  | ask request resume ih => exact ih (f request)
  | fork permits n children join ihChildren ih => exact ih _

theorem AtMost.bind (bounded : task.AtMost m) (then_ : ∀ result, (next result).AtMost n) :
    (task.bind next).AtMost (m + n) := by
  induction task generalizing m with
  | done result => exact (then_ result).mono (Nat.le_add_left n m)
  | ask request resume ih =>
    obtain ⟨rest, less, later⟩ := bounded
    exact ⟨rest + n, by omega, fun answer => ih answer (later answer)⟩
  | fork permits k children join ihChildren ih =>
    obtain ⟨share, rest, less, each, later⟩ := bounded
    exact ⟨share, rest + n, by omega, each, fun joined => ih joined (later joined)⟩

theorem Asks.bind (asks : task.Asks P) (then_ : ∀ result, (next result).Asks P) :
    (task.bind next).Asks P := by
  induction task with
  | done result => exact then_ result
  | ask request resume ih => exact ⟨asks.1, fun answer => ih answer (asks.2 answer)⟩
  | fork permits k children join ihChildren ih => exact ⟨asks.1, fun joined => ih joined (asks.2 joined)⟩

theorem Asks.imp {Q : q → Prop} (asks : task.Asks P) (each : ∀ request, P request → Q request) :
    task.Asks Q := by
  induction task with
  | done result => trivial
  | ask request resume ih => exact ⟨each request asks.1, fun answer => ih answer (asks.2 answer)⟩
  | fork permits k children join ihChildren ih =>
    exact ⟨fun i => ihChildren i (asks.1 i), fun joined => ih joined (asks.2 joined)⟩

end Job

namespace Proc

def AtMost : Proc q a v ε → Nat → Prop
  | .queued task, n => task.AtMost n
  | .done _, _ => True
  | .ask _ resume, n => ∃ rest, rest + 1 ≤ n ∧ ∀ answer, (resume answer).AtMost rest
  | .wait _ m children join, n =>
    ∃ (share : Fin m → Nat) (rest : Nat), ∑ i, share i + rest ≤ n ∧ (∀ i, (children i).AtMost (share i)) ∧
      ∀ joined, (join joined).AtMost rest
  | .beside _ m children main, n =>
    ∃ (share : Fin m → Nat) (rest : Nat), ∑ i, share i + rest ≤ n ∧ (∀ i, (children i).AtMost (share i)) ∧
      main.AtMost rest

def Asks (P : q → Prop) : Proc q a v ε → Prop
  | .queued task => task.Asks P
  | .done _ => True
  | .ask request resume => P request ∧ ∀ answer, (resume answer).Asks P
  | .wait _ _ children join => (∀ i, (children i).Asks P) ∧ ∀ joined, (join joined).Asks P
  | .beside _ _ children main => (∀ i, (children i).Asks P) ∧ main.Asks P

def fits (permits : Permits) (active : Nat) : Prop :=
  match permits with
  | none => True
  | some most => active ≤ most.val

def Admitted : Proc q a v ε → Prop
  | .wait permits _ children _ => fits permits (active children) ∧ ∀ i, (children i).Admitted
  | .beside permits _ children main =>
    fits permits (active children) ∧ (∀ i, (children i).Admitted) ∧ main.Admitted
  | _ => True

variable {P : q → Prop}

theorem atMost_start {task : Job q a v ε} {n : Nat} (bounded : task.AtMost n) : task.start.AtMost n := by
  cases task <;> exact bounded

theorem asks_start {task : Job q a v ε} (asks : task.Asks P) : task.start.Asks P := by
  cases task <;> exact asks

theorem admitted_start (task : Job q a v ε) : task.start.Admitted := by
  cases task with
  | done result => trivial
  | ask request resume => trivial
  | fork permits n children join =>
    refine ⟨?_, fun _ => trivial⟩
    rw [active_eq_zero fun _ => rfl]
    cases permits with
    | none => trivial
    | some most => exact Nat.zero_le _

def asked (event : Option (q × a)) : Nat := event.toList.length

theorem turn_atMost {path : List Nat} {answer : a} {proc next : Proc q a v ε} {event : Option (q × a)}
    (taken : turn path answer proc = some (next, event)) {n : Nat} (bounded : proc.AtMost n) :
    ∃ rest, rest + asked event ≤ n ∧ next.AtMost rest := by
  have crewed {m : Nat} {permits : Permits} {children children' : Fin m → Proc q a v ε} {event : Option (q × a)}
      {share : Fin m → Nat} (each : ∀ i, (children i).AtMost (share i))
      (turned : Crewed (fun proc next event => ∀ n, proc.AtMost n →
        ∃ rest, rest + asked event ≤ n ∧ next.AtMost rest) permits children children' event) :
      ∃ share' : Fin m → Nat, ∑ i, share' i + asked event ≤ ∑ i, share i ∧
        ∀ i, (children' i).AtMost (share' i) := by
    cases turned with
    | admitted i task queued free =>
      refine ⟨share, by simp [asked], ?_⟩
      intro j
      by_cases same : j = i
      · subst same
        have here := each j
        rw [queued] at here
        simpa using atMost_start here
      · simpa [same] using each j
    | within i child event started holds =>
      obtain ⟨rest, less, bounded⟩ := holds _ (each i)
      refine ⟨Function.update share i rest, ?_, ?_⟩
      · have total := sum_update id share i rest
        simp only [id_eq] at total
        omega
      · intro j
        by_cases same : j = i
        · subst same
          simpa using bounded
        · simpa [same] using each j
  refine turn_rule ?_ ?_ ?_ ?_ ?_ ?_ taken n bounded
    (motive := fun proc next event => ∀ n, proc.AtMost n → ∃ rest, rest + asked event ≤ n ∧ next.AtMost rest)
  · intro task n bounded
    exact ⟨n, by simp [asked], atMost_start bounded⟩
  · intro request resume answer n bounded
    obtain ⟨rest, less, later⟩ := bounded
    exact ⟨rest, less, atMost_start (later answer)⟩
  · intro permits m children join joined _ n bounded
    obtain ⟨share, rest, less, each, later⟩ := bounded
    exact ⟨n, by simp [asked], share, rest, less, each, atMost_start (later joined)⟩
  · intro permits m children children' join event turned n bounded
    obtain ⟨share, rest, less, each, later⟩ := bounded
    obtain ⟨share', left, each⟩ := crewed each turned
    exact ⟨∑ i, share' i + rest, by omega, share', rest, le_refl _, each, later⟩
  · intro permits m children main main' event holds n bounded
    obtain ⟨share, rest, less, each, later⟩ := bounded
    obtain ⟨rest', left, later⟩ := holds _ later
    exact ⟨∑ i, share i + rest', by omega, share, rest', le_refl _, each, later⟩
  · intro permits m children children' main event turned n bounded
    obtain ⟨share, rest, less, each, later⟩ := bounded
    obtain ⟨share', left, each⟩ := crewed each turned
    exact ⟨∑ i, share' i + rest, by omega, share', rest, le_refl _, each, later⟩

theorem run_atMost {schedule : List (List Nat × a)} {proc last : Proc q a v ε} {log : List (q × a)}
    (ran : run schedule proc = some (last, log)) {n : Nat} (bounded : proc.AtMost n) : log.length ≤ n := by
  induction schedule generalizing proc log n with
  | nil =>
    cases ran
    exact Nat.zero_le n
  | cons head rest ih =>
    obtain ⟨next, event, later, taken, on, rfl⟩ := run_cons ran
    obtain ⟨left, less, bounded⟩ := turn_atMost taken bounded
    have more := ih on bounded
    rw [asked] at less
    rw [List.length_append]
    omega

theorem turn_asks {P : q → Prop} {path : List Nat} {answer : a} {proc next : Proc q a v ε}
    {event : Option (q × a)} (taken : turn path answer proc = some (next, event)) (asks : proc.Asks P) :
    (∀ entry ∈ event.toList, P entry.1) ∧ next.Asks P := by
  have crewed {m : Nat} {permits : Permits} {children children' : Fin m → Proc q a v ε} {event : Option (q × a)}
      (each : ∀ i, (children i).Asks P)
      (turned : Crewed (fun proc next event => proc.Asks P →
        (∀ entry ∈ event.toList, P entry.1) ∧ next.Asks P) permits children children' event) :
      (∀ entry ∈ event.toList, P entry.1) ∧ ∀ i, (children' i).Asks P := by
    cases turned with
    | admitted i task queued free =>
      refine ⟨by simp, fun j => ?_⟩
      by_cases same : j = i
      · subst same
        have here := each j
        rw [queued] at here
        simpa using asks_start here
      · simpa [same] using each j
    | within i child event started holds =>
      obtain ⟨now, later⟩ := holds (each i)
      refine ⟨now, fun j => ?_⟩
      by_cases same : j = i
      · subst same
        simpa using later
      · simpa [same] using each j
  refine turn_rule ?_ ?_ ?_ ?_ ?_ ?_ taken asks
    (motive := fun proc next event => proc.Asks P → (∀ entry ∈ event.toList, P entry.1) ∧ next.Asks P)
  · intro task asks
    exact ⟨by simp, asks_start asks⟩
  · intro request resume answer asks
    exact ⟨by simpa using asks.1, asks_start (asks.2 answer)⟩
  · intro permits m children join joined _ asks
    exact ⟨by simp, asks.1, asks_start (asks.2 joined)⟩
  · intro permits m children children' join event turned asks
    obtain ⟨now, each⟩ := crewed asks.1 turned
    exact ⟨now, each, asks.2⟩
  · intro permits m children main main' event holds asks
    obtain ⟨now, later⟩ := holds asks.2
    exact ⟨now, asks.1, later⟩
  · intro permits m children children' main event turned asks
    obtain ⟨now, each⟩ := crewed asks.1 turned
    exact ⟨now, each, asks.2⟩

theorem run_asks {P : q → Prop} {schedule : List (List Nat × a)} {proc last : Proc q a v ε}
    {log : List (q × a)} (ran : run schedule proc = some (last, log)) (asks : proc.Asks P) :
    ∀ entry ∈ log, P entry.1 := by
  induction schedule generalizing proc log with
  | nil =>
    cases ran
    simp
  | cons head rest ih =>
    obtain ⟨next, event, later, taken, on, rfl⟩ := run_cons ran
    obtain ⟨now, asks⟩ := turn_asks taken asks
    rw [List.forall_mem_append]
    exact ⟨now, ih on asks⟩

theorem load_le_one (proc : Proc q a v ε) : proc.load ≤ 1 := by
  unfold load
  split
  · exact Nat.zero_le 1
  · split <;> omega

theorem load_le_of_result {proc next : Proc q a v ε} (started : ∀ task, proc ≠ .queued task)
    (kept : ∀ result, proc.result? = some result → next.result? = some result) : next.load ≤ proc.load := by
  have load_eq : proc.load = if proc.result?.isNone then 1 else 0 := by
    cases proc with
    | queued task => exact absurd rfl (started task)
    | _ => rfl
  cases there : proc.result? with
  | none =>
    rw [load_eq, there]
    exact load_le_one next
  | some result =>
    have settled := kept result there
    cases next <;> simp [load, settled]

theorem fits_of_le {permits : Permits} {m n : Nat} (le : m ≤ n) (fit : fits permits n) : fits permits m := by
  cases permits with
  | none => trivial
  | some most => exact le_trans le fit

theorem turn_admitted {path : List Nat} {answer : a} {proc next : Proc q a v ε} {event : Option (q × a)}
    (taken : turn path answer proc = some (next, event)) (admitted : proc.Admitted) : next.Admitted := by
  have crewed {m : Nat} {permits : Permits} {children children' : Fin m → Proc q a v ε} {event : Option (q × a)}
      (fit : fits permits (active children)) (each : ∀ i, (children i).Admitted)
      (turned : Crewed (fun proc next _ => proc.Admitted → next.Admitted ∧
        ∀ result, proc.result? = some result → next.result? = some result) permits children children' event) :
      fits permits (active children') ∧ ∀ i, (children' i).Admitted := by
    cases turned with
    | admitted i task queued free =>
      have total := sum_update load children i task.start
      have one := load_le_one task.start
      rw [queued, load] at total
      refine ⟨?_, fun j => ?_⟩
      · cases permits with
        | none => trivial
        | some most =>
          simp only [admits, decide_eq_true_iff] at free
          simp only [fits, active] at free ⊢
          omega
      · by_cases same : j = i
        · subst same
          simpa using admitted_start task
        · simpa [same] using each j
    | within i child event started holds =>
      obtain ⟨here, kept⟩ := holds (each i)
      have total := sum_update load children i child
      have less := load_le_of_result started kept
      refine ⟨fits_of_le ?_ fit, fun j => ?_⟩
      · simp only [active]
        omega
      · by_cases same : j = i
        · subst same
          simpa using here
        · simpa [same] using each j
  refine (turn_rule (motive := fun proc next _ => proc.Admitted → next.Admitted ∧
    ∀ result, proc.result? = some result → next.result? = some result) ?_ ?_ ?_ ?_ ?_ ?_ taken admitted).1
  · intro task _
    exact ⟨admitted_start task, by simp [result?]⟩
  · intro request resume answer _
    exact ⟨admitted_start _, by simp [result?]⟩
  · intro permits m children join joined _ admitted
    exact ⟨⟨admitted.1, admitted.2, admitted_start _⟩, by simp [result?]⟩
  · intro permits m children children' join event turned admitted
    exact ⟨crewed admitted.1 admitted.2 turned, by simp [result?]⟩
  · intro permits m children main main' event holds admitted
    obtain ⟨here, kept⟩ := holds admitted.2.2
    exact ⟨⟨admitted.1, admitted.2.1, here⟩, kept⟩
  · intro permits m children children' main event turned admitted
    obtain ⟨fit, each⟩ := crewed admitted.1 admitted.2.1 turned
    exact ⟨⟨fit, each, admitted.2.2⟩, fun _ there => there⟩

def group : Proc q a v ε → Option (Permits × Nat)
  | .wait permits _ children _ | .beside permits _ children _ => some (permits, active children)
  | _ => none

theorem turn_group {path : List Nat} {answer : a} {proc next : Proc q a v ε} {event : Option (q × a)}
    (taken : turn path answer proc = some (next, event)) {permits : Permits}
    (grouped : proc.group.map Prod.fst = some permits) : next.group.map Prod.fst = some permits := by
  refine turn_rule ?_ ?_ ?_ ?_ ?_ ?_ taken grouped
    (motive := fun proc next _ => proc.group.map Prod.fst = some permits → next.group.map Prod.fst = some permits)
  · intro task grouped
    cases grouped
  · intro request resume answer grouped
    cases grouped
  · intro permits n children join joined _ grouped
    exact grouped
  · intro permits n children children' join event _ grouped
    exact grouped
  · intro permits n children main main' event _ grouped
    exact grouped
  · intro permits n children children' main event _ grouped
    exact grouped

theorem run_group {schedule : List (List Nat × a)} {proc last : Proc q a v ε} {log : List (q × a)}
    (ran : run schedule proc = some (last, log)) (admitted : proc.Admitted) {permits : Permits}
    (grouped : proc.group.map Prod.fst = some permits) :
    ∃ busy, last.group = some (permits, busy) ∧ fits permits busy := by
  induction schedule generalizing proc log with
  | nil =>
    cases ran
    cases last with
    | queued task => cases grouped
    | done result => cases grouped
    | ask request resume => cases grouped
    | wait permits' n children join =>
      cases grouped
      exact ⟨active children, rfl, admitted.1⟩
    | beside permits' n children main =>
      cases grouped
      exact ⟨active children, rfl, admitted.1⟩
  | cons head rest ih =>
    obtain ⟨next, event, later, taken, on, rfl⟩ := run_cons ran
    exact ih on (turn_admitted taken admitted) (turn_group taken grouped)

end Proc

end Shared.ForkJoin
