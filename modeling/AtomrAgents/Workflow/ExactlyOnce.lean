import AtomrAgents.Workflow.ClaimDiscipline
import AtomrAgents.Workflow.SqlRegistry

set_option autoImplicit false

/-! For its resumes an id is live or not: registered and not resolved. Both registries keep this bit in the
same way, so that whether an id is resumed twice can be read off the calls. -/

namespace AtomrAgents

open Shared

inductive Move where
  | opened
  | closed
  | resumed
  | other
  deriving DecidableEq

def RegistryCall.move (id : String) : RegistryCall → Move
  | .register p =>
    if p.interruptId ≠ id then .other
    else if p.status = .resolved then .closed
    else .opened
  | .resume interruptId _ => if interruptId = id then .resumed else .other
  | _ => .other

namespace Live

-- The answer says whether the id was resumed.
def step (id : String) (live : Bool) (call : RegistryCall) : Bool × Bool :=
  match call.move id with
  | .opened => (false, true)
  | .closed => (false, false)
  | .resumed => (live, false)
  | .other => (false, live)

def resumes (id : String) (live : Bool) (calls : List RegistryCall) : Nat :=
  (Operations.trace (step id) live calls).countP Prod.snd

-- The id is registered, unresolved, and afterwards resumed.
def Delivers (id : String) (calls : List RegistryCall) : Prop :=
  ∃ front register between resume back,
    calls = front ++ register :: between ++ resume :: back ∧
      register.move id = .opened ∧ resume.move id = .resumed ∧
      ∀ call ∈ between, call.move id ≠ .closed

def Reopened (id : String) (calls : List RegistryCall) : Prop :=
  ∃ front back, calls = front ++ back ∧ Delivers id front ∧ Delivers id back

variable {id : String} {live : Bool} {calls : List RegistryCall}

@[simp] theorem resumes_nil : resumes id live [] = 0 := rfl

theorem resumes_cons (call : RegistryCall) :
    resumes id live (call :: calls) =
      resumes id (step id live call).2 calls + if (step id live call).1 then 1 else 0 := by
  rw [resumes, Operations.trace, List.countP_cons]
  rfl

theorem resumes_append (front back : List RegistryCall) :
    resumes id live (front ++ back) =
      resumes id live front + resumes id (Operations.final (step id) live front) back := by
  rw [resumes, Operations.trace_append, List.countP_append]
  rfl

theorem step_resumed (call : RegistryCall) (resumed : (step id live call).1 = true) :
    (step id live call).2 = false := by
  unfold step at resumed ⊢
  cases move : call.move id <;> simp_all

theorem resumes_pos_of_live (between : List RegistryCall) (resume : RegistryCall)
    (back : List RegistryCall) (kept : ∀ call ∈ between, call.move id ≠ .closed)
    (resumes_ : resume.move id = .resumed) :
    0 < resumes id true (between ++ resume :: back) := by
  induction between with
  | nil => simp [resumes_cons, step, resumes_]
  | cons call between ih =>
    have later := ih fun call member => kept call (List.mem_cons_of_mem _ member)
    have here := kept call List.mem_cons_self
    rw [List.cons_append, resumes_cons]
    unfold step
    cases move : call.move id <;> simp_all

theorem Delivers.resumes_pos (delivers : Delivers id calls) (live : Bool) :
    0 < resumes id live calls := by
  obtain ⟨front, register, between, resume, back, rfl, opens, resumes_, kept⟩ := delivers
  have later := resumes_pos_of_live between resume back kept resumes_
  simp only [List.append_assoc, List.cons_append, resumes_append, resumes_cons, step, opens] at later ⊢
  omega

theorem Delivers.cons (delivers : Delivers id calls) (call : RegistryCall) :
    Delivers id (call :: calls) := by
  obtain ⟨front, register, between, resume, back, rfl, rest⟩ := delivers
  exact ⟨call :: front, register, between, resume, back, rfl, rest⟩

def Resumes (id : String) (calls : List RegistryCall) : Prop :=
  ∃ between resume back, calls = between ++ resume :: back ∧ resume.move id = .resumed ∧
    ∀ call ∈ between, call.move id ≠ .closed

theorem Resumes.cons (resumes : Resumes id calls) {call : RegistryCall}
    (kept : call.move id ≠ .closed) : Resumes id (call :: calls) := by
  obtain ⟨between, resume, back, rfl, last, before⟩ := resumes
  exact ⟨call :: between, resume, back, rfl, last, by simpa [kept] using before⟩

theorem Resumes.delivers (resumes : Resumes id calls) {call : RegistryCall}
    (opens : call.move id = .opened) : Delivers id (call :: calls) := by
  obtain ⟨between, resume, back, rfl, last, before⟩ := resumes
  exact ⟨[], call, between, resume, back, rfl, opens, last, before⟩

theorem delivers_of_resumes_pos (positive : 0 < resumes id live calls) :
    Delivers id calls ∨ live = true ∧ Resumes id calls := by
  induction calls generalizing live with
  | nil => simp at positive
  | cons call calls ih =>
    rw [resumes_cons] at positive
    cases move : call.move id with
    | opened =>
      simp only [step, move, Bool.false_eq_true, if_false, Nat.add_zero] at positive
      rcases ih positive with delivers | ⟨-, later⟩
      · exact .inl (delivers.cons call)
      · exact .inl (later.delivers move)
    | closed =>
      simp only [step, move, Bool.false_eq_true, if_false, Nat.add_zero] at positive
      rcases ih positive with delivers | ⟨dead, -⟩
      · exact .inl (delivers.cons call)
      · cases dead
    | resumed =>
      cases live with
      | true => exact .inr ⟨rfl, [], call, calls, rfl, move, by simp⟩
      | false =>
        simp only [step, move, Bool.false_eq_true, if_false, Nat.add_zero] at positive
        rcases ih positive with delivers | ⟨dead, -⟩
        · exact .inl (delivers.cons call)
        · cases dead
    | other =>
      simp only [step, move, Bool.false_eq_true, if_false, Nat.add_zero] at positive
      rcases ih positive with delivers | ⟨live, later⟩
      · exact .inl (delivers.cons call)
      · exact .inr ⟨live, later.cons (by simp [move])⟩

theorem resumes_le_one_iff : resumes id false calls ≤ 1 ↔ ¬ Reopened id calls := by
  constructor
  · rintro once ⟨front, back, rfl, first, second⟩
    have one := first.resumes_pos false
    have two := second.resumes_pos (Operations.final (step id) false front)
    rw [resumes_append] at once
    omega
  · intro never
    by_contra twice
    have happens : 0 < resumes id false calls := by omega
    obtain ⟨front, call, back, rfl, none, first⟩ := Operations.exists_first _ _ happens
    have none : resumes id false front = 0 := none
    have first : (step id (Operations.final (step id) false front) call).1 = true := first
    have dead := step_resumed call first
    have one : 0 < resumes id false (front ++ [call]) := by
      simp [resumes_append, resumes_cons, first]
    have rest : 0 < resumes id false back := by
      simp only [resumes_append, resumes_cons, none, first, dead, if_true] at twice
      omega
    refine never ⟨front ++ [call], back, by simp, ?_, ?_⟩
    · exact (delivers_of_resumes_pos one).resolve_right (by simp)
    · exact (delivers_of_resumes_pos rest).resolve_right (by simp)

end Live

namespace InMemoryInterruptRegistry

variable {registry : InMemoryInterruptRegistry}

def live (registry : InMemoryInterruptRegistry) (id : String) : Bool :=
  (registry.get id).any fun p => p.status ≠ .resolved

theorem live_iff {id : String} : registry.live id = true ↔ registry.Open id := by
  simp [live, Open, Option.any_eq_true]

theorem live_insert (id other : String) (p : PendingInterrupt) :
    InMemoryInterruptRegistry.live (registry.insert other p) id =
      if other = id then decide (p.status ≠ .resolved) else registry.live id := by
  rw [live, get_insert]
  split <;> rfl

theorem call_live (registry : InMemoryInterruptRegistry) (id : String) (call : RegistryCall) :
    resumed id (call, (registry.call call).1) = (Live.step id (registry.live id) call).1 ∧
      (registry.call call).2.live id = (Live.step id (registry.live id) call).2 := by
  cases call with
  | register p =>
    simp only [InMemoryInterruptRegistry.call, register, live_insert, resumed, Live.step,
      RegistryCall.move]
    by_cases same : p.interruptId = id
    · by_cases resolved : p.status = .resolved <;> simp [same, resolved]
    · simp [same]
  | claim other person =>
    obtain ⟨p, found, free, result⟩ | ⟨_, e, result⟩ := registry.claim_cases other person
    · simp only [InMemoryInterruptRegistry.call, result, live_insert, resumed, Live.step,
        RegistryCall.move, true_and]
      split
      · next same =>
        subst same
        rcases free.1 with pending | escalated
        · simp [live, found, pending]
        · simp [live, found, escalated]
      · rfl
    · simp [InMemoryInterruptRegistry.call, result, resumed, Live.step, RegistryCall.move]
  | resume other resolution =>
    simp only [InMemoryInterruptRegistry.call, resumed, Live.step, RegistryCall.move]
    obtain ⟨p, found, unresolved, result⟩ | ⟨closed, e, result⟩ :=
      registry.resume_cases other resolution
    · rw [result, live_insert]
      by_cases same : other = id
      · subst same
        simp [live, found, unresolved, RegistryAnswer.accepted]
      · simp [same]
    · rw [result]
      by_cases same : other = id
      · subst same
        have dead : registry.live other = false := by
          rw [← Bool.not_eq_true, live_iff]
          exact closed
        simp [dead, RegistryAnswer.accepted]
      · simp [same]
  | tick nowMs policy =>
    simp only [InMemoryInterruptRegistry.call, resumed, Live.step, RegistryCall.move, live, get_tick,
      true_and]
    cases registry.get id with
    | none => rfl
    | some p =>
      simp only [Option.map_some, Option.any_some, escalate]
      split
      · next late =>
        simp only [overdue, decide_eq_true_iff] at late
        simp [late.1]
      · rfl

theorem countP_resumed (calls : List RegistryCall) (id : String) :
    (answers calls).countP (resumed id) = Live.resumes id false calls := by
  apply Operations.countP_trace_eq fun registry live => InMemoryInterruptRegistry.live registry id = live
  · rintro registry live call rfl
    exact registry.call_live id call
  · simp [InMemoryInterruptRegistry.live, InMemoryInterruptRegistry.get]

end InMemoryInterruptRegistry

namespace SqlInterruptRegistry

variable {sql : SqlInterruptRegistry}

def live (table : InterruptTable) (id : String) : Bool :=
  (table.find id).any fun row => row.status ≠ "Resolved"

theorem live_insert (table : InterruptTable) (id : String) (p : PendingInterrupt) :
    live (sql.insert table p) id =
      if p.interruptId = id then decide (p.status ≠ .resolved) else live table id := by
  rw [live, insert, Table.find_upsert]
  by_cases same : p.interruptId = id
  · have named : (sql.pendingToRow p).interruptId = id := same
    have text : (statusStr p.status ≠ "Resolved") = (p.status ≠ .resolved) :=
      propext (not_congr (statusStr_inj (b := .resolved)))
    rw [if_pos same, if_pos named, Option.any_some]
    simp only [pendingToRow, text]
  · have named : (sql.pendingToRow p).interruptId ≠ id := same
    rw [if_neg same, if_neg named, live]

theorem live_update (table : InterruptTable) (id : String) (condition : InterruptRow → Bool)
    (set : InterruptRow → InterruptRow) (keeps : ∀ row, (set row).interruptId = row.interruptId)
    (same : ∀ row, condition row = true → ((set row).status = "Resolved" ↔ row.status = "Resolved")) :
    live (table.update condition set keeps) id = live table id := by
  rw [live, live, Table.find_update]
  cases table.find id with
  | none => rfl
  | some row =>
    simp only [Option.map_some, Option.any_some, Table.changeWhere]
    split
    · next holds => simp [same row holds]
    · rfl

theorem live_updateResolved (table : InterruptTable) (id other : String) :
    live (updateResolved table other) id = if other = id then false else live table id := by
  rw [live, updateResolved, Table.find_update]
  cases found : table.find id with
  | none => simp [live, found]
  | some row =>
    obtain ⟨-, rfl⟩ := Table.find_eq_some_iff.mp found
    by_cases same : other = row.interruptId
    · by_cases resolved : row.status = "Resolved" <;>
        simp [Table.changeWhere, unresolved, same, resolved]
    · simp [Table.changeWhere, unresolved, same, Ne.symm same, live, found]

theorem live_updateClaim (table : InterruptTable) (id other person : String) :
    live (updateClaim table other person) id = live table id := by
  apply live_update
  intro row free
  rw [claimable, decide_eq_true_iff] at free
  rcases free.2.2 with pending | escalated
  · simp [pending]
  · simp [escalated]

theorem live_updateEscalated (table : InterruptTable) (id : String) (nowMs : Int)
    (policy : EscalationPolicy) : live (updateEscalated table nowMs policy) id = live table id := by
  apply live_update
  intro row late
  rw [overdue, decide_eq_true_iff] at late
  simp [late.1]

theorem resolves_iff (table : InterruptTable) (id : String) :
    table.rowsAffected (unresolved id) = 1 ↔ live table id = true := by
  simp only [resolved_iff, live, Option.any_eq_true, unresolved, decide_eq_true_iff]
  constructor
  · rintro ⟨row, found, -, open_⟩
    exact ⟨row, found, open_⟩
  · rintro ⟨row, found, open_⟩
    exact ⟨row, found, (Table.find_eq_some_iff.mp found).2, open_⟩

theorem call_live (table : InterruptTable) (id : String) (call : RegistryCall) :
    resumed id (call, (sql.call table call).1) = (Live.step id (live table id) call).1 ∧
      live (sql.call table call).2 id = (Live.step id (live table id) call).2 := by
  cases call with
  | register p =>
    simp only [SqlInterruptRegistry.call, live_insert, resumed, Live.step, RegistryCall.move]
    by_cases same : p.interruptId = id
    · by_cases resolved : p.status = .resolved <;> simp [same, resolved]
    · simp [same]
  | claim other person =>
    simp only [SqlInterruptRegistry.call, resumed, Live.step, RegistryCall.move]
    split <;> exact ⟨trivial, live_updateClaim table id other person⟩
  | resume other resolution =>
    simp only [SqlInterruptRegistry.call, resumed, Live.step, RegistryCall.move]
    split
    · next affected =>
      rw [resolves_iff] at affected
      by_cases same : other = id
      · subst same
        simp [affected, live_updateResolved, RegistryAnswer.accepted]
      · simp [same, live_updateResolved]
    · next refused =>
      rw [resolves_iff] at refused
      by_cases same : other = id
      · subst same
        simp [refused, live_updateResolved, RegistryAnswer.accepted]
      · simp [same, live_updateResolved]
  | tick nowMs policy =>
    exact ⟨rfl, live_updateEscalated table id nowMs policy⟩

def answers (sql : SqlInterruptRegistry) (calls : List RegistryCall) :
    List (RegistryCall × RegistryAnswer) :=
  Operations.trace sql.call Table.empty calls

theorem countP_resumed (calls : List RegistryCall) (id : String) :
    (sql.answers calls).countP (resumed id) = Live.resumes id false calls := by
  apply Operations.countP_trace_eq fun table live => SqlInterruptRegistry.live table id = live
  · rintro table live call rfl
    exact call_live table id call
  · rfl

end SqlInterruptRegistry

/-- An id is resumed at most once, on either registry, just when it is not reopened. -/
theorem exactly_once_resume (calls : List RegistryCall) (sql : SqlInterruptRegistry) (id : String) :
    ((InMemoryInterruptRegistry.answers calls).countP (resumed id) ≤ 1 ↔ ¬ Live.Reopened id calls) ∧
      ((sql.answers calls).countP (resumed id) ≤ 1 ↔ ¬ Live.Reopened id calls) := by
  rw [InMemoryInterruptRegistry.countP_resumed, SqlInterruptRegistry.countP_resumed]
  exact ⟨Live.resumes_le_one_iff, Live.resumes_le_one_iff⟩

-- The approval is resumed, the run is rehydrated on another node, and the approval resumed again.
def rehydrated : List RegistryCall :=
  [.register (parked "i1" 1000), .resume "i1" ⟨.bool true⟩,
    .register (parked "i1" 1000), .resume "i1" ⟨.bool true⟩]

theorem exactly_once_resume_fails :
    (InMemoryInterruptRegistry.answers rehydrated).countP (resumed "i1") = 2 ∧
      ∀ sql : SqlInterruptRegistry, (sql.answers rehydrated).countP (resumed "i1") = 2 := by
  have twice : Live.resumes "i1" false rehydrated = 2 := by decide
  constructor
  · rw [InMemoryInterruptRegistry.countP_resumed, twice]
  · intro sql
    rw [SqlInterruptRegistry.countP_resumed, twice]

end AtomrAgents
