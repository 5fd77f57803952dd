import AtomrAgents.Shared.Operations
import AtomrAgents.Workflow.InterruptRegistry

set_option autoImplicit false

namespace AtomrAgents

open Shared

structure PendingInterrupt.Disciplined (p : PendingInterrupt) : Prop where
  free : p.status = .pending ∨ p.status = .escalated → p.assignee = none
  held : p.status = .claimed → ∃ person, p.assignee = some person

namespace InMemoryInterruptRegistry

def Fresh (registry : InMemoryInterruptRegistry) : RegistryCall → Prop
  | .register p => registry.get p.interruptId = none ∧ p.status = .pending ∧ p.assignee = none
  | _ => True

inductive Evolves (p : PendingInterrupt) : PendingInterrupt → Prop where
  | same : Evolves p p
  | claimed (person : String) (free : Claimable p) :
      Evolves p { p with assignee := some person, status := .claimed }
  | resolved (unresolved : p.status ≠ .resolved) : Evolves p { p with status := .resolved }
  | escalated (role : Option String) (pending : p.status = .pending) :
      Evolves p { p with status := .escalated, requestedRole := role }

variable {registry : InMemoryInterruptRegistry} {p p' : PendingInterrupt} {id : String}

theorem evolves_escalate (nowMs : Int) (policy : EscalationPolicy) (p : PendingInterrupt) :
    Evolves p (escalate nowMs policy p) := by
  rw [escalate]
  split
  · next late =>
    rw [overdue, decide_eq_true_iff] at late
    exact .escalated _ late.1
  · exact .same

theorem evolves_insert {changed : PendingInterrupt} {other : String}
    (found : registry.get other = some p) (evolves : Evolves p changed) :
    ∀ q, registry.get id = some q →
      ∃ q', InMemoryInterruptRegistry.get (registry.insert other changed) id = some q' ∧ Evolves q q' := by
  intro q present
  rw [get_insert]
  by_cases same : other = id
  · subst same
    rw [found, Option.some_inj] at present
    subst present
    exact ⟨changed, if_pos rfl, evolves⟩
  · rw [if_neg same]
    exact ⟨q, present, .same⟩

theorem get_insert_of_present {changed : PendingInterrupt} {other : String}
    (present : registry.get other = some p) (absent : registry.get id = none) :
    InMemoryInterruptRegistry.get (registry.insert other changed) id = none := by
  have apart : other ≠ id := by
    intro same
    rw [same, absent] at present
    cases present
  rw [get_insert, if_neg apart, absent]

theorem call_evolves (call : RegistryCall) (fresh : registry.Fresh call)
    (found : registry.get id = some p) :
    ∃ p', (registry.call call).2.get id = some p' ∧ Evolves p p' := by
  cases call with
  | register pending =>
    simp only [InMemoryInterruptRegistry.call, register, get_insert]
    by_cases same : pending.interruptId = id
    · subst same
      rw [fresh.1] at found
      cases found
    · exact ⟨p, by rw [if_neg same]; exact found, .same⟩
  | claim other person =>
    simp only [InMemoryInterruptRegistry.call]
    obtain ⟨q, present, free, result⟩ | ⟨_, e, result⟩ := registry.claim_cases other person
    · rw [result]
      exact evolves_insert present (.claimed person free) p found
    · rw [result]
      exact ⟨p, found, .same⟩
  | resume other resolution =>
    simp only [InMemoryInterruptRegistry.call]
    obtain ⟨q, present, unresolved, result⟩ | ⟨_, e, result⟩ := registry.resume_cases other resolution
    · rw [result]
      exact evolves_insert present (.resolved unresolved) p found
    · rw [result]
      exact ⟨p, found, .same⟩
  | tick nowMs policy =>
    refine ⟨escalate nowMs policy p, ?_, evolves_escalate nowMs policy p⟩
    simp [InMemoryInterruptRegistry.call, found]

theorem call_new (call : RegistryCall) (absent : registry.get id = none)
    (found : (registry.call call).2.get id = some p) :
    call = .register p ∧ p.interruptId = id := by
  cases call with
  | register pending =>
    simp only [InMemoryInterruptRegistry.call, register, get_insert] at found
    split at found
    · next same =>
      cases found
      exact ⟨rfl, same⟩
    · rw [absent] at found
      cases found
  | claim other person =>
    simp only [InMemoryInterruptRegistry.call] at found
    obtain ⟨q, present, free, result⟩ | ⟨_, e, result⟩ := registry.claim_cases other person
    · rw [result, get_insert_of_present present absent] at found
      cases found
    · rw [result, absent] at found
      cases found
  | resume other resolution =>
    simp only [InMemoryInterruptRegistry.call] at found
    obtain ⟨q, present, unresolved, result⟩ | ⟨_, e, result⟩ := registry.resume_cases other resolution
    · rw [result, get_insert_of_present present absent] at found
      cases found
    · rw [result, absent] at found
      cases found
  | tick nowMs policy =>
    simp [InMemoryInterruptRegistry.call, absent] at found

theorem Evolves.interruptId (evolves : Evolves p p') : p'.interruptId = p.interruptId := by
  cases evolves <;> rfl

theorem Evolves.disciplined (evolves : Evolves p p') (disciplined : p.Disciplined) :
    p'.Disciplined := by
  cases evolves with
  | same => exact disciplined
  | claimed person free => exact ⟨by simp, fun _ => ⟨person, rfl⟩⟩
  | resolved unresolved => exact ⟨by simp, by simp⟩
  | escalated role pending => exact ⟨fun _ => disciplined.free (.inl pending), by simp⟩

theorem Evolves.of_resolved (evolves : Evolves p p') (resolved : p.status = .resolved) : p' = p := by
  cases evolves with
  | same => rfl
  | claimed person free => simp [Claimable, resolved] at free
  | resolved unresolved => exact absurd resolved unresolved
  | escalated role pending => simp [resolved] at pending

-- Out of reach of further claims.
def Settled (p : PendingInterrupt) : Prop := p.status ≠ .pending ∧ p.status ≠ .escalated

theorem Settled.not_claimable (settled : Settled p) : ¬ Claimable p :=
  fun free => free.1.elim settled.1 settled.2

theorem Evolves.of_settled (evolves : Evolves p p') (settled : Settled p) :
    Settled p' ∧ p'.assignee = p.assignee := by
  cases evolves with
  | same => exact ⟨settled, rfl⟩
  | claimed person free => exact absurd free settled.not_claimable
  | resolved unresolved => exact ⟨by simp [Settled], rfl⟩
  | escalated role pending => exact absurd pending settled.1

structure Valid (registry : InMemoryInterruptRegistry) : Prop where
  named : ∀ id p, registry.get id = some p → p.interruptId = id
  disciplined : ∀ id p, registry.get id = some p → p.Disciplined

theorem Valid.call (valid : registry.Valid) (call : RegistryCall) (fresh : registry.Fresh call) :
    (registry.call call).2.Valid := by
  have each (id : String) (p' : PendingInterrupt) (found : (registry.call call).2.get id = some p') :
      p'.interruptId = id ∧ p'.Disciplined := by
    cases before : registry.get id with
    | none =>
      obtain ⟨rfl, named⟩ := call_new call before found
      exact ⟨named, fun _ => fresh.2.2, by simp [fresh.2.1]⟩
    | some p =>
      obtain ⟨q, present, evolves⟩ := call_evolves call fresh before
      rw [found, Option.some_inj] at present
      subst present
      exact ⟨evolves.interruptId.trans (valid.named id p before),
        evolves.disciplined (valid.disciplined id p before)⟩
  exact ⟨fun id p' found => (each id p' found).1, fun id p' found => (each id p' found).2⟩

theorem Valid.empty : Valid ∅ := by
  constructor <;> simp [get]

def after (calls : List RegistryCall) : InMemoryInterruptRegistry :=
  Operations.final InMemoryInterruptRegistry.call ∅ calls

def answers (calls : List RegistryCall) : List (RegistryCall × RegistryAnswer) :=
  Operations.trace InMemoryInterruptRegistry.call ∅ calls

end InMemoryInterruptRegistry

open InMemoryInterruptRegistry

def claimed (id : String) : RegistryCall × RegistryAnswer → Bool
  | (.claim interruptId _, answer) => interruptId = id && answer.accepted
  | _ => false

def resumed (id : String) : RegistryCall × RegistryAnswer → Bool
  | (.resume interruptId _, answer) => interruptId = id && answer.accepted
  | _ => false

structure ClaimDiscipline (calls : List RegistryCall) : Prop where
  records : ∀ id p, (after calls).get id = some p → p.Disciplined
  claimedOnce : ∀ id, (answers calls).countP (claimed id) ≤ 1
  assignee : ∀ front id person back, calls = front ++ .claim id person :: back →
    ((after front).claim id person).1 = .ok () →
      ∃ p, (after calls).get id = some p ∧ p.assignee = some person
  terminal : ∀ front back, calls = front ++ back → ∀ id p, (after front).get id = some p →
    p.status = .resolved → (after calls).get id = some p
  resumedOnce : ∀ id, (answers calls).countP (resumed id) ≤ 1
  escalated : ∀ front nowMs policy back, calls = front ++ .tick nowMs policy :: back →
    ((after front).tick nowMs policy).1.Nodup ∧
      ∀ id, id ∈ ((after front).tick nowMs policy).1 ↔
        ∃ p p', (after front).get id = some p ∧ p.status = .pending ∧
          ((after front).tick nowMs policy).2.get id = some p' ∧ p'.status = .escalated

section Histories

variable {calls : List RegistryCall} {registry : InMemoryInterruptRegistry} {id : String}

theorem claimed_settles (call : RegistryCall)
    (happens : claimed id (call, (registry.call call).1) = true) :
    ∃ p, (registry.call call).2.get id = some p ∧ Settled p := by
  cases call with
  | claim other person =>
    obtain ⟨q, present, free, result⟩ | ⟨_, e, result⟩ := registry.claim_cases other person
    · simp only [claimed, InMemoryInterruptRegistry.call, result, RegistryAnswer.accepted, Bool.and_true,
        decide_eq_true_iff] at happens
      subst happens
      refine ⟨_, by rw [InMemoryInterruptRegistry.call, result, get_insert, if_pos rfl], ?_⟩
      simp [Settled]
    · simp [claimed, InMemoryInterruptRegistry.call, result, RegistryAnswer.accepted] at happens
  | register pending => cases happens
  | resume other resolution => cases happens
  | tick nowMs policy => cases happens

theorem not_claimed_of_settled (call : RegistryCall) {p : PendingInterrupt}
    (found : registry.get id = some p) (settled : Settled p) :
    claimed id (call, (registry.call call).1) = false := by
  cases call with
  | claim other person =>
    obtain ⟨q, present, free, result⟩ | ⟨_, e, result⟩ := registry.claim_cases other person
    · have apart : other ≠ id := by
        rintro rfl
        rw [found, Option.some_inj] at present
        subst present
        exact settled.not_claimable free
      simp [claimed, apart]
    · simp [claimed, InMemoryInterruptRegistry.call, result, RegistryAnswer.accepted]
  | register pending => rfl
  | resume other resolution => rfl
  | tick nowMs policy => rfl

theorem resumed_resolves (call : RegistryCall)
    (happens : resumed id (call, (registry.call call).1) = true) :
    (registry.call call).2.Resolved id := by
  cases call with
  | resume other resolution =>
    obtain ⟨q, present, unresolved, result⟩ | ⟨_, e, result⟩ := registry.resume_cases other resolution
    · simp only [resumed, InMemoryInterruptRegistry.call, result, RegistryAnswer.accepted, Bool.and_true,
        decide_eq_true_iff] at happens
      subst happens
      exact ⟨_, by rw [InMemoryInterruptRegistry.call, result, get_insert, if_pos rfl], rfl⟩
    · simp [resumed, InMemoryInterruptRegistry.call, result, RegistryAnswer.accepted] at happens
  | register pending => cases happens
  | claim other person => cases happens
  | tick nowMs policy => cases happens

theorem not_resumed_of_resolved (call : RegistryCall) (resolved : registry.Resolved id) :
    resumed id (call, (registry.call call).1) = false := by
  cases call with
  | resume other resolution =>
    obtain ⟨q, present, unresolved, result⟩ | ⟨_, e, result⟩ := registry.resume_cases other resolution
    · have apart : other ≠ id := by
        rintro rfl
        exact Open.not_resolved ⟨q, present, unresolved⟩ resolved
      simp [resumed, apart]
    · simp [resumed, InMemoryInterruptRegistry.call, result, RegistryAnswer.accepted]
  | register pending => rfl
  | claim other person => rfl
  | tick nowMs policy => rfl

theorem resolved_kept (call : RegistryCall) (fresh : registry.Fresh call) {p : PendingInterrupt}
    (found : registry.get id = some p) (resolved : p.status = .resolved) :
    (registry.call call).2.get id = some p := by
  obtain ⟨p', present, evolves⟩ := call_evolves call fresh found
  rwa [evolves.of_resolved resolved] at present

theorem along_split {front back : List RegistryCall}
    (fresh : Operations.Along InMemoryInterruptRegistry.call Fresh ∅ (front ++ back)) :
    Operations.Along InMemoryInterruptRegistry.call Fresh ∅ front ∧
      Operations.Along InMemoryInterruptRegistry.call Fresh (after front) back :=
  (Operations.along_append Fresh ∅ front back).mp fresh

theorem after_valid (fresh : Operations.Along InMemoryInterruptRegistry.call Fresh ∅ calls) :
    (after calls).Valid :=
  Operations.final_invariant Fresh Valid (fun _ call valid fresh => valid.call call fresh) ∅ calls
    Valid.empty fresh

theorem claimed_once (id : String)
    (fresh : Operations.Along InMemoryInterruptRegistry.call Fresh ∅ calls) :
    (answers calls).countP (claimed id) ≤ 1 := by
  apply Operations.countP_le_one (fun registry => ∃ p, registry.get id = some p ∧ Settled p)
  · rintro registry call ⟨p, found, settled⟩ fresh
    obtain ⟨p', present, evolves⟩ := call_evolves call fresh found
    exact ⟨not_claimed_of_settled call found settled, p', present, (evolves.of_settled settled).1⟩
  · exact fun registry call _ happens => claimed_settles call happens
  · exact fresh

theorem resumed_once (id : String)
    (fresh : Operations.Along InMemoryInterruptRegistry.call Fresh ∅ calls) :
    (answers calls).countP (resumed id) ≤ 1 := by
  apply Operations.countP_le_one (fun registry => registry.Resolved id)
  · rintro registry call ⟨p, found, resolved⟩ fresh
    exact ⟨not_resumed_of_resolved call ⟨p, found, resolved⟩,
      p, resolved_kept call fresh found resolved, resolved⟩
  · exact fun registry call _ happens => resumed_resolves call happens
  · exact fresh

theorem assignee_kept {person : String}
    (fresh : Operations.Along InMemoryInterruptRegistry.call Fresh registry calls)
    (owned : ∃ p, registry.get id = some p ∧ p.assignee = some person ∧ Settled p) :
    ∃ p, (Operations.final InMemoryInterruptRegistry.call registry calls).get id = some p ∧
      p.assignee = some person ∧ Settled p := by
  refine Operations.final_invariant Fresh
    (fun registry => ∃ p, registry.get id = some p ∧ p.assignee = some person ∧ Settled p)
    ?_ registry calls owned fresh
  rintro registry call ⟨p, found, owner, settled⟩ fresh
  obtain ⟨p', present, evolves⟩ := call_evolves call fresh found
  obtain ⟨settled', same⟩ := evolves.of_settled settled
  exact ⟨p', present, same.trans owner, settled'⟩

theorem claim_assigns {person : String} (accepted : (registry.claim id person).1 = .ok ()) :
    ∃ p, InMemoryInterruptRegistry.get (registry.claim id person).2 id = some p ∧
      p.assignee = some person ∧ Settled p := by
  obtain ⟨q, present, free, result⟩ | ⟨_, e, result⟩ := registry.claim_cases id person
  · refine ⟨_, by rw [result, get_insert, if_pos rfl], rfl, ?_⟩
    simp [Settled]
  · rw [result] at accepted
    cases accepted

theorem tick_exact (nowMs : Int) (policy : EscalationPolicy) (valid : registry.Valid) :
    (registry.tick nowMs policy).1.Nodup ∧
      ∀ id, id ∈ (registry.tick nowMs policy).1 ↔
        ∃ p p', registry.get id = some p ∧ p.status = .pending ∧
          InMemoryInterruptRegistry.get (registry.tick nowMs policy).2 id = some p' ∧
          p'.status = .escalated := by
  refine ⟨tick_nodup registry nowMs policy valid.named, fun id => ?_⟩
  rw [mem_tick registry nowMs policy valid.named]
  simp only [get_tick, Option.map_eq_some_iff]
  constructor
  · rintro ⟨p, found, late⟩
    refine ⟨p, _, found, ?_, ⟨p, found, rfl⟩, by simp [escalate, late]⟩
    simp only [overdue, decide_eq_true_iff] at late
    exact late.1
  · rintro ⟨p, p', found, pending, ⟨q, present, rfl⟩, escalated⟩
    rw [found, Option.some_inj] at present
    subst present
    refine ⟨p, found, ?_⟩
    by_contra early
    simp [escalate, early, pending] at escalated

end Histories

/-- Over every history of calls with fresh registrations the registry keeps its discipline. -/
theorem claim_discipline (calls : List RegistryCall)
    (fresh : Operations.Along InMemoryInterruptRegistry.call Fresh ∅ calls) :
    ClaimDiscipline calls where
  records := (after_valid fresh).disciplined
  claimedOnce id := claimed_once id fresh
  assignee := by
    rintro front id person back rfl accepted
    obtain ⟨-, -, later⟩ := along_split fresh
    rw [after, Operations.final_append]
    exact (assignee_kept later (claim_assigns accepted)).imp fun p owned => ⟨owned.1, owned.2.1⟩
  terminal := by
    rintro front back rfl id p found resolved
    rw [after, Operations.final_append]
    exact Operations.final_invariant Fresh (fun registry => registry.get id = some p)
      (fun registry call found fresh => resolved_kept call fresh found resolved) _ back found
      (along_split fresh).2
  resumedOnce id := resumed_once id fresh
  escalated := by
    rintro front nowMs policy back rfl
    exact tick_exact nowMs policy (after_valid (along_split fresh).1)

def parked (interruptId : String) (createdAtMs : Int) : PendingInterrupt where
  interruptId
  workflow := "wf"
  run := "r"
  step := 1
  requestedRole := some "desk-head"
  requestedClearance := some "L3"
  payload := .null
  createdAtMs
  deadlineMs := none
  assignee := none
  status := .pending

theorem claim_discipline_desk :
    ClaimDiscipline
      [.register (parked "i1" 1000), .register (parked "i2" 5000), .tick 7000 ⟨5000, "ciso"⟩,
        .claim "i1" "alice", .claim "i1" "bob", .resume "i1" ⟨.bool true⟩,
        .resume "i2" ⟨.bool false⟩, .resume "i1" ⟨.bool true⟩] :=
  claim_discipline _ ⟨⟨by simp [InMemoryInterruptRegistry.get], rfl, rfl⟩,
    ⟨by simp [InMemoryInterruptRegistry.call, register, InMemoryInterruptRegistry.get, parked],
      rfl, rfl⟩,
    trivial, trivial, trivial, trivial, trivial, trivial, trivial⟩

end AtomrAgents
