import AtomrAgents.Core.Value

set_option autoImplicit false

namespace AtomrAgents

inductive InterruptStatus where
  | pending
  | claimed
  | resolved
  | expired
  | escalated
  deriving DecidableEq

structure PendingInterrupt where
  interruptId : String
  workflow : String
  run : String
  step : Nat
  requestedRole : Option String
  requestedClearance : Option String
  payload : Value
  createdAtMs : Int
  deadlineMs : Option Int
  assignee : Option String
  status : InterruptStatus

structure Resolution where
  value : Value

structure EscalationPolicy where
  afterMs : Int
  toRole : String

inductive RegistryError where
  | alreadyClaimed (interruptId : String)
  | notFound (interruptId : String)
  | alreadyResolved (interruptId : String)

namespace RegistryError

def toString : RegistryError → String
  | .alreadyClaimed interruptId => "interrupt " ++ interruptId ++ " already claimed"
  | .notFound interruptId => "interrupt " ++ interruptId ++ " not found"
  | .alreadyResolved interruptId => "interrupt " ++ interruptId ++ " already resolved"

def toAgentError (e : RegistryError) : AgentError := .workflow e.toString

end RegistryError

inductive RegistryCall where
  | register (pending : PendingInterrupt)
  | claim (interruptId person : String)
  | resume (interruptId : String) (resolution : Resolution)
  | tick (nowMs : Int) (policy : EscalationPolicy)

inductive RegistryAnswer where
  | result (result : Except AgentError Unit)
  | moved (interruptIds : List String)

def RegistryAnswer.accepted : RegistryAnswer → Bool
  | .result (.ok _) => true
  | _ => false

abbrev InMemoryInterruptRegistry := Std.ExtTreeMap String PendingInterrupt compare

namespace InMemoryInterruptRegistry

def get (registry : InMemoryInterruptRegistry) (interruptId : String) : Option PendingInterrupt :=
  registry[interruptId]?

def register (registry : InMemoryInterruptRegistry) (pending : PendingInterrupt) :
    InMemoryInterruptRegistry :=
  registry.insert pending.interruptId pending

def claim (registry : InMemoryInterruptRegistry) (interruptId person : String) :
    Except AgentError Unit × InMemoryInterruptRegistry :=
  match registry[interruptId]? with
  | none => (.error (RegistryError.notFound interruptId).toAgentError, registry)
  | some p =>
    if (p.status = .pending ∨ p.status = .escalated) ∧ p.assignee = none then
      (.ok (), registry.insert interruptId { p with assignee := some person, status := .claimed })
    else (.error (RegistryError.alreadyClaimed interruptId).toAgentError, registry)

def overdue (nowMs : Int) (policy : EscalationPolicy) (p : PendingInterrupt) : Bool :=
  p.status = .pending ∧ policy.afterMs ≤ subI64 nowMs p.createdAtMs

def escalate (nowMs : Int) (policy : EscalationPolicy) (p : PendingInterrupt) : PendingInterrupt :=
  if overdue nowMs policy p then
    { p with status := .escalated, requestedRole := some policy.toRole }
  else p

def tick (registry : InMemoryInterruptRegistry) (nowMs : Int) (policy : EscalationPolicy) :
    List String × InMemoryInterruptRegistry :=
  let moved := (registry.toList.map Prod.snd).filter (overdue nowMs policy)
  ((moved.map PendingInterrupt.interruptId).mergeSort, registry.map fun _ => escalate nowMs policy)

-- the resolution itself is not stored
def resume (registry : InMemoryInterruptRegistry) (interruptId : String) (_ : Resolution) :
    Except AgentError Unit × InMemoryInterruptRegistry :=
  match registry[interruptId]? with
  | none => (.error (RegistryError.notFound interruptId).toAgentError, registry)
  | some p =>
    if p.status = .resolved then
      (.error (RegistryError.alreadyResolved interruptId).toAgentError, registry)
    else (.ok (), registry.insert interruptId { p with status := .resolved })

def call (registry : InMemoryInterruptRegistry) :
    RegistryCall → RegistryAnswer × InMemoryInterruptRegistry
  | .register pending => (.result (.ok ()), registry.register pending)
  | .claim interruptId person =>
    let (result, registry) := registry.claim interruptId person
    (.result result, registry)
  | .resume interruptId resolution =>
    let (result, registry) := registry.resume interruptId resolution
    (.result result, registry)
  | .tick nowMs policy =>
    let (moved, registry) := registry.tick nowMs policy
    (.moved moved, registry)

def Open (registry : InMemoryInterruptRegistry) (interruptId : String) : Prop :=
  ∃ p, registry.get interruptId = some p ∧ p.status ≠ .resolved

def Resolved (registry : InMemoryInterruptRegistry) (interruptId : String) : Prop :=
  ∃ p, registry.get interruptId = some p ∧ p.status = .resolved

variable {registry : InMemoryInterruptRegistry} {interruptId : String}

theorem Open.not_resolved (open_ : registry.Open interruptId) : ¬ registry.Resolved interruptId := by
  intro ⟨p, found, resolved⟩
  obtain ⟨q, found', unresolved⟩ := open_
  rw [found, Option.some_inj] at found'
  subst found'
  exact unresolved resolved

theorem mem_iff : interruptId ∈ registry ↔ registry.Open interruptId ∨ registry.Resolved interruptId := by
  rw [Std.ExtTreeMap.mem_iff_isSome_getElem?, Option.isSome_iff_exists]
  constructor
  · intro ⟨p, found⟩
    by_cases resolved : p.status = .resolved
    · exact .inr ⟨p, found, resolved⟩
    · exact .inl ⟨p, found, resolved⟩
  · rintro (⟨p, found, _⟩ | ⟨p, found, _⟩) <;> exact ⟨p, found⟩

theorem resume_cases (registry : InMemoryInterruptRegistry) (interruptId : String)
    (resolution : Resolution) :
    (∃ p, registry.get interruptId = some p ∧ p.status ≠ .resolved ∧
      registry.resume interruptId resolution =
        (.ok (), registry.insert interruptId { p with status := .resolved })) ∨
    (¬ registry.Open interruptId ∧
      ∃ e, registry.resume interruptId resolution = (.error e, registry)) := by
  rw [resume]
  cases found : registry[interruptId]? with
  | none =>
    refine .inr ⟨?_, _, rfl⟩
    intro ⟨p, present, _⟩
    rw [get, found] at present
    cases present
  | some p =>
    by_cases resolved : p.status = .resolved
    · simp only [resolved, if_true]
      refine .inr ⟨?_, _, rfl⟩
      intro ⟨q, present, unresolved⟩
      rw [get, found, Option.some_inj] at present
      subst present
      exact unresolved resolved
    · simp only [resolved, if_false]
      exact .inl ⟨p, found, resolved, rfl⟩

theorem get_insert (registry : InMemoryInterruptRegistry) (interruptId other : String)
    (p : PendingInterrupt) :
    InMemoryInterruptRegistry.get (registry.insert interruptId p) other =
      if interruptId = other then some p else registry.get other := by
  simp [get, Std.ExtTreeMap.getElem?_insert]

def Claimable (p : PendingInterrupt) : Prop :=
  (p.status = .pending ∨ p.status = .escalated) ∧ p.assignee = none

theorem claim_cases (registry : InMemoryInterruptRegistry) (interruptId person : String) :
    (∃ p, registry.get interruptId = some p ∧ Claimable p ∧
      registry.claim interruptId person =
        (.ok (), registry.insert interruptId { p with assignee := some person, status := .claimed })) ∨
    ((∀ p, registry.get interruptId = some p → ¬ Claimable p) ∧
      ∃ e, registry.claim interruptId person = (.error e, registry)) := by
  rw [claim]
  cases found : registry[interruptId]? with
  | none =>
    refine .inr ⟨?_, _, rfl⟩
    intro p present
    rw [get, found] at present
    cases present
  | some p =>
    by_cases free : Claimable p
    · exact .inl ⟨p, found, free, if_pos free⟩
    · refine .inr ⟨?_, _, if_neg free⟩
      intro q present
      rw [get, found, Option.some_inj] at present
      rwa [← present]

@[simp] theorem get_tick (registry : InMemoryInterruptRegistry) (nowMs : Int)
    (policy : EscalationPolicy) (interruptId : String) :
    InMemoryInterruptRegistry.get (registry.tick nowMs policy).2 interruptId =
      (registry.get interruptId).map (escalate nowMs policy) := by
  simp [tick, get, Std.ExtTreeMap.getElem?_map]

theorem mem_tick (registry : InMemoryInterruptRegistry) (nowMs : Int) (policy : EscalationPolicy)
    (named : ∀ id p, registry.get id = some p → p.interruptId = id) (interruptId : String) :
    interruptId ∈ (registry.tick nowMs policy).1 ↔
      ∃ p, registry.get interruptId = some p ∧ overdue nowMs policy p := by
  simp only [tick, List.mem_mergeSort, List.mem_map, List.mem_filter, Prod.exists]
  constructor
  · rintro ⟨p, ⟨⟨id, q, member, rfl⟩, late⟩, rfl⟩
    have found := Std.ExtTreeMap.mem_toList_iff_getElem?_eq_some.mp member
    exact ⟨q, by rw [named id q found]; exact found, late⟩
  · rintro ⟨p, found, late⟩
    exact ⟨p, ⟨⟨interruptId, p, Std.ExtTreeMap.mem_toList_iff_getElem?_eq_some.mpr found, rfl⟩, late⟩,
      named interruptId p found⟩

theorem tick_nodup (registry : InMemoryInterruptRegistry) (nowMs : Int) (policy : EscalationPolicy)
    (named : ∀ id p, registry.get id = some p → p.interruptId = id) :
    (registry.tick nowMs policy).1.Nodup := by
  have keys : (registry.toList.map Prod.snd).map PendingInterrupt.interruptId =
      registry.toList.map Prod.fst := by
    rw [List.map_map]
    apply List.map_congr_left
    intro entry member
    exact named entry.1 entry.2 (Std.ExtTreeMap.mem_toList_iff_getElem?_eq_some.mp member)
  have distinct : (registry.toList.map Prod.fst).Nodup := by
    rw [Std.ExtTreeMap.map_fst_toList_eq_keys]
    exact Std.ExtTreeMap.nodup_keys
  rw [← keys] at distinct
  exact (List.mergeSort_perm _ _).nodup_iff.mpr
    (distinct.sublist (List.filter_sublist.map PendingInterrupt.interruptId))

end InMemoryInterruptRegistry

end AtomrAgents
