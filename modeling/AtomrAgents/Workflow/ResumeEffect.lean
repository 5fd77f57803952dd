import AtomrAgents.Shared.Interleaving
import AtomrAgents.Workflow.InterruptRegistry

set_option autoImplicit false

/-! `resume_with` checks the interrupt, performs the effect and resolves the interrupt. Each of the three
locks its store for itself, so other calls can come in between: a call is a thread that takes one such turn at
a time. -/

namespace AtomrAgents

open Shared

structure OutboxRecord where
  id : String
  interruptId : String
  payload : Value
  idempotencyKey : String
  committed : Bool

-- What the closures of a saga return in the one call that each gets.
structure SagaStep where
  idempotencyKey : String
  commit : Except AgentError Unit
  compensate : Except AgentError Unit

inductive ResumeEffect where
  | outbox (record : OutboxRecord)
  | saga (step : SagaStep)

abbrev InMemoryOutboxStore := List OutboxRecord

namespace InMemoryOutboxStore

-- The first record of that id is replaced in its place.
def save (store : InMemoryOutboxStore) (record : OutboxRecord) : InMemoryOutboxStore :=
  match store with
  | [] => [record]
  | slot :: rest => if slot.id = record.id then record :: rest else slot :: save rest record

def get (store : InMemoryOutboxStore) (id : String) : Option OutboxRecord :=
  store.find? fun record => record.id = id

def uncommitted (store : InMemoryOutboxStore) : List OutboxRecord :=
  store.filter fun record => !record.committed

-- Only the first record of that id is marked.
def markCommitted (store : InMemoryOutboxStore) (id : String) : InMemoryOutboxStore :=
  match store with
  | [] => []
  | record :: rest =>
    if record.id = id then { record with committed := true } :: rest
    else record :: markCommitted rest id

theorem get_save (store : InMemoryOutboxStore) (record : OutboxRecord) (id : String) :
    (store.save record).get id = if record.id = id then some record else store.get id := by
  induction store with
  | nil => by_cases same : record.id = id <;> simp [save, get, same]
  | cons slot rest ih =>
    rw [save]
    by_cases replaced : slot.id = record.id
    · by_cases same : record.id = id <;> simp [get, replaced, same]
    · rw [if_neg replaced]
      by_cases here : slot.id = id
      · have other : record.id ≠ id := fun same => replaced (here.trans same.symm)
        simp [get, here, other]
      · simpa [get, here] using ih

theorem map_id_markCommitted (store : InMemoryOutboxStore) (id : String) :
    (store.markCommitted id).map OutboxRecord.id = store.map OutboxRecord.id := by
  induction store with
  | nil => rfl
  | cons record rest ih =>
    rw [markCommitted]
    split
    · rfl
    · simp [ih]

theorem get_eq_none_iff (store : InMemoryOutboxStore) (id : String) :
    store.get id = none ↔ id ∉ store.map OutboxRecord.id := by
  simp [get]

theorem get_markCommitted (store : InMemoryOutboxStore) (id other : String) :
    (store.markCommitted id).get other =
      if id = other then (store.get id).map fun record => { record with committed := true }
      else store.get other := by
  induction store with
  | nil => simp [markCommitted, get]
  | cons record rest ih =>
    rw [markCommitted]
    by_cases marked : record.id = id
    · by_cases same : id = other <;> simp [get, marked, same]
    · rw [if_neg marked]
      by_cases here : record.id = other
      · have apart : id ≠ other := fun same => marked (here.trans same.symm)
        simp [get, here, apart]
      · simpa [get, here, marked] using ih

theorem save_of_new (store : InMemoryOutboxStore) (record : OutboxRecord)
    (new : store.get record.id = none) : store.save record = store ++ [record] := by
  induction store with
  | nil => rfl
  | cons slot rest ih =>
    rw [get, List.find?_cons] at new
    split at new
    · cases new
    · next other =>
      rw [save, if_neg (by simpa using other), ih new]
      rfl

end InMemoryOutboxStore

structure Stores where
  registry : InMemoryInterruptRegistry
  outbox : InMemoryOutboxStore

inductive Closure where
  | commit (result : Except AgentError Unit)
  | compensate

def bindRecord (interruptId : String) (record : OutboxRecord) : OutboxRecord :=
  { record with interruptId, committed := false }

/-- `resume_with`, when nothing comes in between; the last component records the closures. -/
def resumeWith (stores : Stores) (interruptId : String) (resolution : Resolution)
    (effect : ResumeEffect) : Except AgentError Unit × Stores × List Closure :=
  match stores.registry.get interruptId with
  | none => (.error (RegistryError.notFound interruptId).toAgentError, stores, [])
  | some current =>
    if current.status = .resolved then
      (.error (RegistryError.alreadyResolved interruptId).toAgentError, stores, [])
    else
      match effect with
      | .outbox record =>
        let outbox := stores.outbox.save (bindRecord interruptId record)
        let (result, registry) := stores.registry.resume interruptId resolution
        (result, { registry, outbox }, [])
      | .saga step =>
        match step.commit with
        | .error e => (.error e, stores, [.commit (.error e), .compensate])
        | .ok () =>
          let (result, registry) := stores.registry.resume interruptId resolution
          (result, { stores with registry }, [.commit (.ok ())])

-- `InterruptRegistry::resume` is a request without an effect.
structure ResumeRequest where
  interruptId : String
  resolution : Resolution
  effect : Option ResumeEffect

inductive ResumePhase where
  | check (effect : ResumeEffect)
  | perform (effect : ResumeEffect)
  | compensate (step : SagaStep) (e : AgentError)
  | resolve
  | returned (result : Except AgentError Unit)

structure ResumeCall where
  request : ResumeRequest
  phase : ResumePhase
  ran : List Closure

namespace ResumeCall

def start (request : ResumeRequest) : ResumeCall :=
  match request.effect with
  | none => { request, phase := .resolve, ran := [] }
  | some effect => { request, phase := .check effect, ran := [] }

def turn (call : ResumeCall) (stores : Stores) : Option (ResumeCall × Stores) :=
  let interruptId := call.request.interruptId
  match call.phase with
  | .check effect =>
    match stores.registry.get interruptId with
    | none =>
      let e := (RegistryError.notFound interruptId).toAgentError
      some ({ call with phase := .returned (.error e) }, stores)
    | some current =>
      if current.status = .resolved then
        let e := (RegistryError.alreadyResolved interruptId).toAgentError
        some ({ call with phase := .returned (.error e) }, stores)
      else some ({ call with phase := .perform effect }, stores)
  | .perform (.outbox record) =>
    let outbox := stores.outbox.save (bindRecord interruptId record)
    some ({ call with phase := .resolve }, { stores with outbox })
  | .perform (.saga step) =>
    let ran := call.ran ++ [.commit step.commit]
    match step.commit with
    | .error e => some ({ call with phase := .compensate step e, ran }, stores)
    | .ok () => some ({ call with phase := .resolve, ran }, stores)
  | .compensate _ e =>
    -- what `compensate` returns is dropped
    some ({ call with phase := .returned (.error e), ran := call.ran ++ [.compensate] }, stores)
  | .resolve =>
    let (result, registry) := stores.registry.resume interruptId call.request.resolution
    some ({ call with phase := .returned result }, { stores with registry })
  | .returned _ => none

inductive Turned (call : ResumeCall) (stores : Stores) : ResumeCall → Stores → Prop where
  | blocked (effect : ResumeEffect) (e : AgentError) (at_ : call.phase = .check effect)
      (closed : ¬ stores.registry.Open call.request.interruptId) :
      Turned call stores { call with phase := .returned (.error e) } stores
  | passed (effect : ResumeEffect) (at_ : call.phase = .check effect)
      (open_ : stores.registry.Open call.request.interruptId) :
      Turned call stores { call with phase := .perform effect } stores
  | saved (record : OutboxRecord) (at_ : call.phase = .perform (.outbox record)) :
      Turned call stores { call with phase := .resolve } { stores with
        outbox := stores.outbox.save (bindRecord call.request.interruptId record) }
  | committed (step : SagaStep) (at_ : call.phase = .perform (.saga step))
      (accepted : step.commit = .ok ()) :
      Turned call stores
        { call with phase := .resolve, ran := call.ran ++ [.commit (.ok ())] } stores
  | refused (step : SagaStep) (e : AgentError) (at_ : call.phase = .perform (.saga step))
      (failed : step.commit = .error e) :
      Turned call stores
        { call with phase := .compensate step e, ran := call.ran ++ [.commit (.error e)] } stores
  | compensated (step : SagaStep) (e : AgentError) (at_ : call.phase = .compensate step e) :
      Turned call stores
        { call with phase := .returned (.error e), ran := call.ran ++ [.compensate] } stores
  | resolved (p : PendingInterrupt) (at_ : call.phase = .resolve)
      (found : stores.registry.get call.request.interruptId = some p)
      (unresolved : p.status ≠ .resolved) :
      Turned call stores { call with phase := .returned (.ok ()) } { stores with
        registry := stores.registry.insert call.request.interruptId { p with status := .resolved } }
  | rejected (e : AgentError) (at_ : call.phase = .resolve)
      (closed : ¬ stores.registry.Open call.request.interruptId) :
      Turned call stores { call with phase := .returned (.error e) } stores

theorem turn_cases {call call' : ResumeCall} {stores stores' : Stores}
    (turned : call.turn stores = some (call', stores')) : Turned call stores call' stores' := by
  rw [turn] at turned
  split at turned
  · next effect at_ =>
    split at turned
    · next absent =>
      cases turned
      refine .blocked effect _ at_ ?_
      rintro ⟨p, found, _⟩
      rw [absent] at found
      cases found
    · next current found =>
      split at turned
      · next resolved =>
        cases turned
        exact .blocked effect _ at_ fun open_ => open_.not_resolved ⟨current, found, resolved⟩
      · next unresolved =>
        cases turned
        exact .passed effect at_ ⟨current, found, unresolved⟩
  · next record at_ =>
    cases turned
    exact .saved record at_
  · next step at_ =>
    split at turned
    · next e failed =>
      cases turned
      rw [failed]
      exact .refused step e at_ failed
    · next accepted =>
      cases turned
      rw [accepted]
      exact .committed step at_ accepted
  · next step e at_ =>
    cases turned
    exact .compensated step e at_
  · next at_ =>
    obtain ⟨p, found, unresolved, result⟩ | ⟨closed, e, result⟩ :=
      stores.registry.resume_cases call.request.interruptId call.request.resolution
    · rw [result] at turned
      cases turned
      exact .resolved p at_ found unresolved
    · rw [result] at turned
      cases turned
      exact .rejected e at_ closed
  · cases turned

theorem turns_alone (stores : Stores) (interruptId : String) (resolution : Resolution)
    (effect : ResumeEffect) :
    let request : ResumeRequest := { interruptId, resolution, effect := some effect }
    let (result, stores', ran) := resumeWith stores interruptId resolution effect
    ∃ schedule, Threads.run turn { shared := stores, locals := [start request] } schedule =
      some { shared := stores', locals := [{ request, phase := .returned result, ran }] } := by
  dsimp only
  cases found : stores.registry.get interruptId with
  | none => exact ⟨[0], by simp [Threads.run, Threads.step, start, turn, resumeWith, found]⟩
  | some current =>
    by_cases resolved : current.status = .resolved
    · exact ⟨[0], by simp [Threads.run, Threads.step, start, turn, resumeWith, found, resolved]⟩
    · cases effect with
      | outbox record =>
        exact ⟨[0, 0, 0], by
          simp [Threads.run, Threads.step, start, turn, resumeWith, found, resolved]⟩
      | saga step =>
        cases commit : step.commit <;> exact ⟨[0, 0, 0], by
          simp [Threads.run, Threads.step, start, turn, resumeWith, found, resolved, commit]⟩

end ResumeCall

end AtomrAgents

namespace AtomrAgents

open Shared

-- The sink answers as it likes, whatever it has been relayed so far.
structure OutboxSink where
  answer : List (OutboxRecord × Except AgentError Unit) → OutboxRecord → Except AgentError Unit

-- `applied`: the idempotency keys that the external system has seen.
structure OutboxWorld where
  outbox : InMemoryOutboxStore
  relays : List (OutboxRecord × Except AgentError Unit)
  applied : List String

namespace OutboxWorld

def apply (applied : List String) (key : String) : List String :=
  if key ∈ applied then applied else applied ++ [key]

def relay (world : OutboxWorld) (sink : OutboxSink) (record : OutboxRecord) :
    Except AgentError Unit × OutboxWorld :=
  let answer := sink.answer world.relays record
  let relays := world.relays ++ [(record, answer)]
  match answer with
  | .ok () => (answer, { world with relays, applied := apply world.applied record.idempotencyKey })
  | .error _ => (answer, { world with relays })

def markCommitted (world : OutboxWorld) (id : String) : OutboxWorld :=
  { world with outbox := world.outbox.markCommitted id }

end OutboxWorld

def relayAll (sink : OutboxSink) : List OutboxRecord → Nat → OutboxWorld → Nat × OutboxWorld
  | [], relayed, world => (relayed, world)
  | rec_ :: rest, relayed, world =>
    match world.relay sink rec_ with
    | (.ok (), world) => relayAll sink rest (relayed + 1) (world.markCommitted rec_.id)
    | (.error _, world) => relayAll sink rest relayed world

/-- `drive_outbox`, when nothing comes in between. -/
def driveOutbox (sink : OutboxSink) (world : OutboxWorld) : Nat × OutboxWorld :=
  relayAll sink world.outbox.uncommitted 0 world

inductive DrivePhase where
  | fetch
  | relaying (pending : List OutboxRecord) (relayed : Nat)
  | marking (record : OutboxRecord) (rest : List OutboxRecord) (relayed : Nat)
  | returned (relayed : Nat)

inductive OutboxCall where
  | save (record : OutboxRecord)
  | saved (record : OutboxRecord)
  | drive (phase : DrivePhase)

namespace OutboxCall

def record : OutboxCall → Option OutboxRecord
  | .save record | .saved record => some record
  | .drive _ => none

def turn (sink : OutboxSink) (call : OutboxCall) (world : OutboxWorld) :
    Option (OutboxCall × OutboxWorld) :=
  match call with
  | .save record => some (.saved record, { world with outbox := world.outbox.save record })
  | .saved _ => none
  | .drive .fetch => some (.drive (.relaying world.outbox.uncommitted 0), world)
  | .drive (.relaying [] relayed) => some (.drive (.returned relayed), world)
  | .drive (.relaying (rec_ :: rest) relayed) =>
    match world.relay sink rec_ with
    | (.ok (), world) => some (.drive (.marking rec_ rest relayed), world)
    | (.error _, world) => some (.drive (.relaying rest relayed), world)
  | .drive (.marking rec_ rest relayed) =>
    some (.drive (.relaying rest (relayed + 1)), world.markCommitted rec_.id)
  | .drive (.returned _) => none

variable {sink : OutboxSink} {call call' : OutboxCall} {world world' : OutboxWorld}

inductive Turned (sink : OutboxSink) (call : OutboxCall) (world : OutboxWorld) :
    OutboxCall → OutboxWorld → Prop where
  | saved (record : OutboxRecord) (at_ : call = .save record) :
      Turned sink call world (.saved record) { world with outbox := world.outbox.save record }
  | fetched (at_ : call = .drive .fetch) :
      Turned sink call world (.drive (.relaying world.outbox.uncommitted 0)) world
  | finished (relayed : Nat) (at_ : call = .drive (.relaying [] relayed)) :
      Turned sink call world (.drive (.returned relayed)) world
  | accepted (record : OutboxRecord) (rest : List OutboxRecord) (relayed : Nat)
      (at_ : call = .drive (.relaying (record :: rest) relayed)) :
      Turned sink call world (.drive (.marking record rest relayed))
        { world with
          relays := world.relays ++ [(record, .ok ())]
          applied := OutboxWorld.apply world.applied record.idempotencyKey }
  | refused (record : OutboxRecord) (rest : List OutboxRecord) (relayed : Nat) (e : AgentError)
      (at_ : call = .drive (.relaying (record :: rest) relayed)) :
      Turned sink call world (.drive (.relaying rest relayed))
        { world with relays := world.relays ++ [(record, .error e)] }
  | marked (record : OutboxRecord) (rest : List OutboxRecord) (relayed : Nat)
      (at_ : call = .drive (.marking record rest relayed)) :
      Turned sink call world (.drive (.relaying rest (relayed + 1))) (world.markCommitted record.id)

theorem turn_cases (turned : call.turn sink world = some (call', world')) :
    Turned sink call world call' world' := by
  unfold turn at turned
  split at turned
  · next record =>
    cases turned
    exact .saved record rfl
  · cases turned
  · cases turned
    exact .fetched rfl
  · next relayed =>
    cases turned
    exact .finished relayed rfl
  · next record rest relayed =>
    unfold OutboxWorld.relay at turned
    cases answer : sink.answer world.relays record with
    | ok _ =>
      simp only [answer] at turned
      cases turned
      exact .accepted record rest relayed rfl
    | error e =>
      simp only [answer] at turned
      cases turned
      exact .refused record rest relayed e rfl
  · next record rest relayed =>
    cases turned
    exact .marked record rest relayed rfl
  · cases turned

theorem relaying_alone (sink : OutboxSink) (pending : List OutboxRecord) (relayed : Nat)
    (world : OutboxWorld) :
    ∃ schedule, Threads.run (turn sink)
        { shared := world, locals := [.drive (.relaying pending relayed)] } schedule =
      some { shared := (relayAll sink pending relayed world).2
             locals := [.drive (.returned (relayAll sink pending relayed world).1)] } := by
  induction pending generalizing relayed world with
  | nil => exact ⟨[0], rfl⟩
  | cons record rest ih =>
    cases answer : world.relay sink record with
    | mk result world' =>
      cases result with
      | ok _ =>
        obtain ⟨schedule, ran⟩ := ih (relayed + 1) (world'.markCommitted record.id)
        exact ⟨0 :: 0 :: schedule, by
          simpa [Threads.run, Threads.step, turn, relayAll, answer] using ran⟩
      | error e =>
        obtain ⟨schedule, ran⟩ := ih relayed world'
        exact ⟨0 :: schedule, by
          simpa [Threads.run, Threads.step, turn, relayAll, answer] using ran⟩

theorem drive_alone (sink : OutboxSink) (world : OutboxWorld) :
    ∃ schedule, Threads.run (turn sink) { shared := world, locals := [.drive .fetch] } schedule =
      some { shared := (driveOutbox sink world).2
             locals := [.drive (.returned (driveOutbox sink world).1)] } := by
  obtain ⟨schedule, ran⟩ := relaying_alone sink world.outbox.uncommitted 0 world
  exact ⟨0 :: schedule, by simpa [Threads.run, Threads.step, turn, driveOutbox] using ran⟩

end OutboxCall

end AtomrAgents
