import AtomrAgents.Shared.Table
import AtomrAgents.Workflow.ResumeEffect

set_option autoImplicit false

/-! A drive works on records that it fetched a while ago. In the meantime the store only grows, and a record
in it only becomes committed, which another drive does after the sink has accepted it. -/

namespace AtomrAgents

open Shared

def OutboxRecord.unmarked (record : OutboxRecord) : OutboxRecord := { record with committed := false }

theorem OutboxRecord.unmarked_eq {record : OutboxRecord} (uncommitted : record.committed = false) :
    record.unmarked = record := by
  cases record
  cases uncommitted
  rfl

def OutboxWorld.Accepted (world : OutboxWorld) (record : OutboxRecord) : Prop :=
  (record.unmarked, .ok ()) ∈ world.relays

namespace OutboxCall

variable {sink : OutboxSink} {call call' other : OutboxCall} {world world' : OutboxWorld}

structure Kept (world : OutboxWorld) (record stored : OutboxRecord) : Prop where
  same : stored.unmarked = record.unmarked
  marked : record.committed = true → stored.committed = true
  accepted : stored.committed = true → record.committed = true ∨ world.Accepted record

def Fetched (world : OutboxWorld) (record : OutboxRecord) : Prop :=
  ∃ stored, world.outbox.get record.id = some stored ∧ stored.unmarked = record

def Coherent (world : OutboxWorld) : OutboxCall → Prop
  | .saved record => ∃ stored, world.outbox.get record.id = some stored ∧ Kept world record stored
  | .drive (.relaying pending _) => ∀ record ∈ pending, Fetched world record
  | .drive (.marking record rest _) =>
    world.Accepted record ∧ ∀ record' ∈ record :: rest, Fetched world record'
  | _ => True

structure Grows (world world' : OutboxWorld) : Prop where
  relays : world.relays ⊆ world'.relays
  outbox : ∀ id stored, world.outbox.get id = some stored →
    ∃ stored', world'.outbox.get id = some stored' ∧ Kept world' stored stored'

theorem Kept.refl (world : OutboxWorld) (record : OutboxRecord) : Kept world record record where
  same := rfl
  marked := id
  accepted := .inl

theorem accepted_congr {record stored : OutboxRecord} (same : stored.unmarked = record.unmarked) :
    world.Accepted stored ↔ world.Accepted record := by
  rw [OutboxWorld.Accepted, same, OutboxWorld.Accepted]

theorem Kept.trans {record stored stored' : OutboxRecord} (kept : Kept world record stored)
    (later : Kept world' stored stored') (grows : Grows world world') :
    Kept world' record stored' where
  same := later.same.trans kept.same
  marked committed := later.marked (kept.marked committed)
  accepted committed := by
    rcases later.accepted committed with before | now
    · exact (kept.accepted before).imp_right fun accepted => grows.relays accepted
    · exact .inr ((accepted_congr kept.same).mp now)

theorem Fetched.grows {record : OutboxRecord} (fetched : Fetched world record)
    (grows : Grows world world') : Fetched world' record := by
  obtain ⟨stored, found, same⟩ := fetched
  obtain ⟨stored', found', kept⟩ := grows.outbox record.id stored found
  exact ⟨stored', found', kept.same.trans same⟩

theorem Fetched.unmarked {record : OutboxRecord} (fetched : Fetched world record) :
    record.unmarked = record := by
  obtain ⟨stored, -, rfl⟩ := fetched
  rfl

theorem Coherent.grows (coherent : call.Coherent world) (grows : Grows world world') :
    call.Coherent world' := by
  unfold Coherent at coherent ⊢
  split
  · obtain ⟨stored, found, kept⟩ := coherent
    obtain ⟨stored', found', later⟩ := grows.outbox _ stored found
    exact ⟨stored', found', kept.trans later grows⟩
  · exact fun record member => (coherent record member).grows grows
  · exact ⟨grows.relays coherent.1, fun record member => (coherent.2 record member).grows grows⟩
  · trivial

def Fresh (world : OutboxWorld) : OutboxCall → Prop
  | .save record => world.outbox.get record.id = none
  | _ => True

theorem grows_same_outbox (relays : world.relays ⊆ world'.relays)
    (outbox : world'.outbox = world.outbox) : Grows world world' where
  relays := relays
  outbox id stored found := ⟨stored, by rw [outbox]; exact found, .refl world' stored⟩

theorem Turned.grows (turned : Turned sink call world call' world') (coherent : call.Coherent world)
    (fresh : call.Fresh world) : Grows world world' := by
  cases turned with
  | saved record at_ =>
    subst at_
    refine ⟨List.Subset.refl _, fun id stored found => ⟨stored, ?_, .refl _ stored⟩⟩
    have other : record.id ≠ id := by
      rintro rfl
      rw [Fresh, found] at fresh
      cases fresh
    rw [InMemoryOutboxStore.get_save, if_neg other]
    exact found
  | fetched at_ => exact grows_same_outbox (List.Subset.refl _) rfl
  | finished relayed at_ => exact grows_same_outbox (List.Subset.refl _) rfl
  | accepted record rest relayed at_ => exact grows_same_outbox (List.subset_append_left _ _) rfl
  | refused record rest relayed e at_ => exact grows_same_outbox (List.subset_append_left _ _) rfl
  | marked record rest relayed at_ =>
    subst at_
    obtain ⟨accepted, fetched⟩ := coherent
    have unmarked := (fetched record List.mem_cons_self).unmarked
    obtain ⟨stored, found, same⟩ := fetched record List.mem_cons_self
    refine ⟨List.Subset.refl _, fun id other there => ?_⟩
    simp only [OutboxWorld.markCommitted, InMemoryOutboxStore.get_markCommitted]
    by_cases elsewhere : record.id = id
    · subst elsewhere
      rw [found, Option.some_inj] at there
      subst there
      refine ⟨{ stored with committed := true }, by rw [if_pos rfl, found]; rfl, rfl, fun _ => rfl, ?_⟩
      -- the record that is marked is the one that the sink has accepted
      refine fun _ => .inr ?_
      rw [OutboxWorld.Accepted, unmarked] at accepted
      rw [OutboxWorld.Accepted, same]
      exact accepted
    · exact ⟨other, by rw [if_neg elsewhere]; exact there, .refl _ other⟩

theorem fetched_of_mem {record : OutboxRecord} (ids : (world.outbox.map OutboxRecord.id).Nodup)
    (member : record ∈ world.outbox.uncommitted) : Fetched world record := by
  obtain ⟨inside, uncommitted⟩ := List.mem_filter.mp member
  let table : Table OutboxRecord.id := { rows := world.outbox, unique := ids }
  have found : table.find record.id = some record := Table.find_eq_some_iff.mpr ⟨inside, rfl⟩
  exact ⟨record, found, OutboxRecord.unmarked_eq (by simpa using uncommitted)⟩

theorem Turned.coherent (turned : Turned sink call world call' world') (coherent : call.Coherent world)
    (fresh : call.Fresh world) (ids : (world.outbox.map OutboxRecord.id).Nodup) :
    call'.Coherent world' := by
  have grows := turned.grows coherent fresh
  cases turned with
  | saved record at_ =>
    exact ⟨record, by simp [InMemoryOutboxStore.get_save], .refl _ record⟩
  | fetched at_ => exact fun record member => fetched_of_mem ids member
  | finished relayed at_ => trivial
  | accepted record rest relayed at_ =>
    subst at_
    refine ⟨?_, fun other member => (coherent other member).grows grows⟩
    simp [OutboxWorld.Accepted, (coherent record List.mem_cons_self).unmarked]
  | refused record rest relayed e at_ =>
    subst at_
    exact fun other member => (coherent other (List.mem_cons_of_mem _ member)).grows grows
  | marked record rest relayed at_ =>
    subst at_
    exact fun other member => (coherent.2 other (List.mem_cons_of_mem _ member)).grows grows

theorem Turned.record (turned : Turned sink call world call' world') : call'.record = call.record := by
  cases turned <;> subst_vars <;> rfl

theorem Turned.ids (turned : Turned sink call world call' world') (fresh : call.Fresh world) :
    (∃ record, call = .save record ∧ call' = .saved record ∧
      world'.outbox.map OutboxRecord.id = world.outbox.map OutboxRecord.id ++ [record.id]) ∨
    world'.outbox.map OutboxRecord.id = world.outbox.map OutboxRecord.id := by
  cases turned with
  | saved record at_ =>
    subst at_
    refine .inl ⟨record, rfl, rfl, ?_⟩
    rw [InMemoryOutboxStore.save_of_new _ _ fresh, List.map_append, List.map_singleton]
  | marked record rest relayed at_ =>
    exact .inr (InMemoryOutboxStore.map_id_markCommitted _ _)
  | _ => exact .inr rfl

end OutboxCall

abbrev OutboxSystem := Threads OutboxWorld OutboxCall

def Distinct (records : List (Option OutboxRecord)) : Prop :=
  ∀ (i j : Nat) record record', records[i]? = some (some record) →
    records[j]? = some (some record') → record.id = record'.id → i = j

structure OutboxStarted (system : OutboxSystem) : Prop where
  empty : system.shared = { outbox := [], relays := [], applied := [] }
  begins : ∀ call ∈ system.locals, (∃ record, call = .save record) ∨ call = .drive .fetch
  distinct : Distinct (system.locals.map OutboxCall.record)

structure RelaySafe (system : OutboxSystem) : Prop where
  -- no record disappears, and only its flag changes
  present : ∀ record, .saved record ∈ system.locals →
    ∃ stored, system.shared.outbox.get record.id = some stored ∧ stored.unmarked = record.unmarked
  committed : ∀ record, .saved record ∈ system.locals →
    ∀ stored, system.shared.outbox.get record.id = some stored → stored.committed = true →
      record.committed = true ∨ system.shared.Accepted record
  refused : ∀ record, .saved record ∈ system.locals → record.committed = false →
    ¬ system.shared.Accepted record → record ∈ system.shared.outbox.uncommitted
  appliedOnce : system.shared.applied.Nodup ∧ ∀ key, key ∈ system.shared.applied ↔
    ∃ record, (record, .ok ()) ∈ system.shared.relays ∧ record.idempotencyKey = key

theorem OutboxWorld.mem_apply (applied : List String) (key other : String) :
    other ∈ apply applied key ↔ other ∈ applied ∨ key = other := by
  rw [apply]
  split
  · next seen =>
    refine ⟨.inl, ?_⟩
    rintro (before | rfl)
    · exact before
    · exact seen
  · rw [List.mem_append, List.mem_singleton, eq_comm (a := other)]

structure OutboxWorld.Deduped (world : OutboxWorld) : Prop where
  once : world.applied.Nodup
  accepted : ∀ key, key ∈ world.applied ↔
    ∃ record, (record, .ok ()) ∈ world.relays ∧ record.idempotencyKey = key

theorem OutboxCall.Turned.deduped {sink : OutboxSink} {call call' : OutboxCall}
    {world world' : OutboxWorld} (turned : Turned sink call world call' world')
    (deduped : world.Deduped) : world'.Deduped := by
  cases turned with
  | saved record at_ => exact ⟨deduped.once, deduped.accepted⟩
  | fetched at_ => exact deduped
  | finished relayed at_ => exact deduped
  | accepted record rest relayed at_ =>
    constructor
    · simp only [OutboxWorld.apply]
      split
      · exact deduped.once
      · next new => exact by simpa only [List.concat_eq_append] using deduped.once.concat new
    · intro key
      rw [OutboxWorld.mem_apply, deduped.accepted key]
      constructor
      · rintro (⟨other, there, rfl⟩ | rfl)
        · exact ⟨other, List.mem_append_left _ there, rfl⟩
        · exact ⟨record, by simp, rfl⟩
      · rintro ⟨other, there, rfl⟩
        rcases List.mem_append.mp there with before | now
        · exact .inl ⟨other, before, rfl⟩
        · cases List.mem_singleton.mp now
          exact .inr rfl
  | refused record rest relayed e at_ =>
    refine ⟨deduped.once, fun key => ?_⟩
    simp [deduped.accepted key]
  | marked record rest relayed at_ => exact ⟨deduped.once, deduped.accepted⟩

structure RelaySound (system : OutboxSystem) : Prop where
  distinct : Distinct (system.locals.map OutboxCall.record)
  ids : (system.shared.outbox.map OutboxRecord.id).Nodup
  logged : ∀ id ∈ system.shared.outbox.map OutboxRecord.id,
    ∃ (i : Nat) (record : OutboxRecord), system.locals[i]? = some (.saved record) ∧ record.id = id
  calls : ∀ (i : Nat) call, system.locals[i]? = some call → call.Coherent system.shared
  deduped : system.shared.Deduped

section Run

variable {sink : OutboxSink} {call call' : OutboxCall} {system next : OutboxSystem} {i : Nat}

theorem RelaySound.fresh (sound : RelaySound system) (found : system.locals[i]? = some call) :
    call.Fresh system.shared := by
  cases call with
  | save record =>
    rw [OutboxCall.Fresh, InMemoryOutboxStore.get_eq_none_iff]
    intro there
    obtain ⟨j, other, saved, named⟩ := sound.logged record.id there
    have here : (system.locals.map OutboxCall.record)[i]? = some (some record) := by
      simp [found, OutboxCall.record]
    have elsewhere : (system.locals.map OutboxCall.record)[j]? = some (some other) := by
      simp [saved, OutboxCall.record]
    rw [sound.distinct i j record other here elsewhere named.symm, saved] at found
    cases found
  | saved record => trivial
  | drive phase => trivial

theorem RelaySound.step (sound : RelaySound system)
    (turned : Threads.Turn (OutboxCall.turn sink) system i call call' next) : RelaySound next := by
  have own := OutboxCall.turn_cases turned.takes
  have fresh := sound.fresh turned.before
  have coherent := sound.calls i call turned.before
  have grows := own.grows coherent fresh
  refine ⟨?_, ?_, ?_, ?_, own.deduped sound.deduped⟩
  · rw [turned.map_locals OutboxCall.record own.record]
    exact sound.distinct
  · rcases own.ids fresh with ⟨record, rfl, rfl, ids⟩ | ids <;> rw [ids]
    · rw [OutboxCall.Fresh, InMemoryOutboxStore.get_eq_none_iff] at fresh
      simpa only [List.concat_eq_append] using sound.ids.concat fresh
    · exact sound.ids
  · -- calls that have saved take no turn
    have earlier (id : String) (there : id ∈ system.shared.outbox.map OutboxRecord.id) :
        ∃ (j : Nat) (record : OutboxRecord), next.locals[j]? = some (.saved record) ∧ record.id = id := by
      obtain ⟨j, record, saved, named⟩ := sound.logged id there
      refine ⟨j, record, ?_, named⟩
      rw [turned.others j, saved]
      rintro rfl
      rw [turned.before, Option.some_inj] at saved
      subst saved
      cases turned.takes
    intro id there
    rcases own.ids fresh with ⟨record, rfl, rfl, ids⟩ | ids <;> rw [ids] at there
    · rcases List.mem_append.mp there with before | now
      · exact earlier id before
      · exact ⟨i, record, turned.after, (List.mem_singleton.mp now).symm⟩
    · exact earlier id there
  · apply turned.each (P := fun world _ call => call.Coherent world)
    · exact own.coherent coherent fresh sound.ids
    · exact fun j other _ found => (sound.calls j other found).grows grows

theorem OutboxStarted.sound (started : OutboxStarted system) : RelaySound system := by
  have calls (i : Nat) (call : OutboxCall) (found : system.locals[i]? = some call) :
      call.Coherent system.shared := by
    rcases started.begins call (List.mem_of_getElem? found) with ⟨record, rfl⟩ | rfl <;> trivial
  refine ⟨started.distinct, ?_, ?_, calls, ?_⟩ <;> rw [started.empty]
  · exact List.nodup_nil
  · simp
  · constructor <;> simp

theorem RelaySound.safe (sound : RelaySound system) : RelaySafe system := by
  have kept (record : OutboxRecord) (saved : .saved record ∈ system.locals) :
      ∃ stored, system.shared.outbox.get record.id = some stored ∧
        OutboxCall.Kept system.shared record stored := by
    obtain ⟨i, found⟩ := List.mem_iff_getElem?.mp saved
    exact sound.calls i _ found
  constructor
  · intro record saved
    obtain ⟨stored, found, kept⟩ := kept record saved
    exact ⟨stored, found, kept.same⟩
  · intro record saved stored found committed
    obtain ⟨other, found', kept⟩ := kept record saved
    rw [found, Option.some_inj] at found'
    subst found'
    exact kept.accepted committed
  · intro record saved uncommitted refused
    obtain ⟨stored, found, kept⟩ := kept record saved
    have clear : stored.committed = false := by
      by_contra committed
      rcases kept.accepted (by simpa using committed) with marked | accepted
      · simp [uncommitted] at marked
      · exact refused accepted
    have same : stored = record := by
      rw [← OutboxRecord.unmarked_eq clear, kept.same, OutboxRecord.unmarked_eq uncommitted]
    subst same
    exact List.mem_filter.mpr ⟨List.mem_of_find?_eq_some found, by simp [clear]⟩
  · exact ⟨sound.deduped.once, sound.deduped.accepted⟩

end Run

/-- Whatever the order of saves and drives, wherever drives stop and whatever the sink answers. -/
theorem relay_safe (sink : OutboxSink) (initial : OutboxSystem) (started : OutboxStarted initial)
    (schedule : List Nat) (last : OutboxSystem)
    (ran : Threads.run (OutboxCall.turn sink) initial schedule = some last) : RelaySafe last :=
  (Threads.run_keeps RelaySound (fun _ _ _ _ _ sound turned => sound.step turned) schedule initial
    started.sound ran).safe

def outboxEntry (id key : String) : OutboxRecord :=
  { id, interruptId := "i1", payload := .null, idempotencyKey := key, committed := false }

-- A sink that is down for the first relay.
def flakySink : OutboxSink where
  answer relays _ := if relays = [] then .error (.internal "ledger down") else .ok ()

def ledgerSystem : OutboxSystem where
  shared := { outbox := [], relays := [], applied := [] }
  locals := [.save (outboxEntry "o1" "key-1"), .save (outboxEntry "o2" "key-1"), .drive .fetch,
    .drive .fetch]

theorem ledgerSystem_started : OutboxStarted ledgerSystem where
  empty := rfl
  begins := by simp [ledgerSystem]
  distinct := by
    intro i j record record' found found' same
    match i, j with
    | 0, 0 | 1, 1 => rfl
    | 0, 1 | 1, 0 =>
      cases found
      cases found'
      exact absurd same (by decide)
    | 2, _ | 3, _ | _ + 4, _ => cases found
    | _, 2 | _, 3 | _, _ + 4 => cases found'

-- The first drive is stopped after the sink has accepted the second record.
theorem relay_safe_ledger :
    ∃ last, Threads.run (OutboxCall.turn flakySink) ledgerSystem
        [0, 1, 2, 3, 2, 2, 3, 3, 3, 3, 3] = some last ∧ RelaySafe last :=
  ⟨_, rfl, relay_safe flakySink ledgerSystem ledgerSystem_started
    [0, 1, 2, 3, 2, 2, 3, 3, 3, 3, 3] _ rfl⟩

end AtomrAgents
