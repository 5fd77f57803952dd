import AtomrAgents.Workflow.SqlOutbox

set_option autoImplicit false

/-! `drive_outbox` takes any `OutboxStore`. The one in SQL hands its records out by id and the one in memory
as they came; a sink that judges each record by itself cannot tell them apart. -/

namespace AtomrAgents

open Shared

structure OutboxStore (σ : Type) where
  save : σ → OutboxRecord → σ
  uncommitted : σ → Except AgentError (List OutboxRecord)
  markCommitted : σ → String → σ
  get : σ → String → Except AgentError (Option OutboxRecord)

def InMemoryOutboxStore.store : OutboxStore InMemoryOutboxStore where
  save := InMemoryOutboxStore.save
  uncommitted := fun store => .ok store.uncommitted
  markCommitted := InMemoryOutboxStore.markCommitted
  get := fun store id => .ok (store.get id)

def SqlOutboxStore.store (sql : SqlOutboxStore) : OutboxStore OutboxTable where
  save := sql.save
  uncommitted := sql.uncommitted
  markCommitted := SqlOutboxStore.markCommitted
  get := sql.get

abbrev Relays := List (OutboxRecord × Except AgentError Unit)

structure Relayed (σ : Type) where
  records : σ
  relays : Relays

namespace OutboxStore

variable {σ : Type} (store : OutboxStore σ)

def relayAll (sink : OutboxSink) : List OutboxRecord → Nat → Relayed σ → Nat × Relayed σ
  | [], relayed, world => (relayed, world)
  | rec_ :: rest, relayed, world =>
    let answer := sink.answer world.relays rec_
    let relays := world.relays ++ [(rec_, answer)]
    match answer with
    | .ok () =>
      relayAll sink rest (relayed + 1) { records := store.markCommitted world.records rec_.id, relays }
    | .error _ => relayAll sink rest relayed { world with relays }

def drive (sink : OutboxSink) (world : Relayed σ) : Except AgentError Nat × Relayed σ :=
  match store.uncommitted world.records with
  | .error e => (.error e, world)
  | .ok pending =>
    let (relayed, world) := store.relayAll sink pending 0 world
    (.ok relayed, world)

end OutboxStore

-- Over the store in memory it is the drive that other calls come in between.
theorem drive_inMemory (sink : OutboxSink) (world : OutboxWorld) :
    InMemoryOutboxStore.store.drive sink { records := world.outbox, relays := world.relays } =
      (.ok (driveOutbox sink world).1,
        { records := (driveOutbox sink world).2.outbox, relays := (driveOutbox sink world).2.relays }) := by
  have same (pending : List OutboxRecord) (relayed : Nat) (world : OutboxWorld) :
      InMemoryOutboxStore.store.relayAll sink pending relayed
          { records := world.outbox, relays := world.relays } =
        ((AtomrAgents.relayAll sink pending relayed world).1,
          { records := (AtomrAgents.relayAll sink pending relayed world).2.outbox
            relays := (AtomrAgents.relayAll sink pending relayed world).2.relays }) := by
    induction pending generalizing relayed world with
    | nil => rfl
    | cons rec_ rest ih =>
      rw [OutboxStore.relayAll, AtomrAgents.relayAll]
      unfold OutboxWorld.relay
      cases answer : sink.answer world.relays rec_ with
      | ok done =>
        exact ih (relayed + 1)
          { outbox := world.outbox.markCommitted rec_.id
            relays := world.relays ++ [(rec_, .ok done)]
            applied := OutboxWorld.apply world.applied rec_.idempotencyKey }
      | error e => exact ih relayed { world with relays := world.relays ++ [(rec_, .error e)] }
  simp only [OutboxStore.drive, InMemoryOutboxStore.store, driveOutbox] at same ⊢
  rw [same]

inductive OutboxOp where
  | save (record : OutboxRecord)
  | markCommitted (id : String)
  | drive
  | get (id : String)
  | uncommitted

inductive OutboxAnswer where
  | done
  | relayed (count : Except AgentError Nat)
  | found (record : Except AgentError (Option OutboxRecord))
  | listed (records : Except AgentError (List OutboxRecord))

namespace OutboxStore

variable {σ : Type} (store : OutboxStore σ)

def step (sink : OutboxSink) (world : Relayed σ) : OutboxOp → OutboxAnswer × Relayed σ
  | .save record => (.done, { world with records := store.save world.records record })
  | .markCommitted id => (.done, { world with records := store.markCommitted world.records id })
  | .drive =>
    let (count, world) := store.drive sink world
    (.relayed count, world)
  | .get id => (.found (store.get world.records id), world)
  | .uncommitted => (.listed (store.uncommitted world.records), world)

end OutboxStore

def OutboxAnswer.byId : OutboxAnswer → OutboxAnswer
  | .listed records => .listed (records.map (orderBy OutboxRecord.id))
  | answer => answer

-- Whatever the sink was relayed before, it answers a record in the same way.
def OutboxSink.Memoryless (sink : OutboxSink) : Prop :=
  ∀ relays relays' record, sink.answer relays record = sink.answer relays' record

namespace OutboxStore

variable {σ : Type} (store : OutboxStore σ) {sink : OutboxSink}

def accepts (sink : OutboxSink) (record : OutboxRecord) : Bool := (sink.answer [] record).isOk

theorem relayAll_eq (memoryless : sink.Memoryless) (pending : List OutboxRecord) (relayed : Nat)
    (world : Relayed σ) :
    store.relayAll sink pending relayed world =
      (relayed + pending.countP (accepts sink),
        { records := ((pending.filter (accepts sink)).map OutboxRecord.id).foldl store.markCommitted world.records
          relays := world.relays ++ pending.map fun record => (record, sink.answer [] record) }) := by
  induction pending generalizing relayed world with
  | nil => simp [relayAll]
  | cons rec_ rest ih =>
    rw [relayAll]
    simp only [memoryless world.relays [] rec_]
    cases answer : sink.answer [] rec_ with
    | ok done =>
      have accepted : accepts sink rec_ = true := by simp [accepts, answer, Except.isOk, Except.toBool]
      simp only [ih]
      simp [accepted, answer, Nat.add_assoc, Nat.add_comm 1]
    | error e =>
      have refused : accepts sink rec_ = false := by simp [accepts, answer, Except.isOk, Except.toBool]
      simp only [ih]
      simp [refused, answer]

end OutboxStore

namespace InMemoryOutboxStore

variable {store : InMemoryOutboxStore}

theorem map_of_absent {id : String} (absent : id ∉ store.map OutboxRecord.id)
    (change : OutboxRecord → OutboxRecord) :
    store.map (fun record => if record.id = id then change record else record) = store := by
  conv_rhs => rw [← List.map_id store]
  apply List.map_congr_left
  intro record member
  rw [if_neg, id_eq]
  intro same
  exact absent (List.mem_map.mpr ⟨record, member, same⟩)

theorem save_of_mem {record : OutboxRecord} (distinct : (store.map OutboxRecord.id).Nodup)
    (present : record.id ∈ store.map OutboxRecord.id) :
    store.save record = store.map fun slot => if slot.id = record.id then record else slot := by
  induction store with
  | nil => simp at present
  | cons slot rest ih =>
    rw [List.map_cons, List.nodup_cons] at distinct
    rw [save]
    by_cases replaced : slot.id = record.id
    · rw [if_pos replaced, List.map_cons, if_pos replaced, map_of_absent (replaced ▸ distinct.1)]
    · have later : record.id ∈ rest.map OutboxRecord.id := by
        simpa [Ne.symm replaced] using present
      rw [if_neg replaced, List.map_cons, if_neg replaced, ih distinct.2 later]

theorem markCommitted_of_nodup (distinct : (store.map OutboxRecord.id).Nodup) (id : String) :
    store.markCommitted id =
      store.map fun record => if record.id = id then { record with committed := true } else record := by
  induction store with
  | nil => rfl
  | cons record rest ih =>
    rw [List.map_cons, List.nodup_cons] at distinct
    rw [markCommitted, List.map_cons]
    by_cases marked : record.id = id
    · rw [if_pos marked, if_pos marked, map_of_absent (marked ▸ distinct.1)]
    · rw [if_neg marked, if_neg marked, ih distinct.2]

theorem foldl_markCommitted (distinct : (store.map OutboxRecord.id).Nodup) (ids : List String) :
    ids.foldl InMemoryOutboxStore.markCommitted store =
      store.map fun record => if record.id ∈ ids then { record with committed := true } else record := by
  induction ids generalizing store with
  | nil => simp
  | cons id rest ih =>
    have later : ((store.markCommitted id).map OutboxRecord.id).Nodup := by
      rwa [map_id_markCommitted]
    rw [List.foldl_cons, ih later, markCommitted_of_nodup distinct, List.map_map]
    apply List.map_congr_left
    intro record _
    by_cases marked : record.id = id <;> simp [marked]

end InMemoryOutboxStore

namespace SqlOutboxStore

structure Agrees (sql : SqlOutboxStore) (table : OutboxTable) (store : InMemoryOutboxStore) : Prop where
  rows : table.rows = store.map sql.recToRow
  readable : ∀ record ∈ store, sql.json.RoundTrips record.payload

namespace Agrees

variable {sql : SqlOutboxStore} {table : OutboxTable} {store : InMemoryOutboxStore}

theorem distinct (agrees : Agrees sql table store) : (store.map OutboxRecord.id).Nodup := by
  have unique := table.unique
  rwa [agrees.rows, List.map_map] at unique

theorem find_eq (agrees : Agrees sql table store) (id : String) :
    table.find id = (store.get id).map sql.recToRow := by
  rw [Table.find, agrees.rows, List.find?_map]
  rfl

theorem rowToRec_recToRow {record : OutboxRecord} (readable : sql.json.RoundTrips record.payload) :
    sql.rowToRec (sql.recToRow record) = .ok record := by
  rw [rowToRec, recToRow, readable]
  cases record with
  | mk id interruptId payload idempotencyKey committed => cases committed <;> rfl

theorem get (agrees : Agrees sql table store) (id : String) : sql.get table id = .ok (store.get id) := by
  rw [SqlOutboxStore.get, agrees.find_eq]
  cases found : store.get id with
  | none => rfl
  | some record =>
    have member := List.mem_of_find?_eq_some found
    rw [Option.map_some]
    simp only [rowToRec_recToRow (agrees.readable record member)]
    rfl

theorem uncommitted (agrees : Agrees sql table store) :
    sql.uncommitted table = .ok (orderBy OutboxRecord.id store.uncommitted) := by
  have pending : table.rows.filter (fun row => row.committed = 0) = store.uncommitted.map sql.recToRow := by
    rw [agrees.rows, InMemoryOutboxStore.uncommitted, List.filter_map]
    congr 2
    funext record
    cases committed : record.committed <;> simp [recToRow, committed]
  have read (records : List OutboxRecord) (inside : ∀ record ∈ records, record ∈ store) :
      (records.map sql.recToRow).mapM sql.rowToRec = .ok records := by
    induction records with
    | nil => rfl
    | cons record rest ih =>
      rw [List.forall_mem_cons] at inside
      rw [List.map_cons, List.mapM_cons, rowToRec_recToRow (agrees.readable record inside.1), ih inside.2]
      rfl
  rw [SqlOutboxStore.uncommitted, pending, orderBy_map]
  apply read
  intro record member
  exact List.mem_of_mem_filter ((orderBy_perm _ _).mem_iff.mp member)

theorem save (agrees : Agrees sql table store) {record : OutboxRecord}
    (readable : sql.json.RoundTrips record.payload) :
    Agrees sql (sql.save table record) (store.save record) := by
  have ids : table.rows.map OutboxRow.id = store.map OutboxRecord.id := by
    rw [agrees.rows, List.map_map]
    rfl
  by_cases present : record.id ∈ store.map OutboxRecord.id
  · have there : (sql.recToRow record).id ∈ table.rows.map OutboxRow.id := ids ▸ present
    rw [InMemoryOutboxStore.save_of_mem agrees.distinct present]
    constructor
    · rw [SqlOutboxStore.save, Table.upsert]
      dsimp only
      rw [if_pos there, agrees.rows, List.map_map, List.map_map]
      apply List.map_congr_left
      intro slot _
      by_cases same : slot.id = record.id <;> simp [recToRow, same]
    · intro slot member
      obtain ⟨old, inside, rfl⟩ := List.mem_map.mp member
      split
      · exact readable
      · exact agrees.readable old inside
  · have absent := (InMemoryOutboxStore.get_eq_none_iff store record.id).mpr present
    have absent_ : table.find (sql.recToRow record).id = none := by
      rw [agrees.find_eq]
      exact congrArg (Option.map sql.recToRow) absent
    rw [InMemoryOutboxStore.save_of_new store record absent]
    constructor
    · rw [SqlOutboxStore.save, Table.rows_upsert_of_absent absent_, agrees.rows, List.map_append]
      rfl
    · rw [List.forall_mem_append]
      exact ⟨agrees.readable, by simpa using readable⟩

theorem markCommitted (agrees : Agrees sql table store) (id : String) :
    Agrees sql (SqlOutboxStore.markCommitted table id) (store.markCommitted id) := by
  rw [InMemoryOutboxStore.markCommitted_of_nodup agrees.distinct]
  constructor
  · simp only [SqlOutboxStore.markCommitted, Table.update, agrees.rows, List.map_map]
    apply List.map_congr_left
    intro record _
    by_cases marked : record.id = id <;> simp [Table.changeWhere, recToRow, marked]
  · intro record member
    obtain ⟨old, inside, rfl⟩ := List.mem_map.mp member
    split <;> exact agrees.readable old inside

theorem foldl_markCommitted (agrees : Agrees sql table store) (ids : List String) :
    Agrees sql (ids.foldl SqlOutboxStore.markCommitted table)
      (ids.foldl InMemoryOutboxStore.markCommitted store) := by
  induction ids generalizing table store with
  | nil => exact agrees
  | cons id rest ih => exact ih (agrees.markCommitted id)

end Agrees

structure Alike (sql : SqlOutboxStore) (world : Relayed OutboxTable) (world' : Relayed InMemoryOutboxStore) :
    Prop where
  agrees : Agrees sql world.records world'.records
  relays : world.relays.Perm world'.relays

theorem Alike.drive {sql : SqlOutboxStore} {sink : OutboxSink} (memoryless : sink.Memoryless)
    {world : Relayed OutboxTable} {world' : Relayed InMemoryOutboxStore} (alike : Alike sql world world') :
    (sql.store.drive sink world).1 = (InMemoryOutboxStore.store.drive sink world').1 ∧
      Alike sql (sql.store.drive sink world).2 (InMemoryOutboxStore.store.drive sink world').2 := by
  have byId := orderBy_perm OutboxRecord.id world'.records.uncommitted
  have listed : sql.store.uncommitted world.records = _ := alike.agrees.uncommitted
  have listed' : InMemoryOutboxStore.store.uncommitted world'.records = .ok world'.records.uncommitted := rfl
  simp only [OutboxStore.drive, listed, listed', OutboxStore.relayAll_eq _ memoryless]
  refine ⟨by rw [byId.countP_eq], ?_, alike.relays.append (byId.map _)⟩
  have marks := alike.agrees.foldl_markCommitted
    (((orderBy OutboxRecord.id world'.records.uncommitted).filter (OutboxStore.accepts sink)).map OutboxRecord.id)
  have order := ((byId.filter (OutboxStore.accepts sink)).map OutboxRecord.id)
  rw [InMemoryOutboxStore.foldl_markCommitted alike.agrees.distinct] at marks
  simp only [order.mem_iff] at marks
  rwa [← InMemoryOutboxStore.foldl_markCommitted alike.agrees.distinct] at marks

def Readable (sql : SqlOutboxStore) : OutboxOp → Prop
  | .save record => sql.json.RoundTrips record.payload
  | _ => True

theorem Alike.step {sql : SqlOutboxStore} {sink : OutboxSink} (memoryless : sink.Memoryless)
    {world : Relayed OutboxTable} {world' : Relayed InMemoryOutboxStore} (alike : Alike sql world world')
    (op : OutboxOp) (readable : Readable sql op) :
    (sql.store.step sink world op).1 = (InMemoryOutboxStore.store.step sink world' op).1.byId ∧
      Alike sql (sql.store.step sink world op).2 (InMemoryOutboxStore.store.step sink world' op).2 := by
  cases op with
  | save record => exact ⟨rfl, alike.agrees.save readable, alike.relays⟩
  | markCommitted id => exact ⟨rfl, alike.agrees.markCommitted id, alike.relays⟩
  | drive =>
    obtain ⟨count, alike⟩ := alike.drive memoryless
    exact ⟨congrArg OutboxAnswer.relayed count, alike⟩
  | get id => exact ⟨congrArg OutboxAnswer.found (alike.agrees.get id), alike⟩
  | uncommitted => exact ⟨congrArg OutboxAnswer.listed alike.agrees.uncommitted, alike⟩

/-- Over the two stores the same operations give the same answers, up to the order in which uncommitted
records are listed, and relay the same records with the same outcome. -/
theorem outbox_stores_agree (sql : SqlOutboxStore) (sink : OutboxSink) (memoryless : sink.Memoryless)
    (ops : List OutboxOp) (readable : ∀ op ∈ ops, Readable sql op) :
    let world : Relayed OutboxTable := { records := Table.empty, relays := [] }
    let world' : Relayed InMemoryOutboxStore := { records := [], relays := [] }
    (Operations.trace (sql.store.step sink) world ops).map Prod.snd =
        (Operations.trace (InMemoryOutboxStore.store.step sink) world' ops).map (fun entry => entry.2.byId) ∧
      (Operations.final (sql.store.step sink) world ops).relays.Perm
        (Operations.final (InMemoryOutboxStore.store.step sink) world' ops).relays := by
  have start : Alike sql { records := Table.empty, relays := [] } { records := [], relays := [] } :=
    { agrees := { rows := rfl, readable := by simp }, relays := .nil }
  obtain ⟨answers, alike⟩ := Operations.map_trace_eq (Alike sql) (Readable sql) id OutboxAnswer.byId
    (fun _ _ op alike readable => alike.step memoryless op readable) _ _ ops start readable
  exact ⟨answers, alike.relays⟩

def acceptingSink : OutboxSink := { answer := fun _ _ => .ok () }

def outOfOrder : List OutboxOp :=
  [.save (SqlStores.approvalEntry "o2"), .save (SqlStores.approvalEntry "o1"), .uncommitted, .drive]

theorem outbox_stores_agree_accepting :
    (Operations.final (SqlOutboxStore.store { json := SqlStores.nullJson } |>.step acceptingSink)
        { records := Table.empty, relays := [] } outOfOrder).relays.Perm
      [(SqlStores.approvalEntry "o2", .ok ()), (SqlStores.approvalEntry "o1", .ok ())] := by
  have readable : ∀ op ∈ outOfOrder, Readable { json := SqlStores.nullJson } op := by
    simp [outOfOrder, Readable, SerdeJson.RoundTrips, SqlStores.nullJson, SqlStores.approvalEntry]
  exact (outbox_stores_agree { json := SqlStores.nullJson } acceptingSink (fun _ _ _ => rfl) outOfOrder readable).2

end SqlOutboxStore

end AtomrAgents
