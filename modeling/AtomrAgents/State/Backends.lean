import AtomrAgents.Core.Value
import AtomrAgents.Shared.Table
import AtomrAgents.State.Checkpointer

set_option autoImplicit false

/-! Its table `agent_checkpoints` has the key `(workflow_id, run_id, super_step)`, with the super-step as a
signed 64-bit number. -/

namespace AtomrAgents

open Shared

structure CheckpointRow where
  workflowId : WorkflowId
  runId : RunId
  superStep : Int
  label : String
  valuesJson : String
  timestampMs : Int

def CheckpointRow.key (row : CheckpointRow) : WorkflowId × RunId × Int :=
  (row.workflowId, row.runId, row.superStep)

def CheckpointRow.meta (row : CheckpointRow) : CheckpointMeta where
  workflowId := row.workflowId
  runId := row.runId
  superStep := asU64 row.superStep
  timestampMs := row.timestampMs

abbrev CheckpointTable := Table CheckpointRow.key

structure SqlCheckpointer where
  json : SerdeJson Values

namespace SqlCheckpointer

variable (sql : SqlCheckpointer)

def snapshotRow (snapshot : Snapshot) : CheckpointRow where
  workflowId := snapshot.key.workflowId
  runId := snapshot.key.runId
  superStep := asI64 snapshot.key.superStep
  label := snapshot.label
  valuesJson := sql.json.toString snapshot.values
  timestampMs := snapshot.timestampMs

def rowToSnapshot (row : CheckpointRow) : Except AgentError Snapshot :=
  match sql.json.fromStr row.valuesJson with
  | .error e => .error e
  | .ok values =>
    .ok { key := { workflowId := row.workflowId, runId := row.runId, superStep := asU64 row.superStep }
          values, label := row.label, timestampMs := row.timestampMs }

-- `row.map(row_to_snapshot).transpose()`
def transpose (row : Option CheckpointRow) : Except AgentError (Option Snapshot) :=
  match row with
  | none => .ok none
  | some row => (sql.rowToSnapshot row).map some

variable (table : CheckpointTable)

-- INSERT .. ON CONFLICT (workflow_id, run_id, super_step) DO UPDATE
def save (snapshot : Snapshot) : CheckpointTable := table.upsert (sql.snapshotRow snapshot)

def load (key : CheckpointKey) : Except AgentError (Option Snapshot) :=
  sql.transpose (table.find (key.workflowId, key.runId, asI64 key.superStep))

-- WHERE workflow_id = ? AND run_id = ?
def ofRun (workflowId : WorkflowId) (runId : RunId) : List CheckpointRow :=
  table.rows.filter fun row => row.workflowId = workflowId ∧ row.runId = runId

-- ORDER BY super_step DESC LIMIT 1
def latest (workflowId : WorkflowId) (runId : RunId) : Except AgentError (Option Snapshot) :=
  sql.transpose (orderBy (fun row => -row.superStep) (ofRun table workflowId runId)).head?

-- ORDER BY super_step ASC
def list (workflowId : WorkflowId) (runId : RunId) : List CheckpointMeta :=
  (orderBy CheckpointRow.superStep (ofRun table workflowId runId)).map CheckpointRow.meta

def fork (source : CheckpointKey) (edits : List (String × Value)) (newRun : RunId) (nowMs : Int) :
    Except AgentError RunId × CheckpointTable :=
  match sql.load table source with
  | .error e => (.error e, table)
  | .ok none => (.error source.notFound, table)
  | .ok (some snap) => (.ok newRun, sql.save table (snap.forked source edits newRun nowMs))

variable {sql} {table}

@[simp] theorem superStep_snapshotRow (snapshot : Snapshot) :
    (sql.snapshotRow snapshot).superStep = asI64 snapshot.key.superStep := rfl

theorem rowToSnapshot_snapshotRow {snapshot : Snapshot} (fits : snapshot.key.superStep < 2 ^ 64)
    (json : sql.json.RoundTrips snapshot.values) :
    sql.rowToSnapshot (sql.snapshotRow snapshot) = .ok snapshot := by
  have values : sql.json.fromStr (sql.json.toString snapshot.values) = .ok snapshot.values := json
  simp [rowToSnapshot, snapshotRow, values, asU64_asI64 fits]

theorem key_snapshotRow {snapshot : Snapshot} {key : CheckpointKey}
    (fits : snapshot.key.superStep < 2 ^ 64) (key_fits : key.superStep < 2 ^ 64) :
    (sql.snapshotRow snapshot).key = (key.workflowId, key.runId, asI64 key.superStep) ↔
      snapshot.key = key := by
  simp [CheckpointRow.key, snapshotRow, asI64_inj fits key_fits, CheckpointKey.ext_iff]

theorem meta_snapshotRow {snapshot : Snapshot} (fits : snapshot.key.superStep < 2 ^ 64) :
    (sql.snapshotRow snapshot).meta = snapshot.meta := by
  simp [CheckpointRow.meta, Snapshot.meta, snapshotRow, asU64_asI64 fits]

end SqlCheckpointer

end AtomrAgents

namespace AtomrAgents

open Shared

-- A super-step is a `u64`. A fork carries the run id and the time that it draws.
inductive CheckpointOp where
  | save (snapshot : Snapshot) (fits : snapshot.key.superStep < 2 ^ 64)
  | fork (source : CheckpointKey) (fits : source.superStep < 2 ^ 64) (edits : List (String × Value))
      (newRun : RunId) (nowMs : Int)

abbrev SaveLog := List Snapshot

namespace SaveLog

def last (log : SaveLog) (key : CheckpointKey) : Option Snapshot :=
  log.reverse.find? fun s => s.key = key

def apply (log : SaveLog) : CheckpointOp → SaveLog
  | .save snapshot _ => log ++ [snapshot]
  | .fork source _ edits newRun nowMs =>
    match log.last source with
    | none => log
    | some snap => log ++ [snap.forked source edits newRun nowMs]

variable {log : SaveLog} {key : CheckpointKey} {s : Snapshot}

theorem last_eq_some (found : log.last key = some s) : s ∈ log ∧ s.key = key :=
  ⟨List.mem_reverse.mp (List.mem_of_find?_eq_some found), by simpa using List.find?_some found⟩

theorem last_eq_none_iff : log.last key = none ↔ key ∉ log.map Snapshot.key := by
  simp [last]

theorem prefix_apply (log : SaveLog) (op : CheckpointOp) : log <+: log.apply op := by
  cases op with
  | save snapshot fits => exact List.prefix_append _ _
  | fork source fits edits newRun nowMs =>
    rw [apply]
    split
    · exact List.prefix_refl log
    · exact List.prefix_append _ _

theorem prefix_foldl (ops : List CheckpointOp) (log : SaveLog) : log <+: ops.foldl apply log := by
  induction ops generalizing log with
  | nil => exact List.prefix_refl log
  | cons op ops ih => exact (log.prefix_apply op).trans (ih _)

end SaveLog

def InMemoryCheckpointer.apply (store : InMemoryCheckpointer) : CheckpointOp → InMemoryCheckpointer
  | .save snapshot _ => store.save snapshot
  | .fork source _ edits newRun nowMs => (store.fork source edits newRun nowMs).2

def SqlCheckpointer.apply (sql : SqlCheckpointer) (table : CheckpointTable) :
    CheckpointOp → CheckpointTable
  | .save snapshot _ => sql.save table snapshot
  | .fork source _ edits newRun nowMs => (sql.fork table source edits newRun nowMs).2

section Sequences

variable (ops : List CheckpointOp)

def saved : SaveLog := ops.foldl SaveLog.apply []

def inMemory : InMemoryCheckpointer := ops.foldl InMemoryCheckpointer.apply []

def inSql (sql : SqlCheckpointer) : CheckpointTable := ops.foldl sql.apply Table.empty

end Sequences

def CheckpointOp.saveKey (keys : List CheckpointKey) : CheckpointOp → List CheckpointKey
  | .save snapshot _ => keys ++ [snapshot.key]
  | .fork source _ _ newRun _ =>
    if source ∈ keys then keys ++ [{ source with runId := newRun }] else keys

def savedKeys (ops : List CheckpointOp) : List CheckpointKey := ops.foldl CheckpointOp.saveKey []

structure Simulates (sql : SqlCheckpointer) (log : SaveLog) (store : InMemoryCheckpointer)
    (table : CheckpointTable) : Prop where
  fits : ∀ s ∈ log, s.key.superStep < 2 ^ 64
  keys : store.map Snapshot.key = log.map Snapshot.key
  store : (log.map Snapshot.key).Nodup → store = log
  written : table.Written (log.map sql.snapshotRow)

section Loads

variable {sql : SqlCheckpointer} {log : SaveLog} {store : InMemoryCheckpointer}
  {table : CheckpointTable} {key : CheckpointKey}

theorem load_eq_none_iff (store : InMemoryCheckpointer) (key : CheckpointKey) :
    store.load key = none ↔ key ∉ store.map Snapshot.key := by
  simp [InMemoryCheckpointer.load]

theorem load_eq_last (distinct : (log.map Snapshot.key).Nodup) :
    InMemoryCheckpointer.load log key = log.last key := by
  let front : Table Snapshot.key := { rows := log, unique := distinct }
  let back : Table Snapshot.key :=
    { rows := log.reverse, unique := by rwa [List.map_reverse, List.nodup_reverse] }
  apply Option.ext
  intro s
  change front.find key = some s ↔ back.find key = some s
  simp [Table.find_eq_some_iff, front, back]

theorem Simulates.find (simulates : Simulates sql log store table)
    (fits : key.superStep < 2 ^ 64) :
    table.find (key.workflowId, key.runId, asI64 key.superStep) =
      (log.last key).map sql.snapshotRow := by
  rw [simulates.written, ← List.map_reverse, List.find?_map, SaveLog.last, ← List.head?_filter,
    ← List.head?_filter]
  congr 2
  apply List.filter_congr
  intro s member
  exact decide_eq_decide.mpr
    (SqlCheckpointer.key_snapshotRow (simulates.fits s (List.mem_reverse.mp member)) fits)

theorem Simulates.load (simulates : Simulates sql log store table)
    (json : ∀ s ∈ log, sql.json.RoundTrips s.values) (fits : key.superStep < 2 ^ 64) :
    sql.load table key = .ok (log.last key) := by
  rw [SqlCheckpointer.load, simulates.find fits]
  cases found : log.last key with
  | none => rfl
  | some s =>
    have member := (SaveLog.last_eq_some found).1
    simp [SqlCheckpointer.transpose,
      SqlCheckpointer.rowToSnapshot_snapshotRow (simulates.fits s member) (json s member), Except.map]

end Loads

section Steps

variable {sql : SqlCheckpointer} {log : SaveLog} {store : InMemoryCheckpointer}
  {table : CheckpointTable}

theorem Simulates.empty : Simulates sql [] [] Table.empty where
  fits := by simp
  keys := rfl
  store _ := rfl
  written := Table.Written.empty

theorem Simulates.save (simulates : Simulates sql log store table) {snapshot stored : Snapshot}
    (fits : snapshot.key.superStep < 2 ^ 64) (same : stored.key = snapshot.key)
    (exact_ : (log.map Snapshot.key).Nodup → stored = snapshot) :
    Simulates sql (log ++ [snapshot]) (store.save stored) (sql.save table snapshot) where
  fits s member := by
    rcases List.mem_append.mp member with earlier | new
    · exact simulates.fits s earlier
    · rwa [List.mem_singleton.mp new]
  keys := by simp [InMemoryCheckpointer.save, simulates.keys, same]
  store distinct := by
    rw [List.map_append, List.nodup_append] at distinct
    rw [InMemoryCheckpointer.save, simulates.store distinct.1, exact_ distinct.1]
  written := by
    rw [List.map_append, List.map_singleton]
    exact simulates.written.upsert _

theorem Simulates.apply (simulates : Simulates sql log store table)
    (json : ∀ s ∈ log, sql.json.RoundTrips s.values) (op : CheckpointOp) :
    Simulates sql (log.apply op) (store.apply op) (sql.apply table op) := by
  cases op with
  | save snapshot fits => exact simulates.save fits rfl fun _ => rfl
  | fork source fits edits newRun nowMs =>
    simp only [SaveLog.apply, InMemoryCheckpointer.apply, InMemoryCheckpointer.fork,
      SqlCheckpointer.apply, SqlCheckpointer.fork, simulates.load json fits]
    cases found : log.last source with
    | none =>
      have absent : store.load source = none := by
        rw [load_eq_none_iff, simulates.keys]
        exact SaveLog.last_eq_none_iff.mp found
      rw [absent]
      exact simulates
    | some snap =>
      obtain ⟨member, rfl⟩ := SaveLog.last_eq_some found
      cases there : store.load snap.key with
      | none =>
        rw [load_eq_none_iff, simulates.keys] at there
        exact absurd (List.mem_map_of_mem member) there
      | some stored =>
        have key : stored.key = snap.key := by simpa using List.find?_some there
        refine simulates.save (simulates.fits snap member) (by simp [Snapshot.forked, key]) ?_
        intro distinct
        rw [simulates.store distinct, load_eq_last distinct, found, Option.some_inj] at there
        rw [there]

theorem Simulates.run (simulates : Simulates sql log store table) (ops : List CheckpointOp)
    (json : ∀ s ∈ ops.foldl SaveLog.apply log, sql.json.RoundTrips s.values) :
    Simulates sql (ops.foldl SaveLog.apply log) (ops.foldl InMemoryCheckpointer.apply store)
      (ops.foldl sql.apply table) := by
  induction ops generalizing log store table with
  | nil => exact simulates
  | cons op ops ih =>
    have now (s : Snapshot) (member : s ∈ log) : sql.json.RoundTrips s.values :=
      json s ((SaveLog.prefix_foldl (op :: ops) log).mem member)
    exact ih (simulates.apply now op) json

theorem saved_keys (ops : List CheckpointOp) : (saved ops).map Snapshot.key = savedKeys ops := by
  have step (log : SaveLog) (op : CheckpointOp) :
      (log.apply op).map Snapshot.key = CheckpointOp.saveKey (log.map Snapshot.key) op := by
    cases op with
    | save snapshot fits => simp [SaveLog.apply, CheckpointOp.saveKey]
    | fork source fits edits newRun nowMs =>
      simp only [SaveLog.apply, CheckpointOp.saveKey]
      cases found : log.last source with
      | none => rw [if_neg (SaveLog.last_eq_none_iff.mp found)]
      | some snap =>
        obtain ⟨member, rfl⟩ := SaveLog.last_eq_some found
        simp [List.mem_map_of_mem member, Snapshot.forked]
  exact (List.foldl_hom (List.map Snapshot.key) fun log op => (step log op).symm).symm

end Steps

-- A later save of the same run is for a larger super-step, as `u64` and as `i64`.
def Onward (earlier later : CheckpointKey) : Prop :=
  earlier.workflowId = later.workflowId → earlier.runId = later.runId →
    earlier.superStep < later.superStep ∧ asI64 earlier.superStep < asI64 later.superStep

structure Agree (sql : SqlCheckpointer) (ops : List CheckpointOp) : Prop where
  load : ∀ key : CheckpointKey, key.superStep < 2 ^ 64 →
    (inMemory ops).load key = (saved ops).last key ∧
      sql.load (inSql ops sql) key = .ok ((saved ops).last key)
  latest : ∀ workflowId runId,
    sql.latest (inSql ops sql) workflowId runId = .ok ((inMemory ops).latest workflowId runId)
  list : ∀ workflowId runId,
    SqlCheckpointer.list (inSql ops sql) workflowId runId = (inMemory ops).list workflowId runId

section Runs

variable {sql : SqlCheckpointer} {log : SaveLog} {store : InMemoryCheckpointer}
  {table : CheckpointTable} {workflowId : WorkflowId} {runId : RunId}

theorem Simulates.ofRun_perm (simulates : Simulates sql log store table)
    (increasing : (InMemoryCheckpointer.ofRun log workflowId runId).Pairwise
      fun a b => asI64 a.key.superStep < asI64 b.key.superStep) :
    (SqlCheckpointer.ofRun table workflowId runId).Perm
      ((InMemoryCheckpointer.ofRun log workflowId runId).map sql.snapshotRow) := by
  have rows : (InMemoryCheckpointer.ofRun log workflowId runId).map sql.snapshotRow =
      (log.map sql.snapshotRow).filter fun row => row.workflowId = workflowId ∧ row.runId = runId := by
    rw [List.filter_map]
    rfl
  rw [rows]
  apply simulates.written.filter_perm fun k => k.1 = workflowId ∧ k.2.1 = runId
  change (((log.map sql.snapshotRow).filter
    fun row => row.workflowId = workflowId ∧ row.runId = runId).map CheckpointRow.key).Nodup
  rw [← rows, List.map_map, List.Nodup, List.pairwise_map]
  apply increasing.imp
  intro a b lt same
  exact absurd (congrArg (fun k => k.2.2) same) (ne_of_lt lt)

theorem Simulates.list (simulates : Simulates sql log store table)
    (increasing : (InMemoryCheckpointer.ofRun log workflowId runId).Pairwise
      fun a b => asI64 a.key.superStep < asI64 b.key.superStep) :
    SqlCheckpointer.list table workflowId runId = InMemoryCheckpointer.list log workflowId runId := by
  have ascending : ((InMemoryCheckpointer.ofRun log workflowId runId).map
      sql.snapshotRow).Pairwise fun a b => a.superStep < b.superStep := by
    simpa only [List.pairwise_map, SqlCheckpointer.superStep_snapshotRow] using increasing
  rw [SqlCheckpointer.list, orderBy_eq (simulates.ofRun_perm increasing) ascending, List.map_map,
    InMemoryCheckpointer.list]
  apply List.map_congr_left
  intro s member
  exact SqlCheckpointer.meta_snapshotRow (simulates.fits s (List.mem_of_mem_filter member))

theorem Simulates.latest (simulates : Simulates sql log store table)
    (json : ∀ s ∈ log, sql.json.RoundTrips s.values)
    (increasing : (InMemoryCheckpointer.ofRun log workflowId runId).Pairwise
      fun a b => asI64 a.key.superStep < asI64 b.key.superStep) :
    sql.latest table workflowId runId =
      .ok (InMemoryCheckpointer.ofRun log workflowId runId).getLast? := by
  have descending : (((InMemoryCheckpointer.ofRun log workflowId runId).map
      sql.snapshotRow).reverse).Pairwise fun a b => -a.superStep < -b.superStep := by
    simpa only [List.pairwise_reverse, List.pairwise_map, SqlCheckpointer.superStep_snapshotRow,
      Int.neg_lt_neg_iff] using increasing
  rw [SqlCheckpointer.latest, orderBy_eq
    ((simulates.ofRun_perm increasing).trans (List.reverse_perm _).symm) descending,
    List.head?_reverse, List.getLast?_map]
  cases found : (InMemoryCheckpointer.ofRun log workflowId runId).getLast? with
  | none => rfl
  | some s =>
    have member := List.mem_of_mem_filter (List.mem_of_getLast? found)
    simp [SqlCheckpointer.transpose,
      SqlCheckpointer.rowToSnapshot_snapshotRow (simulates.fits s member) (json s member), Except.map]

theorem ofRun_keys (same : store.map Snapshot.key = log.map Snapshot.key) :
    (store.ofRun workflowId runId).map Snapshot.key =
      (InMemoryCheckpointer.ofRun log workflowId runId).map Snapshot.key := by
  have keys (store : InMemoryCheckpointer) : (store.ofRun workflowId runId).map Snapshot.key =
      (store.map Snapshot.key).filter fun k => k.workflowId = workflowId ∧ k.runId = runId := by
    rw [List.filter_map]
    rfl
  rw [keys, keys, same]

theorem Simulates.increasing_of_list (simulates : Simulates sql log store table)
    (agree : SqlCheckpointer.list table workflowId runId = store.list workflowId runId) :
    (InMemoryCheckpointer.ofRun log workflowId runId).Pairwise
      fun a b => asI64 a.key.superStep < asI64 b.key.superStep := by
  let rows := orderBy CheckpointRow.superStep (SqlCheckpointer.ofRun table workflowId runId)
  have inside (row : CheckpointRow) (member : row ∈ rows) :
      row ∈ table.rows ∧ row.workflowId = workflowId ∧ row.runId = runId := by
    simpa [rows, SqlCheckpointer.ofRun] using (orderBy_perm _ _).mem_iff.mp member
  have strict : rows.Pairwise fun a b => a.superStep < b.superStep := by
    have distinct : rows.Pairwise fun a b => a.key ≠ b.key := by
      have once : ((SqlCheckpointer.ofRun table workflowId runId).map CheckpointRow.key).Nodup :=
        table.unique.sublist (List.filter_sublist.map _)
      exact List.pairwise_map.mp (((orderBy_perm _ _).map _).nodup_iff.mpr once)
    apply ((pairwise_orderBy _ _).and distinct).imp_of_mem
    intro a b here there both
    obtain ⟨-, workflow, run⟩ := inside a here
    obtain ⟨-, workflow', run'⟩ := inside b there
    refine lt_of_le_of_ne both.1 fun same => both.2 ?_
    rw [CheckpointRow.key, CheckpointRow.key, workflow, workflow', run, run', same]
  have steps : rows.map CheckpointRow.superStep =
      (store.ofRun workflowId runId).map fun s => asI64 s.key.superStep := by
    have metas := congrArg (List.map fun m => asI64 m.superStep) agree
    rw [SqlCheckpointer.list, InMemoryCheckpointer.list, List.map_map, List.map_map] at metas
    refine Eq.trans (List.map_congr_left fun row member => ?_) metas
    obtain ⟨s, saved, rfl⟩ := List.mem_map.mp (simulates.written.mem_log (inside row member).1)
    rw [Function.comp_apply, SqlCheckpointer.meta_snapshotRow (simulates.fits s saved)]
    rfl
  have ordered := List.pairwise_map.mpr strict
  rw [steps, List.pairwise_map] at ordered
  have keys := List.pairwise_map
    (R := fun a b : CheckpointKey => asI64 a.superStep < asI64 b.superStep).mpr ordered
  rw [ofRun_keys simulates.keys] at keys
  simpa only [List.pairwise_map] using keys

theorem onward_iff : (log.map Snapshot.key).Pairwise Onward ↔
    ∀ workflowId runId, (InMemoryCheckpointer.ofRun log workflowId runId).Pairwise fun a b =>
      a.key.superStep < b.key.superStep ∧ asI64 a.key.superStep < asI64 b.key.superStep := by
  rw [List.pairwise_map]
  constructor
  · intro onward workflowId runId
    rw [InMemoryCheckpointer.ofRun, List.pairwise_filter]
    apply onward.imp
    intro a b onward here there
    simp only [decide_eq_true_iff] at here there
    exact onward (here.1.trans there.1.symm) (here.2.trans there.2.symm)
  · intro each
    rw [List.pairwise_iff_forall_sublist]
    intro a b sublist workflow run
    apply List.pairwise_iff_forall_sublist.mp (each b.key.workflowId b.key.runId)
    have both := sublist.filter
      fun s => s.key.workflowId = b.key.workflowId ∧ s.key.runId = b.key.runId
    simpa [InMemoryCheckpointer.ofRun, workflow, run] using both

theorem Simulates.increasing_of_latest (simulates : Simulates sql log store table)
    (latest : store.latest workflowId runId =
      (InMemoryCheckpointer.ofRun log workflowId runId).getLast?)
    (increasing : (InMemoryCheckpointer.ofRun log workflowId runId).Pairwise
      fun a b => asI64 a.key.superStep < asI64 b.key.superStep) :
    (InMemoryCheckpointer.ofRun log workflowId runId).Pairwise fun a b =>
      a.key.superStep < b.key.superStep ∧ asI64 a.key.superStep < asI64 b.key.superStep := by
  apply increasing.imp_of_mem
  intro a b here there lt
  refine ⟨?_, lt⟩
  have fits {s : Snapshot} (member : s ∈ InMemoryCheckpointer.ofRun log workflowId runId) :=
    simulates.fits s (List.mem_of_mem_filter member)
  cases found : (InMemoryCheckpointer.ofRun log workflowId runId).getLast? with
  | none =>
    rw [List.getLast?_eq_none_iff.mp found] at here
    cases here
  | some last =>
    apply lt_of_asI64_lt (fits here) (fits there) (fits (List.mem_of_getLast? found)) lt
    · obtain ⟨front, split⟩ := List.getLast?_eq_some_iff.mp found
      rw [split] at increasing there
      rcases List.mem_append.mp there with earlier | same
      · exact le_of_lt ((List.pairwise_append.mp increasing).2.2 b earlier last (by simp))
      · rw [List.mem_singleton.mp same]
    · have stored : a.key ∈ (store.ofRun workflowId runId).map Snapshot.key := by
        rw [ofRun_keys simulates.keys]
        exact List.mem_map_of_mem here
      obtain ⟨other, member, same⟩ := List.mem_map.mp stored
      rw [found] at latest
      rw [← same]
      exact (maxByKey_max _ _ last latest).2 other member

end Runs

/-- The backends agree just when every save of a run is for a later super-step than those before. -/
theorem backends_agree (sql : SqlCheckpointer) (ops : List CheckpointOp)
    (json : ∀ snapshot ∈ saved ops, sql.json.RoundTrips snapshot.values) :
    Agree sql ops ↔ (savedKeys ops).Pairwise Onward := by
  have simulates : Simulates sql (saved ops) (inMemory ops) (inSql ops sql) :=
    Simulates.empty.run ops json
  rw [← saved_keys, onward_iff]
  constructor
  · intro agree workflowId runId
    have increasing := simulates.increasing_of_list (agree.list workflowId runId)
    have latest := agree.latest workflowId runId
    rw [simulates.latest json increasing, Except.ok.injEq] at latest
    exact simulates.increasing_of_latest latest.symm increasing
  · intro increasing
    have distinct : ((saved ops).map Snapshot.key).Nodup := by
      apply (onward_iff.mpr increasing).imp
      rintro a _ onward rfl
      exact absurd (onward rfl rfl).1 (lt_irrefl _)
    have same := simulates.store distinct
    constructor
    · intro key fits
      rw [same, load_eq_last distinct]
      exact ⟨rfl, simulates.load json fits⟩
    · intro workflowId runId
      rw [same, simulates.latest json ((increasing workflowId runId).imp And.right),
        InMemoryCheckpointer.latest,
        maxByKey_of_pairwise _ _ ((increasing workflowId runId).imp And.left)]
    · intro workflowId runId
      rw [same, simulates.list ((increasing workflowId runId).imp And.right)]

def checkpoint (runId : RunId) (superStep : Nat) (label : String) (timestampMs : Int) : Snapshot where
  key := { workflowId := "wf", runId, superStep }
  values := ∅
  label
  timestampMs

theorem backends_agree_fork :
    Agree { json := { toString := fun _ => "\x7b\x7d", fromStr := fun _ => .ok ∅ } }
      [.save (checkpoint "r" 1 "draft" 10) (by decide),
        .save (checkpoint "r" 2 "review" 20) (by decide),
        .fork { workflowId := "wf", runId := "r", superStep := 1 } (by decide) [] "run-7" 30] := by
  refine (backends_agree _ _ ?_).mpr ?_
  · intro snapshot member
    simp [saved, SaveLog.apply, SaveLog.last, checkpoint, Snapshot.forked] at member
    rcases member with rfl | rfl | rfl <;> rfl
  · have one := asI64_of_small (n := 1) (by decide)
    have two := asI64_of_small (n := 2) (by decide)
    simp [savedKeys, CheckpointOp.saveKey, checkpoint, Onward, one, two]

-- A run that pauses again where it has been resumed.
def pausedTwice : List CheckpointOp :=
  [.save (checkpoint "r" 1 "interrupt" 10) (by decide),
    .save (checkpoint "r" 1 "interrupt" 20) (by decide)]

theorem backends_agree_fails : ¬ ∃ sql, Agree sql pausedTwice := by
  rintro ⟨sql, agree⟩
  have loads := (agree.load { workflowId := "wf", runId := "r", superStep := 1 } (by decide)).1
  simp [pausedTwice, inMemory, saved, InMemoryCheckpointer.apply, InMemoryCheckpointer.save,
    InMemoryCheckpointer.load, SaveLog.apply, SaveLog.last, checkpoint] at loads

end AtomrAgents
