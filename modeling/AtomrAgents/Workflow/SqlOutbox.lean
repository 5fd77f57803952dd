import AtomrAgents.Shared.Supply
import AtomrAgents.Workflow.ExactlyOnce
import AtomrAgents.Workflow.ResumeEffect

set_option autoImplicit false

/-! `resume_with_sql` resolves the interrupt and inserts the outbox record in one transaction on the two
tables. The statements of a transaction are seen by nobody else before it is committed. -/

namespace AtomrAgents

open Shared

structure OutboxRow where
  id : String
  interruptId : String
  payloadJson : String
  idempotencyKey : String
  committed : Int

abbrev OutboxTable := Table OutboxRow.id

structure SqlOutboxStore where
  json : SerdeJson Value

namespace SqlOutboxStore

variable (sql : SqlOutboxStore)

def backendErr (e : String) : AgentError := .internal ("SqlOutboxStore backend error: " ++ e)

def rowToRec (row : OutboxRow) : Except AgentError OutboxRecord :=
  match sql.json.fromStr row.payloadJson with
  | .error e => .error e
  | .ok payload =>
    .ok { id := row.id, interruptId := row.interruptId, payload
          idempotencyKey := row.idempotencyKey, committed := row.committed ≠ 0 }

def recToRow (record : OutboxRecord) : OutboxRow where
  id := record.id
  interruptId := record.interruptId
  payloadJson := sql.json.toString record.payload
  idempotencyKey := record.idempotencyKey
  committed := if record.committed then 1 else 0

section Statements

variable (table : OutboxTable)

-- INSERT .. ON CONFLICT (id) DO UPDATE
def save (record : OutboxRecord) : OutboxTable := table.upsert (sql.recToRow record)

-- SELECT .. WHERE committed = 0 ORDER BY id ASC
def uncommitted : Except AgentError (List OutboxRecord) :=
  (orderBy OutboxRow.id (table.rows.filter fun row => row.committed = 0)).mapM sql.rowToRec

-- UPDATE agent_outbox SET committed = 1 WHERE id = ?
def markCommitted (id : String) : OutboxTable :=
  table.update (fun row => row.id = id) (fun row => { row with committed := 1 }) fun _ => rfl

-- SELECT .. WHERE id = ?
def get (id : String) : Except AgentError (Option OutboxRecord) :=
  match table.find id with
  | none => .ok none
  | some row => (sql.rowToRec row).map some

end Statements

end SqlOutboxStore

structure ResumeDb where
  interrupts : InterruptTable
  outbox : OutboxTable

-- What the backend answers to each statement; `commit` may have gone through although its answer is an error.
structure TxAnswers where
  begin : Except String Unit
  resolve : Except String Unit
  rollback : Except String Unit
  insert : Except String Unit
  duplicate : String
  commit : Except String Unit
  kept : Bool

structure SqlStores where
  registry : SqlInterruptRegistry
  store : SqlOutboxStore

namespace SqlStores

open SqlOutboxStore (backendErr)

variable (sql : SqlStores)

-- The transaction after its update: the insert, and the commit. `id` is the primary key.
def insertAndCommit (db : ResumeDb) (answers : TxAnswers) (interrupts : InterruptTable)
    (record : OutboxRecord) : Except AgentError Unit × ResumeDb :=
  match answers.insert with
  | .error e => (.error (backendErr e), db)
  | .ok () =>
    match db.outbox.find record.id with
    | some _ => (.error (backendErr answers.duplicate), db)
    | none =>
      let next : ResumeDb := { interrupts, outbox := db.outbox.upsert (sql.store.recToRow record) }
      match answers.commit with
      | .error e => (.error (backendErr e), if answers.kept then next else db)
      | .ok () => (.ok (), next)

-- A transaction that is not committed leaves nothing behind. The resolution is not stored.
def resumeWithSql (db : ResumeDb) (answers : TxAnswers) (interruptId : String) (_ : Resolution)
    (record : OutboxRecord) : Except AgentError Unit × ResumeDb :=
  let record := bindRecord interruptId record
  match answers.begin with
  | .error e => (.error (backendErr e), db)
  | .ok () =>
    match answers.resolve with
    | .error e => (.error (backendErr e), db)
    | .ok () =>
      if db.interrupts.rowsAffected (SqlInterruptRegistry.unresolved interruptId) ≠ 1 then
        match answers.rollback with
        | .error e => (.error (backendErr e), db)
        | .ok () => (.error (RegistryError.alreadyResolved interruptId).toAgentError, db)
      else
        sql.insertAndCommit db answers (SqlInterruptRegistry.updateResolved db.interrupts interruptId) record

inductive Transacted (db : ResumeDb) (answers : TxAnswers) (interruptId : String) (record : OutboxRecord) :
    Except AgentError Unit × ResumeDb → Prop where
  | committed (result : Except AgentError Unit)
      (live : SqlInterruptRegistry.live db.interrupts interruptId = true)
      (absent : db.outbox.find record.id = none)
      (told : result = .ok () ∨ answers.kept = true ∧ ∃ e, answers.commit = .error e) :
      Transacted db answers interruptId record
        (result, { interrupts := SqlInterruptRegistry.updateResolved db.interrupts interruptId
                   outbox := db.outbox.upsert (sql.store.recToRow (bindRecord interruptId record)) })
  | rolledBack (e : AgentError) : Transacted db answers interruptId record (.error e, db)

variable {sql}

theorem insertAndCommit_cases (db : ResumeDb) (answers : TxAnswers) (interruptId : String) (record : OutboxRecord)
    (live : SqlInterruptRegistry.live db.interrupts interruptId = true) :
    Transacted sql db answers interruptId record
      (sql.insertAndCommit db answers (SqlInterruptRegistry.updateResolved db.interrupts interruptId)
        (bindRecord interruptId record)) := by
  unfold insertAndCommit
  split
  · exact .rolledBack _
  · split
    · exact .rolledBack _
    · next absent =>
      dsimp only
      split
      · next e lost =>
        cases kept : answers.kept with
        | false => exact .rolledBack _
        | true => exact .committed _ live absent (.inr ⟨kept, e, lost⟩)
      · exact .committed _ live absent (.inl rfl)

theorem resumeWithSql_cases (db : ResumeDb) (answers : TxAnswers) (interruptId : String)
    (resolution : Resolution) (record : OutboxRecord) :
    Transacted sql db answers interruptId record
      (sql.resumeWithSql db answers interruptId resolution record) := by
  unfold resumeWithSql
  split
  · exact .rolledBack _
  · split
    · exact .rolledBack _
    · split
      · split <;> exact .rolledBack _
      · next one =>
        have live := (SqlInterruptRegistry.resolves_iff db.interrupts interruptId).mp (not_not.mp one)
        exact insertAndCommit_cases db answers interruptId record live

end SqlStores

end AtomrAgents

namespace AtomrAgents

open Shared

inductive DbCall where
  | registry (call : RegistryCall)
  | resumeWithSql (answers : TxAnswers) (interruptId : String) (resolution : Resolution) (record : OutboxRecord)
  | save (record : OutboxRecord)
  | markCommitted (id : String)

-- `applied`: the record is in the outbox now and was not before, which the caller does not see.
inductive DbAnswer where
  | registry (answer : RegistryAnswer)
  | transacted (result : Except AgentError Unit) (applied : Bool)
  | done

namespace SqlStores

variable (sql : SqlStores)

def applied (before after : ResumeDb) (record : OutboxRecord) : Bool :=
  (before.outbox.find record.id).isNone && (after.outbox.find record.id).isSome

def step (db : ResumeDb) : DbCall → DbAnswer × ResumeDb
  | .registry call =>
    let (answer, interrupts) := sql.registry.call db.interrupts call
    (.registry answer, { db with interrupts })
  | .resumeWithSql answers interruptId resolution record =>
    let (result, next) := sql.resumeWithSql db answers interruptId resolution record
    (.transacted result (applied db next record), next)
  | .save record => (.done, { db with outbox := sql.store.save db.outbox record })
  | .markCommitted id => (.done, { db with outbox := SqlOutboxStore.markCommitted db.outbox id })

def resumes (id : String) : DbCall × DbAnswer → Bool
  | (.registry call, .registry answer) => resumed id (call, answer)
  | (.resumeWithSql _ interruptId _ _, .transacted _ applied) => interruptId = id && applied
  | _ => false

def recorded (id : String) : DbCall × DbAnswer → Option OutboxRow
  | (.resumeWithSql _ interruptId _ record, .transacted _ true) =>
    if interruptId = id then some (sql.store.recToRow (bindRecord interruptId record)) else none
  | _ => none

def Settled (db : ResumeDb) (id : String) : Prop :=
  (db.interrupts.find id).isSome ∧ SqlInterruptRegistry.live db.interrupts id = false

-- A resolved interrupt is not registered anew as open, and `save` leaves its records alone.
def Leaves (id : String) (db : ResumeDb) : DbCall → Prop
  | .registry call => call.move id = .opened → ¬ Settled db id
  | .save record =>
    record.interruptId ≠ id ∧ ∀ row, db.outbox.find record.id = some row → row.interruptId ≠ id
  | _ => True

def unmarked (row : OutboxRow) : OutboxRow := { row with committed := 0 }

def recordsOf (id : String) (db : ResumeDb) : List OutboxRow :=
  (db.outbox.rows.filter fun row => row.interruptId = id).map unmarked

variable {sql} {db : ResumeDb} {id : String}

theorem applied_committed {record : OutboxRecord} (absent : db.outbox.find record.id = none)
    (interrupts : InterruptTable) (interruptId : String) :
    applied db { interrupts, outbox := db.outbox.upsert (sql.store.recToRow (bindRecord interruptId record)) }
      record = true := by
  have named : (sql.store.recToRow (bindRecord interruptId record)).id = record.id := rfl
  simp [applied, absent, Table.find_upsert, named]

theorem applied_same (record : OutboxRecord) : applied db db record = false := by
  cases found : db.outbox.find record.id <;> simp [applied, found]

theorem step_resumeWithSql (sql : SqlStores) (db : ResumeDb) (answers : TxAnswers) (interruptId : String)
    (resolution : Resolution) (record : OutboxRecord) :
    (∃ result, SqlInterruptRegistry.live db.interrupts interruptId = true ∧ db.outbox.find record.id = none ∧
      (result = .ok () ∨ answers.kept = true ∧ ∃ e, answers.commit = .error e) ∧
      sql.step db (.resumeWithSql answers interruptId resolution record) =
        (.transacted result true,
          { interrupts := SqlInterruptRegistry.updateResolved db.interrupts interruptId
            outbox := db.outbox.upsert (sql.store.recToRow (bindRecord interruptId record)) })) ∨
    ∃ e, sql.step db (.resumeWithSql answers interruptId resolution record) =
      (.transacted (.error e) false, db) := by
  have transacted := sql.resumeWithSql_cases db answers interruptId resolution record
  rw [step]
  generalize sql.resumeWithSql db answers interruptId resolution record = outcome at transacted
  cases transacted with
  | committed result live absent told =>
    left
    refine ⟨result, live, absent, told, ?_⟩
    simp only [applied_committed absent]
  | rolledBack e =>
    right
    refine ⟨e, ?_⟩
    simp only [applied_same]

theorem isSome_find_of_live {table : InterruptTable} (live : SqlInterruptRegistry.live table id = true) :
    (table.find id).isSome := by
  obtain ⟨row, found, _⟩ := (Option.any_eq_true _ _).mp live
  exact Option.isSome_of_eq_some found

theorem isSome_find_update {condition : InterruptRow → Bool} {set : InterruptRow → InterruptRow}
    (keeps : ∀ row, (set row).interruptId = row.interruptId) (table : InterruptTable) :
    ((table.update condition set keeps).find id).isSome = (table.find id).isSome := by
  rw [Table.find_update, Option.isSome_map]

theorem isSome_find_call (sql : SqlStores) (table : InterruptTable) (call : RegistryCall)
    (there : (table.find id).isSome) :
    ((sql.registry.call table call).2.find id).isSome := by
  cases call with
  | register p =>
    simp only [SqlInterruptRegistry.call, SqlInterruptRegistry.insert, Table.find_upsert]
    split
    · rfl
    · exact there
  | claim interruptId person =>
    simp only [SqlInterruptRegistry.call]
    split <;> simpa only [SqlInterruptRegistry.updateClaim, isSome_find_update] using there
  | resume interruptId resolution =>
    simp only [SqlInterruptRegistry.call]
    split <;> simpa only [SqlInterruptRegistry.updateResolved, isSome_find_update] using there
  | tick nowMs policy =>
    simpa only [SqlInterruptRegistry.call, SqlInterruptRegistry.updateEscalated, isSome_find_update] using there

theorem settled_step (settled : Settled db id) (call : DbCall) (leaves : Leaves id db call) :
    resumes id (call, (sql.step db call).1) = false ∧ Settled (sql.step db call).2 id := by
  cases call with
  | registry call =>
    obtain ⟨answered, live⟩ := @SqlInterruptRegistry.call_live sql.registry db.interrupts id call
    have there := sql.isSome_find_call db.interrupts call settled.1
    have kept : Live.step id false call = (false, false) := by
      cases move : call.move id with
      | opened => exact absurd settled (leaves move)
      | closed => simp [Live.step, move]
      | resumed => simp [Live.step, move]
      | other => simp [Live.step, move]
    rw [settled.2, kept] at answered live
    exact ⟨answered, there, live⟩
  | resumeWithSql answers interruptId resolution record =>
    obtain ⟨result, live, absent, told, stepped⟩ | ⟨e, stepped⟩ :=
      sql.step_resumeWithSql db answers interruptId resolution record
    · have other : interruptId ≠ id := by
        rintro rfl
        rw [settled.2] at live
        cases live
      rw [stepped]
      refine ⟨by simp [resumes, other], ?_, ?_⟩
      · simpa only [SqlInterruptRegistry.updateResolved, isSome_find_update] using settled.1
      · simp [SqlInterruptRegistry.live_updateResolved, other, settled.2]
    · rw [stepped]
      exact ⟨by simp [resumes], settled⟩
  | save record => exact ⟨rfl, settled⟩
  | markCommitted id => exact ⟨rfl, settled⟩

theorem resumes_settles (db : ResumeDb) (call : DbCall) (goes : resumes id (call, (sql.step db call).1) = true) :
    Settled (sql.step db call).2 id := by
  cases call with
  | registry call =>
    obtain ⟨answered, live⟩ := @SqlInterruptRegistry.call_live sql.registry db.interrupts id call
    have went : (Live.step id (SqlInterruptRegistry.live db.interrupts id) call).1 = true := answered.symm.trans goes
    have there : (db.interrupts.find id).isSome := by
      apply isSome_find_of_live
      unfold Live.step at went
      split at went
      · cases went
      · cases went
      · exact went
      · cases went
    exact ⟨sql.isSome_find_call db.interrupts call there, live.trans (Live.step_resumed call went)⟩
  | resumeWithSql answers interruptId resolution record =>
    obtain ⟨result, live, absent, told, stepped⟩ | ⟨e, stepped⟩ :=
      sql.step_resumeWithSql db answers interruptId resolution record
    · rw [stepped] at goes ⊢
      have same : interruptId = id := by simpa [resumes] using goes
      subst same
      refine ⟨?_, ?_⟩
      · simpa only [SqlInterruptRegistry.updateResolved, isSome_find_update] using isSome_find_of_live live
      · simp [SqlInterruptRegistry.live_updateResolved]
    · rw [stepped] at goes
      simp [resumes] at goes
  | save record => cases goes
  | markCommitted id => cases goes

theorem recorded_resumes {entry : DbCall × DbAnswer} (recorded_ : recorded sql id entry ≠ none) :
    resumes id entry = true := by
  unfold recorded at recorded_
  split at recorded_
  · split at recorded_
    · next same => simp [resumes, same]
    · exact absurd rfl recorded_
  · exact absurd rfl recorded_

theorem recordsOf_save {record : OutboxRecord} (elsewhere : record.interruptId ≠ id)
    (other : ∀ row, db.outbox.find record.id = some row → row.interruptId ≠ id) :
    recordsOf id { db with outbox := sql.store.save db.outbox record } = recordsOf id db := by
  have outside : decide ((sql.store.recToRow record).interruptId = id) = false := decide_eq_false elsewhere
  have kept := Table.filter_rows_upsert_of_outside (fun row => row.interruptId = id) outside
    fun row found => decide_eq_false (other row found)
  exact congrArg (List.map unmarked) kept

theorem recordsOf_markCommitted (marked : String) :
    recordsOf id { db with outbox := SqlOutboxStore.markCommitted db.outbox marked } = recordsOf id db := by
  simp only [recordsOf, SqlOutboxStore.markCommitted, Table.update, List.filter_map, List.map_map]
  have bound : ((fun row : OutboxRow => decide (row.interruptId = id)) ∘
      Table.changeWhere (fun row => row.id = marked) fun row => { row with committed := 1 }) =
        fun row => decide (row.interruptId = id) := by
    funext row
    by_cases same : row.id = marked <;> simp [Table.changeWhere, same]
  rw [bound]
  apply List.map_congr_left
  intro row _
  by_cases same : row.id = marked <;> simp [Table.changeWhere, same, unmarked]

theorem recordsOf_step (db : ResumeDb) (call : DbCall) (leaves : Leaves id db call) :
    recordsOf id (sql.step db call).2 =
      recordsOf id db ++ (recorded sql id (call, (sql.step db call).1)).toList := by
  cases call with
  | registry call => simp [step, recorded, recordsOf]
  | resumeWithSql answers interruptId resolution record =>
    obtain ⟨result, live, absent, told, stepped⟩ | ⟨e, stepped⟩ :=
      sql.step_resumeWithSql db answers interruptId resolution record
    · have named : (sql.store.recToRow (bindRecord interruptId record)).id = record.id := rfl
      rw [stepped]
      simp only [recordsOf, recorded, Table.rows_upsert_of_absent (named ▸ absent), List.filter_append,
        List.map_append]
      by_cases same : interruptId = id
      · simp [same, SqlOutboxStore.recToRow, bindRecord, unmarked]
      · simp [same, SqlOutboxStore.recToRow, bindRecord]
    · rw [stepped]
      simp [recorded]
  | save record =>
    rw [step, recordsOf_save leaves.1 leaves.2]
    simp [recorded]
  | markCommitted marked =>
    rw [step, recordsOf_markCommitted]
    simp [recorded]

theorem settled_of_recordsOf_step (db : ResumeDb) (call : DbCall)
    (settles : recordsOf id db ≠ [] → Settled db id) (leaves : Leaves id db call)
    (written : recordsOf id (sql.step db call).2 ≠ []) : Settled (sql.step db call).2 id := by
  rw [recordsOf_step db call leaves] at written
  by_cases before : recordsOf id db = []
  · apply resumes_settles
    apply @recorded_resumes sql
    intro none
    exact written (by simp [before, none])
  · exact (settled_step (settles before) call leaves).2

-- Both changes, and the caller is told so unless the answer to the commit was lost; or an error and neither of them.
def Told (sql : SqlStores) (db : ResumeDb) : DbCall → Prop
  | .resumeWithSql answers interruptId resolution record => ∀ result applied,
    (sql.step db (.resumeWithSql answers interruptId resolution record)).1 = .transacted result applied →
    if applied then
      (result = .ok () ∨ answers.kept = true ∧ ∃ e, answers.commit = .error e) ∧
        SqlInterruptRegistry.live db.interrupts interruptId = true ∧ db.outbox.find record.id = none ∧
        (sql.step db (.resumeWithSql answers interruptId resolution record)).2 =
          { interrupts := SqlInterruptRegistry.updateResolved db.interrupts interruptId
            outbox := db.outbox.upsert (sql.store.recToRow (bindRecord interruptId record)) }
    else (∃ e, result = .error e) ∧ (sql.step db (.resumeWithSql answers interruptId resolution record)).2 = db
  | _ => True

theorem told_step (sql : SqlStores) (db : ResumeDb) (call : DbCall) : Told sql db call := by
  cases call with
  | registry call => trivial
  | resumeWithSql answers interruptId resolution record =>
    intro result applied answered
    obtain ⟨result', live, absent, told, stepped⟩ | ⟨e, stepped⟩ :=
      sql.step_resumeWithSql db answers interruptId resolution record
    · rw [stepped] at answered ⊢
      cases answered
      exact ⟨told, live, absent, rfl⟩
    · rw [stepped] at answered ⊢
      cases answered
      exact ⟨⟨e, rfl⟩, rfl⟩
  | save record => trivial
  | markCommitted id => trivial

/-- Whatever else is done to the database, at most one resume of an interrupt goes through, its records
are those of the transactions that did, an interrupt with a record is resolved, and an error without a lost commit
leaves both tables as they were. -/
theorem transactional_resume (sql : SqlStores) (db : ResumeDb) (calls : List DbCall) (id : String)
    (fresh : recordsOf id db = []) (leaves : Operations.Along sql.step (Leaves id) db calls) :
    (Operations.trace sql.step db calls).countP (resumes id) ≤ 1 ∧
      recordsOf id (Operations.final sql.step db calls) =
        (Operations.trace sql.step db calls).filterMap (recorded sql id) ∧
      (recordsOf id (Operations.final sql.step db calls) ≠ [] →
        Settled (Operations.final sql.step db calls) id) ∧
      Operations.Along sql.step (Told sql) db calls := by
  refine ⟨?_, ?_, ?_, ?_⟩
  · exact Operations.countP_le_one (fun db => Settled db id) (fun _ call settled => settled_step settled call)
      (fun db call _ => resumes_settles db call) db calls leaves
  · rw [Operations.final_recorded (recordsOf id) (Leaves id) (recorded sql id)
      (fun db call => recordsOf_step db call) db calls leaves, fresh, List.nil_append]
  · exact Operations.final_invariant (Leaves id) (fun db => recordsOf id db ≠ [] → Settled db id)
      (fun db call settles leaves => settled_of_recordsOf_step db call settles leaves) db calls
      (fun written => absurd fresh written) leaves
  · exact Operations.along_of_forall _ (told_step sql) db calls

def nullJson : SerdeJson Value where
  toString := fun _ => "null"
  fromStr := fun text => if text = "null" then .ok .null else .error (.serde "expected value")

def nullStores : SqlStores := { registry := { json := nullJson }, store := { json := nullJson } }

def lostCommit : TxAnswers where
  begin := .ok ()
  resolve := .ok ()
  rollback := .ok ()
  insert := .ok ()
  duplicate := "UNIQUE constraint failed: agent_outbox.id"
  commit := .error "connection reset"
  kept := true

def approvalEntry (id : String) : OutboxRecord :=
  { id, interruptId := "", payload := .null, idempotencyKey := "key-1", committed := false }

-- The answer to the first commit is lost, so the approval is sent again.
def retriedApproval : List DbCall :=
  [.registry (.register (parked "i1" 1000)),
    .resumeWithSql lostCommit "i1" { value := .bool true } (approvalEntry "o1"),
    .resumeWithSql { lostCommit with commit := .ok () } "i1" { value := .bool true } (approvalEntry "o2")]

theorem transactional_resume_retried :
    (recordsOf "i1" (Operations.final nullStores.step { interrupts := Table.empty, outbox := Table.empty }
      retriedApproval)).map OutboxRow.id = ["o1"] := by
  have leaves : Operations.Along nullStores.step (Leaves "i1")
      { interrupts := Table.empty, outbox := Table.empty } retriedApproval :=
    ⟨fun _ settled => absurd settled.1 (by decide), trivial, trivial, trivial⟩
  obtain ⟨-, records, -⟩ := transactional_resume nullStores _ retriedApproval "i1" rfl leaves
  rw [records]
  decide

end SqlStores

end AtomrAgents
