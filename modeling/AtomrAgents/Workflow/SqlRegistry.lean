import AtomrAgents.Core.Value
import AtomrAgents.Shared.Interleaving
import AtomrAgents.Shared.Table
import AtomrAgents.Workflow.InterruptRegistry

set_option autoImplicit false

/-! Every SQL statement is one definition on the table `agent_interrupts`; the calls are made of them. -/

namespace AtomrAgents

open Shared

structure InterruptRow where
  interruptId : String
  workflow : String
  run : String
  step : Int
  requestedRole : Option String
  requestedClearance : Option String
  payloadJson : String
  createdAtMs : Int
  deadlineMs : Option Int
  assignee : Option String
  status : String

def statusStr : InterruptStatus → String
  | .pending => "Pending"
  | .claimed => "Claimed"
  | .resolved => "Resolved"
  | .expired => "Expired"
  | .escalated => "Escalated"

def parseStatus (s : String) : InterruptStatus :=
  if s = "Claimed" then .claimed
  else if s = "Resolved" then .resolved
  else if s = "Expired" then .expired
  else if s = "Escalated" then .escalated
  else .pending

@[simp] theorem parseStatus_statusStr (status : InterruptStatus) :
    parseStatus (statusStr status) = status := by
  cases status <;> rfl

theorem statusStr_inj {a b : InterruptStatus} : statusStr a = statusStr b ↔ a = b := by
  constructor
  · intro same
    simpa using congrArg parseStatus same
  · rintro rfl
    rfl

abbrev InterruptTable := Table InterruptRow.interruptId

structure SqlInterruptRegistry where
  json : SerdeJson Value

namespace SqlInterruptRegistry

variable (sql : SqlInterruptRegistry)

def rowToPending (row : InterruptRow) : Except AgentError PendingInterrupt :=
  match sql.json.fromStr row.payloadJson with
  | .error e => .error e
  | .ok payload =>
    .ok { interruptId := row.interruptId, workflow := row.workflow, run := row.run
          step := asU64 row.step, requestedRole := row.requestedRole
          requestedClearance := row.requestedClearance, payload, createdAtMs := row.createdAtMs
          deadlineMs := row.deadlineMs, assignee := row.assignee, status := parseStatus row.status }

def pendingToRow (p : PendingInterrupt) : InterruptRow where
  interruptId := p.interruptId
  workflow := p.workflow
  run := p.run
  step := asI64 p.step
  requestedRole := p.requestedRole
  requestedClearance := p.requestedClearance
  payloadJson := sql.json.toString p.payload
  createdAtMs := p.createdAtMs
  deadlineMs := p.deadlineMs
  assignee := p.assignee
  status := statusStr p.status

section Statements

variable (table : InterruptTable)

-- INSERT .. ON CONFLICT (interrupt_id) DO UPDATE
def insert (p : PendingInterrupt) : InterruptTable := table.upsert (sql.pendingToRow p)

-- SELECT .. WHERE interrupt_id = ?
def selectById (interruptId : String) : Except AgentError (Option PendingInterrupt) :=
  match table.find interruptId with
  | none => .ok none
  | some row => (sql.rowToPending row).map some

-- WHERE interrupt_id = ? AND assignee IS NULL AND status IN ('Pending', 'Escalated')
def claimable (interruptId : String) (row : InterruptRow) : Bool :=
  row.interruptId = interruptId ∧ row.assignee = none ∧
    (row.status = "Pending" ∨ row.status = "Escalated")

def updateClaim (interruptId person : String) : InterruptTable :=
  table.update (claimable interruptId)
    (fun row => { row with assignee := some person, status := "Claimed" }) fun _ => rfl

-- WHERE interrupt_id = ? AND status <> 'Resolved'
def unresolved (interruptId : String) (row : InterruptRow) : Bool :=
  row.interruptId = interruptId ∧ row.status ≠ "Resolved"

def updateResolved (interruptId : String) : InterruptTable :=
  table.update (unresolved interruptId) (fun row => { row with status := "Resolved" }) fun _ => rfl

-- WHERE status = 'Pending' AND (? - created_at_ms) >= ?
def overdue (nowMs : Int) (policy : EscalationPolicy) (row : InterruptRow) : Bool :=
  row.status = "Pending" ∧ nowMs - row.createdAtMs ≥ policy.afterMs

-- SELECT interrupt_id .. ORDER BY interrupt_id ASC
def selectOverdue (nowMs : Int) (policy : EscalationPolicy) : List String :=
  ((table.rows.filter (overdue nowMs policy)).map InterruptRow.interruptId).mergeSort

def updateEscalated (nowMs : Int) (policy : EscalationPolicy) : InterruptTable :=
  table.update (overdue nowMs policy)
    (fun row => { row with status := "Escalated", requestedRole := some policy.toRole }) fun _ => rfl

end Statements

def refusal (table : InterruptTable) (interruptId : String) (present : RegistryError) : AgentError :=
  match sql.selectById table interruptId with
  | .error e => e
  | .ok none => (RegistryError.notFound interruptId).toAgentError
  | .ok (some _) => present.toAgentError

def call (table : InterruptTable) : RegistryCall → RegistryAnswer × InterruptTable
  | .register pending => (.result (.ok ()), sql.insert table pending)
  | .claim interruptId person =>
    let claimed := updateClaim table interruptId person
    if table.rowsAffected (claimable interruptId) = 1 then (.result (.ok ()), claimed)
    else (.result (.error (sql.refusal claimed interruptId (.alreadyClaimed interruptId))), claimed)
  | .resume interruptId _ =>
    let resolved := updateResolved table interruptId
    if table.rowsAffected (unresolved interruptId) = 1 then (.result (.ok ()), resolved)
    else
      (.result (.error (sql.refusal resolved interruptId (.alreadyResolved interruptId))), resolved)
  | .tick nowMs policy =>
    (.moved (selectOverdue table nowMs policy), updateEscalated table nowMs policy)

variable {sql} {table : InterruptTable}

theorem claimed_iff (interruptId : String) :
    table.rowsAffected (claimable interruptId) = 1 ↔
      ∃ row, table.find interruptId = some row ∧ claimable interruptId row = true := by
  apply Table.rowsAffected_eq_one_iff
  intro row holds
  rw [claimable, decide_eq_true_iff] at holds
  exact holds.1

theorem resolved_iff (interruptId : String) :
    table.rowsAffected (unresolved interruptId) = 1 ↔
      ∃ row, table.find interruptId = some row ∧ unresolved interruptId row = true := by
  apply Table.rowsAffected_eq_one_iff
  intro row holds
  rw [unresolved, decide_eq_true_iff] at holds
  exact holds.1

def Overdue (table : InterruptTable) (nowMs : Int) (policy : EscalationPolicy) (id : String) : Prop :=
  ∃ row, table.find id = some row ∧ overdue nowMs policy row = true

theorem mem_selectOverdue (nowMs : Int) (policy : EscalationPolicy) (interruptId : String) :
    interruptId ∈ selectOverdue table nowMs policy ↔ Overdue table nowMs policy interruptId := by
  simp only [selectOverdue, Overdue, List.mem_mergeSort, List.mem_map, List.mem_filter, Table.find_eq_some_iff]
  constructor
  · rintro ⟨row, ⟨member, late⟩, rfl⟩
    exact ⟨row, ⟨member, rfl⟩, late⟩
  · rintro ⟨row, ⟨member, named⟩, late⟩
    exact ⟨row, ⟨member, late⟩, named⟩

theorem selectOverdue_nodup (nowMs : Int) (policy : EscalationPolicy) :
    (selectOverdue table nowMs policy).Nodup := by
  rw [selectOverdue, (List.mergeSort_perm _ _).nodup_iff]
  exact table.unique.sublist (List.filter_sublist.map _)

-- A statement that makes no row Pending.
section Update

variable {condition : InterruptRow → Bool} {set : InterruptRow → InterruptRow}
  (keeps : ∀ row, (set row).interruptId = row.interruptId)

theorem find_of_pending (settles : ∀ row, condition row = true → (set row).status ≠ "Pending")
    {id : String} {row : InterruptRow} (found : (table.update condition set keeps).find id = some row)
    (pending : row.status = "Pending") : table.find id = some row := by
  rw [Table.find_update, Option.map_eq_some_iff] at found
  obtain ⟨before, there, rfl⟩ := found
  rw [Table.changeWhere] at pending ⊢
  split at pending
  · next holds => exact absurd pending (settles before holds)
  · next fails => rwa [if_neg fails]

theorem overdue_update_iff (settles : ∀ row, condition row = true → (set row).status ≠ "Pending")
    {nowMs : Int} {policy : EscalationPolicy} {id : String}
    (apart : ∀ row, table.find id = some row → overdue nowMs policy row = true →
      condition row = false) :
    Overdue (table.update condition set keeps) nowMs policy id ↔ Overdue table nowMs policy id := by
  constructor
  · rintro ⟨row, found, late⟩
    have pending : row.status = "Pending" := by
      rw [overdue, decide_eq_true_iff] at late
      exact late.1
    exact ⟨row, find_of_pending keeps settles found pending, late⟩
  · rintro ⟨row, found, late⟩
    refine ⟨row, ?_, late⟩
    simp [Table.find_update, found, Table.changeWhere, apart row found late]

end Update

end SqlInterruptRegistry

end AtomrAgents

namespace AtomrAgents

open Shared

inductive RegistryEvent where
  | claimed (interruptId : String)
  | resolved (interruptId : String)
  | ticked (returned moved : List String)

structure InterruptDb where
  table : InterruptTable
  log : List RegistryEvent

inductive SqlPhase where
  | execute
  | lookup
  | selected (interruptIds : List String)
  | returned (answer : RegistryAnswer)

structure SqlCall where
  request : RegistryCall
  phase : SqlPhase

namespace SqlCall

def moved (before after : InterruptTable) : List String :=
  (before.rows.filter fun row => row.status = "Pending" ∧
    (after.find row.interruptId).any fun row' => row'.status = "Escalated").map
      InterruptRow.interruptId

open SqlInterruptRegistry in
def turn (sql : SqlInterruptRegistry) (call : SqlCall) (db : InterruptDb) :
    Option (SqlCall × InterruptDb) :=
  match call.request, call.phase with
  | .register pending, .execute =>
    some ({ call with phase := .returned (.result (.ok ())) },
      { db with table := sql.insert db.table pending })
  | .claim interruptId person, .execute =>
    let table := updateClaim db.table interruptId person
    if db.table.rowsAffected (claimable interruptId) = 1 then
      some ({ call with phase := .returned (.result (.ok ())) },
        { table, log := db.log ++ [.claimed interruptId] })
    else some ({ call with phase := .lookup }, { db with table })
  | .claim interruptId _, .lookup =>
    let e := sql.refusal db.table interruptId (.alreadyClaimed interruptId)
    some ({ call with phase := .returned (.result (.error e)) }, db)
  | .resume interruptId _, .execute =>
    let table := updateResolved db.table interruptId
    if db.table.rowsAffected (unresolved interruptId) = 1 then
      some ({ call with phase := .returned (.result (.ok ())) },
        { table, log := db.log ++ [.resolved interruptId] })
    else some ({ call with phase := .lookup }, { db with table })
  | .resume interruptId _, .lookup =>
    let e := sql.refusal db.table interruptId (.alreadyResolved interruptId)
    some ({ call with phase := .returned (.result (.error e)) }, db)
  | .tick nowMs policy, .execute =>
    some ({ call with phase := .selected (selectOverdue db.table nowMs policy) }, db)
  | .tick nowMs policy, .selected interruptIds =>
    let table := updateEscalated db.table nowMs policy
    some ({ call with phase := .returned (.moved interruptIds) },
      { table, log := db.log ++ [.ticked interruptIds (moved db.table table)] })
  | _, _ => none

theorem statements_alone (sql : SqlInterruptRegistry) (request : RegistryCall) (db : InterruptDb) :
    ∃ schedule log, Threads.run (turn sql)
        { shared := db, locals := [{ request, phase := .execute }] } schedule =
      some { shared := { table := (sql.call db.table request).2, log }
             locals := [{ request, phase := .returned (sql.call db.table request).1 }] } := by
  cases request with
  | register pending => exact ⟨[0], _, rfl⟩
  | claim interruptId person =>
    by_cases changed : db.table.rowsAffected (SqlInterruptRegistry.claimable interruptId) = 1
    · exact ⟨[0], _, by simp [Threads.run, Threads.step, turn, SqlInterruptRegistry.call, changed]; rfl⟩
    · exact ⟨[0, 0], _, by simp [Threads.run, Threads.step, turn, SqlInterruptRegistry.call, changed]; rfl⟩
  | resume interruptId resolution =>
    by_cases changed : db.table.rowsAffected (SqlInterruptRegistry.unresolved interruptId) = 1
    · exact ⟨[0], _, by simp [Threads.run, Threads.step, turn, SqlInterruptRegistry.call, changed]; rfl⟩
    · exact ⟨[0, 0], _, by simp [Threads.run, Threads.step, turn, SqlInterruptRegistry.call, changed]; rfl⟩
  | tick nowMs policy => exact ⟨[0, 0], _, rfl⟩

end SqlCall

end AtomrAgents
