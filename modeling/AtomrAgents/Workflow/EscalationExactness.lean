import AtomrAgents.Workflow.ClaimDiscipline
import AtomrAgents.Workflow.SqlRegistry

set_option autoImplicit false

/-! A tick reports what it has selected and escalates what is overdue one statement later. The two agree as
long as no other statement changes, in between, which rows are Pending and overdue for it. -/

namespace AtomrAgents

open Shared

namespace RegistryEvent

def reports (id : String) : RegistryEvent → Prop
  | .ticked returned _ => id ∈ returned
  | _ => False

def settles (id : String) : RegistryEvent → Prop
  | .claimed interruptId | .resolved interruptId => interruptId = id
  | .ticked returned _ => id ∈ returned

end RegistryEvent

structure Exact (log : List RegistryEvent) : Prop where
  returned : ∀ returned moved, .ticked returned moved ∈ log →
    returned.Nodup ∧ ∀ id, id ∈ returned ↔ id ∈ moved
  once : log.Pairwise fun earlier later => ∀ id, later.reports id → ¬ earlier.settles id

namespace SqlCall

open SqlInterruptRegistry

variable {sql : SqlInterruptRegistry} {call call' : SqlCall} {db db' : InterruptDb}

inductive Turned (sql : SqlInterruptRegistry) (call : SqlCall) (db : InterruptDb) :
    SqlCall → InterruptDb → Prop where
  | registered (p : PendingInterrupt) (at_ : call = { request := .register p, phase := .execute }) :
      Turned sql call db { call with phase := .returned (.result (.ok ())) }
        { db with table := sql.insert db.table p }
  | claimed (id person : String) (at_ : call = { request := .claim id person, phase := .execute })
      (affected : db.table.rowsAffected (claimable id) = 1) :
      Turned sql call db { call with phase := .returned (.result (.ok ())) }
        { table := updateClaim db.table id person, log := db.log ++ [.claimed id] }
  | notClaimed (id person : String) (at_ : call = { request := .claim id person, phase := .execute }) :
      Turned sql call db { call with phase := .lookup }
        { db with table := updateClaim db.table id person }
  | resolved (id : String) (resolution : Resolution)
      (at_ : call = { request := .resume id resolution, phase := .execute }) :
      Turned sql call db { call with phase := .returned (.result (.ok ())) }
        { table := updateResolved db.table id, log := db.log ++ [.resolved id] }
  | notResolved (id : String) (resolution : Resolution)
      (at_ : call = { request := .resume id resolution, phase := .execute }) :
      Turned sql call db { call with phase := .lookup } { db with table := updateResolved db.table id }
  | looked (e : AgentError) (at_ : call.phase = .lookup) :
      Turned sql call db { call with phase := .returned (.result (.error e)) } db
  | selected (nowMs : Int) (policy : EscalationPolicy)
      (at_ : call = { request := .tick nowMs policy, phase := .execute }) :
      Turned sql call db { call with phase := .selected (selectOverdue db.table nowMs policy) } db
  | escalated (nowMs : Int) (policy : EscalationPolicy) (ids : List String)
      (at_ : call = { request := .tick nowMs policy, phase := .selected ids }) :
      Turned sql call db { call with phase := .returned (.moved ids) }
        { table := updateEscalated db.table nowMs policy
          log := db.log ++
            [.ticked ids (moved db.table (updateEscalated db.table nowMs policy))] }

theorem turn_cases (turned : call.turn sql db = some (call', db')) : Turned sql call db call' db' := by
  obtain ⟨request, phase⟩ := call
  unfold turn at turned
  dsimp only at turned
  split at turned
  · next p =>
    cases turned
    exact .registered p rfl
  · next id person =>
    split at turned
    · next affected =>
      cases turned
      exact .claimed id person rfl affected
    · cases turned
      exact .notClaimed id person rfl
  · cases turned
    exact .looked _ rfl
  · next id resolution =>
    split at turned
    · cases turned
      exact .resolved id resolution rfl
    · cases turned
      exact .notResolved id resolution rfl
  · cases turned
    exact .looked _ rfl
  · next nowMs policy =>
    cases turned
    exact .selected nowMs policy rfl
  · next nowMs policy ids =>
    cases turned
    exact .escalated nowMs policy ids rfl
  · cases turned

-- The next statement of the call changes which rows are Pending and overdue for a tick.
def Disturbs (sql : SqlInterruptRegistry) (call : SqlCall) (table : InterruptTable) (nowMs : Int)
    (policy : EscalationPolicy) : Prop :=
  match call.request, call.phase with
  | .register p, .execute =>
    ¬ (overdue nowMs policy (sql.pendingToRow p) = true ↔ Overdue table nowMs policy p.interruptId)
  | .claim id _, .execute =>
    ∃ row, table.find id = some row ∧ overdue nowMs policy row = true ∧ claimable id row = true
  | .resume id _, .execute => Overdue table nowMs policy id
  | .tick nowMs' policy', .selected _ =>
    ∃ row ∈ table.rows, overdue nowMs policy row = true ∧ overdue nowMs' policy' row = true
  | _, _ => False

def Revives (call : SqlCall) (log : List RegistryEvent) : Prop :=
  match call.request, call.phase with
  | .register p, .execute => p.status = .pending ∧ ∃ event ∈ log, event.settles p.interruptId
  | _, _ => False

def Current (table : InterruptTable) (call : SqlCall) : Prop :=
  match call.request, call.phase with
  | .tick nowMs policy, .selected ids => ids.Nodup ∧ ∀ id, id ∈ ids ↔ Overdue table nowMs policy id
  | _, _ => True

theorem pending_of_overdue {nowMs : Int} {policy : EscalationPolicy} {row : InterruptRow}
    (late : overdue nowMs policy row = true) : row.status = "Pending" := by
  rw [overdue, decide_eq_true_iff] at late
  exact late.1

theorem overdue_insert_iff (table : InterruptTable) (p : PendingInterrupt) (nowMs : Int)
    (policy : EscalationPolicy) (id : String) :
    Overdue (sql.insert table p) nowMs policy id ↔
      if p.interruptId = id then overdue nowMs policy (sql.pendingToRow p) = true
      else Overdue table nowMs policy id := by
  have found := table.find_upsert (sql.pendingToRow p) id
  simp only [Overdue, SqlInterruptRegistry.insert, found]
  have named : (sql.pendingToRow p).interruptId = p.interruptId := rfl
  rw [named]
  split <;> simp

section Updates

variable {table : InterruptTable} {nowMs : Int} {policy : EscalationPolicy} {id : String}

theorem condition_false {condition : InterruptRow → Bool} {other : String} {row : InterruptRow}
    (names : ∀ row, condition row = true → row.interruptId = other)
    (found : table.find id = some row) (apart : id = other → condition row = false) :
    condition row = false := by
  by_contra holds
  have named := names row (by simpa using holds)
  rw [(Table.find_eq_some_iff.mp found).2] at named
  exact holds (apart named)

theorem overdue_updateClaim_iff {other person : String}
    (apart : ∀ row, table.find other = some row → overdue nowMs policy row = true →
      claimable other row = false) :
    Overdue (updateClaim table other person) nowMs policy id ↔ Overdue table nowMs policy id := by
  apply overdue_update_iff _ (fun _ _ => by simp)
  intro row found late
  have names (row : InterruptRow) (free : claimable other row = true) : row.interruptId = other := by
    rw [claimable, decide_eq_true_iff] at free
    exact free.1
  apply condition_false names found
  rintro rfl
  exact apart row found late

theorem overdue_updateResolved_iff {other : String} (apart : ¬ Overdue table nowMs policy other) :
    Overdue (updateResolved table other) nowMs policy id ↔ Overdue table nowMs policy id := by
  apply overdue_update_iff _ (fun _ _ => by simp)
  intro row found late
  have names (row : InterruptRow) (open_ : unresolved other row = true) : row.interruptId = other := by
    rw [unresolved, decide_eq_true_iff] at open_
    exact open_.1
  apply condition_false names found
  rintro rfl
  exact absurd ⟨row, found, late⟩ apart

theorem overdue_updateEscalated_iff {nowMs' : Int} {policy' : EscalationPolicy}
    (apart : ∀ row ∈ table.rows, overdue nowMs policy row = true → overdue nowMs' policy' row = false) :
    Overdue (updateEscalated table nowMs' policy') nowMs policy id ↔ Overdue table nowMs policy id := by
  apply overdue_update_iff _ (fun _ _ => by simp)
  intro row found late
  exact apart row (Table.find_eq_some_iff.mp found).1 late

end Updates

theorem Turned.overdue_iff (turned : Turned sql call db call' db') {nowMs : Int}
    {policy : EscalationPolicy} (quiet : ¬ call.Disturbs sql db.table nowMs policy) (id : String) :
    Overdue db'.table nowMs policy id ↔ Overdue db.table nowMs policy id := by
  cases turned with
  | registered p at_ =>
    subst at_
    simp only [Disturbs, not_not] at quiet
    rw [overdue_insert_iff]
    split
    · next same =>
      subst same
      exact quiet
    · exact Iff.rfl
  | claimed other person at_ affected | notClaimed other person at_ =>
    subst at_
    apply overdue_updateClaim_iff
    intro row found late
    rw [Bool.eq_false_iff]
    exact fun free => quiet ⟨row, found, late, free⟩
  | resolved other resolution at_ | notResolved other resolution at_ =>
    subst at_
    exact overdue_updateResolved_iff quiet
  | looked e at_ => exact Iff.rfl
  | selected nowMs' policy' at_ => exact Iff.rfl
  | escalated nowMs' policy' ids at_ =>
    subst at_
    apply overdue_updateEscalated_iff
    intro row member late
    rw [Bool.eq_false_iff]
    exact fun late' => quiet ⟨row, member, late, late'⟩

theorem Turned.pending_cases (turned : Turned sql call db call' db') {id : String}
    {row : InterruptRow} (found : db'.table.find id = some row) (pending : row.status = "Pending") :
    db.table.find id = some row ∨
      ∃ p, call = { request := .register p, phase := .execute } ∧ p.interruptId = id ∧
        p.status = .pending := by
  cases turned with
  | registered p at_ =>
    rw [SqlInterruptRegistry.insert, Table.find_upsert] at found
    split at found
    · next same =>
      cases found
      exact .inr ⟨p, at_, same, (statusStr_inj (b := .pending)).mp pending⟩
    · exact .inl found
  | claimed other person at_ affected | notClaimed other person at_ =>
    refine .inl (find_of_pending ?_ ?_ found pending)
    · exact fun _ => rfl
    · simp
  | resolved other resolution at_ | notResolved other resolution at_ =>
    refine .inl (find_of_pending ?_ ?_ found pending)
    · exact fun _ => rfl
    · simp
  | looked e at_ => exact .inl found
  | selected nowMs policy at_ => exact .inl found
  | escalated nowMs policy ids at_ =>
    refine .inl (find_of_pending ?_ ?_ found pending)
    · exact fun _ => rfl
    · simp

theorem mem_moved_iff (table : InterruptTable) (nowMs : Int) (policy : EscalationPolicy) (id : String) :
    id ∈ moved table (updateEscalated table nowMs policy) ↔ Overdue table nowMs policy id := by
  simp only [moved, updateEscalated, Table.find_update, List.mem_map, List.mem_filter,
    decide_eq_true_iff]
  constructor
  · rintro ⟨row, ⟨member, pending, escalated⟩, rfl⟩
    have found := Table.find_eq_some_iff.mpr ⟨member, rfl⟩
    refine ⟨row, found, ?_⟩
    by_contra early
    simp [found, Table.changeWhere, early, pending] at escalated
  · rintro ⟨row, found, late⟩
    obtain ⟨member, rfl⟩ := Table.find_eq_some_iff.mp found
    exact ⟨row, ⟨member, pending_of_overdue late, by simp [found, Table.changeWhere, late]⟩, rfl⟩

theorem Turned.current (turned : Turned sql call db call' db') : call'.Current db'.table := by
  cases turned with
  | selected nowMs policy at_ =>
    subst at_
    exact ⟨selectOverdue_nodup nowMs policy, mem_selectOverdue nowMs policy⟩
  | _ => simp [Current]

theorem Current.kept {table : InterruptTable} (current : call.Current table) {table' : InterruptTable}
    (same : ∀ nowMs policy ids,
      call = { request := .tick nowMs policy, phase := .selected ids } →
      ∀ id, Overdue table' nowMs policy id ↔ Overdue table nowMs policy id) : call.Current table' := by
  obtain ⟨request, phase⟩ := call
  unfold Current at current ⊢
  dsimp only at current ⊢
  split
  · next nowMs policy ids =>
    exact ⟨current.1, fun id => (current.2 id).trans (same nowMs policy ids rfl id).symm⟩
  · trivial

structure Logged (before after : InterruptTable) (event : RegistryEvent) : Prop where
  settled : ∀ id, event.settles id → ∀ row, after.find id = some row → row.status ≠ "Pending"
  exact_ : ∀ returned moved, event = .ticked returned moved →
    returned.Nodup ∧ ∀ id, id ∈ returned ↔ id ∈ moved
  pending : ∀ id, event.reports id → ∃ row, before.find id = some row ∧ row.status = "Pending"

theorem Turned.logged (turned : Turned sql call db call' db') (current : call.Current db.table) :
    db'.log = db.log ∨ ∃ event, db'.log = db.log ++ [event] ∧ Logged db.table db'.table event := by
  cases turned with
  | claimed id person at_ affected =>
    refine .inr ⟨_, rfl, ?_, by simp, by simp [RegistryEvent.reports]⟩
    rintro _ rfl row found
    obtain ⟨free, there, claimable_⟩ := (claimed_iff id).mp affected
    simp only [updateClaim, Table.find_update, there, Option.map_some, Table.changeWhere, claimable_,
      if_true, Option.some_inj] at found
    simp [← found]
  | resolved id resolution at_ =>
    refine .inr ⟨_, rfl, ?_, by simp, by simp [RegistryEvent.reports]⟩
    rintro _ rfl row found
    simp only [updateResolved, Table.find_update, Option.map_eq_some_iff] at found
    obtain ⟨before, there, rfl⟩ := found
    have named := (Table.find_eq_some_iff.mp there).2
    by_cases already : before.status = "Resolved" <;>
      simp [Table.changeWhere, unresolved, named, already]
  | escalated nowMs policy ids at_ =>
    subst at_
    obtain ⟨once, selected⟩ := current
    refine .inr ⟨_, rfl, ?_, ?_, ?_⟩
    · intro id reported row found
      obtain ⟨late, there, overdue_⟩ := (selected id).mp reported
      simp only [updateEscalated, Table.find_update, there, Option.map_some, Table.changeWhere,
        overdue_, if_true, Option.some_inj] at found
      simp [← found]
    · rintro _ _ ⟨⟩
      refine ⟨once, fun id => ?_⟩
      rw [selected id, mem_moved_iff]
    · intro id reported
      obtain ⟨row, found, late⟩ := (selected id).mp reported
      exact ⟨row, found, pending_of_overdue late⟩
  | _ => exact .inl rfl

end SqlCall

theorem Exact.concat {log : List RegistryEvent} (exact_ : Exact log) {event : RegistryEvent}
    (correct : ∀ returned moved, event = .ticked returned moved →
      returned.Nodup ∧ ∀ id, id ∈ returned ↔ id ∈ moved)
    (first : ∀ id, event.reports id → ∀ earlier ∈ log, ¬ earlier.settles id) :
    Exact (log ++ [event]) := by
  constructor
  · intro returned moved member
    rcases List.mem_append.mp member with earlier | now
    · exact exact_.returned returned moved earlier
    · exact correct returned moved (List.mem_singleton.mp now).symm
  · rw [List.pairwise_append]
    refine ⟨exact_.once, List.pairwise_singleton _ _, ?_⟩
    intro earlier before later now id reported
    rw [List.mem_singleton.mp now] at reported
    exact first id reported earlier before

abbrev SqlSystem := Threads InterruptDb SqlCall

/-- The turn of a call neither disturbs a tick that is between its statements nor takes up again an
id that has been settled. -/
def Undisturbed (sql : SqlInterruptRegistry) (system : SqlSystem) (i : Nat) : Prop :=
  ∀ call, system.locals[i]? = some call → ¬ call.Revives system.shared.log ∧
    ∀ j nowMs policy ids, j ≠ i →
      system.locals[j]? = some { request := .tick nowMs policy, phase := .selected ids } →
      ¬ call.Disturbs sql system.shared.table nowMs policy

theorem Undisturbed.of_idle {sql : SqlInterruptRegistry} {system : SqlSystem} {i : Nat} {call : SqlCall}
    (here : system.locals[i]? = some call) (revives : ¬call.Revives system.shared.log)
    (idle : ∀ other ∈ system.locals.eraseIdx i, ∀ ids, other.phase ≠ .selected ids) : Undisturbed sql system i := by
  intro call' found
  obtain rfl := Option.some.inj (here.symm.trans found)
  refine ⟨revives, fun j nowMs policy ids other selected => ?_⟩
  have member := List.mem_eraseIdx_iff_getElem?.mpr ⟨j, other, selected⟩
  exact absurd rfl (idle _ member ids)

structure SqlStarted (system : SqlSystem) : Prop where
  log : system.shared.log = []
  begins : ∀ call ∈ system.locals, call.phase = .execute

structure EscalationSound (system : SqlSystem) : Prop where
  current : ∀ (i : Nat) call, system.locals[i]? = some call → call.Current system.shared.table
  settled : ∀ event ∈ system.shared.log, ∀ id, event.settles id → ∀ row,
    system.shared.table.find id = some row → row.status ≠ "Pending"
  exact_ : Exact system.shared.log

section Run

variable {sql : SqlInterruptRegistry} {call call' : SqlCall} {system next : SqlSystem} {i : Nat}

theorem EscalationSound.step (sound : EscalationSound system)
    (undisturbed : Undisturbed sql system i)
    (turned : Threads.Turn (SqlCall.turn sql) system i call call' next) : EscalationSound next := by
  have own := SqlCall.turn_cases turned.takes
  obtain ⟨keeps, quiet⟩ := undisturbed call turned.before
  have before := sound.current i call turned.before
  refine ⟨?_, ?_, ?_⟩
  · apply turned.each (P := fun db _ call => call.Current db.table)
    · exact own.current
    · intro j other different found
      apply (sound.current j other found).kept
      rintro nowMs policy ids rfl
      exact own.overdue_iff (quiet j nowMs policy ids different found)
  · -- a row that is Pending after the turn was so before it, or is registered in it
    have earlier (event : RegistryEvent) (member : event ∈ system.shared.log) (id : String)
        (settles : event.settles id) (row : InterruptRow)
        (found : next.shared.table.find id = some row) : row.status ≠ "Pending" := by
      intro pending
      rcases own.pending_cases found pending with before | ⟨p, rfl, rfl, status⟩
      · exact sound.settled event member id settles row before pending
      · exact keeps ⟨status, event, member, settles⟩
    intro event member
    rcases own.logged before with same | ⟨new, log, logged⟩
    · rw [same] at member
      exact earlier event member
    · rw [log] at member
      rcases List.mem_append.mp member with old | now
      · exact earlier event old
      · rw [List.mem_singleton.mp now]
        exact logged.settled
  · rcases own.logged before with same | ⟨new, log, logged⟩
    · rw [same]
      exact sound.exact_
    · rw [log]
      apply sound.exact_.concat logged.exact_
      intro id reported event member settles
      obtain ⟨row, found, pending⟩ := logged.pending id reported
      exact sound.settled event member id settles row found pending

theorem SqlStarted.sound (started : SqlStarted system) : EscalationSound system := by
  refine ⟨?_, ?_, ?_⟩
  · intro i call found
    have begins := started.begins call (List.mem_of_getElem? found)
    unfold SqlCall.Current
    simp [begins]
  · simp [started.log]
  · rw [started.log]
    exact ⟨by simp, List.Pairwise.nil⟩

end Run

/-- Along statements that do not disturb ticks, every tick reports what it escalates. -/
theorem escalation_exact (sql : SqlInterruptRegistry) (initial : SqlSystem)
    (started : SqlStarted initial) (schedule : List Nat)
    (undisturbed : Threads.Along (SqlCall.turn sql) (Undisturbed sql) initial schedule)
    (last : SqlSystem) (ran : Threads.run (SqlCall.turn sql) initial schedule = some last) :
    Exact last.shared.log :=
  (Threads.run_invariant (Undisturbed sql) EscalationSound
    (fun _ _ _ _ _ sound undisturbed turned => sound.step undisturbed turned) schedule initial
    started.sound undisturbed ran).exact_

def slaTick : RegistryCall := .tick 7000 { afterMs := 5000, toRole := "ciso" }

def deskCalls (requests : List RegistryCall) : SqlSystem where
  shared := { table := Table.empty, log := [] }
  locals := requests.map fun request => { request, phase := .execute }

theorem deskCalls_started (requests : List RegistryCall) : SqlStarted (deskCalls requests) where
  log := rfl
  begins := by simp [deskCalls]

def nullPayloads : SqlInterruptRegistry where
  json := { toString := fun _ => "null", fromStr := fun _ => .ok .null }

-- Another interrupt, which is not overdue, is registered between the two statements of the tick.
def registeredMeanwhile : SqlSystem :=
  deskCalls [.register (parked "i1" 1000), slaTick, .register (parked "i2" 6000)]

theorem registeredMeanwhile_undisturbed :
    Threads.Along (SqlCall.turn nullPayloads) (Undisturbed nullPayloads) registeredMeanwhile [0, 1, 2, 1] := by
  refine ⟨.of_idle rfl (by simp [SqlCall.Revives, registeredMeanwhile, deskCalls])
    (by simp [registeredMeanwhile, deskCalls]), fun next stepped => ?_⟩
  obtain rfl := Option.some.inj stepped
  refine ⟨.of_idle rfl (by simp [SqlCall.Revives, slaTick]) (by simp [registeredMeanwhile, deskCalls]),
    fun next stepped => ?_⟩
  obtain rfl := Option.some.inj stepped
  refine ⟨?_, fun next stepped => ?_⟩
  · intro call found
    cases found
    refine ⟨by simp [SqlCall.Revives, registeredMeanwhile, deskCalls], fun j nowMs policy ids other selected => ?_⟩
    rcases j with - | - | - | j
    · cases selected
    · cases selected
      rw [SqlCall.Disturbs, not_not, SqlCall.overdue_insert_iff]
      have absent : Table.find registeredMeanwhile.shared.table "i2" = none := rfl
      simp [parked, SqlInterruptRegistry.overdue, SqlInterruptRegistry.pendingToRow, SqlInterruptRegistry.Overdue,
        absent]
    · exact absurd rfl other
    · cases selected
  obtain rfl := Option.some.inj stepped
  exact ⟨.of_idle rfl (by simp [SqlCall.Revives, slaTick]) (by simp [registeredMeanwhile, deskCalls]),
    fun next stepped => trivial⟩

theorem escalation_exact_alone :
    ∃ last, Threads.run (SqlCall.turn nullPayloads) registeredMeanwhile [0, 1, 2, 1] = some last ∧
      Exact last.shared.log :=
  ⟨_, rfl, escalation_exact nullPayloads registeredMeanwhile (deskCalls_started _) [0, 1, 2, 1]
    registeredMeanwhile_undisturbed _ rfl⟩

-- Both ticks select the row before either of them escalates it.
theorem escalation_exact_fails :
    ∃ last, Threads.run (SqlCall.turn nullPayloads)
        (deskCalls [.register (parked "i1" 1000), slaTick, slaTick]) [0, 1, 2, 1, 2] = some last ∧
      ¬ Exact last.shared.log := by
  refine ⟨_, rfl, fun exact_ => ?_⟩
  have late : "i1" ∈ SqlInterruptRegistry.selectOverdue
      (nullPayloads.insert Table.empty (parked "i1" 1000)) 7000
      { afterMs := 5000, toRole := "ciso" } := by
    rw [SqlInterruptRegistry.mem_selectOverdue, SqlCall.overdue_insert_iff]
    simp [parked, SqlInterruptRegistry.overdue, SqlInterruptRegistry.pendingToRow, statusStr]
  have apart := (List.pairwise_append.mp exact_.once).2.2
  exact apart _ (List.mem_append_right _ (List.mem_singleton_self _)) _ (List.mem_singleton_self _)
    "i1" late late

end AtomrAgents
