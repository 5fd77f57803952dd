import AtomrAgents.Shared.Loop
import AtomrAgents.State.Record

set_option autoImplicit false

namespace AtomrAgents

open Shared

structure StepRef where
  workflow : String
  run : String
  superStep : Nat

-- A call of `emit`. The sink is not told at which position of its step the decision is.
structure Emission where
  step : StepRef
  position : Nat
  decision : ToolCallRecord

-- The calls of `emit` during one replay; the last one may have been refused.
structure ReplayReport where
  accepted : List Emission
  refused : Option Emission
  result : Except AgentError Nat

def ReplayReport.emitted (report : ReplayReport) : List Emission :=
  report.accepted ++ report.refused.toList

namespace ReplaySink

-- The sink answers the calls of one replay in turn.
variable (workflow run : String) (fromCursor : Nat) (emit : Nat → Except AgentError Unit)

def emitCall (superStep : Nat) (state : List Emission × Bool) (call : ToolCallRecord × Nat) :
    Flow (List Emission × Bool) ReplayReport :=
  if !call.1.isSideEffecting then .next state
  else
    let emission : Emission :=
      { step := { workflow, run, superStep }, position := call.2, decision := call.1 }
    match emit state.1.length with
    | .error e => .ret { accepted := state.1, refused := some emission, result := .error e }
    | .ok () => .next (state.1 ++ [emission], true)

def emitStep (state : List Emission × Nat) (record : StepRecord) :
    Flow (List Emission × Nat) ReplayReport :=
  if record.superStep < fromCursor then .next state
  else
    (forEach (emitCall workflow run emit record.superStep) record.toolCalls.zipIdx
      (state.1, false)).bind fun (accepted, emittedHere) =>
        .next (accepted, if emittedHere then record.superStep else state.2)

def replayToSink (records : InMemoryStepRecordStore) : ReplayReport :=
  (forEach (emitStep workflow run fromCursor emit) (records.listRecords workflow run)
    ([], fromCursor)).finish fun (accepted, cursor) =>
      { accepted, refused := none, result := .ok cursor }

def emissionsOfCalls (superStep : Nat) (calls : List (ToolCallRecord × Nat)) : List Emission :=
  (calls.filter fun call => call.1.isSideEffecting).map fun call =>
    { step := { workflow, run, superStep }, position := call.2, decision := call.1 }

def emissionsOfStep (record : StepRecord) : List Emission :=
  emissionsOfCalls workflow run record.superStep record.toolCalls.zipIdx

def emissions (records : InMemoryStepRecordStore) : List Emission :=
  (records.listRecords workflow run).flatMap (emissionsOfStep workflow run)

def Stopped (before pending : List Emission) (report : ReplayReport) : Prop :=
  ∃ front emission back e, pending = front ++ emission :: back ∧
    report = { accepted := before ++ front, refused := some emission, result := .error e }

def lastStep (cursor : Nat) (pending : List Emission) : Nat :=
  (pending.getLast?.map fun emission => emission.step.superStep).getD cursor

section

variable {workflow run fromCursor emit} {records : InMemoryStepRecordStore} {emission : Emission}

theorem Stopped.later {before done pending : List Emission} {report : ReplayReport}
    (stopped : Stopped (before ++ done) pending report) : Stopped before (done ++ pending) report := by
  obtain ⟨front, emission, back, e, rfl, rfl⟩ := stopped
  exact ⟨done ++ front, emission, back, e, by simp, by simp⟩

theorem Stopped.more {before pending : List Emission} {report : ReplayReport}
    (stopped : Stopped before pending report) (rest : List Emission) :
    Stopped before (pending ++ rest) report := by
  obtain ⟨front, emission, back, e, rfl, rfl⟩ := stopped
  exact ⟨front, emission, back ++ rest, e, by simp, rfl⟩

variable (workflow run emit) in
theorem emitCalls_post (superStep : Nat) (calls : List (ToolCallRecord × Nat))
    (before : List Emission) (here : Bool) :
    (forEach (emitCall workflow run emit superStep) calls (before, here)).Post
      (fun state => state = (before ++ emissionsOfCalls workflow run superStep calls,
        here || !(emissionsOfCalls workflow run superStep calls).isEmpty))
      (Stopped before (emissionsOfCalls workflow run superStep calls)) := by
  induction calls generalizing before here with
  | nil => simp [forEach, emissionsOfCalls]
  | cons call calls ih =>
    rw [forEach, emitCall]
    cases effects : call.1.isSideEffecting with
    | false =>
      have same : emissionsOfCalls workflow run superStep (call :: calls) =
          emissionsOfCalls workflow run superStep calls := by
        simp [emissionsOfCalls, effects]
      rw [same]
      exact ih before here
    | true =>
      have first : emissionsOfCalls workflow run superStep (call :: calls) =
          [{ step := { workflow, run, superStep }, position := call.2, decision := call.1 }] ++
            emissionsOfCalls workflow run superStep calls := by
        simp [emissionsOfCalls, effects]
      cases answer : emit before.length with
      | error e =>
        simp only [Bool.not_true, Bool.false_eq_true, if_false, Flow.bind_ret, Flow.post_ret]
        exact ⟨[], _, _, e, by rw [first]; rfl, by rw [List.append_nil]⟩
      | ok _ =>
        simp only [Bool.not_true, Bool.false_eq_true, if_false, Flow.bind_next]
        refine (ih _ true).mono ?_ ?_
        · rintro state rfl
          rw [first]
          simp
        · intro report stopped
          rw [first]
          exact stopped.later

theorem lastStep_append (cursor : Nat) (front back : List Emission) :
    lastStep cursor (front ++ back) = lastStep (lastStep cursor front) back := by
  cases back using List.reverseRecOn <;> simp [lastStep]

theorem lastStep_emissionsOfStep (cursor : Nat) (record : StepRecord) :
    lastStep cursor (emissionsOfStep workflow run record) =
      if !(emissionsOfStep workflow run record).isEmpty then record.superStep else cursor := by
  cases last : (emissionsOfStep workflow run record).getLast? with
  | none =>
    rw [List.getLast?_eq_none_iff] at last
    simp [lastStep, last]
  | some emission =>
    have member := List.mem_of_getLast? last
    have nonempty : (emissionsOfStep workflow run record).isEmpty = false := by
      rw [List.isEmpty_eq_false_iff]
      exact List.ne_nil_of_mem member
    simp only [emissionsOfStep, emissionsOfCalls, List.mem_map] at member
    obtain ⟨call, -, rfl⟩ := member
    simp [lastStep, last, nonempty]

variable (workflow run fromCursor emit) in
theorem emitSteps_post (steps : List StepRecord) (before : List Emission) (cursor : Nat) :
    (forEach (emitStep workflow run fromCursor emit) steps (before, cursor)).Post
      (fun state => state = (before ++ (steps.filter fun record => fromCursor ≤ record.superStep).flatMap
          (emissionsOfStep workflow run),
        lastStep cursor ((steps.filter fun record => fromCursor ≤ record.superStep).flatMap
          (emissionsOfStep workflow run))))
      (Stopped before ((steps.filter fun record => fromCursor ≤ record.superStep).flatMap
        (emissionsOfStep workflow run))) := by
  induction steps generalizing before cursor with
  | nil => simp [forEach, lastStep]
  | cons record steps ih =>
    rw [forEach, emitStep]
    by_cases early : record.superStep < fromCursor
    next =>
      rw [if_pos early, Flow.bind_next, List.filter_cons_of_neg (by simpa using early)]
      exact ih before cursor
    next =>
      rw [if_neg early, List.filter_cons_of_pos (by simpa using early), List.flatMap_cons]
      have calls := emitCalls_post workflow run emit record.superStep record.toolCalls.zipIdx before false
      cases turn : forEach (emitCall workflow run emit record.superStep) record.toolCalls.zipIdx
          (before, false) with
      | ret report =>
        rw [turn] at calls
        exact calls.more _
      | next state =>
        rw [turn] at calls
        cases calls
        simp only [Flow.bind_next, Bool.false_or]
        refine (ih _ _).mono ?_ ?_
        · rintro state rfl
          rw [lastStep_append, lastStep_emissionsOfStep, List.append_assoc]
          rfl
        · intro report stopped
          exact stopped.later

theorem emissions_of_steps (steps : List StepRecord) :
    (steps.filter fun record => fromCursor ≤ record.superStep).flatMap (emissionsOfStep workflow run) =
      (steps.flatMap (emissionsOfStep workflow run)).filter fun emission =>
        fromCursor ≤ emission.step.superStep := by
  induction steps with
  | nil => rfl
  | cons record steps ih =>
    have here : (emissionsOfStep workflow run record).filter (fun emission =>
        fromCursor ≤ emission.step.superStep) =
        if fromCursor ≤ record.superStep then emissionsOfStep workflow run record else [] := by
      rw [emissionsOfStep, emissionsOfCalls, List.filter_map]
      split <;> simp_all [Function.comp_def]
    rw [List.flatMap_cons, List.filter_append, here, ← ih, List.filter_cons]
    by_cases late : fromCursor ≤ record.superStep <;> simp [late]

def pending (workflow run : String) (fromCursor : Nat) (records : InMemoryStepRecordStore) :
    List Emission :=
  (emissions workflow run records).filter fun emission => fromCursor ≤ emission.step.superStep

theorem replayToSink_cases (workflow run : String) (fromCursor : Nat)
    (emit : Nat → Except AgentError Unit) (records : InMemoryStepRecordStore) :
    replayToSink workflow run fromCursor emit records =
        { accepted := pending workflow run fromCursor records, refused := none,
          result := .ok (lastStep fromCursor (pending workflow run fromCursor records)) } ∨
      Stopped [] (pending workflow run fromCursor records)
        (replayToSink workflow run fromCursor emit records) := by
  have steps := emitSteps_post workflow run fromCursor emit (records.listRecords workflow run) []
    fromCursor
  rw [emissions_of_steps] at steps
  rw [replayToSink]
  cases whole : forEach (emitStep workflow run fromCursor emit) (records.listRecords workflow run)
      ([], fromCursor) with
  | ret report =>
    rw [whole] at steps
    exact .inr steps
  | next state =>
    rw [whole] at steps
    cases steps
    exact .inl rfl

end

end ReplaySink

end AtomrAgents
