import AtomrAgents.Shared.Operations
import AtomrAgents.Shared.Resumption
import AtomrAgents.Workflow.ReplaySink

set_option autoImplicit false

/-! A run is recorded and replayed in turns. The emissions of the run form a log that is only appended to, and
the cursor is a mark in it before which everything has been accepted. -/

namespace AtomrAgents

open Shared ReplaySink

def Emission.slot (emission : Emission) : Nat × Nat := (emission.step.superStep, emission.position)

def SlotBefore (a b : Nat × Nat) : Prop := a.1 < b.1 ∨ a.1 = b.1 ∧ a.2 < b.2

theorem SlotBefore.ne {a b : Nat × Nat} (before : SlotBefore a b) : a ≠ b := by
  rintro rfl
  unfold SlotBefore at before
  omega

section Emissions

variable {workflow run : String} {records : InMemoryStepRecordStore} {record : StepRecord}
  {emission : Emission}

theorem mem_emissionsOfStep : emission ∈ emissionsOfStep workflow run record ↔
    emission.step = { workflow, run, superStep := record.superStep } ∧
      record.toolCalls[emission.position]? = some emission.decision ∧
      emission.decision.isSideEffecting = true := by
  simp only [emissionsOfStep, emissionsOfCalls, List.mem_map, List.mem_filter, Prod.exists,
    List.mem_zipIdx_iff_getElem?]
  constructor
  · rintro ⟨call, position, ⟨found, effects⟩, rfl⟩
    exact ⟨rfl, found, effects⟩
  · obtain ⟨step, position, decision⟩ := emission
    rintro ⟨same, found, effects⟩
    exact ⟨decision, position, ⟨found, effects⟩, by rw [← same]⟩

theorem mem_emissions : emission ∈ emissions workflow run records ↔
    ∃ record ∈ records.rows, record.OfRun workflow run ∧ emission ∈ emissionsOfStep workflow run record := by
  simp only [emissions, List.mem_flatMap, InMemoryStepRecordStore.mem_listRecords, and_assoc]

theorem pairwise_emissionsOfStep (workflow run : String) (record : StepRecord) :
    (emissionsOfStep workflow run record).Pairwise fun a b => SlotBefore a.slot b.slot := by
  have positions : (record.toolCalls.zipIdx.map Prod.snd).Pairwise (· < ·) := by
    rw [List.zipIdx_map_snd]
    exact List.pairwise_lt_range'
  rw [List.pairwise_map] at positions
  rw [emissionsOfStep, emissionsOfCalls, List.pairwise_map]
  exact (positions.filter _).imp fun less => .inr ⟨rfl, less⟩

theorem pairwise_emissions (workflow run : String) (records : InMemoryStepRecordStore) :
    (emissions workflow run records).Pairwise fun a b => SlotBefore a.slot b.slot := by
  rw [emissions, List.pairwise_flatMap]
  refine ⟨fun record _ => pairwise_emissionsOfStep workflow run record, ?_⟩
  refine (records.pairwise_listRecords workflow run).imp ?_
  intro a b less emission member emission' member'
  have first := congrArg StepRef.superStep (mem_emissionsOfStep.mp member).1
  have second := congrArg StepRef.superStep (mem_emissionsOfStep.mp member').1
  exact .inl (by simpa only [Emission.slot, first, second] using less)

theorem slots_nodup (workflow run : String) (records : InMemoryStepRecordStore) :
    ((emissions workflow run records).map Emission.slot).Nodup := by
  rw [List.Nodup, List.pairwise_map]
  exact (pairwise_emissions workflow run records).imp SlotBefore.ne

theorem pending_eq_drop (fromCursor : Nat) :
    pending workflow run fromCursor records = (emissions workflow run records).drop
      ((emissions workflow run records).countP fun emission => emission.step.superStep < fromCursor) := by
  rw [← Resumption.filter_eq_drop]
  · simp only [pending, ← decide_not, Nat.not_lt]
  · refine (pairwise_emissions workflow run records).imp ?_
    intro a b before
    simp only [SlotBefore, Emission.slot, decide_eq_true_iff] at before ⊢
    omega

variable (workflow run) in
theorem emissionsOfStep_extends {old : StepRecord} (same : old.superStep = record.superStep)
    (kept : old.toolCalls <+: record.toolCalls) :
    ∃ more, emissionsOfStep workflow run record = emissionsOfStep workflow run old ++ more ∧
      ∀ emission ∈ more, emission.step.superStep = record.superStep := by
  obtain ⟨calls, whole⟩ := kept
  refine ⟨emissionsOfCalls workflow run record.superStep (calls.zipIdx old.toolCalls.length), ?_, ?_⟩
  · rw [emissionsOfStep, ← whole, List.zipIdx_append, emissionsOfCalls, List.filter_append,
      List.map_append, emissionsOfStep, emissionsOfCalls, same, emissionsOfCalls, Nat.zero_add]
  · intro emission member
    obtain ⟨call, -, rfl⟩ := List.mem_map.mp member
    rfl

theorem emissions_saveRecord_own (own : record.OfRun workflow run)
    (last : ∀ other ∈ records.listRecords workflow run, other.superStep ≤ record.superStep ∧
      (other.superStep = record.superStep → other.toolCalls <+: record.toolCalls)) :
    ∃ more, emissions workflow run (records.saveRecord record) = emissions workflow run records ++ more ∧
      ∀ emission ∈ more, emission.step.superStep = record.superStep := by
  obtain ⟨old, before, found⟩ := InMemoryStepRecordStore.listRecords_split fun other member =>
    (last other member).1
  have after := InMemoryStepRecordStore.listRecords_saveRecord_last own fun other member =>
    (last other member).1
  cases old with
  | none =>
    rw [Option.toList_none, List.append_nil] at before
    refine ⟨emissionsOfStep workflow run record, ?_, ?_⟩
    · rw [emissions, after, ← before, List.flatMap_append, List.flatMap_singleton, emissions]
    · intro emission member
      rw [(mem_emissionsOfStep.mp member).1]
  | some old =>
    have same := found old rfl
    have member : old ∈ records.listRecords workflow run := by
      rw [before]
      simp
    have step : old.superStep = record.superStep := congrArg CheckpointKey.superStep same
    obtain ⟨more, extended, steps⟩ := emissionsOfStep_extends workflow run step
      ((last old member).2 step)
    refine ⟨more, ?_, steps⟩
    rw [emissions, after, List.flatMap_append, List.flatMap_singleton, extended, emissions]
    conv_rhs => rw [before]
    simp

end Emissions

inductive ReplayOp where
  | save (record : StepRecord)
  | replay (emit : Nat → Except AgentError Unit)

-- The cursor is the one of the last replay that returned one; the lists are what has happened so far.
structure ReplayWorld where
  records : InMemoryStepRecordStore
  cursor : Nat
  returned : List Nat
  accepted : List Emission
  emitted : List Emission

namespace ReplayWorld

def new : ReplayWorld where
  records := Table.empty
  cursor := 0
  returned := []
  accepted := []
  emitted := []

def replayed (world : ReplayWorld) (report : ReplayReport) : ReplayWorld where
  records := world.records
  cursor := match report.result with
    | .ok cursor => cursor
    | .error _ => world.cursor
  returned := match report.result with
    | .ok cursor => world.returned ++ [cursor]
    | .error _ => world.returned
  accepted := world.accepted ++ report.accepted
  emitted := world.emitted ++ report.emitted

variable (workflow run : String)

def turn (world : ReplayWorld) : ReplayOp → Option (Except AgentError Nat) × ReplayWorld
  | .save record => (none, { world with records := world.records.saveRecord record })
  | .replay emit =>
    let report := replayToSink workflow run world.cursor emit world.records
    (some report.result, world.replayed report)

-- The run is recorded step after step, and a step that is recorded again has kept its calls.
def InOrder (world : ReplayWorld) : ReplayOp → Prop
  | .save record => record.OfRun workflow run →
    ∀ other ∈ world.records.rows, other.OfRun workflow run →
      other.superStep ≤ record.superStep ∧
        (other.superStep = record.superStep → other.toolCalls <+: record.toolCalls)
  | .replay _ => True

def AllAccepted (world : ReplayWorld) : Prop :=
  ∀ record ∈ world.records.rows, record.OfRun workflow run →
    ∀ position call, record.toolCalls[position]? = some call → call.isSideEffecting = true →
      { step := { workflow, run, superStep := record.superStep }, position, decision := call : Emission } ∈
        world.accepted

def Stored (records : InMemoryStepRecordStore) (emission : Emission) : Prop :=
  emission.decision.isSideEffecting = true ∧ ∃ record ∈ records.rows, record.OfRun workflow run ∧
    emission.step = { workflow, run, superStep := record.superStep } ∧
    record.toolCalls[emission.position]? = some emission.decision

structure Sound (world : ReplayWorld) : Prop where
  covers : ∃ n, Resumption.Covers ((emissions workflow run world.records).map Emission.slot)
      (world.accepted.map Emission.slot) n ∧
    ((emissions workflow run world.records).countP fun emission =>
      emission.step.superStep < world.cursor) ≤ n
  emitted : ∀ emission ∈ world.emitted, emission ∈ emissions workflow run world.records
  accepted : ∀ emission ∈ world.accepted, emission ∈ emissions workflow run world.records
  reached : world.cursor = 0 ∨
    ∃ record ∈ world.records.listRecords workflow run, world.cursor ≤ record.superStep
  returned : world.returned.Pairwise (· ≤ ·) ∧ ∀ cursor ∈ world.returned, cursor ≤ world.cursor

variable {workflow run} {world : ReplayWorld}

theorem sound_new : Sound workflow run new where
  covers := ⟨0, Resumption.covers_nil _, by simp [new]⟩
  emitted := by simp [new]
  accepted := by simp [new]
  reached := .inl rfl
  returned := by simp [new]

theorem stored_iff (records : InMemoryStepRecordStore) (emission : Emission) :
    Stored workflow run records emission ↔ emission ∈ emissions workflow run records := by
  rw [mem_emissions]
  constructor
  · rintro ⟨effects, record, member, own, step, found⟩
    exact ⟨record, member, own, mem_emissionsOfStep.mpr ⟨step, found, effects⟩⟩
  · rintro ⟨record, member, own, emitted⟩
    obtain ⟨step, found, effects⟩ := mem_emissionsOfStep.mp emitted
    exact ⟨effects, record, member, own, step, found⟩

theorem Sound.save_other (sound : Sound workflow run world) {record : StepRecord}
    (other : ¬record.OfRun workflow run) :
    Sound workflow run { world with records := world.records.saveRecord record } := by
  have same : (world.records.saveRecord record).listRecords workflow run =
      world.records.listRecords workflow run :=
    InMemoryStepRecordStore.listRecords_saveRecord_other other
  have sameEmissions : emissions workflow run (world.records.saveRecord record) =
      emissions workflow run world.records := by
    rw [emissions, same, emissions]
  obtain ⟨covers, emitted, accepted, reached, returned⟩ := sound
  exact ⟨by rw [sameEmissions]; exact covers, by rw [sameEmissions]; exact emitted,
    by rw [sameEmissions]; exact accepted, by rw [same]; exact reached, returned⟩

theorem Sound.save_own (sound : Sound workflow run world) {record : StepRecord}
    (own : record.OfRun workflow run) (inOrder : world.InOrder workflow run (.save record)) :
    Sound workflow run { world with records := world.records.saveRecord record } := by
  have last : ∀ other ∈ world.records.listRecords workflow run, other.superStep ≤ record.superStep ∧
      (other.superStep = record.superStep → other.toolCalls <+: record.toolCalls) := by
    intro other member
    obtain ⟨stored, ofRun⟩ := InMemoryStepRecordStore.mem_listRecords.mp member
    exact inOrder own other stored ofRun
  have low : world.cursor ≤ record.superStep := by
    rcases sound.reached with zero | ⟨other, member, reached⟩
    · rw [zero]
      exact Nat.zero_le _
    · exact reached.trans (last other member).1
  obtain ⟨more, grown, steps⟩ := emissions_saveRecord_own own last
  obtain ⟨n, covers, mark⟩ := sound.covers
  refine ⟨⟨n, ?_, ?_⟩, ?_, ?_, .inr ⟨record, ?_, low⟩, sound.returned⟩
  · rw [grown, List.map_append]
    exact covers.grow _
  · have none : (more.countP fun emission => emission.step.superStep < world.cursor) = 0 := by
      rw [List.countP_eq_zero]
      intro emission member
      rw [steps emission member]
      simpa using low
    rw [grown, List.countP_append, none]
    exact mark
  · intro emission member
    rw [grown]
    exact List.mem_append_left _ (sound.emitted emission member)
  · intro emission member
    rw [grown]
    exact List.mem_append_left _ (sound.accepted emission member)
  · exact InMemoryStepRecordStore.mem_listRecords.mpr ⟨(Table.mem_rows_upsert _ _ _).mpr (.inl rfl), own⟩

theorem lastStep_cases (cursor : Nat) (pending : List Emission) :
    pending = [] ∧ lastStep cursor pending = cursor ∨
      ∃ emission ∈ pending, lastStep cursor pending = emission.step.superStep := by
  cases last : pending.getLast? with
  | none => exact .inl ⟨List.getLast?_eq_none_iff.mp last, by simp [lastStep, last]⟩
  | some emission => exact .inr ⟨emission, List.mem_of_getLast? last, by simp [lastStep, last]⟩

def mark (workflow run : String) (world : ReplayWorld) : Nat :=
  (emissions workflow run world.records).countP fun emission => emission.step.superStep < world.cursor

variable (workflow run) in
theorem length_pending (world : ReplayWorld) : mark workflow run world +
    (pending workflow run world.cursor world.records).length =
      (emissions workflow run world.records).length := by
  have le : mark workflow run world ≤ (emissions workflow run world.records).length :=
    List.countP_le_length
  rw [pending_eq_drop, List.length_drop]
  exact Nat.add_sub_cancel' le

theorem Sound.covers_replay (sound : Sound workflow run world) {k : Nat}
    (within : k ≤ (pending workflow run world.cursor world.records).length) :
    ∃ n, max (mark workflow run world) (mark workflow run world + k) ≤ n ∧
      Resumption.Covers ((emissions workflow run world.records).map Emission.slot)
        ((world.accepted ++ (pending workflow run world.cursor world.records).take k).map Emission.slot)
        n := by
  obtain ⟨n, covers, behind⟩ := sound.covers
  have length := length_pending workflow run world
  have read := covers.read (slots_nodup workflow run world.records) behind
    (by rw [List.length_map]; exact (Nat.add_le_add_left within _).trans_eq length)
  rw [← List.map_drop, ← List.map_take, ← pending_eq_drop, ← List.map_append] at read
  exact ⟨_, max_le_max behind le_rfl, read⟩

theorem Sound.mem_emissions_of_pending {emission : Emission}
    (member : emission ∈ pending workflow run world.cursor world.records) :
    emission ∈ emissions workflow run world.records ∧ world.cursor ≤ emission.step.superStep := by
  rw [pending, List.mem_filter, decide_eq_true_iff] at member
  exact member

theorem Sound.replay_stopped (sound : Sound workflow run world) {report : ReplayReport}
    (stopped : Stopped [] (pending workflow run world.cursor world.records) report) :
    Sound workflow run (world.replayed report) := by
  obtain ⟨front, emission, back, e, split, rfl⟩ := stopped
  have inside (other : Emission) (member : other ∈ front ++ [emission]) :
      other ∈ emissions workflow run world.records := by
    apply (mem_emissions_of_pending _).1
    rw [split, List.append_cons]
    exact List.mem_append_left _ member
  have taken : (pending workflow run world.cursor world.records).take front.length = front := by
    rw [split, List.take_left]
  obtain ⟨n, above, covers⟩ := sound.covers_replay (k := front.length) (by rw [split]; simp)
  rw [taken] at covers
  refine ⟨⟨n, covers, (le_max_left _ _).trans above⟩, ?_, ?_, sound.reached, sound.returned⟩
  · intro other member
    rcases List.mem_append.mp member with before | now
    · exact sound.emitted other before
    · exact inside other now
  · intro other member
    rcases List.mem_append.mp member with before | now
    · exact sound.accepted other before
    · exact inside other (List.mem_append_left _ now)

theorem Sound.replay_complete (sound : Sound workflow run world) :
    Sound workflow run (world.replayed
      { accepted := pending workflow run world.cursor world.records, refused := none,
        result := .ok (lastStep world.cursor (pending workflow run world.cursor world.records)) }) := by
  obtain ⟨n, above, covers⟩ := sound.covers_replay (Nat.le_refl _)
  rw [List.take_length, length_pending] at *
  have whole : (emissions workflow run world.records).length ≤ n := (le_max_right _ _).trans above
  refine ⟨⟨n, covers, List.countP_le_length.trans whole⟩, ?_, ?_, ?_, ?_⟩
  · intro other member
    simp only [replayed, ReplayReport.emitted, Option.toList_none, List.append_nil] at member
    rcases List.mem_append.mp member with before | now
    · exact sound.emitted other before
    · exact (mem_emissions_of_pending now).1
  · intro other member
    rcases List.mem_append.mp member with before | now
    · exact sound.accepted other before
    · exact (mem_emissions_of_pending now).1
  · simp only [replayed]
    rcases lastStep_cases world.cursor (pending workflow run world.cursor world.records) with
      ⟨-, same⟩ | ⟨emission, member, same⟩
    · rw [same]
      exact sound.reached
    · rw [same]
      obtain ⟨record, stored, own, emitted⟩ := mem_emissions.mp (mem_emissions_of_pending member).1
      refine .inr ⟨record, InMemoryStepRecordStore.mem_listRecords.mpr ⟨stored, own⟩, ?_⟩
      rw [(mem_emissionsOfStep.mp emitted).1]
  · have rises : world.cursor ≤ lastStep world.cursor
        (pending workflow run world.cursor world.records) := by
      rcases lastStep_cases world.cursor (pending workflow run world.cursor world.records) with
        ⟨-, same⟩ | ⟨emission, member, same⟩
      · rw [same]
      · rw [same]
        exact (mem_emissions_of_pending member).2
    obtain ⟨sorted, below⟩ := sound.returned
    refine ⟨?_, ?_⟩
    · simp only [replayed]
      rw [List.pairwise_append]
      refine ⟨sorted, List.pairwise_singleton _ _, ?_⟩
      intro cursor member cursor' last
      rw [List.mem_singleton] at last
      subst last
      exact (below cursor member).trans rises
    · intro cursor member
      rcases List.mem_append.mp member with before | now
      · exact (below cursor before).trans rises
      · exact le_of_eq (List.mem_singleton.mp now)

theorem Sound.turn (sound : Sound workflow run world) (op : ReplayOp)
    (inOrder : world.InOrder workflow run op) : Sound workflow run (world.turn workflow run op).2 := by
  cases op with
  | save record =>
    by_cases own : record.OfRun workflow run
    · exact sound.save_own own inOrder
    · exact sound.save_other own
  | replay emit =>
    simp only [ReplayWorld.turn]
    rcases replayToSink_cases workflow run world.cursor emit world.records with complete | stopped
    · rw [complete]
      exact sound.replay_complete
    · exact sound.replay_stopped stopped

theorem Sound.allAccepted (sound : Sound workflow run world) {emit : Nat → Except AgentError Unit}
    {cursor : Nat} (returned : (world.turn workflow run (.replay emit)).1 = some (.ok cursor)) :
    AllAccepted workflow run (world.turn workflow run (.replay emit)).2 := by
  simp only [ReplayWorld.turn] at returned ⊢
  rcases replayToSink_cases workflow run world.cursor emit world.records with complete | stopped
  · rw [complete]
    obtain ⟨n, above, covers⟩ := sound.covers_replay (Nat.le_refl _)
    rw [List.take_length, length_pending] at *
    have whole : (emissions workflow run world.records).length ≤ n := (le_max_right _ _).trans above
    have after := sound.replay_complete
    intro record member own position call found effects
    have emitted : (⟨⟨workflow, run, record.superStep⟩, position, call⟩ : Emission) ∈
        emissionsOfStep workflow run record :=
      mem_emissionsOfStep.mpr ⟨rfl, found, effects⟩
    have stored : _ ∈ emissions workflow run world.records :=
      mem_emissions.mpr ⟨record, member, own, emitted⟩
    have slot := List.mem_map_of_mem (f := Emission.slot) stored
    have all : ((emissions workflow run world.records).map Emission.slot).take n =
        (emissions workflow run world.records).map Emission.slot :=
      List.take_of_length_le (by rw [List.length_map]; exact whole)
    rw [← all, ← covers.2, List.mem_eraseDups, List.mem_map] at slot
    obtain ⟨emission, accepted, same⟩ := slot
    rwa [← List.inj_on_of_nodup_map (slots_nodup workflow run world.records)
      (after.accepted emission accepted) stored same]
  · obtain ⟨front, emission, back, e, -, report⟩ := stopped
    rw [report] at returned
    cases returned

/-- Replays that resume at the cursor skip nothing: whatever was saved and wherever the sink has failed, a
replay that returns has had every side-effecting call accepted. -/
theorem replay_skips_nothing (ops : List ReplayOp)
    (inOrder : Operations.Along (turn workflow run) (InOrder workflow run) new ops) :
    (∀ emit cursor,
      ((Operations.final (turn workflow run) new ops).turn workflow run (.replay emit)).1 =
          some (.ok cursor) →
        AllAccepted workflow run
          ((Operations.final (turn workflow run) new ops).turn workflow run (.replay emit)).2) ∧
      ((Operations.final (turn workflow run) new ops).accepted.map Emission.slot).eraseDups.Pairwise
        SlotBefore ∧
      (∀ emission ∈ (Operations.final (turn workflow run) new ops).emitted,
        Stored workflow run (Operations.final (turn workflow run) new ops).records emission) ∧
      (Operations.final (turn workflow run) new ops).returned.Pairwise (· ≤ ·) := by
  have sound : Sound workflow run (Operations.final (turn workflow run) new ops) :=
    Operations.final_invariant (InOrder workflow run) (Sound workflow run)
      (fun _ op sound inOrder => sound.turn op inOrder) new ops sound_new inOrder
  refine ⟨fun emit cursor returned => sound.allAccepted returned, ?_, ?_, sound.returned.1⟩
  · obtain ⟨n, covers, -⟩ := sound.covers
    rw [covers.2, ← List.map_take, List.pairwise_map]
    exact (pairwise_emissions _ _ _).sublist (List.take_sublist _ _)
  · intro emission member
    exact (stored_iff _ _).mpr (sound.emitted emission member)

def placeOrder (tool : String) : ToolCallRecord where
  tool := tool
  argsHash := "h"
  ret := .null
  isSideEffecting := true

def orderStep (calls : List ToolCallRecord) : StepRecord :=
  { StepRecord.new { workflowId := "wf", runId := "r", superStep := 1 } with toolCalls := calls }

-- The sink is down during the first replay; then the step gets another call.
def resumedOps : List ReplayOp :=
  [.save (orderStep [placeOrder "place_order"]),
    .replay fun _ => .error (.internal "replay channel closed"),
    .save (orderStep [placeOrder "place_order", placeOrder "cancel_order"])]

theorem inOrder_resumedOps : Operations.Along (turn "wf" "r") (InOrder "wf" "r") new resumedOps := by
  refine ⟨?_, trivial, ?_, trivial⟩
  · intro _ other member
    cases member
  · intro _ other member _
    have stored : other = orderStep [placeOrder "place_order"] := List.mem_singleton.mp member
    subst stored
    exact ⟨Nat.le_refl 1, fun _ => ⟨[placeOrder "cancel_order"], rfl⟩⟩

theorem ofRun_orderStep (calls : List ToolCallRecord) : (orderStep calls).OfRun "wf" "r" := ⟨rfl, rfl⟩

theorem listRecords_resumedOps (store : InMemoryStepRecordStore) (calls : List ToolCallRecord)
    (earlier : store.listRecords "wf" "r" = [] ∨
      ∃ calls, store.listRecords "wf" "r" = [orderStep calls]) :
    (store.saveRecord (orderStep calls)).listRecords "wf" "r" = [orderStep calls] := by
  rcases earlier with none | ⟨calls', one⟩
  · rw [InMemoryStepRecordStore.listRecords_saveRecord_last (ofRun_orderStep calls) (by simp [none]), none]
    rfl
  · have last : ∀ other ∈ store.listRecords "wf" "r", other.superStep ≤ (orderStep calls).superStep := by
      rw [one]
      intro other member
      rw [List.mem_singleton.mp member]
      exact Nat.le_refl 1
    rw [InMemoryStepRecordStore.listRecords_saveRecord_last (ofRun_orderStep calls) last, one]
    rfl

theorem replay_skips_nothing_resumed :
    ((Operations.final (turn "wf" "r") new resumedOps).turn "wf" "r" (.replay fun _ => .ok ())).1 =
        some (.ok 1) ∧
      AllAccepted "wf" "r"
        ((Operations.final (turn "wf" "r") new resumedOps).turn "wf" "r" (.replay fun _ => .ok ())).2 := by
  have empty : InMemoryStepRecordStore.listRecords Table.empty "wf" "r" = [] := List.mergeSort_nil
  have first := listRecords_resumedOps Table.empty [placeOrder "place_order"] (.inl empty)
  have second := listRecords_resumedOps
    (InMemoryStepRecordStore.saveRecord Table.empty (orderStep [placeOrder "place_order"]))
    [placeOrder "place_order", placeOrder "cancel_order"] (.inr ⟨_, first⟩)
  have returned :
      ((Operations.final (turn "wf" "r") new resumedOps).turn "wf" "r" (.replay fun _ => .ok ())).1 =
        some (.ok 1) := by
    simp only [Operations.final, resumedOps, turn, replayed, replayToSink, new, first, second]
    rfl
  exact ⟨returned, (replay_skips_nothing resumedOps inOrder_resumedOps).1 _ _ returned⟩

end ReplayWorld

end AtomrAgents
