import AtomrAgents.CodingCli.Headless

set_option autoImplicit false

namespace AtomrAgents.CodingCli

-- The pending calls are gone through in some order, each once.
structure OrderedWorld extends HeadlessWorld where
  drains : ∀ pending, (drain pending).Perm pending.toList

section Passed

variable {P : Type} (parser : CliEventParser P)

def lineEvents (state : P) (line : String) : List CodingCliEvent × P :=
  match parser.parseLine state line with
  | (.ok events, state) => (events, state)
  | (.error e, state) => ([.note ("parse error: " ++ e) ∅], state)

def linesEvents : P → List String → List CodingCliEvent × P
  | state, [] => ([], state)
  | state, line :: rest =>
    let (first, state) := lineEvents parser state line
    let (more, state) := linesEvents state rest
    (first ++ more, state)

def stdoutEvents : P → List Received → List CodingCliEvent × P
  | state, [] => ([], state)
  | state, received :: rest =>
    if received.cancelled then ([], state)
    else
      let (first, state) := linesEvents parser state (chunkLines received.chunk)
      let (more, state) := stdoutEvents state rest
      (first ++ more, state)

def flushed (world : HeadlessWorld) : Except String (List CodingCliEvent) :=
  parser.flush (stdoutEvents parser parser.initial world.stdout).2

def vendorEvents (world : HeadlessWorld) : List CodingCliEvent :=
  (stdoutEvents parser parser.initial world.stdout).1 ++ (flushed parser world).toOption.getD []

def account (tools : List ToolCallRecord × PendingTools) : CodingCliEvent → List ToolCallRecord × PendingTools
  | .toolCallStarted toolCallId name input =>
    (tools.1, tools.2.insert toolCallId { toolCallId, name, input, output := none, error := none })
  | .toolCallFinished toolCallId output error =>
    (tools.1 ++ [finishedCall tools.2 toolCallId output error], tools.2.erase toolCallId)
  | _ => tools

def Running.tools (run : Running P) : List ToolCallRecord × PendingTools := (run.result.toolCalls, run.pending)

structure Passes (run run' : Running P) (events : List CodingCliEvent) : Prop where
  sent : run'.sent = run.sent ++ events
  tools : run'.tools = events.foldl account run.tools

variable {run run' : Running P} {event : CodingCliEvent}

variable {parser} in
theorem Passes.refl (run : Running P) : Passes run run [] := ⟨(List.append_nil _).symm, rfl⟩

variable {parser} in
theorem Passes.trans {last : Running P} {events more : List CodingCliEvent} (first : Passes run run' events)
    (second : Passes run' last more) : Passes run last (events ++ more) where
  sent := by rw [second.sent, first.sent, List.append_assoc]
  tools := by rw [second.tools, first.tools, List.foldl_append]

theorem accumulate_tools (result : CliResult) (pending : PendingTools) (event : CodingCliEvent) :
    ((accumulate result pending event).1.toolCalls, (accumulate result pending event).2) =
      account (result.toolCalls, pending) event := by
  cases event with
  | runFinished reason resultText =>
    cases resultText with
    | none => rfl
    | some text =>
      simp only [accumulate, account]
      split <;> rfl
  | _ => rfl

theorem record_passes (run : Running P) (event : CodingCliEvent) :
    Passes run (run.record event) [event] ∧ (run.record event).parser = run.parser :=
  ⟨⟨rfl, accumulate_tools run.result run.pending event⟩, rfl⟩

theorem take_passes (run : Running P) (event : CodingCliEvent) :
    Passes run (run.take event) [event] ∧ (run.take event).parser = run.parser := by
  have recorded := record_passes run event
  cases event with
  | runFinished reason text => exact ⟨⟨recorded.1.sent, recorded.1.tools⟩, recorded.2⟩
  | _ => exact recorded

theorem foldl_passes (pass : Running P → CodingCliEvent → Running P)
    (one : ∀ run event, Passes run (pass run event) [event] ∧ (pass run event).parser = run.parser)
    (events : List CodingCliEvent) (run : Running P) :
    Passes run (events.foldl pass run) events ∧ (events.foldl pass run).parser = run.parser := by
  induction events generalizing run with
  | nil => exact ⟨.refl run, rfl⟩
  | cons event rest ih =>
    obtain ⟨passes, same⟩ := ih (pass run event)
    exact ⟨(one run event).1.trans passes, same.trans (one run event).2⟩

theorem takeLine_passes (run : Running P) (line : String) :
    Passes run (takeLine parser run line) (lineEvents parser run.parser line).1 ∧
      (takeLine parser run line).parser = (lineEvents parser run.parser line).2 := by
  rw [takeLine, lineEvents]
  rcases parser.parseLine run.parser line with ⟨parsed | events, state⟩
  · obtain ⟨passes, same⟩ := foldl_passes Running.take take_passes [.note ("parse error: " ++ parsed) ∅]
      { run with parser := state }
    exact ⟨⟨passes.sent, passes.tools⟩, same⟩
  · obtain ⟨passes, same⟩ := foldl_passes Running.take take_passes events { run with parser := state }
    exact ⟨⟨passes.sent, passes.tools⟩, same⟩

theorem lines_pass (texts : List String) (run : Running P) :
    Passes run (texts.foldl (takeLine parser) run) (linesEvents parser run.parser texts).1 ∧
      (texts.foldl (takeLine parser) run).parser = (linesEvents parser run.parser texts).2 := by
  induction texts generalizing run with
  | nil => exact ⟨.refl run, rfl⟩
  | cons line rest ih =>
    obtain ⟨first, state⟩ := takeLine_passes parser run line
    obtain ⟨more, last⟩ := ih (takeLine parser run line)
    rw [state] at more last
    exact ⟨first.trans more, last⟩

theorem readStdout_passes (chunks : List Received) (run : Running P) :
    Passes run (readStdout parser run chunks) (stdoutEvents parser run.parser chunks).1 ∧
      (readStdout parser run chunks).parser = (stdoutEvents parser run.parser chunks).2 := by
  induction chunks generalizing run with
  | nil => exact ⟨.refl run, rfl⟩
  | cons received rest ih =>
    rw [readStdout, stdoutEvents]
    split
    · exact ⟨⟨(List.append_nil _).symm, rfl⟩, rfl⟩
    · obtain ⟨first, state⟩ := lines_pass parser (chunkLines received.chunk) run
      obtain ⟨more, last⟩ := ih ((chunkLines received.chunk).foldl (takeLine parser) run)
      rw [state] at more last
      exact ⟨first.trans more, last⟩

end Passed

section Records

variable {tools : List ToolCallRecord × PendingTools} {events : List CodingCliEvent} {id : String}
  {record : ToolCallRecord}

def startedCall : CodingCliEvent → Option String
  | .toolCallStarted toolCallId _ _ => some toolCallId
  | _ => none

def finishes (id : String) : CodingCliEvent → Bool
  | .toolCallFinished toolCallId _ _ => toolCallId == id
  | _ => false

def recordsOf (id : String) (records : List ToolCallRecord) : List ToolCallRecord :=
  records.filter fun record => record.toolCallId == id

def Keyed (pending : PendingTools) : Prop :=
  ∀ id, ∀ record : ToolCallRecord, pending[id]? = some record → record.toolCallId = id

theorem recordsOf_append (id : String) (records more : List ToolCallRecord) :
    recordsOf id (records ++ more) = recordsOf id records ++ recordsOf id more := List.filter_append records more

theorem finishedCall_id (keyed : Keyed tools.2) (id : String) (output : Option Value) (error : Option String) :
    (finishedCall tools.2 id output error).toolCallId = id := by
  rw [finishedCall]
  split
  next started found => exact keyed id started found
  next => rfl

theorem account_keyed (keyed : Keyed tools.2) (event : CodingCliEvent) : Keyed (account tools event).2 := by
  cases event with
  | toolCallStarted toolCallId name input =>
    intro id record found
    rw [account, Std.ExtTreeMap.getElem?_insert] at found
    split at found
    next same =>
      rw [← Option.some_inj.mp found]
      exact compare_eq_iff_eq.mp same
    next => exact keyed id record found
  | toolCallFinished toolCallId output error =>
    intro id record found
    rw [account, Std.ExtTreeMap.getElem?_erase] at found
    split at found
    next => cases found
    next => exact keyed id record found
  | _ => exact keyed

theorem foldl_keyed (keyed : Keyed tools.2) (events : List CodingCliEvent) :
    Keyed (events.foldl account tools).2 := by
  induction events generalizing tools with
  | nil => exact keyed
  | cons event rest ih => exact ih (account_keyed keyed event)

theorem account_other (keyed : Keyed tools.2) {event : CodingCliEvent} (unstarted : startedCall event ≠ some id)
    (unfinished : finishes id event = false) :
    recordsOf id (account tools event).1 = recordsOf id tools.1 ∧ (account tools event).2[id]? = tools.2[id]? := by
  cases event with
  | toolCallStarted toolCallId name input =>
    have other : ¬ compare toolCallId id = .eq := by
      rw [compare_eq_iff_eq]
      exact fun same => unstarted (congrArg some same)
    rw [account, Std.ExtTreeMap.getElem?_insert, if_neg other]
    exact ⟨rfl, rfl⟩
  | toolCallFinished toolCallId output error =>
    have other : ¬ compare toolCallId id = .eq := by
      rw [compare_eq_iff_eq]
      exact beq_eq_false_iff_ne.mp unfinished
    rw [account, Std.ExtTreeMap.getElem?_erase, if_neg other, recordsOf_append]
    refine ⟨?_, rfl⟩
    rw [recordsOf, recordsOf, List.filter_cons_of_neg, List.filter_nil, List.append_nil]
    rw [finishedCall_id keyed]
    exact Bool.eq_false_iff.mp unfinished
  | _ => exact ⟨rfl, rfl⟩

theorem account_finish (keyed : Keyed tools.2) (id : String) (output : Option Value) (error : Option String) :
    recordsOf id (account tools (.toolCallFinished id output error)).1 =
        recordsOf id tools.1 ++ [finishedCall tools.2 id output error] ∧
      (account tools (.toolCallFinished id output error)).2[id]? = none := by
  rw [account, Std.ExtTreeMap.getElem?_erase, if_pos (compare_eq_iff_eq.mpr rfl), recordsOf_append]
  refine ⟨?_, rfl⟩
  rw [recordsOf, recordsOf, List.filter_cons_of_pos, List.filter_nil]
  rw [finishedCall_id keyed]
  exact beq_self_eq_true id

theorem finishes_iff {event : CodingCliEvent} :
    finishes id event = true ↔ ∃ output error, event = .toolCallFinished id output error := by
  cases event <;> simp [finishes]

theorem foldl_idle (keyed : Keyed tools.2) (idle : tools.2[id]? = none)
    (unstarted : ∀ event ∈ events, startedCall event ≠ some id) :
    (events.foldl account tools).2[id]? = none ∧
      ∃ more, recordsOf id (events.foldl account tools).1 = recordsOf id tools.1 ++ more ∧
        more.length = events.countP (finishes id) := by
  induction events generalizing tools with
  | nil => exact ⟨idle, [], (List.append_nil _).symm, rfl⟩
  | cons event rest ih =>
    have later : ∀ event ∈ rest, startedCall event ≠ some id :=
      fun other member => unstarted other (List.mem_cons_of_mem event member)
    rw [List.foldl_cons, List.countP_cons]
    by_cases finish : finishes id event = true
    · obtain ⟨output, error, rfl⟩ := finishes_iff.mp finish
      obtain ⟨records, idle'⟩ := account_finish keyed id output error
      obtain ⟨idle', more, extended, count⟩ := ih (account_keyed keyed _) idle' later
      rw [records, List.append_assoc] at extended
      refine ⟨idle', _, extended, ?_⟩
      rw [if_pos finish, List.length_append, List.length_singleton, count, Nat.add_comm]
    · obtain ⟨records, same⟩ := account_other keyed (unstarted event List.mem_cons_self)
        (Bool.eq_false_iff.mpr finish)
      obtain ⟨idle', more⟩ := ih (account_keyed keyed event) (same.trans idle) later
      rw [records] at more
      rw [if_neg finish, Nat.add_zero]
      exact ⟨idle', more⟩

theorem foldl_pending (keyed : Keyed tools.2) (pending : tools.2[id]? = some record)
    (unstarted : ∀ event ∈ events, startedCall event ≠ some id) :
    if events.countP (finishes id) = 0 then
      (events.foldl account tools).2[id]? = some record ∧
        recordsOf id (events.foldl account tools).1 = recordsOf id tools.1
    else
      (events.foldl account tools).2[id]? = none ∧
        ∃ output error more, recordsOf id (events.foldl account tools).1 =
            recordsOf id tools.1 ++ { record with output, error } :: more ∧
          more.length + 1 = events.countP (finishes id) := by
  induction events generalizing tools with
  | nil => exact ⟨pending, rfl⟩
  | cons event rest ih =>
    have later : ∀ event ∈ rest, startedCall event ≠ some id :=
      fun other member => unstarted other (List.mem_cons_of_mem event member)
    rw [List.foldl_cons, List.countP_cons]
    by_cases finish : finishes id event = true
    · obtain ⟨output, error, rfl⟩ := finishes_iff.mp finish
      obtain ⟨records, idle⟩ := account_finish keyed id output error
      obtain ⟨idle, more, extended, count⟩ := foldl_idle (account_keyed keyed _) idle later
      have named : finishedCall tools.2 id output error = { record with output, error } := by
        rw [finishedCall, pending]
      rw [records, List.append_assoc, named] at extended
      rw [if_pos finish, if_neg (Nat.succ_ne_zero _)]
      exact ⟨idle, output, error, more, extended, by rw [count]⟩
    · obtain ⟨records, same⟩ := account_other keyed (unstarted event List.mem_cons_self)
        (Bool.eq_false_iff.mpr finish)
      have after := ih (account_keyed keyed event) (same.trans pending) later
      rw [records] at after
      rw [if_neg finish, Nat.add_zero]
      exact after

def unfinished (entry : String × ToolCallRecord) : ToolCallRecord :=
  { entry.2 with error := some (entry.2.error.getD "tool call did not finish") }

theorem recordsOf_drained {drained : List (String × ToolCallRecord)} {pending : PendingTools}
    (keyed : Keyed pending) (drains : drained.Perm pending.toList) (id : String) :
    recordsOf id (drained.map unfinished) = pending[id]?.toList.map fun record => unfinished (id, record) := by
  have entry (e : String × ToolCallRecord) : e ∈ drained ↔ pending[e.1]? = some e.2 := by
    rw [drains.mem_iff]
    exact Std.ExtTreeMap.mem_toList_iff_getElem?_eq_some
  have distinct : drained.Nodup := by
    rw [drains.nodup_iff]
    exact Std.ExtTreeMap.distinct_keys_toList.imp fun apart same =>
      apart (compare_eq_iff_eq.mpr (congrArg Prod.fst same))
  have own : recordsOf id (drained.map unfinished) = (drained.filter fun e => e.1 == id).map unfinished := by
    rw [recordsOf, List.filter_map]
    refine congrArg (List.map unfinished) (List.filter_congr fun e member => ?_)
    exact congrArg (· == id) (keyed e.1 e.2 ((entry e).mp member))
  have one : (drained.filter fun e => e.1 == id).Perm (pending[id]?.toList.map fun record => (id, record)) := by
    refine (List.perm_ext_iff_of_nodup (distinct.filter _) ?_).mpr fun e => ?_
    · cases pending[id]? <;> simp
    · rw [List.mem_filter, entry, List.mem_map]
      constructor
      · rintro ⟨found, same⟩
        obtain rfl := eq_of_beq same
        exact ⟨e.2, Option.mem_toList.mpr found, rfl⟩
      · rintro ⟨record, found, rfl⟩
        exact ⟨Option.mem_toList.mp found, beq_self_eq_true id⟩
  rw [own]
  cases found : pending[id]? with
  | none =>
    rw [found] at one
    rw [List.perm_nil.mp one]
    rfl
  | some record =>
    rw [found] at one
    rw [List.perm_singleton.mp one]
    rfl

theorem records_length (keyed : Keyed tools.2) {drained : List (String × ToolCallRecord)}
    (drains : drained.Perm tools.2.toList) (records : List ToolCallRecord) :
    recordsOf id (records ++ drained.map unfinished) =
      recordsOf id records ++ tools.2[id]?.toList.map fun record => unfinished (id, record) := by
  rw [recordsOf_append, recordsOf_drained keyed drains]

end Records

section Accounting

variable {events : List CodingCliEvent}

def finalRecords (drain : PendingTools → List (String × ToolCallRecord)) (events : List CodingCliEvent) :
    List ToolCallRecord :=
  let tools := events.foldl account ([], ∅)
  tools.1 ++ (drain tools.2).map unfinished

def ToolAccounting (events : List CodingCliEvent) (records : List ToolCallRecord) : Prop :=
  ∀ id name input, .toolCallStarted id name input ∈ events →
    ∃ record, recordsOf id records = [record] ∧ record.name = name ∧ record.input = input

def FinishedOnce (events : List CodingCliEvent) : Prop :=
  ∀ before after id name input, events = before ++ .toolCallStarted id name input :: after →
    before.countP (finishes id) = 0 ∧ after.countP (finishes id) ≤ 1

variable {drain : PendingTools → List (String × ToolCallRecord)}

theorem recordsOf_started (drains : ∀ pending, (drain pending).Perm pending.toList)
    {before after : List CodingCliEvent} {id name : String} {input : Value}
    (early : ∀ event ∈ before, startedCall event ≠ some id) (late : ∀ event ∈ after, startedCall event ≠ some id) :
    ∃ nameless named more,
      recordsOf id (finalRecords drain (before ++ .toolCallStarted id name input :: after)) =
        nameless ++ named :: more ∧
      nameless.length = before.countP (finishes id) ∧ more.length = after.countP (finishes id) - 1 ∧
      named.name = name ∧ named.input = input := by
  have empty : Keyed (([], ∅) : List ToolCallRecord × PendingTools).2 := by
    intro id record found
    simp at found
  have keyed := foldl_keyed empty before
  obtain ⟨-, nameless, records, count⟩ := foldl_idle empty (by simp) early
  have started : (account (before.foldl account ([], ∅)) (.toolCallStarted id name input)).2[id]? =
      some { toolCallId := id, name, input, output := none, error := none } := by
    rw [account, Std.ExtTreeMap.getElem?_insert_self]
  have keyed' := account_keyed keyed (.toolCallStarted id name input)
  have after_ := foldl_pending keyed' started late
  rw [finalRecords, List.foldl_append, List.foldl_cons,
    records_length (foldl_keyed keyed' after) (drains _)]
  -- The start itself leaves no record.
  have same : recordsOf id (account (before.foldl account ([], ∅)) (.toolCallStarted id name input)).1 =
      nameless := records
  rw [same] at after_
  split at after_
  next unfinished_ =>
    rw [after_.1, after_.2]
    exact ⟨nameless, _, [], rfl, count, by rw [unfinished_]; rfl, rfl, rfl⟩
  next =>
    obtain ⟨idle, output, error, more, extended, count'⟩ := after_
    rw [idle, extended]
    refine ⟨nameless, _, more, List.append_nil _, count, ?_, rfl, rfl⟩
    omega

theorem toolAccounting_iff (drains : ∀ pending, (drain pending).Perm pending.toList)
    (distinct : (events.filterMap startedCall).Nodup) :
    ToolAccounting events (finalRecords drain events) ↔ FinishedOnce events := by
  -- Around a start of a call there is no other one.
  have alone {before after : List CodingCliEvent} {id name : String} {input : Value}
      (split : events = before ++ .toolCallStarted id name input :: after) :
      (∀ event ∈ before, startedCall event ≠ some id) ∧ ∀ event ∈ after, startedCall event ≠ some id := by
    have start : startedCall (.toolCallStarted id name input) = some id := rfl
    rw [split, List.filterMap_append, List.filterMap_cons_some start, List.nodup_append] at distinct
    obtain ⟨-, later, apart⟩ := distinct
    rw [List.nodup_cons] at later
    constructor
    · intro event member started
      exact apart id (List.mem_filterMap.mpr ⟨event, member, started⟩) id List.mem_cons_self rfl
    · intro event member started
      exact later.1 (List.mem_filterMap.mpr ⟨event, member, started⟩)
  constructor
  · rintro accounting before after id name input rfl
    obtain ⟨early, late⟩ := alone rfl
    obtain ⟨nameless, named, more, records, before_, after_, -⟩ := recordsOf_started drains early late
    obtain ⟨record, one, -⟩ := accounting id name input (by simp)
    have length := congrArg List.length (records.symm.trans one)
    rw [List.length_append, List.length_cons, List.length_singleton] at length
    omega
  · intro once id name input member
    obtain ⟨before, after, rfl⟩ := List.append_of_mem member
    obtain ⟨early, late⟩ := alone rfl
    obtain ⟨nameless, named, more, records, before_, after_, isName, isInput⟩ :=
      recordsOf_started drains early late
    obtain ⟨none_, atMost⟩ := once before after id name input rfl
    rw [none_] at before_
    rw [Nat.sub_eq_zero_of_le atMost] at after_
    rw [List.length_eq_zero_iff.mp before_, List.length_eq_zero_iff.mp after_] at records
    exact ⟨named, records, isName, isInput⟩

end Accounting

section Protocol

variable {P : Type} (parser : CliEventParser P)

def isRunStarted : CodingCliEvent → Bool
  | .runStarted _ _ _ _ => true
  | _ => false

def isRunFinished : CodingCliEvent → Bool
  | .runFinished _ _ => true
  | _ => false

structure EventProtocol (sent : List CodingCliEvent) : Prop where
  oneStart : sent.countP isRunStarted = 1
  startFirst : sent.head?.any isRunStarted = true
  oneFinish : sent.countP isRunFinished = 1
  finishLast : sent.getLast?.any isRunFinished = true

def neverReported (entry : String × ToolCallRecord) : CodingCliEvent :=
  .note ("tool " ++ entry.1 ++ " never reported a result") ∅

theorem finalize_foldl (entries : List (String × ToolCallRecord)) (run : Running P) :
    (entries.foldl Running.finalize run).sent = run.sent ++ entries.map neverReported ∧
      (entries.foldl Running.finalize run).result.toolCalls = run.result.toolCalls ++ entries.map unfinished := by
  induction entries generalizing run with
  | nil => exact ⟨(List.append_nil _).symm, (List.append_nil _).symm⟩
  | cons entry rest ih =>
    obtain ⟨sent, records⟩ := ih (run.finalize entry)
    rw [List.foldl_cons, sent, records, List.map_cons, List.map_cons]
    exact ⟨List.append_assoc _ [_] _, List.append_assoc _ [_] _⟩

def Launched (world : HeadlessWorld) : Prop := world.materialized = .ok () ∧ world.spawned = .ok ()

-- The parser's flush and the wait for the process do not fail.
def Completes (world : HeadlessWorld) : Prop :=
  (∃ trailing, flushed parser world = .ok trailing) ∧ ∃ status, world.waited = .ok status

inductive Ended (world : HeadlessWorld) (runId : CliRunId) (req : CliRequest) :
    Except HarnessError CliResult × List CodingCliEvent → Prop where
  | unconfigured (error : HarnessError) (not : ¬ Launched world) : Ended world runId req (.error error, [])
  | unspawned (error : HarnessError) (not : ¬ Launched world) :
      Ended world runId req (.error error, [.runStarted runId req.vendor req.model none])
  | broken (error : HarnessError) (launched : Launched world) (not : ¬ Completes parser world) :
      Ended world runId req
        (.error error, .runStarted runId req.vendor req.model none :: vendorEvents parser world)
  | returned (result : CliResult) (drained : List (String × ToolCallRecord)) (reason : FinishReason)
      (text : Option String) (launched : Launched world) (completes : Completes parser world)
      (records : result.toolCalls = finalRecords world.drain (vendorEvents parser world)) :
      Ended world runId req
        (.ok result, .runStarted runId req.vendor req.model none ::
          (vendorEvents parser world ++ drained.map neverReported) ++ [.runFinished reason text])

theorem runOne_ended (world : HeadlessWorld) (runId : CliRunId) (req : CliRequest) :
    Ended parser world runId req (runOne parser world runId req) := by
  rw [runOne]
  cases materialized : world.materialized with
  | error e => exact .unconfigured _ fun launched => by rw [launched.1] at materialized; cases materialized
  | ok _ =>
    cases spawned : world.spawned with
    | error e => exact .unspawned _ fun launched => by rw [launched.2] at spawned; cases spawned
    | ok _ =>
      have launched : Launched world := ⟨materialized, spawned⟩
      obtain ⟨read, state⟩ := readStdout_passes parser world.stdout {
        parser := parser.initial, result := .new runId req.vendor, pending := ∅,
        sent := [CodingCliEvent.runStarted runId req.vendor req.model none] }
      simp only
      generalize readStdout parser _ world.stdout = run at read state
      have flushes : parser.flush run.parser = flushed parser world := by rw [state, flushed]
      rw [flushes]
      cases flush : flushed parser world with
      | error e =>
        have not : ¬ Completes parser world := by
          rintro ⟨⟨_, ok⟩, -⟩
          rw [flush] at ok
          cases ok
        have sent : run.sent = .runStarted runId req.vendor req.model none :: vendorEvents parser world := by
          rw [read.sent, vendorEvents, flush]
          exact congrArg _ (List.append_nil _).symm
        simp only
        rw [sent]
        exact .broken _ launched not
      | ok trailing =>
        have all := read.trans (foldl_passes Running.record record_passes trailing run).1
        have events : (stdoutEvents parser parser.initial world.stdout).1 ++ trailing =
            vendorEvents parser world := by
          rw [vendorEvents, flush]
          rfl
        rw [events] at all
        simp only
        generalize trailing.foldl Running.record run = run' at all
        have sent : run'.sent = .runStarted runId req.vendor req.model none :: vendorEvents parser world :=
          all.sent
        cases waited : world.waited with
        | error e =>
          have not : ¬ Completes parser world := by
            rintro ⟨-, _, ok⟩
            rw [waited] at ok
            cases ok
          simp only
          rw [sent]
          exact .broken _ launched not
        | ok status =>
          obtain ⟨sent', records⟩ := finalize_foldl (world.drain run'.pending) run'
          simp only
          rw [sent', sent]
          refine .returned _ _ _ _ launched ⟨⟨trailing, flush⟩, status, waited⟩ ?_
          have tools : run'.tools = (vendorEvents parser world).foldl account ([], ∅) := all.tools
          rw [finalRecords, ← tools]
          exact records

structure QuietVendor (world : HeadlessWorld) : Prop where
  launched : Launched world
  unstarted : (vendorEvents parser world).countP isRunStarted = 0
  unfinished : Completes parser world → (vendorEvents parser world).countP isRunFinished = 0
  -- A run that breaks off announces no end of its own.
  cutOff : ¬ Completes parser world → (vendorEvents parser world).countP isRunFinished = 1 ∧
    (vendorEvents parser world).getLast?.any isRunFinished = true

theorem neverReported_quiet (drained : List (String × ToolCallRecord)) :
    (drained.map neverReported).countP isRunStarted = 0 ∧
      (drained.map neverReported).countP isRunFinished = 0 := by
  rw [List.countP_eq_zero, List.countP_eq_zero]
  constructor <;>
  · intro event member
    obtain ⟨entry, -, rfl⟩ := List.mem_map.mp member
    exact Bool.false_ne_true

theorem eventProtocol_iff (world : HeadlessWorld) (runId : CliRunId) (req : CliRequest) :
    EventProtocol (runOne parser world runId req).2 ↔ QuietVendor parser world := by
  have ended := runOne_ended parser world runId req
  generalize runOne parser world runId req = out at ended
  cases ended with
  | unconfigured error not =>
    exact iff_of_false (fun protocol => by cases protocol.oneStart) fun quiet => not quiet.launched
  | unspawned error not =>
    exact iff_of_false (fun protocol => by cases protocol.oneFinish) fun quiet => not quiet.launched
  | broken error launched not =>
    have last : ((CodingCliEvent.runStarted runId req.vendor req.model none) ::
        vendorEvents parser world).getLast?.any isRunFinished =
          (vendorEvents parser world).getLast?.any isRunFinished := by
      rw [List.getLast?_cons]
      cases (vendorEvents parser world).getLast? <;> rfl
    constructor
    · intro protocol
      have started := protocol.oneStart
      have finished := protocol.oneFinish
      rw [List.countP_cons_of_pos rfl] at started
      rw [List.countP_cons_of_neg Bool.false_ne_true] at finished
      exact ⟨launched, Nat.succ_inj.mp started, fun completes => absurd completes not,
        fun _ => ⟨finished, last.symm.trans protocol.finishLast⟩⟩
    · intro quiet
      obtain ⟨finished, isLast⟩ := quiet.cutOff not
      refine ⟨?_, rfl, ?_, last.trans isLast⟩
      · rw [List.countP_cons_of_pos rfl, quiet.unstarted]
      · rw [List.countP_cons_of_neg Bool.false_ne_true, finished]
  | returned result drained reason text launched completes records =>
    obtain ⟨noStart, noFinish⟩ := neverReported_quiet drained
    have starts : ((CodingCliEvent.runStarted runId req.vendor req.model none) ::
        (vendorEvents parser world ++ drained.map neverReported) ++
          [CodingCliEvent.runFinished reason text]).countP isRunStarted =
          (vendorEvents parser world).countP isRunStarted + 1 := by
      rw [List.countP_append, List.countP_cons_of_pos rfl, List.countP_append, noStart]
      rfl
    have ends : ((CodingCliEvent.runStarted runId req.vendor req.model none) ::
        (vendorEvents parser world ++ drained.map neverReported) ++
          [CodingCliEvent.runFinished reason text]).countP isRunFinished =
          (vendorEvents parser world).countP isRunFinished + 1 := by
      rw [List.countP_append, List.countP_cons_of_neg Bool.false_ne_true, List.countP_append, noFinish]
      rfl
    constructor
    · intro protocol
      exact ⟨launched, Nat.succ_inj.mp (starts.symm.trans protocol.oneStart),
        fun _ => Nat.succ_inj.mp (ends.symm.trans protocol.oneFinish), fun not => absurd completes not⟩
    · intro quiet
      refine ⟨?_, rfl, ?_, ?_⟩
      · rw [starts, quiet.unstarted]
      · rw [ends, quiet.unfinished completes]
      · rw [List.getLast?_concat]
        rfl

/-- A run keeps the protocol exactly if the vendor leaves its start and its end to the harness, and it keeps the
records exactly if each call is finished at most once, and after its start. -/
theorem headless_protocol_iff (world : OrderedWorld) (runId : CliRunId) (req : CliRequest) :
    (EventProtocol (runOne parser world.toHeadlessWorld runId req).2 ∧
      ∀ result, (runOne parser world.toHeadlessWorld runId req).1 = .ok result →
        ((vendorEvents parser world.toHeadlessWorld).filterMap startedCall).Nodup →
        ToolAccounting (vendorEvents parser world.toHeadlessWorld) result.toolCalls) ↔
    QuietVendor parser world.toHeadlessWorld ∧
      (Completes parser world.toHeadlessWorld →
        ((vendorEvents parser world.toHeadlessWorld).filterMap startedCall).Nodup →
        FinishedOnce (vendorEvents parser world.toHeadlessWorld)) := by
  rw [eventProtocol_iff]
  refine and_congr_right fun quiet => ?_
  have ended := runOne_ended parser world.toHeadlessWorld runId req
  generalize runOne parser world.toHeadlessWorld runId req = out at ended
  cases ended with
  | unconfigured error not => exact absurd quiet.launched not
  | unspawned error not => exact absurd quiet.launched not
  | broken error launched not =>
    exact iff_of_true (by rintro _ ⟨⟩) fun completes => absurd completes not
  | returned result drained reason text launched completes records =>
    constructor
    · intro accounting _ distinct
      have kept := accounting result rfl distinct
      rw [records] at kept
      exact (toolAccounting_iff world.drains distinct).mp kept
    · intro once _ isResult distinct
      cases isResult
      rw [records]
      exact (toolAccounting_iff world.drains distinct).mpr (once completes distinct)

end Protocol

-- A line `result` is the end that the vendor reports.
def resultParser : CliEventParser Unit where
  initial := ()
  parseLine _ line :=
    (.ok (if line = "result" then [.runFinished .completed (some "done")] else []), ())
  flush _ := .ok []

def printed (output : List UInt8) : OrderedWorld where
  materialized := .ok ()
  spawned := .ok ()
  stdout := [{ chunk := output, cancelled := false }]
  waited := .ok { code := some 0, success := true }
  drain pending := pending.toList
  drains _ := .refl _

def resultLine : List UInt8 := [0x72, 0x65, 0x73, 0x75, 0x6c, 0x74, 0x0a]

def askedRun : CliRequest where
  vendor := .claude
  workdir := "/tmp"
  mode := .headless
  model := none

/-- The end that the vendor reports is sent, and then the harness sends its own. -/
theorem result_line_finishes_twice :
    (runOne resultParser (printed resultLine).toHeadlessWorld "run" askedRun).2 =
        [.runStarted "run" .claude none none, .runFinished .completed (some "done"),
          .runFinished .completed (some "done")] ∧
      ¬ EventProtocol (runOne resultParser (printed resultLine).toHeadlessWorld "run" askedRun).2 := by
  have sent : (runOne resultParser (printed resultLine).toHeadlessWorld "run" askedRun).2 =
      [.runStarted "run" .claude none none, .runFinished .completed (some "done"),
        .runFinished .completed (some "done")] := by rfl
  refine ⟨sent, fun protocol => ?_⟩
  have finishes := protocol.oneFinish
  rw [sent] at finishes
  cases finishes

end AtomrAgents.CodingCli
