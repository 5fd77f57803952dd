import AtomrAgents.Agent.Pipeline
import AtomrAgents.Shared.Operations
import AtomrAgents.State.Record

set_option autoImplicit false

namespace AtomrAgents

open Shared

structure TokenUsage where
  inputTokens : UInt32
  outputTokens : UInt32
  reasoningTokens : UInt32
  cachedTokens : UInt32
  deriving DecidableEq

inductive ReplayError where
  | missingStep (run : String) (step available : Nat)
  | noInference (step : Nat)
  | decode (message : String)

namespace ReplayError

def toString : ReplayError → String
  | .missingStep run step available =>
    "replay: no record for step " ++ ToString.toString step ++ " of run " ++ run ++ " (have " ++
      ToString.toString available ++ " steps)"
  | .noInference step => "replay: step " ++ ToString.toString step ++ " has no recorded inference"
  | .decode message => "replay: could not decode recorded value: " ++ message

def toAgentError (e : ReplayError) : AgentError := .inference e.toString

example : (missingStep "r" 2 2).toString = "replay: no record for step 2 of run r (have 2 steps)" := by
  decide

end ReplayError

structure TurnSerde where
  finishReason : SerdeValue FinishReason
  toolCall : SerdeValue ParsedToolCall

def providerToStr : Provider → String
  | .openAi => "open_ai"
  | .anthropic => "anthropic"

-- The names of the variants in snake case.
def providerFromStr (s : String) : Option Provider :=
  if s = "open_ai" then some .openAi
  else if s = "anthropic" then some .anthropic
  else none

section

variable (serde : TurnSerde)

def recordTurn (provider : Provider) (modelId modelVersion paramsHash promptHash : String)
    (turn : TurnResult TokenUsage) : InferenceRecord where
  provider := providerToStr provider
  modelId := modelId
  modelVersion := modelVersion
  paramsHash := paramsHash
  promptHash := promptHash
  rawCompletion := turn.text
  finishReason := (turn.finishReason.bind fun r => (serde.finishReason.toValue r).toOption).bind Value.asStr
  usage := {
    promptTokens := turn.usage.inputTokens
    completionTokens := turn.usage.outputTokens
    reasoningTokens := turn.usage.reasoningTokens
    cachedTokens := turn.usage.cachedTokens }
  toolCalls := turn.toolCalls.filterMap fun call => (serde.toolCall.toValue call).toOption

def turnFromRecord (inf : InferenceRecord) : Except ReplayError (TurnResult TokenUsage) := do
  let usage : TokenUsage := {
    inputTokens := inf.usage.promptTokens
    outputTokens := inf.usage.completionTokens
    reasoningTokens := inf.usage.reasoningTokens
    cachedTokens := inf.usage.cachedTokens }
  let finishReason ← match inf.finishReason with
    | none => .ok none
    | some s =>
      ((serde.finishReason.fromValue (.string s)).mapError fun e =>
        .decode ("finish_reason '" ++ s ++ "': " ++ e)).map some
  let toolCalls ← inf.toolCalls.mapM fun value =>
    (serde.toolCall.fromValue value).mapError fun e => .decode ("tool_call: " ++ e)
  return { text := inf.rawCompletion, usage, finishReason, toolCalls }

structure ReplayProvider where
  provider : Provider
  run : String
  steps : List StepRecord
  cursor : Nat

namespace ReplayProvider

def fromSteps (run : String) (steps : List StepRecord) : ReplayProvider where
  provider := ((steps.findSome? StepRecord.inference).bind fun inf => providerFromStr inf.provider).getD
    .openAi
  run := run
  steps := steps
  cursor := 0

def load (store : InMemoryStepRecordStore) (workflow : WorkflowId) (run : RunId) : ReplayProvider :=
  fromSteps run (store.listRecords workflow run)

def remaining (replay : ReplayProvider) : Nat := replay.steps.length - replay.cursor

def nextRecord (replay : ReplayProvider) :
    Except ReplayError (TurnResult TokenUsage) × ReplayProvider :=
  match replay.steps[replay.cursor]? with
  | none => (.error (.missingStep replay.run replay.cursor replay.steps.length), replay)
  | some step =>
    match step.inference with
    | none => (.error (.noInference replay.cursor), replay)
    | some inf =>
      match turnFromRecord serde inf with
      | .error e => (.error e, replay)
      | .ok turn => (.ok turn, { replay with cursor := replay.cursor + 1 })

-- `InferenceClient::run`; the batch is not looked at.
def runBatch (replay : ReplayProvider) (_batch : ExecuteBatch) :
    Except AgentError (TurnResult TokenUsage) × ReplayProvider :=
  let served := replay.nextRecord serde
  (served.1.mapError ReplayError.toAgentError, served.2)

end ReplayProvider

-- What is known of `serde` for one turn: the finish reason is written as a string, and both are read back.
structure Recordable (turn : TurnResult TokenUsage) : Prop where
  finishReason : ∀ reason, turn.finishReason = some reason → ∃ s,
    serde.finishReason.toValue reason = .ok (.string s) ∧
      serde.finishReason.fromValue (.string s) = .ok reason
  toolCalls : ∀ call ∈ turn.toolCalls, ∃ value,
    serde.toolCall.toValue call = .ok value ∧ serde.toolCall.fromValue value = .ok call

end

structure Recording where
  superStep : Nat
  provider : Provider
  modelId : String
  modelVersion : String
  paramsHash : String
  promptHash : String
  turn : TurnResult TokenUsage
  toolCalls : List ToolCallRecord
  stateSnapshot : Values

def Recording.record (serde : TurnSerde) (workflow : WorkflowId) (run : RunId) (recording : Recording) :
    StepRecord where
  key := { workflowId := workflow, runId := run, superStep := recording.superStep }
  inference := some (recordTurn serde recording.provider recording.modelId recording.modelVersion
    recording.paramsHash recording.promptHash recording.turn)
  toolCalls := recording.toolCalls
  stateSnapshot := recording.stateSnapshot

theorem providerFromStr_providerToStr (provider : Provider) :
    providerFromStr (providerToStr provider) = some provider := by
  cases provider <;> rfl

section

variable {serde : TurnSerde} {workflow : WorkflowId} {run : RunId} {recordings : List Recording}

theorem mapM_recordedCalls {calls : List ParsedToolCall}
    (recordable : ∀ call ∈ calls, ∃ value,
      serde.toolCall.toValue call = .ok value ∧ serde.toolCall.fromValue value = .ok call) :
    ((calls.filterMap fun call => (serde.toolCall.toValue call).toOption).mapM fun value =>
      (serde.toolCall.fromValue value).mapError fun e => ReplayError.decode ("tool_call: " ++ e)) =
        .ok calls := by
  induction calls with
  | nil => rfl
  | cons call calls ih =>
    obtain ⟨value, written, read⟩ := recordable call List.mem_cons_self
    have later := ih fun other member => recordable other (List.mem_cons_of_mem call member)
    rw [List.filterMap_cons_some (by rw [written]; rfl), List.mapM_cons, read, later]
    rfl

theorem turnFromRecord_recordTurn {turn : TurnResult TokenUsage} (recordable : Recordable serde turn)
    (provider : Provider) (modelId modelVersion paramsHash promptHash : String) :
    turnFromRecord serde
      (recordTurn serde provider modelId modelVersion paramsHash promptHash turn) = .ok turn := by
  have calls := mapM_recordedCalls recordable.toolCalls
  obtain ⟨text, usage, finishReason, toolCalls⟩ := turn
  cases finishReason with
  | none =>
    simp only [turnFromRecord, recordTurn, Option.bind_none, calls]
    rfl
  | some reason =>
    obtain ⟨s, written, read⟩ := recordable.finishReason reason rfl
    have encoded : (serde.finishReason.toValue reason).toOption = some (.string s) := by
      rw [written]
      rfl
    simp only [turnFromRecord, recordTurn, Option.bind_some, encoded, Value.asStr, read, calls]
    rfl

structure Serves (serde : TurnSerde) (workflow : WorkflowId) (run : RunId) (recordings : List Recording)
    (cursor : Nat) (replay : ReplayProvider) : Prop where
  ofRun : replay.run = run
  recorded : replay.steps = recordings.map (Recording.record serde workflow run)
  position : replay.cursor = cursor

theorem Serves.turn {replay : ReplayProvider} {cursor : Nat} {recording : Recording}
    (serves : Serves serde workflow run recordings cursor replay)
    (recordable : Recordable serde recording.turn) (found : recordings[cursor]? = some recording)
    (batch : ExecuteBatch) :
    replay.runBatch serde batch = (.ok recording.turn, { replay with cursor := cursor + 1 }) := by
  have step : replay.steps[cursor]? = some (recording.record serde workflow run) := by
    rw [serves.recorded, List.getElem?_map, found, Option.map_some]
  have decoded := turnFromRecord_recordTurn recordable recording.provider recording.modelId
    recording.modelVersion recording.paramsHash recording.promptHash
  simp only [ReplayProvider.runBatch, ReplayProvider.nextRecord, serves.position, step, Recording.record,
    decoded]
  rfl

theorem Serves.exhausted {replay : ReplayProvider}
    (serves : Serves serde workflow run recordings recordings.length replay) (batch : ExecuteBatch) :
    replay.runBatch serde batch =
      (.error (ReplayError.missingStep run recordings.length recordings.length).toAgentError, replay) := by
  have length : replay.steps.length = recordings.length := by rw [serves.recorded, List.length_map]
  have step : replay.steps[recordings.length]? = none := List.getElem?_eq_none (Nat.le_of_eq length)
  simp only [ReplayProvider.runBatch, ReplayProvider.nextRecord, serves.position, step, serves.ofRun, length]
  rfl

theorem Serves.runs {replay : ReplayProvider} {cursor : Nat}
    (serves : Serves serde workflow run recordings cursor replay) (within : cursor ≤ recordings.length)
    (recordable : ∀ recording ∈ recordings, Recordable serde recording.turn)
    (batches : List ExecuteBatch) :
    (Operations.trace (ReplayProvider.runBatch serde) replay batches).map Prod.snd =
        ((recordings.drop cursor).take batches.length).map (fun recording => .ok recording.turn) ++
          List.replicate (batches.length - (recordings.length - cursor))
            (.error (ReplayError.missingStep run recordings.length recordings.length).toAgentError) ∧
      Serves serde workflow run recordings (min (cursor + batches.length) recordings.length)
        (Operations.final (ReplayProvider.runBatch serde) replay batches) ∧
      (Operations.final (ReplayProvider.runBatch serde) replay batches).provider = replay.provider := by
  induction batches generalizing replay cursor with
  | nil =>
    refine ⟨by simp [Operations.trace], ?_, rfl⟩
    rw [List.length_nil, Nat.add_zero, Nat.min_eq_left within]
    exact serves
  | cons batch batches ih =>
    rw [Operations.trace, Operations.final, List.map_cons]
    rcases Nat.lt_or_ge cursor recordings.length with less | reached
    · have found := List.getElem?_eq_getElem less
      rw [serves.turn (recordable _ (List.getElem_mem less)) found batch]
      have next : Serves serde workflow run recordings (cursor + 1) { replay with cursor := cursor + 1 } :=
        ⟨serves.ofRun, serves.recorded, rfl⟩
      obtain ⟨results, after, provider⟩ := ih next less
      refine ⟨?_, ?_, provider⟩
      · rw [results, List.drop_eq_getElem_cons less, List.length_cons, List.take_succ_cons, List.map_cons,
          List.cons_append]
        congr 3
        omega
      · rw [List.length_cons, Nat.add_comm batches.length, ← Nat.add_assoc]
        exact after
    · obtain rfl : cursor = recordings.length := Nat.le_antisymm within reached
      rw [serves.exhausted batch]
      obtain ⟨results, after, provider⟩ := ih serves within
      refine ⟨?_, ?_, provider⟩
      · rw [results]
        simp [List.replicate_succ]
      · rw [Nat.min_eq_right (Nat.le_add_right _ _)] at after ⊢
        exact after

theorem fromSteps_provider (ordered : List Recording) :
    (ReplayProvider.fromSteps run (ordered.map (Recording.record serde workflow run))).provider =
      (ordered.head?.map Recording.provider).getD .openAi := by
  cases ordered with
  | nil => rfl
  | cons recording ordered =>
    have first : ((recording :: ordered).map (Recording.record serde workflow run)).findSome?
        StepRecord.inference = (recording.record serde workflow run).inference := rfl
    simp only [ReplayProvider.fromSteps, first, Recording.record, Option.bind_some, recordTurn,
      providerFromStr_providerToStr, List.head?_cons, Option.map_some]

theorem load_saves {saves : List StepRecord}
    (own : (saves.filter fun record => record.OfRun workflow run) =
      recordings.map (Recording.record serde workflow run))
    (once : (recordings.map Recording.superStep).Nodup) :
    ReplayProvider.load (saves.foldl InMemoryStepRecordStore.saveRecord Table.empty) workflow run =
      ReplayProvider.fromSteps run
        ((orderBy Recording.superStep recordings).map (Recording.record serde workflow run)) := by
  have steps : (recordings.map (Recording.record serde workflow run)).map StepRecord.superStep =
      recordings.map Recording.superStep := by
    rw [List.map_map]
    rfl
  have listed : InMemoryStepRecordStore.listRecords
      (saves.foldl InMemoryStepRecordStore.saveRecord Table.empty) workflow run = _ :=
    InMemoryStepRecordStore.listRecords_saves saves (by rw [own, steps]; exact once)
  rw [ReplayProvider.load, listed, own, orderBy_map]
  rfl

/-- The turns of a run come back in the order of its steps, each of them once and as it was; then there is
an error for every further call. -/
theorem replay_serves_recordings {saves : List StepRecord}
    (own : (saves.filter fun record => record.OfRun workflow run) =
      recordings.map (Recording.record serde workflow run))
    (once : (recordings.map Recording.superStep).Nodup)
    (recordable : ∀ recording ∈ recordings, Recordable serde recording.turn)
    (batches : List ExecuteBatch) :
    let ordered := orderBy Recording.superStep recordings
    let replay :=
      ReplayProvider.load (saves.foldl InMemoryStepRecordStore.saveRecord Table.empty) workflow run
    let after := Operations.final (ReplayProvider.runBatch serde) replay batches
    (Operations.trace (ReplayProvider.runBatch serde) replay batches).map Prod.snd =
        (ordered.take batches.length).map (fun recording => .ok recording.turn) ++
          List.replicate (batches.length - ordered.length)
            (.error (ReplayError.missingStep run ordered.length ordered.length).toAgentError) ∧
      after.cursor = min batches.length ordered.length ∧
      after.remaining = (ordered.drop batches.length).length ∧
      after.provider = (ordered.head?.map Recording.provider).getD .openAi := by
  intro ordered replay after
  have loaded : replay = ReplayProvider.fromSteps run (ordered.map (Recording.record serde workflow run)) :=
    load_saves own once
  have serves : Serves serde workflow run ordered 0 replay := by
    rw [loaded]
    exact ⟨rfl, rfl, rfl⟩
  have recordable' : ∀ recording ∈ ordered, Recordable serde recording.turn :=
    fun recording member => recordable recording ((orderBy_perm _ _).mem_iff.mp member)
  obtain ⟨results, served, provider⟩ := serves.runs (Nat.zero_le _) recordable' batches
  rw [Nat.zero_add] at served
  refine ⟨results, served.position, ?_, ?_⟩
  · rw [ReplayProvider.remaining, served.recorded, served.position, List.length_map, List.length_drop]
    omega
  · rw [provider, loaded, fromSteps_provider]

end

def plainSerde : TurnSerde where
  finishReason := {
    toValue
      | .toolCalls => .ok (.string "tool_calls")
      | .other reason => .ok (.string reason)
    fromValue
      | .string s => .ok (if s = "tool_calls" then .toolCalls else .other s)
      | _ => .error "invalid type" }
  toolCall := {
    toValue call := .ok (.object [("arguments_raw", .string call.argumentsRaw), ("id", .string call.id),
      ("name", .string call.name)])
    fromValue
      | .object [(_, .string argumentsRaw), (_, .string id), (_, .string name)] =>
        .ok { id, name, argumentsRaw }
      | _ => .error "invalid type" }

def plainRecording (superStep : Nat) (finishReason : Option FinishReason) (toolCalls : List ParsedToolCall) :
    Recording where
  superStep := superStep
  provider := .anthropic
  modelId := "claude"
  modelVersion := "1"
  paramsHash := "p"
  promptHash := "h"
  turn := {
    text := "hello"
    usage := { inputTokens := 5, outputTokens := 7, reasoningTokens := 1, cachedTokens := 2 }
    finishReason
    toolCalls }
  toolCalls := []
  stateSnapshot := ∅

theorem recordable_plain : ∀ recording ∈ [plainRecording 1 (some (.other "stop")) [],
    plainRecording 0 (some .toolCalls) [{ id := "x", name := "f", argumentsRaw := "{}" }]],
    Recordable plainSerde recording.turn := by
  intro recording member
  rcases List.mem_cons.mp member with rfl | member
  · exact ⟨fun reason same => ⟨"stop", by cases same; exact ⟨rfl, rfl⟩⟩, by simp [plainRecording]⟩
  · cases List.mem_singleton.mp member
    refine ⟨fun reason same => ⟨"tool_calls", by cases same; exact ⟨rfl, rfl⟩⟩, ?_⟩
    intro call member
    cases List.mem_singleton.mp member
    exact ⟨_, rfl, rfl⟩

def plainBatch : ExecuteBatch where
  model := "m"
  messages := []
  stream := false
  estimatedTokens := 0

theorem replay_serves_recordings_plain :
    let first := plainRecording 0 (some .toolCalls) [{ id := "x", name := "f", argumentsRaw := "{}" }]
    let second := plainRecording 1 (some (.other "stop")) []
    (Operations.trace (ReplayProvider.runBatch plainSerde) (ReplayProvider.load
      ([second.record plainSerde "wf" "r", first.record plainSerde "wf" "other",
        first.record plainSerde "wf" "r"].foldl InMemoryStepRecordStore.saveRecord Table.empty) "wf" "r")
      [plainBatch, plainBatch, plainBatch]).map Prod.snd =
        [.ok first.turn, .ok second.turn, .error (ReplayError.missingStep "r" 2 2).toAgentError] := by
  intro first second
  have own : ([second.record plainSerde "wf" "r", first.record plainSerde "wf" "other",
      first.record plainSerde "wf" "r"].filter fun record => record.OfRun "wf" "r") =
        [second, first].map (Recording.record plainSerde "wf" "r") := rfl
  have served := replay_serves_recordings own (by decide) recordable_plain
    [plainBatch, plainBatch, plainBatch]
  have ordered : orderBy Recording.superStep [second, first] = [first, second] :=
    orderBy_eq (List.Perm.swap _ _ _) (by decide)
  rw [ordered] at served
  exact served.1

end AtomrAgents
