import AtomrAgents.Tool.ToolCallParser
import Mathlib.Data.List.Forall2

set_option autoImplicit false

/-! Every event opens a slot, also those of a text block, so a text leaves a call behind that nobody made. -/

namespace AtomrAgents

open Shared

inductive ContentBlock where
  | text
  | toolUse (id name : String)

inductive BlockEvent where
  | start (block : ContentBlock)
  | textDelta
  | inputJsonDelta (partialJson : String)
  | stop

structure ContentEvent where
  index : UInt64
  event : BlockEvent

def typeOf (value : Value) : Option String := (value.get "type").bind Value.asStr

-- A value of the stream is the event: the input at the start of a tool's block is none, null or empty.
def BlockEvent.Reads (value : Value) : BlockEvent → Prop
  | .start .text =>
    (∃ block, value.get "content_block" = some block ∧ typeOf block = some "text") ∧ value.get "delta" = none
  | .start (.toolUse id name) =>
    (∃ block, value.get "content_block" = some block ∧ typeOf block = some "tool_use" ∧
      (block.get "id").bind Value.asStr = some id ∧ (block.get "name").bind Value.asStr = some name ∧
      ∀ input ∈ block.get "input", input.isInput = false) ∧ value.get "delta" = none
  | .textDelta =>
    value.get "content_block" = none ∧ ∃ d, value.get "delta" = some d ∧ typeOf d = some "text_delta"
  | .inputJsonDelta partialJson =>
    value.get "content_block" = none ∧ ∃ d, value.get "delta" = some d ∧ typeOf d = some "input_json_delta" ∧
      (d.get "partial_json").bind Value.asStr = some partialJson
  | .stop => value.get "content_block" = none ∧ value.get "delta" = none

def ContentEvent.Reads (value : Value) (e : ContentEvent) : Prop :=
  (value.get "index").bind Value.asU64 = some e.index ∧ e.event.Reads value

def BlockEvent.Continues : BlockEvent → ContentBlock → Prop
  | .textDelta, .text => True
  | .inputJsonDelta _, .toolUse _ _ => True
  | .stop, _ => True
  | _, _ => False

structure ToolUse where
  index : UInt64
  id : String
  name : String

def toolUses (blocks : List (UInt64 × ContentBlock)) : List ToolUse :=
  blocks.filterMap fun (index, block) =>
    match block with
    | .text => none
    | .toolUse id name => some { index, id, name }

def eventsOf (index : UInt64) (events : List ContentEvent) : List BlockEvent :=
  (events.filter (·.index = index)).map ContentEvent.event

def BlockEvent.argument : BlockEvent → Option String
  | .inputJsonDelta partialJson => some partialJson
  | _ => none

structure WellFormed (blocks : List (UInt64 × ContentBlock)) (events : List ContentEvent) : Prop where
  increasing : blocks.Pairwise fun a b => a.1 < b.1
  covered : ∀ e ∈ events, ∃ entry ∈ blocks, e.index = entry.1
  started : ∀ entry ∈ blocks, ∃ rest, eventsOf entry.1 events = .start entry.2 :: rest ∧
    ∀ event ∈ rest, event.Continues entry.2
  ids : ((toolUses blocks).map ToolUse.id).Nodup
  named : ∀ tool ∈ toolUses blocks, tool.id ≠ ""

def toolCalls (blocks : List (UInt64 × ContentBlock)) (events : List ContentEvent) : List ParsedToolCall :=
  (toolUses blocks).map fun tool =>
    { id := tool.id, name := tool.name
      argumentsRaw := String.join ((eventsOf tool.index events).filterMap BlockEvent.argument) }

def Separate (blocks : List (UInt64 × ContentBlock)) : Prop :=
  (∀ index, (index, ContentBlock.text) ∈ blocks →
    ∃ tool ∈ toolUses blocks, callSlot tool.index = callSlot index) ∧
    (toolUses blocks).Pairwise fun a b => callSlot a.index < callSlot b.index

namespace BlockEvent

def addTo (entry : Partial) : BlockEvent → Partial
  | .start (.toolUse id name) => { entry with id, name }
  | .inputJsonDelta partialJson => { entry with args := entry.args ++ partialJson }
  | _ => entry

theorem anthropic_of_reads {value : Value} {event : BlockEvent} (reads : event.Reads value)
    (json : ValueJson) (entry : Partial) : entry.anthropic json value = addTo entry event := by
  cases event with
  | start block =>
    cases block with
    | text =>
      obtain ⟨⟨block, found, kind⟩, nothing⟩ := reads
      rw [typeOf] at kind
      simp [Partial.anthropic, found, kind, nothing, addTo]
    | toolUse id name =>
      obtain ⟨⟨block, found, kind, ids, names, inputs⟩, nothing⟩ := reads
      rw [typeOf] at kind
      simp only [Partial.anthropic, found, kind, nothing, addTo, if_true, Partial.startBlock, ids, names,
        Option.getD_some]
      cases input : block.get "input" with
      | none => rfl
      | some value => simp [inputs value input]
  | textDelta =>
    obtain ⟨nothing, d, found, kind⟩ := reads
    rw [typeOf] at kind
    simp [Partial.anthropic, found, kind, nothing, addTo]
  | inputJsonDelta partialJson =>
    obtain ⟨nothing, d, found, kind, text⟩ := reads
    rw [typeOf] at kind
    simp [Partial.anthropic, found, kind, nothing, addTo, text]
  | stop =>
    obtain ⟨nothing, none⟩ := reads
    simp [Partial.anthropic, nothing, none, addTo]

end BlockEvent

def slotOf (e : ContentEvent) : Nat := callSlot e.index

def addEvent (entry : Partial) (e : ContentEvent) : Partial := BlockEvent.addTo entry e.event

theorem feedAll_reads {stream : List Value} {events : List ContentEvent} (json : ValueJson)
    (reads : List.Forall₂ ContentEvent.Reads stream events) (calls : Std.ExtTreeMap Nat Partial compare) :
    ToolCallParser.feedAll json { provider := .anthropic, calls } stream =
      (.ok (), { provider := .anthropic, calls := events.foldl (fill slotOf addEvent .default) calls }) := by
  induction reads generalizing calls with
  | nil => rfl
  | @cons value e stream events read _ ih =>
    have index : deltaIndex value = some (slotOf e) := by
      rw [deltaIndex, read.1]
      rfl
    have fed : ToolCallParser.feed json { provider := .anthropic, calls } value =
        (.ok (), { provider := .anthropic, calls := fill slotOf addEvent .default calls e }) := by
      simp only [ToolCallParser.feed, ToolCallParser.feedAnthropic, index, ToolCallParser.entry,
        BlockEvent.anthropic_of_reads read.2]
      rfl
    rw [ToolCallParser.feedAll, fed]
    exact ih _

section

variable {blocks : List (UInt64 × ContentBlock)} {events : List ContentEvent} {index : UInt64}
  {block other : ContentBlock} {tool : ToolUse} {e : ContentEvent}

theorem mem_toolUses : tool ∈ toolUses blocks ↔ (tool.index, ContentBlock.toolUse tool.id tool.name) ∈ blocks := by
  rw [toolUses, List.mem_filterMap]
  constructor
  · rintro ⟨⟨index, block⟩, member, made⟩
    cases block with
    | text => cases made
    | toolUse id name =>
      cases made
      exact member
  · intro member
    exact ⟨_, member, rfl⟩

theorem foldl_continues {id name : String} {rest : List BlockEvent} (entry : Partial)
    (continues : ∀ event ∈ rest, event.Continues (.toolUse id name)) :
    rest.foldl BlockEvent.addTo entry =
      { entry with args := entry.args ++ String.join (rest.filterMap BlockEvent.argument) } := by
  induction rest generalizing entry with
  | nil => simp
  | cons event rest ih =>
    have first := continues event List.mem_cons_self
    rw [List.foldl_cons, ih _ fun event member => continues event (List.mem_cons_of_mem _ member)]
    cases event with
    | inputJsonDelta partialJson =>
      simp [BlockEvent.addTo, BlockEvent.argument, String.append_assoc]
    | stop => simp [BlockEvent.addTo, List.filterMap_cons, BlockEvent.argument]
    | start block => exact first.elim
    | textDelta => exact first.elim

theorem foldl_id (xs : List ContentEvent) (entry : Partial) :
    (xs.foldl addEvent entry).id = entry.id ∨
      ∃ e ∈ xs, ∃ name, e.event = .start (.toolUse (xs.foldl addEvent entry).id name) := by
  induction xs generalizing entry with
  | nil => exact .inl rfl
  | cons e xs ih =>
    rw [List.foldl_cons]
    rcases ih (addEvent entry e) with same | ⟨later, member, name, started⟩
    · rw [same]
      obtain ⟨index, event⟩ := e
      cases event with
      | start block =>
        cases block with
        | text => exact .inl rfl
        | toolUse id name => exact .inr ⟨_, List.mem_cons_self, name, rfl⟩
      | _ => exact .inl rfl
    · exact .inr ⟨later, List.mem_cons_of_mem e member, name, started⟩

namespace WellFormed

variable (wellFormed : WellFormed blocks events)

include wellFormed

theorem block_unique (here : (index, block) ∈ blocks) (there : (index, other) ∈ blocks) : block = other := by
  have distinct : (blocks.map Prod.fst).Nodup :=
    List.pairwise_map.mpr (wellFormed.increasing.imp fun less => UInt64.ne_of_lt less)
  have same := List.inj_on_of_nodup_map distinct here there rfl
  exact (Prod.mk.inj same).2

theorem event_block (member : e ∈ events) :
    ∃ block, (e.index, block) ∈ blocks ∧ (e.event = .start block ∨ e.event.Continues block) := by
  obtain ⟨⟨index, block⟩, inside, same⟩ := wellFormed.covered e member
  obtain ⟨rest, own, continues⟩ := wellFormed.started _ inside
  have mine : e.event ∈ eventsOf index events :=
    List.mem_map_of_mem (List.mem_filter.mpr ⟨member, by simpa using same⟩)
  rw [own] at mine
  refine ⟨block, same ▸ inside, ?_⟩
  rcases List.mem_cons.mp mine with start | later
  · exact .inl start
  · exact .inr (continues _ later)

theorem start_of_block (inside : (index, block) ∈ blocks) : ∃ e ∈ events, e.index = index ∧ e.event = .start block := by
  obtain ⟨rest, own, -⟩ := wellFormed.started _ inside
  have first : BlockEvent.start block ∈ eventsOf index events := own ▸ List.mem_cons_self
  obtain ⟨e, mine, start⟩ := List.mem_map.mp first
  obtain ⟨member, same⟩ := List.mem_filter.mp mine
  exact ⟨e, member, by simpa using same, start⟩

theorem tool_of_start {id name : String} (member : e ∈ events) (start : e.event = .start (.toolUse id name)) :
    ToolUse.mk e.index id name ∈ toolUses blocks := by
  obtain ⟨block, inside, kind⟩ := wellFormed.event_block member
  rw [start] at kind
  rcases kind with same | continues
  · cases same
    exact mem_toolUses.mpr inside
  · exact continues.elim

theorem idle_of_text (member : e ∈ events) (text : (e.index, ContentBlock.text) ∈ blocks) (entry : Partial) :
    addEvent entry e = entry := by
  obtain ⟨block, inside, kind⟩ := wellFormed.event_block member
  cases wellFormed.block_unique inside text
  obtain ⟨index, event⟩ := e
  rcases kind with same | continues
  · cases same
    rfl
  · cases event with
    | textDelta => rfl
    | stop => rfl
    | start block => exact continues.elim
    | inputJsonDelta partialJson => exact continues.elim

theorem foldl_tool (member : tool ∈ toolUses blocks) :
    (eventsOf tool.index events).foldl BlockEvent.addTo .default =
      { id := tool.id, name := tool.name
        args := String.join ((eventsOf tool.index events).filterMap BlockEvent.argument) } := by
  obtain ⟨rest, own, continues⟩ := wellFormed.started _ (mem_toolUses.mp member)
  rw [own, List.foldl_cons, foldl_continues _ continues]
  simp [BlockEvent.addTo, List.filterMap_cons, BlockEvent.argument, Partial.default]

theorem foldl_own (member : tool ∈ toolUses blocks)
    (texts : ∀ e ∈ events, slotOf e = callSlot tool.index → e.index ≠ tool.index →
      (e.index, ContentBlock.text) ∈ blocks) :
    (ownRecords slotOf (callSlot tool.index) events).foldl addEvent .default =
      { id := tool.id, name := tool.name
        args := String.join ((eventsOf tool.index events).filterMap BlockEvent.argument) } := by
  rw [← wellFormed.foldl_tool member, eventsOf, List.foldl_map]
  have own : events.filter (·.index = tool.index) =
      (ownRecords slotOf (callSlot tool.index) events).filter (·.index = tool.index) := by
    rw [ownRecords, List.filter_filter]
    apply List.filter_congr
    intro e _
    by_cases same : e.index = tool.index <;> simp [same, slotOf]
  rw [own, List.foldl_filter]
  apply List.foldl_ext
  intro entry e mine
  split
  · rfl
  · next different =>
    obtain ⟨there, slot⟩ := List.mem_filter.mp mine
    have elsewhere : e.index ≠ tool.index := by simpa using different
    exact wellFormed.idle_of_text there (texts e there (by simpa using slot) elsewhere) entry

theorem finish_of_separate (separate : Separate blocks) :
    ((fillAll slotOf addEvent .default events).toList.map fun entry => entry.2.toCall) = toolCalls blocks events := by
  have opened (k : Nat) :
      k ∈ (toolUses blocks).map (fun tool => callSlot tool.index) ↔ ∃ e ∈ events, slotOf e = k := by
    constructor
    · intro member
      obtain ⟨tool, inside, rfl⟩ := List.mem_map.mp member
      obtain ⟨e, there, same, -⟩ := wellFormed.start_of_block (mem_toolUses.mp inside)
      exact ⟨e, there, by rw [slotOf, same]⟩
    · rintro ⟨e, there, rfl⟩
      obtain ⟨block, inside, -⟩ := wellFormed.event_block there
      cases block with
      | text =>
        obtain ⟨tool, used, same⟩ := separate.1 e.index inside
        exact List.mem_map.mpr ⟨tool, used, same⟩
      | toolUse id name => exact List.mem_map.mpr ⟨⟨e.index, id, name⟩, mem_toolUses.mpr inside, rfl⟩
  have listed : (fillAll slotOf addEvent .default events).toList = _ :=
    toList_fillAll (List.pairwise_map.mpr separate.2) opened
  rw [listed, List.map_map, List.map_map, toolCalls]
  apply List.map_congr_left
  intro tool member
  have texts : ∀ e ∈ events, slotOf e = callSlot tool.index → e.index ≠ tool.index →
      (e.index, ContentBlock.text) ∈ blocks := by
    intro e there slot elsewhere
    obtain ⟨block, inside, -⟩ := wellFormed.event_block there
    cases block with
    | text => exact inside
    | toolUse id name =>
      have used : ToolUse.mk e.index id name ∈ toolUses blocks := mem_toolUses.mpr inside
      have same := List.inj_on_of_nodup_map (separate.2.imp Nat.ne_of_lt |> List.pairwise_map.mpr) used member slot
      exact absurd (congrArg ToolUse.index same) elsewhere
  simp only [Function.comp_apply, wellFormed.foldl_own member texts, Partial.toCall]

theorem slot_of_tool {k : Nat} {entry : Partial}
    (named : ∀ entry ∈ (fillAll slotOf addEvent .default events).toList, entry.2.id ≠ "")
    (listed : (k, entry) ∈ (fillAll slotOf addEvent .default events).toList) :
    ∃ tool ∈ toolUses blocks, tool.id = entry.id ∧ callSlot tool.index = k := by
  have id := named _ listed
  rw [Std.ExtTreeMap.mem_toList_iff_getElem?_eq_some, getElem?_fillAll] at listed
  split at listed
  · cases listed
  · cases listed
    rcases foldl_id (ownRecords slotOf k events) .default with none | ⟨e, mine, name, started⟩
    · exact absurd none id
    · obtain ⟨there, slot⟩ := List.mem_filter.mp mine
      exact ⟨_, wellFormed.tool_of_start there started, rfl, of_decide_eq_true slot⟩

theorem separate_of_finish
    (finish : ((fillAll slotOf addEvent .default events).toList.map fun entry => entry.2.toCall) =
      toolCalls blocks events) : Separate blocks := by
  have ids : (fillAll slotOf addEvent .default events).toList.map (fun entry => entry.2.id) =
      (toolUses blocks).map ToolUse.id := by
    have same := congrArg (List.map ParsedToolCall.id) finish
    rwa [List.map_map, toolCalls, List.map_map] at same
  have named : ∀ entry ∈ (fillAll slotOf addEvent .default events).toList, entry.2.id ≠ "" := by
    intro entry listed
    have inside : entry.2.id ∈ (toolUses blocks).map ToolUse.id := ids ▸ List.mem_map_of_mem listed
    obtain ⟨tool, member, same⟩ := List.mem_map.mp inside
    exact same ▸ wellFormed.named tool member
  have slots : (fillAll slotOf addEvent .default events).toList.map Prod.fst =
      (toolUses blocks).map fun tool => callSlot tool.index := by
    rw [← List.forall₂_eq_eq_eq, List.forall₂_map_left_iff, List.forall₂_map_right_iff, List.forall₂_iff_zip] at ids ⊢
    refine ⟨ids.1, fun {entry tool} pair => ?_⟩
    obtain ⟨listed, member⟩ := List.of_mem_zip pair
    obtain ⟨own, used, same, slot⟩ := wellFormed.slot_of_tool named listed
    -- two tools with the id of the call are one
    have is : own = tool := List.inj_on_of_nodup_map wellFormed.ids used member (same.trans (ids.2 pair))
    rw [← is, slot]
  constructor
  · intro index text
    obtain ⟨e, there, same, -⟩ := wellFormed.start_of_block text
    have opened : ¬ ownRecords slotOf (slotOf e) events = [] := by
      rw [ownRecords_eq_nil]
      exact fun none => none e there rfl
    have held : (fillAll slotOf addEvent .default events)[slotOf e]? = _ := getElem?_fillAll (slotOf e)
    rw [if_neg opened, ← Std.ExtTreeMap.mem_toList_iff_getElem?_eq_some] at held
    obtain ⟨tool, used, -, slot⟩ := wellFormed.slot_of_tool named held
    exact ⟨tool, used, by rw [slot, slotOf, same]⟩
  · rw [← List.pairwise_map (R := (· < ·)), ← slots, List.pairwise_map]
    exact (fillAll slotOf addEvent .default events).ordered_keys_toList.imp Nat.compare_eq_lt.mp

end WellFormed

/-- The stream comes out as its tool calls exactly when the slots are those of the tools. -/
theorem tools_come_out_iff (json : ValueJson) {stream : List Value} (wellFormed : WellFormed blocks events)
    (reads : List.Forall₂ ContentEvent.Reads stream events) :
    (∃ parser, (ToolCallParser.new .anthropic).feedAll json stream = (.ok (), parser) ∧
        parser.finish = toolCalls blocks events) ↔ Separate blocks := by
  have fed := feedAll_reads json reads ∅
  constructor
  · rintro ⟨parser, all, finish⟩
    rw [ToolCallParser.new, fed] at all
    cases all
    exact wellFormed.separate_of_finish finish
  · intro separate
    exact ⟨_, fed, wellFormed.finish_of_separate separate⟩

end

section

-- The value of an event as the provider sends it.
def ContentEvent.toValue (e : ContentEvent) : Value :=
  let event (kind : String) (fields : List (String × Value)) : Value :=
    .object (fields ++ [("index", .number (.posInt e.index)), ("type", .string kind)])
  match e.event with
  | .start .text =>
    event "content_block_start" [("content_block", .object [("text", .string ""), ("type", .string "text")])]
  | .start (.toolUse id name) =>
    event "content_block_start" [("content_block", .object [("id", .string id), ("input", .object []),
      ("name", .string name), ("type", .string "tool_use")])]
  | .textDelta =>
    event "content_block_delta" [("delta", .object [("text", .string "Let me see."), ("type", .string "text_delta")])]
  | .inputJsonDelta partialJson =>
    event "content_block_delta" [("delta", .object [("partial_json", .string partialJson),
      ("type", .string "input_json_delta")])]
  | .stop => event "content_block_stop" []

theorem reads_toValue (events : List ContentEvent) :
    List.Forall₂ ContentEvent.Reads (events.map ContentEvent.toValue) events := by
  rw [List.forall₂_map_left_iff, List.forall₂_same]
  rintro ⟨index, event⟩ -
  refine ⟨?_, ?_⟩
  · cases event with
    | start block => cases block <;> rfl
    | _ => rfl
  · cases event with
    | start block =>
      cases block with
      | text => exact ⟨⟨_, rfl, rfl⟩, rfl⟩
      | toolUse id name =>
        refine ⟨⟨_, rfl, rfl, rfl, rfl, ?_⟩, rfl⟩
        rintro input ⟨⟩
        rfl
    | textDelta => exact ⟨rfl, _, rfl, rfl⟩
    | inputJsonDelta partialJson => exact ⟨rfl, _, rfl, rfl, rfl⟩
    | stop => exact ⟨rfl, rfl⟩

def searchBlock : List (UInt64 × ContentBlock) := [(1, .toolUse "toolu_1" "search")]

def searchEvents : List ContentEvent :=
  [⟨1, .start (.toolUse "toolu_1" "search")⟩, ⟨1, .inputJsonDelta "[1"⟩, ⟨1, .inputJsonDelta "]"⟩, ⟨1, .stop⟩]

def chatBlocks : List (UInt64 × ContentBlock) := (0, .text) :: searchBlock

def chatEvents : List ContentEvent := ⟨0, .start .text⟩ :: ⟨0, .textDelta⟩ :: ⟨0, .stop⟩ :: searchEvents

theorem search_wellFormed : WellFormed searchBlock searchEvents where
  increasing := List.pairwise_singleton _ _
  covered := by simp [searchBlock, searchEvents]
  started := by
    intro entry member
    obtain rfl := List.mem_singleton.mp member
    refine ⟨[.inputJsonDelta "[1", .inputJsonDelta "]", .stop], rfl, ?_⟩
    simp [BlockEvent.Continues]
  ids := List.nodup_singleton _
  named := by simp [searchBlock, toolUses]

theorem search_comes_out :
    ∃ parser, (ToolCallParser.new .anthropic).feedAll idleJson (searchEvents.map ContentEvent.toValue) =
        (.ok (), parser) ∧ parser.finish = toolCalls searchBlock searchEvents := by
  apply (tools_come_out_iff idleJson search_wellFormed (reads_toValue searchEvents)).mpr
  exact ⟨by simp [searchBlock], by simp [searchBlock, toolUses]⟩

theorem chat_wellFormed : WellFormed chatBlocks chatEvents where
  increasing := by simp [chatBlocks, searchBlock]
  covered := by simp [chatBlocks, chatEvents, searchBlock, searchEvents]
  started := by
    intro entry member
    rcases List.mem_cons.mp member with rfl | later
    · refine ⟨[.textDelta, .stop], rfl, ?_⟩
      simp [BlockEvent.Continues]
    · obtain rfl := List.mem_singleton.mp later
      refine ⟨[.inputJsonDelta "[1", .inputJsonDelta "]", .stop], rfl, ?_⟩
      simp [BlockEvent.Continues]
  ids := List.nodup_singleton _
  named := by simp [chatBlocks, searchBlock, toolUses]

-- The text before the call leaves a call without a name.
theorem text_leaves_call :
    WellFormed chatBlocks chatEvents ∧
      List.Forall₂ ContentEvent.Reads (chatEvents.map ContentEvent.toValue) chatEvents ∧
      toolCalls chatBlocks chatEvents = [{ id := "toolu_1", name := "search", argumentsRaw := "[1]" }] ∧
      ((ToolCallParser.new .anthropic).feedAll idleJson (chatEvents.map ContentEvent.toValue)).2.finish =
        [{ id := "", name := "", argumentsRaw := "" },
          { id := "toolu_1", name := "search", argumentsRaw := "[1]" }] :=
  ⟨chat_wellFormed, reads_toValue chatEvents, rfl, rfl⟩

end

end AtomrAgents
