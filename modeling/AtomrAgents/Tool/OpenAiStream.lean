import AtomrAgents.Tool.ToolCallParser

set_option autoImplicit false

namespace AtomrAgents

open Shared

structure OpenAiDelta where
  index : UInt64
  id : Option String
  name : Option String
  arguments : Option String

namespace OpenAiDelta

-- Nothing but the index has to be there.
def ofValue (item : Value) : Option OpenAiDelta :=
  ((item.get "index").bind Value.asU64).map fun index =>
    { index
      id := (item.get "id").bind Value.asStr
      name := ((item.get "function").bind (·.get "name")).bind Value.asStr
      arguments := ((item.get "function").bind (·.get "arguments")).bind Value.asStr }

def listOfValue (delta : Value) : Option (List OpenAiDelta) :=
  ((delta.get "tool_calls").bind Value.asArray).bind fun arr => arr.mapM ofValue

def addTo (entry : Partial) (delta : OpenAiDelta) : Partial where
  id := delta.id.getD entry.id
  name := entry.name ++ delta.name.getD ""
  args := entry.args ++ delta.arguments.getD ""

variable {item delta : Value} {read : OpenAiDelta} {items : List Value} {reads : List OpenAiDelta}

theorem deltaIndex_of_read (reading : ofValue item = some read) : deltaIndex item = some (callSlot read.index) := by
  unfold ofValue at reading
  obtain ⟨index, found, rfl⟩ := Option.map_eq_some_iff.mp reading
  rw [deltaIndex, found]
  rfl

theorem openai_of_read (reading : ofValue item = some read) (entry : Partial) :
    entry.openai item = addTo entry read := by
  unfold ofValue at reading
  obtain ⟨index, -, rfl⟩ := Option.map_eq_some_iff.mp reading
  cases func : item.get "function" <;> simp [Partial.openai, addTo, func]

def fillCalls (calls : Std.ExtTreeMap Nat Partial compare) (reads : List OpenAiDelta) :
    Std.ExtTreeMap Nat Partial compare :=
  reads.foldl (fill (fun read => callSlot read.index) addTo .default) calls

theorem feedItems_reads (reading : items.mapM ofValue = some reads) (parser : ToolCallParser) :
    parser.feedItems items = (.ok (), { parser with calls := fillCalls parser.calls reads }) := by
  induction items generalizing parser reads with
  | nil =>
    cases reading
    rfl
  | cons item rest ih =>
    simp only [List.mapM_cons, Option.bind_eq_bind, Option.bind_eq_some_iff, Option.pure_def,
      Option.some.injEq] at reading
    obtain ⟨first, read, others, reading, rfl⟩ := reading
    rw [ToolCallParser.feedItems, deltaIndex_of_read read]
    dsimp only
    rw [ih reading]
    simp only [ToolCallParser.entry, openai_of_read read]
    rfl

theorem feedAll_reads {feeds : List Value} {chunks : List (List OpenAiDelta)} (json : ValueJson)
    (reading : feeds.mapM listOfValue = some chunks) (calls : Std.ExtTreeMap Nat Partial compare) :
    ToolCallParser.feedAll json { provider := .openAi, calls } feeds =
      (.ok (), { provider := .openAi, calls := fillCalls calls chunks.flatten }) := by
  induction feeds generalizing calls chunks with
  | nil =>
    cases reading
    rfl
  | cons feed rest ih =>
    simp only [List.mapM_cons, Option.bind_eq_bind, Option.bind_eq_some_iff, Option.pure_def,
      Option.some.injEq] at reading
    obtain ⟨first, read, others, reading, rfl⟩ := reading
    obtain ⟨arr, found, items⟩ := Option.bind_eq_some_iff.mp read
    have fed : ToolCallParser.feed json { provider := .openAi, calls } feed =
        (.ok (), { provider := .openAi, calls := fillCalls calls first }) := by
      simp only [ToolCallParser.feed, ToolCallParser.feedOpenai, found, feedItems_reads items]
    rw [ToolCallParser.feedAll, fed]
    dsimp only
    rw [ih reading, List.flatten_cons]
    simp only [fillCalls, List.foldl_append]

theorem foldl_addTo (entry : Partial) (reads : List OpenAiDelta) :
    reads.foldl addTo entry =
      { id := (reads.filterMap OpenAiDelta.id).getLast?.getD entry.id
        name := entry.name ++ String.join (reads.filterMap OpenAiDelta.name)
        args := entry.args ++ String.join (reads.filterMap OpenAiDelta.arguments) } := by
  induction reads generalizing entry with
  | nil => simp
  | cons read rest ih =>
    rw [List.foldl_cons, ih]
    obtain ⟨index, id, name, arguments⟩ := read
    cases id <;> cases name <;> cases arguments <;> simp [addTo, String.append_assoc, List.getLast?_cons]

structure Cuts (call : ParsedToolCall) (reads : List OpenAiDelta) : Prop where
  seen : reads ≠ []
  id : (reads.filterMap OpenAiDelta.id).getLast?.getD "" = call.id
  name : String.join (reads.filterMap OpenAiDelta.name) = call.name
  arguments : String.join (reads.filterMap OpenAiDelta.arguments) = call.argumentsRaw

theorem Cuts.toCall {call : ParsedToolCall} (cuts : Cuts call reads) :
    (reads.foldl addTo .default).toCall = call := by
  have id := cuts.id
  have name := cuts.name
  have arguments := cuts.arguments
  obtain ⟨callId, callName, argumentsRaw⟩ := call
  simp only at id name arguments
  simp only [foldl_addTo, Partial.toCall, Partial.default, id, name, arguments, String.empty_append]

/-- The calls come out in the order of their indices, whatever the deltas of other calls came in between. -/
theorem calls_come_out (json : ValueJson) {calls : List (Nat × ParsedToolCall)} {feeds : List Value}
    {chunks : List (List OpenAiDelta)} (increasing : calls.Pairwise fun a b => a.1 < b.1)
    (fits : ∀ call ∈ calls, call.1 < 2 ^ 32) (reading : feeds.mapM listOfValue = some chunks)
    (cut : ∀ call ∈ calls, Cuts call.2 (chunks.flatten.filter fun read => read.index.toNat = call.1))
    (covered : ∀ read ∈ chunks.flatten, ∃ call ∈ calls, read.index.toNat = call.1) :
    ∃ parser, (ToolCallParser.new .openAi).feedAll json feeds = (.ok (), parser) ∧
      parser.finish = calls.map Prod.snd := by
  refine ⟨_, feedAll_reads json reading ∅, ?_⟩
  have slots : ∀ read ∈ chunks.flatten, callSlot read.index = read.index.toNat := by
    intro read member
    obtain ⟨call, inside, same⟩ := covered read member
    exact Nat.mod_eq_of_lt (same ▸ fits call inside)
  have own (k : Nat) : ownRecords (fun read => callSlot read.index) k chunks.flatten =
      chunks.flatten.filter fun read => read.index.toNat = k :=
    List.filter_congr fun read member => by simp only [slots read member]
  have opened (k : Nat) : k ∈ calls.map Prod.fst ↔ ∃ read ∈ chunks.flatten, callSlot read.index = k := by
    constructor
    · intro member
      obtain ⟨call, inside, rfl⟩ := List.mem_map.mp member
      obtain ⟨read, seen⟩ := List.exists_mem_of_ne_nil _ (cut call inside).seen
      obtain ⟨there, same⟩ := List.mem_filter.mp seen
      exact ⟨read, there, by rw [slots read there]; simpa using same⟩
    · rintro ⟨read, there, rfl⟩
      obtain ⟨call, inside, same⟩ := covered read there
      rw [slots read there, same]
      exact List.mem_map_of_mem inside
  have listed : (fillCalls ∅ chunks.flatten).toList = (calls.map Prod.fst).map fun k =>
      (k, (ownRecords (fun read => callSlot read.index) k chunks.flatten).foldl addTo .default) :=
    toList_fillAll (List.pairwise_map.mpr increasing) opened
  rw [ToolCallParser.finish]
  dsimp only
  rw [listed, List.map_map, List.map_map]
  apply List.map_congr_left
  intro call inside
  simp only [Function.comp_apply, own]
  exact (cut call inside).toCall

def feedOf (deltas : List (UInt64 × Option String × Option String × String)) : Value :=
  .object [("tool_calls", .array (deltas.map fun (index, id, name, arguments) => .object
    [("function", .object (("arguments", .string arguments) :: (name.map fun n => ("name", Value.string n)).toList)),
      ("id", (id.map Value.string).getD .null), ("index", .number (.posInt index))]))]

theorem two_calls_come_out :
    ∃ parser, (ToolCallParser.new .openAi).feedAll idleJson
        [feedOf [(1, some "b", some "now", "[]"), (0, some "a", some "echo", "[1")], feedOf [(0, none, none, ", 2]")]] =
          (.ok (), parser) ∧
      parser.finish =
        [{ id := "a", name := "echo", argumentsRaw := "[1, 2]" },
          { id := "b", name := "now", argumentsRaw := "[]" }] := by
  have increasing : List.Pairwise (fun a b : Nat × ParsedToolCall => a.1 < b.1)
      [(0, { id := "a", name := "echo", argumentsRaw := "[1, 2]" }),
        (1, { id := "b", name := "now", argumentsRaw := "[]" })] := by decide
  have reading : [feedOf [(1, some "b", some "now", "[]"), (0, some "a", some "echo", "[1")],
        feedOf [(0, none, none, ", 2]")]].mapM listOfValue =
      some [[{ index := 1, id := some "b", name := some "now", arguments := some "[]" },
          { index := 0, id := some "a", name := some "echo", arguments := some "[1" }],
        [{ index := 0, id := none, name := none, arguments := some ", 2]" }]] := rfl
  refine calls_come_out idleJson increasing (by decide) reading ?_ ?_
  · intro call member
    simp only [List.mem_cons, List.not_mem_nil, or_false] at member
    rcases member with rfl | rfl
    · exact ⟨nofun, rfl, rfl, rfl⟩
    · exact ⟨nofun, rfl, rfl, rfl⟩
  · intro read member
    simp only [List.flatten_cons, List.flatten_nil, List.append_nil, List.cons_append, List.nil_append,
      List.mem_cons, List.not_mem_nil, or_false] at member
    rcases member with rfl | rfl | rfl
    · exact ⟨_, .tail _ (.head _), rfl⟩
    · exact ⟨_, .head _, rfl⟩
    · exact ⟨_, .head _, rfl⟩

end OpenAiDelta

end AtomrAgents
