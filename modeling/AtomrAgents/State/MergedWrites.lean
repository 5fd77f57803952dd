import AtomrAgents.State.Reducer
import AtomrAgents.State.RunState

set_option autoImplicit false

namespace AtomrAgents

namespace StateSchema

variable (schema : StateSchema)

def landed (writes : Writes) : Writes := writes.takeWhile fun entry => (schema.channel entry.1).isSome

def writesTo (key : String) (writes : Writes) : List Value :=
  ((schema.landed writes).filter fun entry => entry.1 = key).map Prod.snd

def folded (key : String) (held : Option Value) (written : List Value) : Option Value :=
  match schema.channel key with
  | none => held
  | some channel => written.foldl (fun held value => some (channel.reducer (held.getD .null) value)) held

variable {schema} {key : String} {channel : Channel}

theorem folded_cons (found : schema.channel key = some channel) (held : Option Value) (value : Value)
    (rest : List Value) :
    schema.folded key held (value :: rest) =
      schema.folded key (some (channel.reducer (held.getD .null) value)) rest := by
  simp [folded, found]

theorem folded_nil (held : Option Value) : schema.folded key held [] = held := by
  unfold folded
  cases schema.channel key <;> rfl

theorem folded_append (held : Option Value) (xs ys : List Value) :
    schema.folded key held (xs ++ ys) = schema.folded key (schema.folded key held xs) ys := by
  unfold folded
  cases schema.channel key with
  | none => rfl
  | some channel => exact List.foldl_append

end StateSchema

namespace RunState

open StateSchema

theorem write_values {state : RunState} {key : String} {channel : Channel}
    (found : state.schema.channel key = some channel) (value : Value) (other : String) :
    (state.write key value).2.values[other]? =
      if key = other then some (channel.reducer (state.values[key]?.getD .null) value)
      else state.values[other]? := by
  simp only [write, found, Std.ExtTreeMap.getElem?_insert, Std.ExtTreeMap.getElem?_erase, compare_eq_iff_eq]
  by_cases same : key = other <;> simp [same]

theorem mergeWrites_values (state : RunState) (writes : Writes) (key : String) :
    (state.mergeWrites writes).2.values[key]? =
      state.schema.folded key state.values[key]? (state.schema.writesTo key writes) := by
  induction writes generalizing state with
  | nil => exact (folded_nil _).symm
  | cons entry rest ih =>
    obtain ⟨name, value⟩ := entry
    cases found : state.schema.channel name with
    | none => simp [mergeWrites, write, found, writesTo, landed, folded_nil]
    | some channel =>
      have frame := write_frame state name value
      have values := write_values found value key
      have written : state.schema.writesTo key ((name, value) :: rest) =
          if name = key then value :: state.schema.writesTo key rest else state.schema.writesTo key rest := by
        have lands : state.schema.landed ((name, value) :: rest) = (name, value) :: state.schema.landed rest :=
          List.takeWhile_cons_of_pos (by simp [found])
        rw [writesTo, lands, List.filter_cons]
        by_cases same : name = key <;> simp [writesTo, same]
      have step : state.mergeWrites ((name, value) :: rest) =
          (state.write name value).2.mergeWrites rest := by
        simp [mergeWrites, write, found]
      rw [step, ih, frame.1, values, written]
      by_cases same : name = key
      · subst same
        simp only [if_true, folded_cons found]
      · simp only [if_neg same]

def Idle (state : RunState) (writes : Writes) : Prop :=
  ∀ entry ∈ state.schema.landed writes,
    state.schema.folded entry.1 state.values[entry.1]? (state.schema.writesTo entry.1 writes) =
      state.values[entry.1]?

theorem mergeWrites_idle_iff (state : RunState) (writes : Writes) :
    (state.mergeWrites writes).2.values = state.values ↔ state.Idle writes := by
  constructor
  · intro same entry _
    rw [← mergeWrites_values, same]
  · intro idle
    apply Std.ExtTreeMap.ext_getElem?
    intro key
    rw [mergeWrites_values]
    by_cases named : ∃ entry ∈ state.schema.landed writes, entry.1 = key
    · obtain ⟨entry, member, rfl⟩ := named
      exact idle entry member
    · have none : state.schema.writesTo key writes = [] := by
        rw [writesTo, List.filter_eq_nil_iff.mpr, List.map_nil]
        intro entry member same
        exact named ⟨entry, member, by simpa using same⟩
      rw [none, folded_nil]

/-- A refused batch leaves the state alone exactly when what comes before the unknown channel does. -/
theorem mergeWrites_atomic_iff (state : RunState) (writes : Writes) :
    (∀ e, (state.mergeWrites writes).1 = .error e →
        (state.mergeWrites writes).2.values = state.values ∧
          (state.mergeWrites writes).2.superStep = state.superStep) ↔
      (∀ entry ∈ writes, (state.schema.channel entry.1).isSome) ∨ state.Idle writes := by
  rw [← mergeWrites_ok_iff, ← mergeWrites_idle_iff]
  cases outcome : (state.mergeWrites writes).1 with
  | ok done => simp
  | error e => simp [(mergeWrites_frame state writes).2]

def messagesSchema : StateSchema := StateSchema.builder.add "messages" AppendMessages.reduce

def misspelled : Writes := [("messages", .string "hi"), ("mesages", .string "hi")]

-- The first write has landed when the second one is refused.
theorem refused_batch_lands :
    ((new messagesSchema).mergeWrites misspelled).1 = .error (.internal "unknown channel 'mesages'") ∧
      (new messagesSchema).values["messages"]? = some .null ∧
      ((new messagesSchema).mergeWrites misspelled).2.values["messages"]? =
        some (.array [.string "hi"]) := ⟨rfl, rfl, rfl⟩

end RunState

end AtomrAgents

namespace AtomrAgents

open Shared StateSchema

namespace RunState

def mergeAll (state : RunState) (batches : List Writes) : RunState :=
  batches.foldl (fun state writes => (state.mergeWrites writes).2) state

theorem mergeAll_schema (state : RunState) (batches : List Writes) :
    (state.mergeAll batches).schema = state.schema := by
  induction batches generalizing state with
  | nil => rfl
  | cons writes rest ih => exact (ih _).trans (mergeWrites_frame state writes).1

theorem mergeAll_values (state : RunState) (batches : List Writes) (key : String) :
    (state.mergeAll batches).values[key]? =
      state.schema.folded key state.values[key]? (batches.flatMap (state.schema.writesTo key)) := by
  induction batches generalizing state with
  | nil => exact (folded_nil _).symm
  | cons writes rest ih =>
    have frame := (mergeWrites_frame state writes).1
    have after := ih (state.mergeWrites writes).2
    rw [frame, mergeWrites_values] at after
    rw [List.flatMap_cons, folded_append]
    exact after

end RunState

open RunState

section

variable {schema : StateSchema} {key : String} {channel : Channel}

theorem new_values (found : schema.channel key = some channel) :
    (RunState.new schema).values[key]? = some channel.default := by
  have here : schema.channels[key]? = some channel := found
  simp [RunState.new, StateSchema.defaults, Std.ExtTreeMap.getElem?_map, here]

theorem folded_messages (found : schema.channel key = some channel)
    (reducer : channel.reducer = AppendMessages.reduce) (held : Value) (written : List Value) :
    schema.folded key (some held) written =
      if written = [] then some held
      else some (.array (upserts messageId held.items (written.flatMap Value.items))) := by
  induction written generalizing held with
  | nil => exact folded_nil _
  | cons value rest ih =>
    rw [folded_cons found, ih, if_neg (List.cons_ne_nil value rest), reducer]
    cases rest with
    | nil => simp [AppendMessages.reduce]
    | cons next rest => simp [AppendMessages.reduce, upserts_append]

structure Appended (written out : List Value) : Prop where
  array : out = (heads messageId [] written).map (current messageId written)
  distinct : Distinct messageId out
  last : ∀ id, standing messageId out id = latest messageId written id
  keyless : out.filter (messageId · = none) = written.filter (messageId · = none)

theorem appended_upserts (written : List Value) : Appended written (upserts messageId [] written) where
  array := upserts_eq_heads written
  distinct := distinct_nil.upserts written
  last id := by
    rw [standing_upserts]
    exact Option.or_none
  keyless := filter_keyless_upserts written

theorem upserts_standing {out ms : List Value}
    (stand : ∀ m ∈ ms, ∃ id, messageId m = some id ∧ standing messageId out id = some m) :
    upserts messageId out ms = out := by
  induction ms with
  | nil => rfl
  | cons m ms ih =>
    obtain ⟨id, -, stands⟩ := stand m List.mem_cons_self
    rw [upserts_cons, upsert_standing stands]
    exact ih fun m member => stand m (List.mem_cons_of_mem _ member)

/-- The values written to the channel make it an array, and until then it holds its default. -/
theorem appended_messages (found : schema.channel key = some channel)
    (reducer : channel.reducer = AppendMessages.reduce)
    (distinct : Distinct messageId channel.default.items) (batches : List Writes) :
    let values := batches.flatMap (schema.writesTo key)
    let state := (RunState.new schema).mergeAll batches
    (values = [] ∧ state.values[key]? = some channel.default) ∨
      ∃ out, state.values[key]? = some (.array out) ∧
        Appended (channel.default.items ++ values.flatMap Value.items) out ∧
        ∀ again : Writes,
          (∀ value ∈ schema.writesTo key again, ∀ m ∈ value.items,
            ∃ id, messageId m = some id ∧ standing messageId out id = some m) →
          (state.mergeWrites again).2.values[key]? = state.values[key]? := by
  intro values state
  have held : state.values[key]? = schema.folded key (some channel.default) values := by
    have fresh := mergeAll_values (RunState.new schema) batches key
    rwa [new_values found] at fresh
  rw [folded_messages found reducer] at held
  by_cases none : values = []
  · exact .inl ⟨none, by rw [held, if_pos none]⟩
  · rw [if_neg none] at held
    refine .inr ⟨_, held, ?_, ?_⟩
    · have whole := appended_upserts (channel.default.items ++ values.flatMap Value.items)
      rwa [upserts_append, upserts_of_distinct distinct] at whole
    · intro again stand
      have same : state.schema = schema := mergeAll_schema _ _
      rw [mergeWrites_values, same, held, folded_messages found reducer]
      split
      · rfl
      · rw [Value.items_array, upserts_standing]
        intro m member
        obtain ⟨value, inside, item⟩ := List.mem_flatMap.mp member
        exact stand value inside m item

end

-- An edit of the first message takes its place, and a message without an id stays.
theorem edited_messages :
    ∃ out, ((RunState.new messagesSchema).mergeAll
        [[("messages", message "draft"), ("messages", .string "note")], [("messages", .array [message "final"])]]
        ).values["messages"]? = some (.array out) ∧
      out = [message "final", .string "note"] ∧ Distinct messageId out := by
  have appended := @appended_messages messagesSchema "messages" { reducer := AppendMessages.reduce, default := .null }
    rfl rfl distinct_nil
    [[("messages", message "draft"), ("messages", .string "note")], [("messages", .array [message "final"])]]
  rcases appended with ⟨none, -⟩ | ⟨out, held, appended, -⟩
  · cases none
  · exact ⟨out, held, appended.array, appended.distinct⟩

end AtomrAgents
