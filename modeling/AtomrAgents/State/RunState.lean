import AtomrAgents.Core.Value

set_option autoImplicit false

namespace AtomrAgents

abbrev Writes := List (String × Value)

structure Channel where
  reducer : Value → Value → Value
  default : Value

structure StateSchema where
  channels : Std.ExtTreeMap String Channel compare

namespace StateSchema

def builder : StateSchema := { channels := ∅ }

def addWithDefault (schema : StateSchema) (key : String) (reducer : Value → Value → Value)
    (default : Value) : StateSchema :=
  { channels := schema.channels.insert key { reducer, default } }

def add (schema : StateSchema) (key : String) (reducer : Value → Value → Value) : StateSchema :=
  schema.addWithDefault key reducer .null

def channel (schema : StateSchema) (key : String) : Option Channel := schema.channels[key]?

def defaults (schema : StateSchema) : Values := schema.channels.map (fun _ channel => channel.default)

end StateSchema

structure RunState where
  schema : StateSchema
  values : Values
  superStep : Nat

namespace RunState

def new (schema : StateSchema) : RunState :=
  { schema, values := schema.defaults, superStep := 0 }

def fromSnapshot (schema : StateSchema) (values : Values) (superStep : Nat) : RunState :=
  { schema, values, superStep }

def advance (state : RunState) : RunState := { state with superStep := state.superStep + 1 }

def read (state : RunState) (key : String) : Value := state.values[key]?.getD .null

def snapshot (state : RunState) : Values := state.values

-- `&mut self`: the state comes back also when the write is refused.
def write (state : RunState) (key : String) (value : Value) : Except AgentError Unit × RunState :=
  match state.schema.channel key with
  | none => (.error (.internal ("unknown channel '" ++ key ++ "'")), state)
  | some channel =>
    let current := state.values[key]?.getD .null
    let values := state.values.erase key
    (.ok (), { state with values := values.insert key (channel.reducer current value) })

def mergeWrites (state : RunState) : Writes → Except AgentError Unit × RunState
  | [] => (.ok (), state)
  | (key, value) :: rest =>
    match state.write key value with
    | (.error e, state) => (.error e, state)
    | (.ok _, state) => state.mergeWrites rest

-- `state.merge_writes(writes)?; state.advance();`
def commit (state : RunState) (writes : Writes) : Except AgentError RunState :=
  match state.mergeWrites writes with
  | (.error e, _) => .error e
  | (.ok _, state) => .ok state.advance

@[simp] theorem advance_values (state : RunState) : state.advance.values = state.values := rfl
@[simp] theorem advance_schema (state : RunState) : state.advance.schema = state.schema := rfl
@[simp] theorem advance_superStep (state : RunState) :
    state.advance.superStep = state.superStep + 1 := rfl
@[simp] theorem fromSnapshot_superStep (schema : StateSchema) (values : Values) (n : Nat) :
    (fromSnapshot schema values n).superStep = n := rfl
@[simp] theorem fromSnapshot_values (schema : StateSchema) (values : Values) (n : Nat) :
    (fromSnapshot schema values n).values = values := rfl
@[simp] theorem fromSnapshot_schema (schema : StateSchema) (values : Values) (n : Nat) :
    (fromSnapshot schema values n).schema = schema := rfl

theorem write_frame (state : RunState) (key : String) (value : Value) :
    (state.write key value).2.schema = state.schema ∧
      (state.write key value).2.superStep = state.superStep := by
  unfold write
  cases state.schema.channel key <;> exact ⟨rfl, rfl⟩

theorem mergeWrites_frame (state : RunState) (writes : Writes) :
    (state.mergeWrites writes).2.schema = state.schema ∧
      (state.mergeWrites writes).2.superStep = state.superStep := by
  induction writes generalizing state with
  | nil => exact ⟨rfl, rfl⟩
  | cons entry rest ih =>
    obtain ⟨key, value⟩ := entry
    have first := write_frame state key value
    unfold mergeWrites
    cases outcome : state.write key value with
    | mk result next =>
      rw [outcome] at first
      cases result with
      | error e => exact first
      | ok _ => exact ⟨(ih next).1.trans first.1, (ih next).2.trans first.2⟩

theorem commit_frame {state next : RunState} {writes : Writes}
    (committed : state.commit writes = .ok next) :
    next.schema = state.schema ∧ next.superStep = state.superStep + 1 := by
  have frame := mergeWrites_frame state writes
  unfold commit at committed
  cases merged : state.mergeWrites writes with
  | mk result after =>
    rw [merged] at committed frame
    cases result with
    | error e => cases committed
    | ok _ =>
      cases committed
      exact ⟨frame.1, congrArg (· + 1) frame.2⟩

theorem mergeWrites_ok_iff (state : RunState) (writes : Writes) :
    (state.mergeWrites writes).1 = .ok () ↔
      ∀ entry ∈ writes, (state.schema.channel entry.1).isSome := by
  induction writes generalizing state with
  | nil => simp [mergeWrites]
  | cons entry rest ih =>
    obtain ⟨key, value⟩ := entry
    cases found : state.schema.channel key with
    | none => simp [mergeWrites, write, found]
    | some channel => simp [mergeWrites, write, found, ih]

end RunState

end AtomrAgents
