import AtomrAgents.Core.Value
import AtomrAgents.Shared.KeyedAppend
import Mathlib.Algebra.Group.Int.Defs

set_option autoImplicit false

namespace AtomrAgents

open Shared

namespace Value

-- `Array(v) => v, Null => Vec::new(), other => vec![other]`
def items : Value → List Value
  | .array items => items
  | .null => []
  | other => [other]

@[simp] theorem items_array (items : List Value) : (Value.array items).items = items := rfl

-- `match current { Value::Object(m) => m, _ => Map::new() }`
def fields : Value → Values
  | .object fields => .ofList fields
  | _ => ∅

@[simp] theorem fields_ofValues (values : Values) : (ofValues values).fields = values := by
  apply Std.ExtTreeMap.ext_getElem?
  intro key
  have distinct := values.distinct_keys_toList
  cases found : values[key]? with
  | some value =>
    have entry := Std.ExtTreeMap.mem_toList_iff_getElem?_eq_some.mpr found
    exact Std.ExtTreeMap.getElem?_ofList_of_mem Std.ReflCmp.compare_self distinct entry
  | none =>
    apply Std.ExtTreeMap.getElem?_ofList_of_contains_eq_false
    rw [Std.ExtTreeMap.map_fst_toList_eq_keys]
    simpa using found

end Value

def LastWriteWins.reduce (_current incoming : Value) : Value := incoming

def AppendList.reduce (current incoming : Value) : Value := .array (current.items ++ incoming.items)

def messageId (message : Value) : Option String := (message.get "id").bind Value.asStr

def AppendMessages.reduce (current incoming : Value) : Value :=
  .array (upserts messageId current.items incoming.items)

def MergeMap.reduce (current incoming : Value) : Value :=
  .ofValues (match incoming with
    | .object m => current.fields.insertMany m
    | _ => current.fields)

-- `i64::MIN` where there is no such time.
def timestamp (value : Value) : Int := ((value.get "ts_ms").bind Value.asI64).getD (-2 ^ 63)

def MaxByTimestamp.reduce (current incoming : Value) : Value :=
  if timestamp incoming ≥ timestamp current then incoming else current

inductive BuiltinReducer where
  | lastWriteWins
  | appendList
  | appendMessages
  | mergeMap
  | maxByTimestamp

def BuiltinReducer.reduce : BuiltinReducer → Value → Value → Value
  | .lastWriteWins => LastWriteWins.reduce
  | .appendList => AppendList.reduce
  | .appendMessages => AppendMessages.reduce
  | .mergeMap => MergeMap.reduce
  | .maxByTimestamp => MaxByTimestamp.reduce

def AssociatesOn (reduce : Value → Value → Value) (a b c : Value) : Prop :=
  reduce (reduce a b) c = reduce a (reduce b c)

variable (a b c : Value)

theorem AppendList.associates : AssociatesOn AppendList.reduce a b c := by
  simp [AssociatesOn, AppendList.reduce]

theorem AppendMessages.associates_iff : AssociatesOn AppendMessages.reduce a b c ↔
    ∀ id message, latest messageId c.items id = some message → Repeated messageId b.items message →
      latest messageId b.items id = some message := by
  rw [← upserts_assoc_iff a.items]
  simp [AssociatesOn, AppendMessages.reduce]

theorem MergeMap.fields_reduce (key : String) :
    (MergeMap.reduce a b).fields[key]? = b.fields[key]?.or a.fields[key]? := by
  unfold MergeMap.reduce
  cases b with
  | object m =>
    rw [Value.fields_ofValues, Std.ExtTreeMap.getElem?_insertMany_list, Value.fields,
      Std.ExtTreeMap.ofList_eq_insertMany_empty, Std.ExtTreeMap.getElem?_insertMany_list]
    simp
  | _ =>
    rw [Value.fields_ofValues]
    simp [Value.fields]

theorem MergeMap.eq_ofValues : MergeMap.reduce a b = .ofValues (MergeMap.reduce a b).fields := by
  unfold MergeMap.reduce
  rw [Value.fields_ofValues]

theorem MergeMap.associates : AssociatesOn MergeMap.reduce a b c := by
  have fields : (reduce (reduce a b) c).fields = (reduce a (reduce b c)).fields := by
    apply Std.ExtTreeMap.ext_getElem?
    intro key
    simp only [fields_reduce, Option.or_assoc]
  rw [AssociatesOn, eq_ofValues (reduce a b) c, fields, ← eq_ofValues]

theorem MaxByTimestamp.associates : AssociatesOn MaxByTimestamp.reduce a b c := by
  unfold AssociatesOn MaxByTimestamp.reduce
  by_cases first : timestamp b ≥ timestamp a <;> by_cases second : timestamp c ≥ timestamp b <;>
    by_cases both : timestamp c ≥ timestamp a <;> simp [first, second, both] <;> omega

-- A message takes the place of the first one with its id, but of those that are handed over the last one counts.
theorem reducers_associate_iff :
    (∀ reducer : BuiltinReducer, AssociatesOn reducer.reduce a b c) ↔
      ∀ id message, latest messageId c.items id = some message → Repeated messageId b.items message →
        latest messageId b.items id = some message := by
  rw [← AppendMessages.associates_iff a]
  constructor
  · intro all
    exact all .appendMessages
  · intro messages reducer
    cases reducer with
    | lastWriteWins => rfl
    | appendList => exact AppendList.associates a b c
    | appendMessages => exact messages
    | mergeMap => exact MergeMap.associates a b c
    | maxByTimestamp => exact MaxByTimestamp.associates a b c

def message (text : String) : Value := .object [("id", .string "m1"), ("text", .string text)]

theorem repeatedId_breaks : ¬ ∀ (reducer : BuiltinReducer) (a b c : Value), AssociatesOn reducer.reduce a b c := by
  intro all
  have keys (text : String) : messageId (message text) = some "m1" := rfl
  have agree := (AppendMessages.associates_iff .null (.array [message "draft", message "old"])
    (.array [message "new"])).mp (all .appendMessages _ _ _)
  have last := agree "m1" (message "new") (by simp [latest, keys]) (by simp [Repeated, keys])
  simp [latest, message] at last

end AtomrAgents
