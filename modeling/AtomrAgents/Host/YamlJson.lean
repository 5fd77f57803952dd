import AtomrAgents.Host.Markdown
import AtomrAgents.Shared.InsertAll

set_option autoImplicit false

namespace AtomrAgents

open Shared

def Yaml.isString (key : String) : Yaml → Bool
  | .string s => s = key
  | _ => false

-- `Mapping::insert` under a string: in the place of the entry that is there, or at the end.
def mappingInsert (entries : List (Yaml × Yaml)) (key : String) (value : Yaml) : List (Yaml × Yaml) :=
  if entries.any fun entry => entry.1.isString key then
    entries.map fun entry => if entry.1.isString key then (entry.1, value) else entry
  else entries ++ [(.string key, value)]

mutual

def jsonToYaml : Value → Yaml
  | .null => .null
  | .bool b => .bool b
  | .number n => .number n
  | .string s => .string s
  | .array items => .sequence (itemsToYaml items)
  | .object fields => .mapping (fieldsToYaml fields [])

def itemsToYaml : List Value → List Yaml
  | [] => []
  | item :: items => jsonToYaml item :: itemsToYaml items

def fieldsToYaml : List (String × Value) → List (Yaml × Yaml) → List (Yaml × Yaml)
  | [], entries => entries
  | (key, value) :: fields, entries => fieldsToYaml fields (mappingInsert entries key (jsonToYaml value))

end

def insertValues (entries : List (Yaml × Yaml)) (values : Values) : List (Yaml × Yaml) :=
  values.toList.foldl (fun entries field => mappingInsert entries field.1 (jsonToYaml field.2)) entries

def Number.Finite : Number → Prop
  | .float bits => isFinite bits = true
  | _ => True

mutual

def Value.IsJson : Value → Prop
  | .null | .bool _ | .string _ => True
  | .number n => n.Finite
  | .array items => ItemsJson items
  | .object fields => Ascending compare fields ∧ FieldsJson fields

def ItemsJson : List Value → Prop
  | [] => True
  | item :: items => item.IsJson ∧ ItemsJson items

def FieldsJson : List (String × Value) → Prop
  | [] => True
  | (_, value) :: fields => value.IsJson ∧ FieldsJson fields

end

structure JsonValue where
  value : Value
  isJson : value.IsJson

def stringEntries (fields : List (String × Yaml)) : List (Yaml × Yaml) :=
  fields.map fun field => (.string field.1, field.2)

theorem stringEntries_append (front back : List (String × Yaml)) :
    stringEntries (front ++ back) = stringEntries front ++ stringEntries back := List.map_append

theorem mappingInsert_fresh {fields : List (String × Yaml)} {key : String} (fresh : key ∉ fields.map Prod.fst)
    (value : Yaml) : mappingInsert (stringEntries fields) key value = stringEntries (fields ++ [(key, value)]) := by
  have missing : (stringEntries fields).any (fun entry => entry.1.isString key) = false := by
    rw [List.any_eq_false]
    intro entry member
    obtain ⟨field, inside, rfl⟩ := List.mem_map.mp member
    have different : field.1 ≠ key := fun same => fresh (same ▸ List.mem_map_of_mem inside)
    simpa [Yaml.isString] using different
  rw [mappingInsert, missing, stringEntries_append]
  rfl

theorem foldl_mappingInsert (more fields : List (String × Yaml)) (distinct : ((fields ++ more).map Prod.fst).Nodup) :
    more.foldl (fun entries field => mappingInsert entries field.1 field.2) (stringEntries fields) =
      stringEntries (fields ++ more) := by
  induction more generalizing fields with
  | nil => rw [List.foldl_nil, List.append_nil]
  | cons field more ih =>
    rw [List.append_cons] at distinct
    have fresh : field.1 ∉ fields.map Prod.fst := by
      rw [List.map_append, List.nodup_append, List.map_append] at distinct
      have apart := (List.nodup_append.mp distinct.1).2.2
      exact fun member => apart _ member _ (by simp) rfl
    rw [List.foldl_cons, mappingInsert_fresh fresh, ih _ distinct, ← List.append_cons]

theorem fieldsToYaml_eq (fields : List (String × Value)) (entries : List (Yaml × Yaml)) :
    fieldsToYaml fields entries =
      (fields.map fun field => (field.1, jsonToYaml field.2)).foldl
        (fun entries field => mappingInsert entries field.1 field.2) entries := by
  induction fields generalizing entries with
  | nil => rw [fieldsToYaml, List.map_nil, List.foldl_nil]
  | cons field fields ih => rw [fieldsToYaml, ih, List.map_cons, List.foldl_cons]

theorem fieldsToYaml_of_nodup {fields : List (String × Value)} (distinct : (fields.map Prod.fst).Nodup) :
    fieldsToYaml fields [] = stringEntries (fields.map fun field => (field.1, jsonToYaml field.2)) := by
  have keys : (fields.map fun field => (field.1, jsonToYaml field.2)).map Prod.fst = fields.map Prod.fst := by
    rw [List.map_map]
    rfl
  rw [fieldsToYaml_eq]
  exact foldl_mappingInsert _ [] (by rw [List.nil_append, keys]; exact distinct)

variable {serde : SerdeYaml}

theorem entriesToJson_stringEntries (fields : List (String × Yaml)) (values : Values) :
    entriesToJson serde (stringEntries fields) values =
      insertAll (fields.map fun field => (field.1, yamlToJson serde field.2)) values := by
  induction fields generalizing values with
  | nil => rw [stringEntries, List.map_nil, List.map_nil, entriesToJson]; rfl
  | cons field fields ih =>
    have step := ih (values.insert field.1 (yamlToJson serde field.2))
    rw [stringEntries] at step
    rw [stringEntries, List.map_cons, entriesToJson, keyText]
    exact step

theorem entriesToJson_fields {fields : List (String × Value)} (distinct : (fields.map Prod.fst).Nodup)
    (back : ∀ field ∈ fields, yamlToJson serde (jsonToYaml field.2) = field.2) :
    entriesToJson serde (fieldsToYaml fields []) ∅ = insertAll fields ∅ := by
  have same : (fields.map fun field => (field.1, jsonToYaml field.2)).map
      (fun field => (field.1, yamlToJson serde field.2)) = fields := by
    rw [List.map_map]
    refine (List.map_congr_left fun field member => ?_).trans (List.map_id fields)
    simp [back field member]
  rw [fieldsToYaml_of_nodup distinct, entriesToJson_stringEntries, same]

mutual

theorem yamlToJson_jsonToYaml (serde : SerdeYaml) (v : Value) (json : v.IsJson) :
    yamlToJson serde (jsonToYaml v) = v := by
  cases v with
  | null | bool | string => rw [jsonToYaml, yamlToJson]
  | number n =>
    rw [jsonToYaml, yamlToJson]
    cases n with
    | posInt | negInt => rfl
    | float bits => rw [numberToJson, if_pos (show isFinite bits = true from json)]
  | array items => rw [jsonToYaml, yamlToJson, itemsToJson_itemsToYaml serde items json]
  | object fields =>
    rw [Value.IsJson] at json
    rw [jsonToYaml, yamlToJson, entriesToJson_fields json.1.nodup (fieldsToJson_back serde fields json.2),
      Value.ofValues, toList_insertAll json.1]

theorem itemsToJson_itemsToYaml (serde : SerdeYaml) (items : List Value) (json : ItemsJson items) :
    itemsToJson serde (itemsToYaml items) = items := by
  cases items with
  | nil => rfl
  | cons item items =>
    rw [itemsToYaml, itemsToJson, yamlToJson_jsonToYaml serde item json.1, itemsToJson_itemsToYaml serde items json.2]

theorem fieldsToJson_back (serde : SerdeYaml) (fields : List (String × Value)) (json : FieldsJson fields) :
    ∀ field ∈ fields, yamlToJson serde (jsonToYaml field.2) = field.2 := by
  cases fields with
  | nil => exact List.forall_mem_nil _
  | cons field fields =>
    rw [FieldsJson] at json
    rw [List.forall_mem_cons]
    exact ⟨yamlToJson_jsonToYaml serde field.2 json.1, fieldsToJson_back serde fields json.2⟩

end

theorem entriesToJson_insertValues (serde : SerdeYaml) {values : Values} (json : FieldsJson values.toList) :
    entriesToJson serde (insertValues [] values) ∅ = values := by
  have printed : insertValues [] values = fieldsToYaml values.toList [] := by
    rw [fieldsToYaml_eq, List.foldl_map, insertValues]
  rw [printed, entriesToJson_fields (ascending_toList values).nodup (fieldsToJson_back serde _ json), insertAll_toList]

def AllJson (values : Values) : Prop := ∀ (key : String) (value : Value), values[key]? = some value → value.IsJson

theorem fieldsJson_iff (fields : List (String × Value)) : FieldsJson fields ↔ ∀ field ∈ fields, field.2.IsJson := by
  induction fields with
  | nil => simp [FieldsJson]
  | cons field fields ih => simp [FieldsJson, ih]

theorem AllJson.insert {values : Values} (json : AllJson values) (key : String) {value : Value} (new : value.IsJson) :
    AllJson (values.insert key value) := by
  intro other old found
  rw [Std.ExtTreeMap.getElem?_insert] at found
  split at found
  · cases found
    exact new
  · exact json other old found

theorem AllJson.fields {values : Values} (json : AllJson values) : FieldsJson values.toList :=
  (fieldsJson_iff _).mpr fun field member =>
    json field.1 field.2 (Std.ExtTreeMap.mem_toList_iff_getElem?_eq_some.mp member)

theorem AllJson.ofValues {values : Values} (json : AllJson values) : (Value.ofValues values).IsJson :=
  ⟨ascending_toList values, json.fields⟩

theorem allJson_empty : AllJson ∅ := by
  intro key value found
  simp at found

theorem numberToJson_isJson (n : Number) : (numberToJson n).IsJson := by
  cases n with
  | posInt | negInt => trivial
  | float bits =>
    rw [numberToJson]
    split
    next finite => exact finite
    next => trivial

mutual

theorem yamlToJson_isJson (serde : SerdeYaml) (y : Yaml) : (yamlToJson serde y).IsJson := by
  cases y with
  | null | bool | string => rw [yamlToJson]; trivial
  | number n => rw [yamlToJson]; exact numberToJson_isJson n
  | sequence items => rw [yamlToJson]; exact itemsToJson_isJson serde items
  | mapping entries => rw [yamlToJson]; exact (entriesToJson_allJson serde entries ∅ allJson_empty).ofValues
  | tagged tag value => rw [yamlToJson]; exact yamlToJson_isJson serde value

theorem itemsToJson_isJson (serde : SerdeYaml) (items : List Yaml) : ItemsJson (itemsToJson serde items) := by
  cases items with
  | nil => trivial
  | cons item items => exact ⟨yamlToJson_isJson serde item, itemsToJson_isJson serde items⟩

theorem entriesToJson_allJson (serde : SerdeYaml) (entries : List (Yaml × Yaml)) (values : Values)
    (json : AllJson values) : AllJson (entriesToJson serde entries values) := by
  cases entries with
  | nil => exact json
  | cons entry entries =>
    obtain ⟨key, value⟩ := entry
    rw [entriesToJson]
    split
    · exact entriesToJson_allJson serde entries _ (json.insert _ (yamlToJson_isJson serde value))
    · exact entriesToJson_allJson serde entries values json

end

end AtomrAgents
