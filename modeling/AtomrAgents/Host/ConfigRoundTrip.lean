import AtomrAgents.Host.Config
import AtomrAgents.Host.YamlBlocks

set_option autoImplicit false

namespace AtomrAgents

open Shared

namespace HostConfig

def topKeys : List String := ["version", "default_agent", "default_model", "providers"]

structure SoundExtra (reserved : List String) (extra : Values) : Prop where
  keys : ∀ (key : String) (value : Value), extra[key]? = some value → key ∉ reserved
  json : AllJson extra

structure SoundProvider (name : String) (provider : ProviderConfig) : Prop where
  name : provider.name = name
  extra : SoundExtra providerKeys provider.extra

structure Sound (cfg : HostConfig) (paths : HostPaths) : Prop where
  paths : cfg.paths = paths
  providers : ∀ (name : String) (provider : ProviderConfig), cfg.providers[name]? = some provider →
    SoundProvider name provider
  extra : SoundExtra topKeys cfg.extra

variable {serde : SerdeYaml} {cfg cfg' : HostConfig} {paths : HostPaths}

section Reading

theorem SoundExtra.empty (reserved : List String) : SoundExtra reserved ∅ where
  keys key value found := by simp at found
  json := allJson_empty

theorem SoundExtra.insert {reserved : List String} {extra : Values} (sound : SoundExtra reserved extra) {key : String}
    (free : key ∉ reserved) {value : Value} (json : value.IsJson) : SoundExtra reserved (extra.insert key value) where
  keys other old found := by
    rw [Std.ExtTreeMap.getElem?_insert] at found
    split at found
    next same => exact compare_eq_iff_eq.mp same ▸ free
    next => exact sound.keys other old found
  json := sound.json.insert key json

theorem providerExtra_sound (entries : List (Yaml × Yaml)) {extra : Values} (sound : SoundExtra providerKeys extra) :
    SoundExtra providerKeys (providerExtra serde entries extra) := by
  induction entries generalizing extra with
  | nil => exact sound
  | cons entry entries ih =>
    rw [providerExtra]
    split
    next => exact ih sound
    next =>
      split
      next => exact ih sound
      next free => exact ih (sound.insert free (yamlToJson_isJson serde _))

theorem readProvider_sound {name : String} {value : Yaml} {provider : ProviderConfig}
    (read : readProvider serde name value = .ok provider) : SoundProvider name provider := by
  unfold readProvider at read
  split at read
  next => cases read
  next =>
    split at read
    next => cases read
    next =>
      cases read
      exact ⟨rfl, providerExtra_sound _ (.empty _)⟩

theorem readProviders_sound {entries : List (Yaml × Yaml)}
    {providers providers' : Std.ExtTreeMap String ProviderConfig compare}
    (sound : ∀ (name : String) (provider : ProviderConfig), providers[name]? = some provider →
      SoundProvider name provider)
    (read : readProviders serde entries providers = .ok providers') :
    ∀ (name : String) (provider : ProviderConfig), providers'[name]? = some provider →
      SoundProvider name provider := by
  induction entries generalizing providers with
  | nil =>
    cases read
    exact sound
  | cons entry entries ih =>
    rw [readProviders] at read
    split at read
    next => cases read
    next name _ =>
      split at read
      next => cases read
      next provider one =>
        refine ih (fun other old found => ?_) read
        rw [Std.ExtTreeMap.getElem?_insert] at found
        split at found
        next same =>
          cases found
          exact compare_eq_iff_eq.mp same ▸ readProvider_sound one
        next => exact sound other old found

theorem readEntry_sound (sound : cfg.Sound paths) {key : String} {value : Yaml}
    (read : readEntry serde cfg key value = .ok cfg') : cfg'.Sound paths := by
  unfold readEntry at read
  split at read
  next =>
    split at read <;>
    · cases read
      exact ⟨sound.paths, sound.providers, sound.extra⟩
  next =>
    cases read
    exact ⟨sound.paths, sound.providers, sound.extra⟩
  next =>
    cases read
    exact ⟨sound.paths, sound.providers, sound.extra⟩
  next =>
    split at read
    next => cases read
    next =>
      split at read
      next => cases read
      next all =>
        cases read
        exact ⟨sound.paths, readProviders_sound sound.providers all, sound.extra⟩
  next =>
    cases read
    refine ⟨sound.paths, sound.providers, sound.extra.insert ?_ (yamlToJson_isJson serde value)⟩
    simp_all [topKeys]

theorem readEntries_sound {entries : List (Yaml × Yaml)} (sound : cfg.Sound paths)
    (read : readEntries serde entries cfg = .ok cfg') : cfg'.Sound paths := by
  induction entries generalizing cfg with
  | nil =>
    cases read
    exact sound
  | cons entry entries ih =>
    rw [readEntries] at read
    split at read
    next => exact ih sound read
    next =>
      split at read
      next => cases read
      next one => exact ih (readEntry_sound sound one) read

theorem sound_emptyAt (paths : HostPaths) : (emptyAt paths).Sound paths where
  paths := rfl
  providers name provider found := by simp [emptyAt] at found
  extra := .empty topKeys

theorem fromYamlValue_sound {raw : Yaml} (read : fromYamlValue serde raw paths = .ok cfg) : cfg.Sound paths := by
  unfold fromYamlValue at read
  split at read
  next => exact readEntries_sound (sound_emptyAt paths) read
  next =>
    cases read
    exact sound_emptyAt paths
  next => cases read

end Reading

section Printing

def optionField (key : String) : Option String → List (String × Yaml)
  | none => []
  | some text => [(key, .string text)]

def extraFields (extra : Values) : List (String × Yaml) :=
  extra.toList.map fun field => (field.1, jsonToYaml field.2)

def providerFields (provider : ProviderConfig) : List (String × Yaml) :=
  [("kind", .string provider.kind)] ++ optionField "api_key_env" provider.apiKeyEnv ++
    optionField "base_url" provider.baseUrl ++ extraFields provider.extra

def providersField (providers : Std.ExtTreeMap String ProviderConfig compare) : List (String × Yaml) :=
  if providers.isEmpty then []
  else [("providers", .mapping (stringEntries
    (providers.toList.map fun named => (named.1, .mapping (stringEntries (providerFields named.2))))))]

def topFields (cfg : HostConfig) : List (String × Yaml) :=
  [("version", .number (.posInt cfg.version.toUInt64))] ++ optionField "default_agent" cfg.defaultAgent ++
    optionField "default_model" cfg.defaultModel ++ providersField cfg.providers ++ extraFields cfg.extra

theorem extraFields_keys (extra : Values) : (extraFields extra).map Prod.fst = extra.toList.map Prod.fst := by
  rw [extraFields, List.map_map]
  rfl

theorem mem_extraFields_keys {extra : Values} {key : String} (member : key ∈ (extraFields extra).map Prod.fst) :
    ∃ value, extra[key]? = some value := by
  rw [extraFields_keys] at member
  obtain ⟨field, inside, rfl⟩ := List.mem_map.mp member
  exact ⟨field.2, Std.ExtTreeMap.mem_toList_iff_getElem?_eq_some.mp inside⟩

theorem optionField_keys (key : String) (text : Option String) :
    List.Sublist ((optionField key text).map Prod.fst) [key] := by
  cases text with
  | none => exact List.nil_sublist _
  | some text => exact List.Sublist.refl _

theorem providersField_keys (providers : Std.ExtTreeMap String ProviderConfig compare) :
    List.Sublist ((providersField providers).map Prod.fst) ["providers"] := by
  rw [providersField]
  split
  · exact List.nil_sublist _
  · exact List.Sublist.refl _

theorem providerKeys_sublist (provider : ProviderConfig) :
    List.Sublist (([("kind", Yaml.string provider.kind)] ++ optionField "api_key_env" provider.apiKeyEnv ++
      optionField "base_url" provider.baseUrl).map Prod.fst) providerKeys := by
  rw [List.map_append, List.map_append]
  exact ((List.Sublist.refl ["kind"]).append (optionField_keys _ _)).append (optionField_keys _ _)

theorem topKeys_sublist (cfg : HostConfig) :
    List.Sublist (([("version", Yaml.number (.posInt cfg.version.toUInt64))] ++
      optionField "default_agent" cfg.defaultAgent ++ optionField "default_model" cfg.defaultModel ++
      providersField cfg.providers).map Prod.fst) topKeys := by
  rw [List.map_append, List.map_append, List.map_append]
  exact (((List.Sublist.refl ["version"]).append (optionField_keys _ _)).append (optionField_keys _ _)).append
    (providersField_keys _)

theorem nodup_keys {reserved : List String} (distinct : reserved.Nodup) {front : List (String × Yaml)}
    (keys : List.Sublist (front.map Prod.fst) reserved) {extra : Values} (sound : SoundExtra reserved extra) :
    ((front ++ extraFields extra).map Prod.fst).Nodup := by
  rw [List.map_append, List.nodup_append]
  refine ⟨distinct.sublist keys, ?_, fun key member other inside same => ?_⟩
  · rw [extraFields_keys]
    exact (ascending_toList extra).nodup
  · subst same
    obtain ⟨value, found⟩ := mem_extraFields_keys inside
    exact sound.keys key value found (keys.subset member)

theorem insertOption_eq {fields : List (String × Yaml)} {key : String} (text : Option String)
    (fresh : key ∉ fields.map Prod.fst) :
    insertOption (stringEntries fields) key text = stringEntries (fields ++ optionField key text) := by
  cases text with
  | none => rw [insertOption, optionField, List.append_nil]
  | some text => exact mappingInsert_fresh fresh _

theorem insertExtra_eq {fields : List (String × Yaml)} {extra : Values}
    (distinct : ((fields ++ extraFields extra).map Prod.fst).Nodup) :
    insertValues (stringEntries fields) extra = stringEntries (fields ++ extraFields extra) := by
  rw [← foldl_mappingInsert _ _ distinct, extraFields, List.foldl_map, insertValues]

theorem fresh_append {front : List (String × Yaml)} {key other : String} (fresh : key ∉ front.map Prod.fst)
    (different : key ≠ other) (text : Option String) :
    key ∉ (front ++ optionField other text).map Prod.fst := by
  rw [List.map_append, List.mem_append, not_or]
  refine ⟨fresh, fun member => different ?_⟩
  exact List.mem_singleton.mp ((optionField_keys other text).subset member)

theorem providerToYaml_eq {provider : ProviderConfig} (sound : SoundExtra providerKeys provider.extra) :
    providerToYaml provider = .mapping (stringEntries (providerFields provider)) := by
  have kind : mappingInsert [] "kind" (.string provider.kind) = stringEntries [("kind", .string provider.kind)] := rfl
  have distinct := nodup_keys (by decide : providerKeys.Nodup) (providerKeys_sublist provider) sound
  rw [providerToYaml, kind, insertOption_eq _ (by simp), insertOption_eq _ (fresh_append (by simp) (by decide) _),
    insertExtra_eq distinct, providerFields]

theorem providersToYaml_eq {providers : Std.ExtTreeMap String ProviderConfig compare}
    (sound : ∀ (name : String) (provider : ProviderConfig), providers[name]? = some provider →
      SoundProvider name provider) :
    providers.toList.foldl (fun entries named => mappingInsert entries named.1 (providerToYaml named.2)) [] =
      stringEntries
        (providers.toList.map fun named => (named.1, .mapping (stringEntries (providerFields named.2)))) := by
  have same : (providers.toList.map fun named => (named.1, providerToYaml named.2)) =
      providers.toList.map fun named => (named.1, .mapping (stringEntries (providerFields named.2))) := by
    refine List.map_congr_left fun named member => ?_
    rw [providerToYaml_eq (sound named.1 named.2 (Std.ExtTreeMap.mem_toList_iff_getElem?_eq_some.mp member)).extra]
  have distinct : (([] ++ providers.toList.map fun named : String × ProviderConfig =>
      (named.1, providerToYaml named.2)).map Prod.fst).Nodup := by
    rw [List.nil_append, List.map_map]
    exact (ascending_toList providers).nodup
  have folded := foldl_mappingInsert _ [] distinct
  rw [List.foldl_map, List.nil_append, same] at folded
  exact folded

theorem toYaml_eq (sound : cfg.Sound paths) : cfg.toYaml = .mapping (stringEntries cfg.topFields) := by
  have version : mappingInsert [] "version" (.number (.posInt cfg.version.toUInt64)) =
      stringEntries [("version", .number (.posInt cfg.version.toUInt64))] := rfl
  have distinct := nodup_keys (by decide : topKeys.Nodup) (topKeys_sublist cfg) sound.extra
  have unprovided : "providers" ∉ ([("version", Yaml.number (.posInt cfg.version.toUInt64))] ++
      optionField "default_agent" cfg.defaultAgent ++ optionField "default_model" cfg.defaultModel).map Prod.fst :=
    fresh_append (fresh_append (by simp) (by decide) _) (by decide) _
  rw [toYaml, version, insertOption_eq _ (by simp), insertOption_eq _ (fresh_append (by simp) (by decide) _)]
  rw [topFields, ← insertExtra_eq distinct, providersField]
  split
  · rw [List.append_nil]
  · rw [providersToYaml_eq sound.providers, mappingInsert_fresh unprovided]

end Printing

section RoundTrip

theorem get_stringEntries (fields : List (String × Yaml)) (key : String) :
    Yaml.get (stringEntries fields) key = (fields.find? fun field => field.1 = key).map Prod.snd := by
  rw [Yaml.get, stringEntries, List.find?_map, Option.map_map]
  rfl

theorem get_of_mem {fields : List (String × Yaml)} (distinct : (fields.map Prod.fst).Nodup) {key : String}
    {value : Yaml} (member : (key, value) ∈ fields) : Yaml.get (stringEntries fields) key = some value := by
  rw [get_stringEntries]
  cases found : fields.find? fun field => field.1 = key with
  | none => simpa using List.find?_eq_none.mp found (key, value) member
  | some field =>
    have same : field.1 = key := by simpa using List.find?_some found
    have equal := List.inj_on_of_nodup_map distinct (List.mem_of_find?_eq_some found) member same
    rw [equal]
    rfl

theorem get_of_absent {fields : List (String × Yaml)} {key : String} (absent : key ∉ fields.map Prod.fst) :
    Yaml.get (stringEntries fields) key = none := by
  rw [get_stringEntries, Option.map_eq_none_iff, List.find?_eq_none]
  intro field member same
  exact absent (List.mem_map.mpr ⟨field, member, by simpa using same⟩)

theorem get_text {fields : List (String × Yaml)} {key : String} {text : Option String}
    (distinct : (fields.map Prod.fst).Nodup) (present : ∀ t, text = some t → (key, Yaml.string t) ∈ fields)
    (absent : text = none → key ∉ fields.map Prod.fst) :
    (Yaml.get (stringEntries fields) key).bind Yaml.asStr = text := by
  cases text with
  | none =>
    rw [get_of_absent (absent rfl)]
    rfl
  | some text =>
    rw [get_of_mem distinct (present text rfl)]
    rfl

theorem not_mem_optionField {key other : String} (different : key ≠ other) (text : Option String) :
    key ∉ (optionField other text).map Prod.fst := fun member =>
  different (List.mem_singleton.mp ((optionField_keys other text).subset member))

theorem providerExtra_reserved {reserved : List (String × Yaml)} (keys : ∀ field ∈ reserved, field.1 ∈ providerKeys)
    (rest : List (String × Yaml)) (extra : Values) :
    providerExtra serde (stringEntries (reserved ++ rest)) extra = providerExtra serde (stringEntries rest) extra := by
  induction reserved with
  | nil => rfl
  | cons field reserved ih =>
    have skip : field.1 ∈ providerKeys := keys field List.mem_cons_self
    rw [List.cons_append, stringEntries, List.map_cons, providerExtra]
    simp only [Yaml.asStr, Yaml.untag, if_pos skip]
    exact ih fun other member => keys other (List.mem_cons_of_mem field member)

theorem providerExtra_free {fields : List (String × Yaml)} (keys : ∀ field ∈ fields, field.1 ∉ providerKeys)
    (extra : Values) :
    providerExtra serde (stringEntries fields) extra =
      insertAll (fields.map fun field => (field.1, yamlToJson serde field.2)) extra := by
  induction fields generalizing extra with
  | nil => rfl
  | cons field fields ih =>
    have free : field.1 ∉ providerKeys := keys field List.mem_cons_self
    rw [stringEntries, List.map_cons, providerExtra]
    simp only [Yaml.asStr, Yaml.untag, if_neg free]
    exact ih (fun other member => keys other (List.mem_cons_of_mem field member)) _

theorem extraFields_back {extra : Values} (json : AllJson extra) :
    (extraFields extra).map (fun field => (field.1, yamlToJson serde field.2)) = extra.toList := by
  rw [extraFields, List.map_map]
  refine (List.map_congr_left fun field member => ?_).trans (List.map_id _)
  have value := json field.1 field.2 (Std.ExtTreeMap.mem_toList_iff_getElem?_eq_some.mp member)
  simp [yamlToJson_jsonToYaml serde field.2 value]

theorem extraFields_free {reserved : List String} {extra : Values} (sound : SoundExtra reserved extra) :
    ∀ field ∈ extraFields extra, field.1 ∉ reserved := by
  intro field member
  obtain ⟨value, found⟩ := mem_extraFields_keys (List.mem_map_of_mem member)
  exact sound.keys field.1 value found

theorem not_mem_extraFields {reserved : List String} {extra : Values} (sound : SoundExtra reserved extra) {key : String}
    (member : key ∈ reserved) : key ∉ (extraFields extra).map Prod.fst := by
  intro inside
  obtain ⟨value, found⟩ := mem_extraFields_keys inside
  exact sound.keys key value found member

variable (serde) in
theorem readProvider_fields {name : String} {provider : ProviderConfig} (sound : SoundProvider name provider) :
    readProvider serde name (.mapping (stringEntries (providerFields provider))) = .ok provider := by
  have distinct := nodup_keys (by decide : providerKeys.Nodup) (providerKeys_sublist provider) sound.extra
  have absent : ∀ {key}, key ∈ providerKeys → key ∉ (extraFields provider.extra).map Prod.fst :=
    not_mem_extraFields sound.extra
  have kind : Yaml.get (stringEntries (providerFields provider)) "kind" = some (.string provider.kind) :=
    get_of_mem distinct (by simp)
  have apiKeyEnv : (Yaml.get (stringEntries (providerFields provider)) "api_key_env").bind Yaml.asStr =
      provider.apiKeyEnv := by
    refine get_text distinct (fun text some => by simp [providerFields, some, optionField]) fun none => ?_
    simp only [providerFields, none, List.map_append, List.mem_append, not_or]
    exact ⟨⟨⟨by simp, by simp [optionField]⟩, not_mem_optionField (by decide) _⟩, absent (by decide)⟩
  have baseUrl : (Yaml.get (stringEntries (providerFields provider)) "base_url").bind Yaml.asStr =
      provider.baseUrl := by
    refine get_text distinct (fun text some => by simp [providerFields, some, optionField]) fun none => ?_
    simp only [providerFields, none, List.map_append, List.mem_append, not_or]
    exact ⟨⟨⟨by simp, not_mem_optionField (by decide) _⟩, by simp [optionField]⟩, absent (by decide)⟩
  have extra : providerExtra serde (stringEntries (providerFields provider)) ∅ = provider.extra := by
    have reserved := (providerKeys_sublist provider).subset
    rw [providerFields, providerExtra_reserved fun field member => reserved (List.mem_map_of_mem member),
      providerExtra_free (extraFields_free sound.extra), extraFields_back sound.extra.json, insertAll_toList]
  have asMapping : (Yaml.mapping (stringEntries (providerFields provider))).asMapping =
      some (stringEntries (providerFields provider)) := rfl
  rw [readProvider, asMapping]
  simp only [kind, Option.bind_some, apiKeyEnv, baseUrl, extra]
  obtain ⟨_, _, _, _, _⟩ := provider
  obtain rfl : _ = name := sound.name
  rfl

variable (serde) in
theorem readProviders_fields (named : List (String × ProviderConfig))
    (sound : ∀ entry ∈ named, SoundProvider entry.1 entry.2)
    (providers : Std.ExtTreeMap String ProviderConfig compare) :
    readProviders serde (stringEntries
      (named.map fun entry => (entry.1, .mapping (stringEntries (providerFields entry.2))))) providers =
      .ok (insertAll named providers) := by
  induction named generalizing providers with
  | nil => rfl
  | cons entry named ih =>
    have one := readProvider_fields serde (sound entry List.mem_cons_self)
    rw [List.map_cons, stringEntries, List.map_cons, readProviders]
    simp only [Yaml.asStr, Yaml.untag, one]
    exact ih (fun other member => sound other (List.mem_cons_of_mem entry member)) _

theorem readEntries_cons (key : String) (value : Yaml) (fields : List (String × Yaml)) (cfg : HostConfig) :
    readEntries serde (stringEntries ((key, value) :: fields)) cfg =
      match readEntry serde cfg key value with
      | .error e => .error e
      | .ok cfg => readEntries serde (stringEntries fields) cfg := rfl

theorem readEntry_free {key : String} (free : key ∉ topKeys) (value : Yaml) (cfg : HostConfig) :
    readEntry serde cfg key value = .ok { cfg with extra := cfg.extra.insert key (yamlToJson serde value) } := by
  unfold readEntry
  split <;> simp_all [topKeys]

theorem readEntries_free {fields : List (String × Yaml)} (free : ∀ field ∈ fields, field.1 ∉ topKeys)
    (cfg : HostConfig) :
    readEntries serde (stringEntries fields) cfg = .ok { cfg with
      extra := insertAll (fields.map fun field => (field.1, yamlToJson serde field.2)) cfg.extra } := by
  induction fields generalizing cfg with
  | nil => rfl
  | cons field fields ih =>
    rw [readEntries_cons, readEntry_free (free field List.mem_cons_self)]
    exact ih (fun other member => free other (List.mem_cons_of_mem field member)) _

theorem readEntries_agent (text : Option String) (fields : List (String × Yaml)) (unset : cfg.defaultAgent = none) :
    readEntries serde (stringEntries (optionField "default_agent" text ++ fields)) cfg =
      readEntries serde (stringEntries fields) { cfg with defaultAgent := text } := by
  cases text with
  | none =>
    have same : { cfg with defaultAgent := none } = cfg := by rw [← unset]
    rw [same]
    rfl
  | some text => rfl

theorem readEntries_model (text : Option String) (fields : List (String × Yaml)) (unset : cfg.defaultModel = none) :
    readEntries serde (stringEntries (optionField "default_model" text ++ fields)) cfg =
      readEntries serde (stringEntries fields) { cfg with defaultModel := text } := by
  cases text with
  | none =>
    have same : { cfg with defaultModel := none } = cfg := by rw [← unset]
    rw [same]
    rfl
  | some text => rfl

theorem readEntries_providers {providers : Std.ExtTreeMap String ProviderConfig compare}
    (sound : ∀ (name : String) (provider : ProviderConfig), providers[name]? = some provider →
      SoundProvider name provider)
    (fields : List (String × Yaml)) (unset : cfg.providers = ∅) :
    readEntries serde (stringEntries (providersField providers ++ fields)) cfg =
      readEntries serde (stringEntries fields) { cfg with providers } := by
  rw [providersField]
  split
  next none =>
    have same : { cfg with providers } = cfg := by rw [Std.ExtTreeMap.isEmpty_iff.mp none, ← unset]
    rw [same]
    rfl
  next =>
    have all := readProviders_fields serde providers.toList (fun entry member =>
      sound entry.1 entry.2 (Std.ExtTreeMap.mem_toList_iff_getElem?_eq_some.mp member)) cfg.providers
    rw [unset, insertAll_toList] at all
    rw [List.singleton_append, readEntries_cons, readEntry]
    simp only [Yaml.asMapping, Yaml.untag, unset, all]

theorem fromYamlValue_toYaml (sound : cfg.Sound paths) : fromYamlValue serde cfg.toYaml paths = .ok cfg := by
  rw [toYaml_eq sound, fromYamlValue, topFields, List.append_assoc, List.append_assoc, List.append_assoc,
    List.singleton_append, readEntries_cons]
  have version : readEntry serde (emptyAt paths) "version" (.number (.posInt cfg.version.toUInt64)) =
      .ok { emptyAt paths with version := cfg.version } := by
    simp [readEntry, Yaml.asU64, Yaml.untag]
  simp only [version]
  rw [readEntries_agent _ _ rfl, readEntries_model _ _ rfl, readEntries_providers sound.providers _ rfl,
    readEntries_free (extraFields_free sound.extra), extraFields_back sound.extra.json]
  simp only [emptyAt, insertAll_toList, ← sound.paths]

/-- A configuration that was read is read again from what it is written as, and so is every JSON value. -/
theorem normalisation_stable (serde : SerdeYaml) :
    (∀ raw paths cfg, fromYamlValue serde raw paths = .ok cfg → fromYamlValue serde cfg.toYaml paths = .ok cfg) ∧
      ∀ v : JsonValue, yamlToJson serde (jsonToYaml v.value) = v.value := by
  refine ⟨fun raw paths cfg read => ?_, fun v => yamlToJson_jsonToYaml serde v.value v.isJson⟩
  exact fromYamlValue_toYaml (fromYamlValue_sound read)

-- A provider, a tagged text, and an entry that is not reserved.
def sampleConfig : Yaml := .mapping [
  (.string "version", .number (.posInt 7)),
  (.string "default_model", .tagged "!env" (.string "gpt-4o")),
  (.string "providers", .mapping [(.string "main", .mapping [(.string "kind", .string "openai"),
    (.string "retries", .number (.posInt 3))])]),
  (.string "limits", .sequence [.null, .bool true])]

theorem sampleConfig_stable : ∃ cfg, fromYamlValue plainYaml sampleConfig { root := [] } = .ok cfg ∧
    fromYamlValue plainYaml cfg.toYaml { root := [] } = .ok cfg :=
  ⟨_, rfl, (normalisation_stable plainYaml).1 sampleConfig { root := [] } _ rfl⟩

end RoundTrip

end HostConfig

end AtomrAgents
