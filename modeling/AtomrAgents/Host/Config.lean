import AtomrAgents.Host.YamlJson

set_option autoImplicit false

namespace AtomrAgents

open Shared Shared.UnixPath

structure ProviderConfig where
  name : String
  kind : String
  apiKeyEnv : Option String
  baseUrl : Option String
  extra : Values

structure HostConfig where
  paths : HostPaths
  version : UInt32
  defaultAgent : Option String
  defaultModel : Option String
  providers : Std.ExtTreeMap String ProviderConfig compare
  extra : Values

namespace Yaml

-- `Value::untag_ref`
def untag : Yaml → Yaml
  | .tagged _ value => value.untag
  | value => value

def asStr (value : Yaml) : Option String :=
  match value.untag with
  | .string s => some s
  | _ => none

def asU64 (value : Yaml) : Option UInt64 :=
  match value.untag with
  | .number (.posInt n) => some n
  | _ => none

def asMapping (value : Yaml) : Option (List (Yaml × Yaml)) :=
  match value.untag with
  | .mapping entries => some entries
  | _ => none

-- `Mapping::get` with a string
def get (entries : List (Yaml × Yaml)) (key : String) : Option Yaml :=
  (entries.find? fun entry => entry.1.isString key).map Prod.snd

end Yaml

-- `Path::display`
def displayPlace (place : Place) : String := String.ofList (place.flatMap ('/' :: ·))

def HostPaths.configYaml (paths : HostPaths) : Place := paths.root.map FileName.chars ++ ["config.yaml".toList]

namespace HostConfig

variable (serde : SerdeYaml)

-- `empty` in the source
def emptyAt (paths : HostPaths) : HostConfig where
  paths := paths
  version := 1
  defaultAgent := none
  defaultModel := none
  providers := ∅
  extra := ∅

def providerKeys : List String := ["kind", "api_key_env", "base_url"]

def providerExtra : List (Yaml × Yaml) → Values → Values
  | [], extra => extra
  | (key, value) :: entries, extra =>
    match key.asStr with
    | none => providerExtra entries extra
    | some text =>
      if text ∈ providerKeys then providerExtra entries extra
      else providerExtra entries (extra.insert text (yamlToJson serde value))

def readProvider (name : String) (value : Yaml) : Except HostError ProviderConfig :=
  match value.asMapping with
  | none => .error (.config ("provider `" ++ name ++ "` must be a mapping"))
  | some entries =>
    match (Yaml.get entries "kind").bind Yaml.asStr with
    | none => .error (.config ("provider `" ++ name ++ "` is missing a string `kind`"))
    | some kind =>
      .ok {
        name
        kind
        apiKeyEnv := (Yaml.get entries "api_key_env").bind Yaml.asStr
        baseUrl := (Yaml.get entries "base_url").bind Yaml.asStr
        extra := providerExtra serde entries ∅ }

def readProviders : List (Yaml × Yaml) → Std.ExtTreeMap String ProviderConfig compare →
    Except HostError (Std.ExtTreeMap String ProviderConfig compare)
  | [], providers => .ok providers
  | (key, value) :: entries, providers =>
    match key.asStr with
    | none => .error (.config "provider key must be a string")
    | some name =>
      match readProvider serde name value with
      | .error e => .error e
      | .ok provider => readProviders entries (providers.insert name provider)

def readEntry (cfg : HostConfig) (key : String) (value : Yaml) : Except HostError HostConfig :=
  match key with
  | "version" =>
    match value.asU64 with
    | some n => .ok { cfg with version := n.toUInt32 }
    | none => .ok cfg
  | "default_agent" => .ok { cfg with defaultAgent := value.asStr }
  | "default_model" => .ok { cfg with defaultModel := value.asStr }
  | "providers" =>
    match value.asMapping with
    | none => .error (.config "`providers` must be a mapping of name → provider config")
    | some entries =>
      match readProviders serde entries cfg.providers with
      | .error e => .error e
      | .ok providers => .ok { cfg with providers }
  | _ => .ok { cfg with extra := cfg.extra.insert key (yamlToJson serde value) }

def readEntries : List (Yaml × Yaml) → HostConfig → Except HostError HostConfig
  | [], cfg => .ok cfg
  | (key, value) :: entries, cfg =>
    match key.asStr with
    | none => readEntries entries cfg
    | some text =>
      match readEntry serde cfg text value with
      | .error e => .error e
      | .ok cfg => readEntries entries cfg

def fromYamlValue (raw : Yaml) (paths : HostPaths) : Except HostError HostConfig :=
  match raw with
  | .mapping entries => readEntries serde entries (emptyAt paths)
  | .null => .ok (emptyAt paths)
  | _ => .error (.config (displayPlace paths.configYaml ++ ": top-level must be a YAML mapping"))

def insertOption (entries : List (Yaml × Yaml)) (key : String) : Option String → List (Yaml × Yaml)
  | none => entries
  | some text => mappingInsert entries key (.string text)

def providerToYaml (provider : ProviderConfig) : Yaml :=
  let entry := mappingInsert [] "kind" (.string provider.kind)
  let entry := insertOption entry "api_key_env" provider.apiKeyEnv
  let entry := insertOption entry "base_url" provider.baseUrl
  .mapping (insertValues entry provider.extra)

def toYaml (cfg : HostConfig) : Yaml :=
  let out := mappingInsert [] "version" (.number (.posInt cfg.version.toUInt64))
  let out := insertOption out "default_agent" cfg.defaultAgent
  let out := insertOption out "default_model" cfg.defaultModel
  let out :=
    if cfg.providers.isEmpty then out
    else
      mappingInsert out "providers" (.mapping (cfg.providers.toList.foldl
        (fun entries named => mappingInsert entries named.1 (providerToYaml named.2)) []))
  .mapping (insertValues out cfg.extra)

end HostConfig

end AtomrAgents
