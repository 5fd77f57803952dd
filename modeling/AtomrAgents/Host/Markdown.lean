import AtomrAgents.Core.Text
import AtomrAgents.Host.Stores
import AtomrAgents.Shared.Fences

set_option autoImplicit false

namespace AtomrAgents

open Shared Shared.UnixPath

-- `serde_yaml::Value`; its numbers come in the same kinds as those of JSON.
inductive Yaml where
  | null
  | bool (b : Bool)
  | number (n : Number)
  | string (s : String)
  | sequence (items : List Yaml)
  | mapping (entries : List (Yaml × Yaml))
  | tagged (tag : String) (value : Yaml)

-- The parser and the printer; they have errors where there is nothing.
structure SerdeYaml where
  fromStr : String → Option Yaml
  toString : Yaml → Option String

def isFinite (bits : UInt64) : Bool := (bits >>> 52) &&& 0x7ff ≠ 0x7ff

def numberToJson : Number → Value
  | .float bits => if isFinite bits then .number (.float bits) else .null
  | n => .number n

variable (serde : SerdeYaml)

def keyText : Yaml → Option String
  | .string s => some s
  | other => (serde.toString other).map trim

mutual

def yamlToJson : Yaml → Value
  | .null => .null
  | .bool b => .bool b
  | .number n => numberToJson n
  | .string s => .string s
  | .sequence items => .array (itemsToJson items)
  | .mapping entries => .ofValues (entriesToJson entries ∅)
  | .tagged _ value => yamlToJson value

def itemsToJson : List Yaml → List Value
  | [] => []
  | item :: items => yamlToJson item :: itemsToJson items

-- A later entry takes the place of an earlier one under the same text.
def entriesToJson : List (Yaml × Yaml) → Values → Values
  | [], fields => fields
  | (key, value) :: entries, fields =>
    match keyText serde key with
    | some text => entriesToJson entries (fields.insert text (yamlToJson value))
    | none => entriesToJson entries fields

end

structure MarkdownDoc where
  frontmatter : Values
  body : String

def fence : List Char := "---\n".toList

def closer : List Char := '\n' :: fence

def parseStr (text : String) (path : Option (List Component)) : Except HostError MarkdownDoc :=
  let plain : MarkdownDoc := { frontmatter := ∅, body := text }
  let path := path.getD [.normal "<inline>".toList]
  if fence <+: text.toList then
    match breakOn closer (text.toList.drop fence.length) with
    | some (yamlPart, body) =>
      match serde.fromStr (String.ofList yamlPart) with
      | none => .error (.yaml path)
      | some (.mapping entries) =>
        .ok { frontmatter := entriesToJson serde entries ∅, body := String.ofList body }
      | some .null => .ok { frontmatter := ∅, body := String.ofList body }
      | some _ => .error (.markdown path "frontmatter must be a YAML mapping")
    | none => .ok plain
  else .ok plain

end AtomrAgents
