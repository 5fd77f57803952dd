import AtomrAgents.Host.Markdown
import AtomrAgents.Host.YamlBlocks

set_option autoImplicit false

namespace AtomrAgents

open Shared Shared.UnixPath

abbrev FileText := Place → Option String

def FileText.perform (text : FileText) : FileAction → FileText
  | .createDirAll _ => text
  | .write path body => Function.update text (resolve path) (some body)
  | .copy source path => Function.update text (resolve path) (text (resolve source))
  | .removeFile path => Function.update text (resolve path) none
  | .removeDirAll path => fun place => if resolve path <+: place then none else text place

def FileText.after (text : FileText) (actions : List FileAction) : FileText := actions.foldl perform text

def FileName.text (name : FileName) : String := String.ofList name.chars

def FileName.isHidden (name : FileName) : Bool := name.chars.head? == some '.'

structure SkillDefinition where
  id : String
  name : String
  instructionFragment : String
  priority : UInt8
  keywords : List String
  toolOverlay : List String
  memoryNamespace : List String
  deriving DecidableEq

def coerceStrList (value : Option Value) (field : String) (path : List Component) :
    Except HostError (List String) :=
  let error := HostError.markdown path ("`" ++ field ++ "` must be a list of strings")
  match value with
  | none | some .null => .ok []
  | some (.array items) => items.mapM fun item =>
    match item with
    | .string s => .ok s
    | _ => .error error
  | some _ => .error error

variable (serde : SerdeYaml) (paths : AgentPaths)

section Reading

def readSkill (path : List Component) (name text : String) : Except HostError SkillDefinition := do
  let doc ← parseStr serde text (some path)
  let fm := doc.frontmatter
  let keywords ← coerceStrList fm["keywords"]? "keywords" path
  let toolOverlay ← coerceStrList fm["tool_overlay"]? "tool_overlay" path
  let memoryNamespace ← coerceStrList fm["memory_namespace"]? "memory_namespace" path
  pure {
    id := name
    name := (fm["name"]?.bind Value.asStr).getD name
    instructionFragment := doc.body
    priority := ((fm["priority"]?.bind Value.asU64).map fun n => (min n 255).toUInt8).getD 5
    keywords
    toolOverlay
    memoryNamespace }

def skillPath (name : FileName) : List Component :=
  push (push (pathOf paths.skillsDir) name.chars) "SKILL.md".toList

variable (text : FileText)

def readEntries : List FileName → Except HostError (List SkillDefinition)
  | [] => .ok []
  | name :: names =>
    if name.isHidden then readEntries names
    else
      match text (resolve (skillPath paths name)) with
      | none => readEntries names
      | some body => do
        let skill ← readSkill serde (skillPath paths name) name.text body
        let skills ← readEntries names
        pure (skill :: skills)

end Reading

section Routes

end Routes

end AtomrAgents

namespace AtomrAgents

open Shared Shared.UnixPath

def listText (items : List String) : String := String.join (items.map fun item => "\n  - " ++ item)

namespace SkillProposal

variable (proposal : SkillProposal)

def nameBlock (value : Yaml) : YamlBlock := ⟨"name", " " ++ proposal.name, value⟩

def priorityBlock : YamlBlock :=
  ⟨"priority", " " ++ toString proposal.priority.toNat, .number (.posInt proposal.priority.toUInt64)⟩

-- The body ends with the end of a line.
def finished : String := proposal.body ++ if proposal.body.toList.getLast? = some '\n' then "" else "\n"

end SkillProposal

def listBlock (key : String) (items : List String) (value : Yaml) : YamlBlock := ⟨key, listText items, value⟩

def rationaleBlock (rationale : String) (value : Yaml) : YamlBlock := ⟨"rationale", " " ++ rationale, value⟩

structure ListReads (serde : SerdeYaml) (key : String) (items : List String) (value : Yaml) : Prop where
  reads : (listBlock key items value).Reads serde
  closed : (listBlock key items value).Closed serde
  same : yamlToJson serde value = .array (items.map .string)

-- The values of the blocks, in their order; a value for a block that is not there counts for nothing.
structure HeaderValues where
  name : Yaml
  keywords : Yaml
  toolOverlay : Yaml
  rationale : Yaml

-- Each text by itself, after its key, is read as what it is; nothing is asked of the rationale's value.
structure TextsRead (serde : SerdeYaml) (proposal : SkillProposal) (dir : String) (values : HeaderValues) :
    Prop where
  name : (proposal.nameBlock values.name).Reads serde
  nameClosed : (proposal.nameBlock values.name).Closed serde
  -- A name that is not a string is replaced by the directory's, or by the id.
  sameName (other : String) : other = dir ∨ other = proposal.skillId →
    (yamlToJson serde values.name).asStr.getD other = proposal.name
  keywords : proposal.keywords ≠ [] → ListReads serde "keywords" proposal.keywords values.keywords
  toolOverlay : proposal.toolOverlay ≠ [] →
    ListReads serde "tool_overlay" proposal.toolOverlay values.toolOverlay
  rationale (r : String) : proposal.rationale = some r → (rationaleBlock r values.rationale).Reads serde ∧
    "---".toList ∉ textLines (rationaleBlock r values.rationale).render

def Lists (value : Option Value) (items : List String) : Prop :=
  value = some (.array (items.map .string)) ∨ value = none ∧ items = []

section Layout

def listBlocks (key : String) (items : List String) (value : Yaml) : List YamlBlock :=
  if items = [] then [] else [listBlock key items value]

def rationaleBlocks (rationale : Option String) (value : Yaml) : List YamlBlock :=
  match rationale with
  | some r => [rationaleBlock r value]
  | none => []

def SkillProposal.leading (proposal : SkillProposal) (values : HeaderValues) : List YamlBlock :=
  proposal.nameBlock values.name :: proposal.priorityBlock ::
    (listBlocks "keywords" proposal.keywords values.keywords ++
      listBlocks "tool_overlay" proposal.toolOverlay values.toolOverlay)

def SkillProposal.blocks (proposal : SkillProposal) (values : HeaderValues) : List YamlBlock :=
  proposal.leading values ++ rationaleBlocks proposal.rationale values.rationale

variable {serde : SerdeYaml} {proposal : SkillProposal}

theorem join_listText (items : List String) :
    "\n" ++ String.join (items.map fun item => "  - " ++ item ++ "\n") = listText items ++ "\n" := by
  induction items with
  | nil => rfl
  | cons item items ih =>
    rw [listText] at ih ⊢
    rw [List.map_cons, List.map_cons, String.join_cons, String.join_cons]
    calc "\n" ++ ("  - " ++ item ++ "\n" ++ String.join (items.map fun item => "  - " ++ item ++ "\n"))
      _ = "\n" ++ "  - " ++ item ++ ("\n" ++ String.join (items.map fun item => "  - " ++ item ++ "\n")) := by
        simp only [String.append_assoc]
      _ = "\n  - " ++ item ++ String.join (items.map fun item => "\n  - " ++ item) ++ "\n" := by
        rw [ih, ← String.append_assoc]
        rfl

theorem listLines_eq (key : String) (items : List String) (value : Yaml) :
    SkillProposal.listLines key items =
      String.join ((listBlocks key items value).map fun block => block.render ++ "\n") := by
  by_cases none : items = []
  · rw [none]
    rfl
  · have colon : ":\n" = ":" ++ "\n" := rfl
    rw [SkillProposal.listLines, if_neg (by simpa using none), listBlocks, if_neg none, List.map_singleton,
      String.join_cons, String.join_nil, String.append_empty, YamlBlock.render, listBlock, colon]
    have items := join_listText items
    simp only [String.append_assoc] at items ⊢
    rw [items]

end Layout

section Blocks

variable {serde : SerdeYaml} {proposal : SkillProposal} {dir : String} {values : HeaderValues} {block : YamlBlock}

theorem mem_listBlocks {key : String} {items : List String} {value : Yaml} :
    block ∈ listBlocks key items value ↔ items ≠ [] ∧ block = listBlock key items value := by
  rw [listBlocks]
  split
  next none => simp [none]
  next some => simp [some]

theorem mem_rationaleBlocks {rationale : Option String} {value : Yaml} :
    block ∈ rationaleBlocks rationale value ↔ ∃ r, rationale = some r ∧ block = rationaleBlock r value := by
  cases rationale with
  | none => simp [rationaleBlocks]
  | some r => simp [rationaleBlocks]

theorem mem_leading : block ∈ proposal.leading values ↔
    block = proposal.nameBlock values.name ∨ block = proposal.priorityBlock ∨
      (proposal.keywords ≠ [] ∧ block = listBlock "keywords" proposal.keywords values.keywords) ∨
      (proposal.toolOverlay ≠ [] ∧ block = listBlock "tool_overlay" proposal.toolOverlay values.toolOverlay) := by
  simp only [SkillProposal.leading, List.mem_cons, List.mem_append, mem_listBlocks]

def headerKeys : List String := ["name", "priority", "keywords", "tool_overlay", "rationale"]

theorem keys_sublist (proposal : SkillProposal) (values : HeaderValues) :
    ((proposal.blocks values).map YamlBlock.key).Sublist headerKeys := by
  have list (key : String) (items : List String) (value : Yaml) :
      ((listBlocks key items value).map YamlBlock.key).Sublist [key] := by
    rw [listBlocks]
    split
    · exact List.nil_sublist _
    · exact List.Sublist.refl _
  have last : ((rationaleBlocks proposal.rationale values.rationale).map YamlBlock.key).Sublist ["rationale"] := by
    cases proposal.rationale with
    | none => exact List.nil_sublist _
    | some r => exact List.Sublist.refl _
  have lists := (list "keywords" proposal.keywords values.keywords).append
    (list "tool_overlay" proposal.toolOverlay values.toolOverlay)
  rw [SkillProposal.blocks, SkillProposal.leading, List.map_append, List.map_cons, List.map_cons, List.map_append]
  exact ((lists.cons_cons "priority").cons_cons "name").append last

theorem keys_nodup (proposal : SkillProposal) (values : HeaderValues) :
    ((proposal.blocks values).map YamlBlock.key).Nodup :=
  (keys_sublist proposal values).nodup (by decide)

theorem priority_closed (reads : ReadsBlocks PlainKey serde) (proposal : SkillProposal) :
    proposal.priorityBlock.Closed serde where
  ended := reads.number proposal.priority "\n" (.inr rfl)
  unmarked := unmarked_priority proposal.priority.toNat
  unaliased := .inr rfl

theorem closed_of_mem_leading (reads : ReadsBlocks PlainKey serde) (texts : TextsRead serde proposal dir values)
    (member : block ∈ proposal.leading values) : block.Closed serde := by
  rcases mem_leading.mp member with rfl | rfl | ⟨some, rfl⟩ | ⟨some, rfl⟩
  · exact texts.nameClosed
  · exact priority_closed reads proposal
  · exact (texts.keywords some).closed
  · exact (texts.toolOverlay some).closed

theorem fence_not_mem (reads : ReadsBlocks PlainKey serde) (texts : TextsRead serde proposal dir values)
    (member : block ∈ proposal.blocks values) : "---".toList ∉ textLines block.render := by
  rcases List.mem_append.mp member with early | last
  · exact (closed_of_mem_leading reads texts early).unmarked.fence_not_mem
  · obtain ⟨r, rationale, rfl⟩ := mem_rationaleBlocks.mp last
    exact (texts.rationale r rationale).2

end Blocks

end AtomrAgents
