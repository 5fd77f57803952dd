import AtomrAgents.CodingCli.Headless
import AtomrAgents.Host.SkillFiles
import AtomrAgents.Host.YamlBlocks
import AtomrAgents.Shared.Utf8

set_option autoImplicit false

namespace AtomrAgents.AgentSdk

structure SkillDoc where
  id : String
  name : Option String
  description : Option String
  allowedTools : List String
  body : String

structure CommandDoc where
  name : String
  description : Option String
  allowedTools : List String
  model : Option String
  body : String

-- Maps are listed by key.
inductive McpServerConfig where
  | stdio (command : String) (args : List String) (env : List (String × String))
  | sse (url : String) (headers : List (String × String))
  | http (url : String) (headers : List (String × String))
  | inProcess (name : String)

structure Projection where
  skills : List SkillDoc
  commands : List CommandDoc
  mcpServers : List (String × McpServerConfig)
  settings : Option Value

def frontmatterList (key : String) (items : List String) : String := SkillProposal.listLines key items

def textMap (entries : List (String × String)) : Value :=
  .object (entries.map fun entry => (entry.1, .string entry.2))

def mcpToJson : McpServerConfig → Option Value
  | .stdio command args env => some (.object
      [("args", .array (args.map .string)), ("command", .string command), ("env", textMap env)])
  | .sse url headers => some (.object [("headers", textMap headers), ("type", .string "sse"), ("url", .string url)])
  | .http url headers => some (.object [("headers", textMap headers), ("type", .string "http"), ("url", .string url)])
  | .inProcess _ => none

def ended (text : String) : String := text ++ if text.toList.getLast? = some '\n' then "" else "\n"

def optionLine (key : String) (text : Option String) : String :=
  match text with
  | some t => key ++ ": " ++ t ++ "\n"
  | none => ""

def SkillDoc.markdown (s : SkillDoc) : String :=
  "---\n" ++ ("name: " ++ s.name.getD s.id ++ "\n" ++ optionLine "description" s.description ++
    frontmatterList "allowed-tools" s.allowedTools) ++ "---\n\n" ++ ended s.body

def SkillDoc.file (s : SkillDoc) : String × String := (".claude/skills/" ++ s.id ++ "/SKILL.md", s.markdown)

def CommandDoc.hasFm (c : CommandDoc) : Bool := c.description.isSome || !c.allowedTools.isEmpty || c.model.isSome

def CommandDoc.markdown (c : CommandDoc) : String :=
  if c.hasFm then
    "---\n" ++ (optionLine "description" c.description ++ optionLine "model" c.model ++
      frontmatterList "allowed-tools" c.allowedTools) ++ "---\n\n" ++ ended c.body
  else ended c.body

def CommandDoc.file (c : CommandDoc) : String × String := (".claude/commands/" ++ c.name ++ ".md", c.markdown)

-- Files are given by their path and text; `toStringPretty`: `serde_json::to_vec_pretty`.
def renderProjection (toStringPretty : Value → Option String) (p : Projection) : List (String × String) :=
  let external := p.mcpServers.filterMap fun (name, cfg) => (mcpToJson cfg).map fun v => (name, v)
  p.skills.map SkillDoc.file ++ p.commands.map CommandDoc.file ++
    (if external.isEmpty then []
      else [(".mcp.json", (toStringPretty (.object [("mcpServers", .object external)])).getD "")]) ++
    (p.settings.map fun settings => (".claude/settings.local.json", (toStringPretty settings).getD "")).toList

end AtomrAgents.AgentSdk

namespace AtomrAgents.CodingCli

open Shared AgentSdk

structure PersonaSnapshot where
  identity : String
  salientTraits : List String
  styleTone : Option String

structure SkillSnapshot where
  id : String
  name : String
  instructionFragment : String
  keywords : List String
  priority : UInt8
  tools : List String

structure ConceptProjection where
  persona : Option PersonaSnapshot
  skills : List SkillSnapshot
  projectMemory : Option String

def headline (text : String) : List Char := (trim ((lines text.toList).head?.getD "")).toList

-- Nothing is the panic of a slice.
def summaryOf (text : String) : Option String :=
  let trimmed := headline text
  if 120 < utf8Length trimmed then (sliceTo trimmed 120).map fun front => String.ofList front ++ "…"
  else some (String.ofList trimmed)

def personaSection (p : PersonaSnapshot) : String :=
  "## Identity\n\n" ++ ended p.identity ++
    (if p.salientTraits.isEmpty then ""
      else "\n### Salient traits\n\n" ++ String.join (p.salientTraits.map fun t => "- " ++ t ++ "\n")) ++
    (match p.styleTone with
      | some tone => "\n### Style / tone\n\n" ++ tone ++ "\n"
      | none => "") ++ "\n"

def skillLine (s : SkillSnapshot) : Option String :=
  (summaryOf s.instructionFragment).map fun summary => "- **" ++ s.name ++ "** — " ++ summary ++ "\n"

def skillsSection (skills : List SkillSnapshot) : Option String :=
  if skills.isEmpty then some ""
  else (skills.mapM skillLine).map fun lines =>
    "## Available skills\n\n" ++
      "The following skills are projected from atomr into `.claude/skills/<id>/SKILL.md`.\n\n" ++
      String.join lines ++ "\n"

def composeClaudeMd (persona : Option PersonaSnapshot) (projectMemory : Option String)
    (skills : List SkillSnapshot) : Option String :=
  (skillsSection skills).map fun available =>
    "# CLAUDE.md\n\n" ++
      "<!-- Generated by atomr-agents-coding-cli-harness. Do not edit by hand. -->\n\n" ++
      (persona.map personaSection).getD "" ++
      (projectMemory.map fun mem => "## Project memory\n\n" ++ ended mem ++ "\n").getD "" ++ available

def renderSkill (s : SkillSnapshot) : String :=
  ended ("---\n" ++ ("name: " ++ s.name ++ "\n" ++ "id: " ++ s.id ++ "\n" ++
    "priority: " ++ toString s.priority.toNat ++ "\n" ++ frontmatterList "keywords" s.keywords ++
    frontmatterList "tools" s.tools) ++ "---\n\n" ++ s.instructionFragment)

def ConceptProjection.composed (p : ConceptProjection) : Option (String × List String) :=
  (composeClaudeMd p.persona p.projectMemory p.skills).map fun md => (md, p.skills.map renderSkill)

theorem mapM_isSome_iff {α β : Type} {f : α → Option β} {xs : List α} :
    (xs.mapM f).isSome ↔ ∀ x ∈ xs, (f x).isSome := by
  induction xs with
  | nil => simp
  | cons x xs ih =>
    rw [List.mapM_cons, List.forall_mem_cons, ← ih]
    cases f x with
    | none => simp
    | some y => cases xs.mapM f <;> simp

def SkillSnapshot.SummaryFits (s : SkillSnapshot) : Prop :=
  utf8Length (headline s.instructionFragment) ≤ 120 ∨
    ∃ front, front <+: headline s.instructionFragment ∧ utf8Length front = 120

theorem summaryOf_isSome_iff (s : SkillSnapshot) : (summaryOf s.instructionFragment).isSome ↔ s.SummaryFits := by
  rw [summaryOf, SkillSnapshot.SummaryFits, ← sliceTo_isSome_iff]
  by_cases short : utf8Length (headline s.instructionFragment) ≤ 120
  · rw [if_neg (Nat.not_lt.mpr short)]
    exact ⟨fun _ => .inl short, fun _ => rfl⟩
  · rw [if_pos (Nat.lt_of_not_le short), Option.isSome_map]
    exact ⟨.inr, fun cut => cut.resolve_left short⟩

theorem composed_isSome_iff (p : ConceptProjection) : p.composed.isSome ↔ ∀ s ∈ p.skills, s.SummaryFits := by
  have line (s : SkillSnapshot) : (skillLine s).isSome ↔ s.SummaryFits := by
    rw [skillLine, Option.isSome_map, summaryOf_isSome_iff]
  rw [ConceptProjection.composed, Option.isSome_map, composeClaudeMd, Option.isSome_map, skillsSection]
  cases none : p.skills with
  | nil => simp
  | cons s skills =>
    rw [if_neg (by simp), Option.isSome_map, mapM_isSome_iff]
    exact forall₂_congr fun s _ => line s

def HeaderKey (key : String) : Prop :=
  key.toList.head?.any Char.isLower = true ∧ key.toList.all (fun c => c.isLower || c == '-') = true

instance : DecidablePred HeaderKey := fun key =>
  inferInstanceAs (Decidable (key.toList.head?.any Char.isLower = true ∧
    key.toList.all (fun c => c.isLower || c == '-') = true))

-- The block by itself is read as what it is meant to be, the last of the header or not.
structure Alone (serde : SerdeYaml) (block : YamlBlock) : Prop where
  reads : block.Reads serde
  closed : block.Closed serde

def textBlock (key text : String) : YamlBlock := ⟨key, " " ++ text, .string text⟩

def itemsValue (items : List String) : Yaml := .sequence (items.map .string)

def optionBlocks (key : String) (text : Option String) (value : Yaml) : List YamlBlock :=
  match text with
  | some t => [⟨key, " " ++ t, value⟩]
  | none => []

section

variable {serde : SerdeYaml} {blocks : List YamlBlock} {key : String} {items : List String}

def lined (blocks : List YamlBlock) : String := String.join (blocks.map fun block => block.render ++ "\n")

theorem parseStr_alone (reads : ReadsEntries HeaderKey serde) (present : blocks ≠ [])
    (known : ∀ block ∈ blocks, HeaderKey block.key) (distinct : (blocks.map YamlBlock.key).Nodup)
    (alone : ∀ block ∈ blocks, Alone serde block) (body : String) :
    ∃ doc, parseStr serde ("---\n" ++ lined blocks ++ "---\n" ++ body) none = .ok doc ∧
      (∀ block ∈ blocks, doc.frontmatter[block.key]? = some (yamlToJson serde block.value)) ∧
      ∀ key, key ∉ blocks.map YamlBlock.key → doc.frontmatter[key]? = none := by
  have ends : lined blocks = joinLines (blocks.map YamlBlock.render) ++ "\n" := by
    rw [lined, ← join_ended (by simpa using present), List.map_map]
    rfl
  have whole : ("---\n" ++ lined blocks ++ "---\n" ++ body).toList =
      fence ++ ((joinLines (blocks.map YamlBlock.render)).toList ++ (closer ++ body.toList)) := by
    rw [ends]
    simp only [String.toList_append, List.append_assoc]
    rfl
  have read : ∀ block ∈ blocks, block.Reads serde := fun block member => (alone block member).reads
  refine ⟨_, parseStr_blocks reads present known ?_ read distinct ?_ whole none, ?_, ?_⟩
  · exact fun block member => (alone block (List.dropLast_subset _ member)).closed
  · exact fun block member => (alone block member).closed.unmarked.fence_not_mem
  · exact fun block member => field_of_mem distinct member ∅
  · intro key absent
    exact (field_of_absent absent ∅).trans Std.ExtTreeMap.getElem?_empty

theorem yamlToJson_itemsValue (items : List String) :
    yamlToJson serde (itemsValue items) = .array (items.map .string) := by
  have each : itemsToJson serde (items.map .string) = items.map .string := by
    induction items with
    | nil => rfl
    | cons item items ih =>
      rw [List.map_cons, itemsToJson, ih]
      rfl
  rw [itemsValue, yamlToJson, each]

theorem lined_append (front back : List YamlBlock) : lined (front ++ back) = lined front ++ lined back := by
  rw [lined, List.map_append, String.join_append]
  rfl

theorem frontmatterList_eq (key : String) (items : List String) :
    frontmatterList key items = lined (listBlocks key items (itemsValue items)) :=
  listLines_eq key items _

theorem optionLine_eq (key : String) (text : Option String) (value : Yaml) :
    optionLine key text = lined (optionBlocks key text value) := by
  cases text with
  | none => rfl
  | some t =>
    rw [← String.toList_inj]
    simp [optionLine, lined, optionBlocks, YamlBlock.render]

theorem lists_of_blocks {fm : Values}
    (here : ∀ block ∈ listBlocks key items (itemsValue items), fm[block.key]? = some (yamlToJson serde block.value))
    (absent : items = [] → fm[key]? = none) : Lists fm[key]? items := by
  by_cases none : items = []
  · exact .inr ⟨absent none, none⟩
  · have found := here _ (mem_listBlocks.mpr ⟨none, rfl⟩)
    exact .inl (found.trans (congrArg some (yamlToJson_itemsValue items)))

theorem listBlocks_keys (key : String) (items : List String) (value : Yaml) :
    ((listBlocks key items value).map YamlBlock.key).Sublist [key] := by
  rw [listBlocks]
  split
  · exact List.nil_sublist _
  · exact List.Sublist.refl _

theorem optionBlocks_keys (key : String) (text : Option String) (value : Yaml) :
    ((optionBlocks key text value).map YamlBlock.key).Sublist [key] := by
  cases text with
  | none => exact List.nil_sublist _
  | some t => exact List.Sublist.refl _

theorem mem_listBlocks_keys {value : Yaml} {k : String} :
    k ∈ (listBlocks key items value).map YamlBlock.key ↔ items ≠ [] ∧ k = key := by
  rw [listBlocks]
  split
  · next none => simp [none]
  · next some => simp [some, listBlock]

theorem not_mem_optionBlocks_keys {text : Option String} {value : Yaml} {k : String} (other : k ≠ key) :
    k ∉ (optionBlocks key text value).map YamlBlock.key := fun member =>
  other (List.mem_singleton.mp ((optionBlocks_keys key text value).subset member))

theorem listBlocks_alone (alone : items ≠ [] → Alone serde (listBlock key items (itemsValue items))) :
    ∀ block ∈ listBlocks key items (itemsValue items), Alone serde block := by
  intro block member
  obtain ⟨present, rfl⟩ := mem_listBlocks.mp member
  exact alone present

theorem optionBlocks_alone {text : Option String}
    (alone : ∀ t, text = some t → ∃ value, Alone serde ⟨key, " " ++ t, value⟩) :
    ∃ value, ∀ block ∈ optionBlocks key text value, Alone serde block := by
  cases text with
  | none => exact ⟨.null, fun block member => nomatch member⟩
  | some t =>
    obtain ⟨value, reads⟩ := alone t rfl
    refine ⟨value, fun block member => ?_⟩
    rw [List.mem_singleton.mp member]
    exact reads

theorem headerKeys_known {keys : List String} (all : ∀ key ∈ keys, HeaderKey key)
    (sublist : (blocks.map YamlBlock.key).Sublist keys) : ∀ block ∈ blocks, HeaderKey block.key :=
  fun _ member => all _ (sublist.subset (List.mem_map_of_mem member))

end

section

variable {serde : SerdeYaml}

structure Says (fm : Values) (s : SkillSnapshot) : Prop where
  name : fm["name"]? = some (.string s.name)
  id : fm["id"]? = some (.string s.id)
  priority : fm["priority"]? = some (.number (.posInt s.priority.toUInt64))
  keywords : Lists fm["keywords"]? s.keywords
  tools : Lists fm["tools"]? s.tools
  nothingElse : ∀ key, key ∉ ["name", "id", "priority", "keywords", "tools"] → fm[key]? = none

def SkillSnapshot.Faithful (serde : SerdeYaml) (s : SkillSnapshot) : Prop :=
  ∃ doc, parseStr serde (renderSkill s) none = .ok doc ∧ Says doc.frontmatter s

def AllowsExactly (serde : SerdeYaml) (file : String) (tools : List String) : Prop :=
  ∃ doc, parseStr serde file none = .ok doc ∧ Lists doc.frontmatter["allowed-tools"]? tools

structure SkillSnapshot.Plain (serde : SerdeYaml) (s : SkillSnapshot) : Prop where
  name : Alone serde (textBlock "name" s.name)
  id : Alone serde (textBlock "id" s.id)
  keywords : s.keywords ≠ [] → Alone serde (listBlock "keywords" s.keywords (itemsValue s.keywords))
  tools : s.tools ≠ [] → Alone serde (listBlock "tools" s.tools (itemsValue s.tools))

def SkillSnapshot.blocks (s : SkillSnapshot) : List YamlBlock :=
  textBlock "name" s.name :: textBlock "id" s.id ::
    ⟨"priority", " " ++ toString s.priority.toNat, .number (.posInt s.priority.toUInt64)⟩ ::
    (listBlocks "keywords" s.keywords (itemsValue s.keywords) ++ listBlocks "tools" s.tools (itemsValue s.tools))

theorem renderSkill_eq (s : SkillSnapshot) :
    ∃ body, renderSkill s = "---\n" ++ lined s.blocks ++ "---\n" ++ body := by
  have header : "name: " ++ s.name ++ "\n" ++ "id: " ++ s.id ++ "\n" ++ "priority: " ++ toString s.priority.toNat ++
      "\n" ++ frontmatterList "keywords" s.keywords ++ frontmatterList "tools" s.tools = lined s.blocks := by
    rw [frontmatterList_eq, frontmatterList_eq, SkillSnapshot.blocks, ← String.toList_inj]
    simp [lined, textBlock, YamlBlock.render, String.join_append]
  obtain ⟨tail, ends⟩ : ∃ tail, renderSkill s =
      "---\n" ++ lined s.blocks ++ "---\n\n" ++ s.instructionFragment ++ tail := ⟨_, by rw [← header]; rfl⟩
  refine ⟨"\n" ++ s.instructionFragment ++ tail, ?_⟩
  rw [ends, ← String.toList_inj]
  simp only [String.toList_append, List.append_assoc]
  rfl

theorem priority_alone (reads : ReadsBlocks HeaderKey serde) (n : UInt8) :
    Alone serde ⟨"priority", " " ++ toString n.toNat, .number (.posInt n.toUInt64)⟩ where
  reads := by
    have alone := reads.number n "" (.inl rfl)
    rw [String.append_empty] at alone
    exact alone
  closed := {
    ended := reads.number n "\n" (.inr rfl)
    unmarked := unmarked_priority n.toNat
    unaliased := .inr rfl }

theorem SkillSnapshot.faithful (reads : ReadsBlocks HeaderKey serde) (s : SkillSnapshot) (plain : s.Plain serde) :
    s.Faithful serde := by
  have keys : (s.blocks.map YamlBlock.key).Sublist ["name", "id", "priority", "keywords", "tools"] := by
    rw [SkillSnapshot.blocks, List.map_cons, List.map_cons, List.map_cons, List.map_append]
    exact (((((listBlocks_keys "keywords" _ _).append (listBlocks_keys "tools" _ _)).cons_cons "priority").cons_cons
      "id").cons_cons "name")
  have alone : ∀ block ∈ s.blocks, Alone serde block := by
    simp only [SkillSnapshot.blocks, List.forall_mem_cons, List.forall_mem_append]
    exact ⟨plain.name, plain.id, priority_alone reads s.priority, listBlocks_alone plain.keywords,
      listBlocks_alone plain.tools⟩
  obtain ⟨body, file⟩ := renderSkill_eq s
  obtain ⟨doc, read, here, absent⟩ := parseStr_alone reads.toReadsEntries (List.cons_ne_nil _ _)
    (headerKeys_known (by decide) keys) (keys.nodup (by decide)) alone body
  simp only [List.forall_mem_cons, List.forall_mem_append] at here
  obtain ⟨name, id, priority, keywords, tools⟩ := here
  have other {key : String} (missing : key ∉ s.blocks.map YamlBlock.key) : doc.frontmatter[key]? = none :=
    absent key missing
  refine ⟨doc, file ▸ read, name, id, priority, lists_of_blocks keywords fun none => other ?_,
    lists_of_blocks tools fun none => other ?_, fun key unknown => other fun member => unknown (keys.subset member)⟩
  · simp [SkillSnapshot.blocks, mem_listBlocks_keys, none, textBlock]
  · simp [SkillSnapshot.blocks, mem_listBlocks_keys, none, textBlock]

def OneEntry (serde : SerdeYaml) (key : String) (text : Option String) : Prop :=
  ∀ t, text = some t → ∃ value, Alone serde ⟨key, " " ++ t, value⟩

def ToolsPlain (serde : SerdeYaml) (tools : List String) : Prop :=
  tools ≠ [] → Alone serde (listBlock "allowed-tools" tools (itemsValue tools))

structure DocPlain (serde : SerdeYaml) (s : SkillDoc) : Prop where
  name : OneEntry serde "name" (some (s.name.getD s.id))
  description : OneEntry serde "description" s.description
  allowedTools : ToolsPlain serde s.allowedTools

structure CommandPlain (serde : SerdeYaml) (c : CommandDoc) : Prop where
  description : OneEntry serde "description" c.description
  model : OneEntry serde "model" c.model
  allowedTools : ToolsPlain serde c.allowedTools
  unheaded : c.hasFm = false → fence <+: (ended c.body).toList →
    breakOn closer ((ended c.body).toList.drop fence.length) = none

theorem allowsExactly_lined (reads : ReadsBlocks HeaderKey serde) {first second : String} {text text' : Option String}
    {tools : List String} {value value' : Yaml} (known : HeaderKey first ∧ HeaderKey second)
    (apart : [first, second, "allowed-tools"].Nodup) (one : ∀ block ∈ optionBlocks first text value, Alone serde block)
    (two : ∀ block ∈ optionBlocks second text' value', Alone serde block) (plain : ToolsPlain serde tools)
    (present : text.isSome ∨ text'.isSome ∨ tools ≠ []) (body : String) :
    AllowsExactly serde ("---\n" ++ (optionLine first text ++ optionLine second text' ++
      frontmatterList "allowed-tools" tools) ++ "---\n\n" ++ body) tools := by
  let blocks := optionBlocks first text value ++
    (optionBlocks second text' value' ++ listBlocks "allowed-tools" tools (itemsValue tools))
  have header : optionLine first text ++ optionLine second text' ++ frontmatterList "allowed-tools" tools =
      lined blocks := by
    rw [optionLine_eq first text value, optionLine_eq second text' value', frontmatterList_eq, lined_append,
      lined_append, String.append_assoc]
  have keys : (blocks.map YamlBlock.key).Sublist [first, second, "allowed-tools"] := by
    rw [List.map_append, List.map_append]
    exact (optionBlocks_keys first _ _).append ((optionBlocks_keys second _ _).append (listBlocks_keys _ _ _))
  have all : ∀ key ∈ [first, second, "allowed-tools"], HeaderKey key := by
    simp only [List.forall_mem_cons]
    exact ⟨known.1, known.2, by decide, by simp⟩
  have alone : ∀ block ∈ blocks, Alone serde block := by
    simp only [blocks, List.forall_mem_append]
    exact ⟨one, two, listBlocks_alone plain⟩
  have filled : blocks ≠ [] := by
    rcases present with some | some | some
    · obtain ⟨t, rfl⟩ := Option.isSome_iff_exists.mp some
      exact List.cons_ne_nil _ _
    · obtain ⟨t, rfl⟩ := Option.isSome_iff_exists.mp some
      exact List.append_ne_nil_of_right_ne_nil _ (List.cons_ne_nil _ _)
    · exact List.append_ne_nil_of_right_ne_nil _
        (List.append_ne_nil_of_right_ne_nil _ (List.ne_nil_of_mem (mem_listBlocks.mpr ⟨some, rfl⟩)))
  obtain ⟨doc, read, here, absent⟩ := parseStr_alone reads.toReadsEntries filled (headerKeys_known all keys)
    (keys.nodup apart) alone ("\n" ++ body)
  simp only [blocks, List.forall_mem_append] at here
  refine ⟨doc, ?_, lists_of_blocks here.2.2 fun none => absent _ ?_⟩
  · have file : "---\n" ++ lined blocks ++ "---\n\n" ++ body =
        "---\n" ++ lined blocks ++ "---\n" ++ ("\n" ++ body) := by
      rw [← String.toList_inj]
      simp only [String.toList_append, List.append_assoc]
      rfl
    rw [header, file]
    exact read
  · have others := apart
    simp only [List.nodup_cons, List.mem_cons, List.not_mem_nil, or_false, not_or] at others
    simp only [blocks, List.map_append, List.mem_append, not_or, mem_listBlocks_keys, none]
    exact ⟨not_mem_optionBlocks_keys (Ne.symm others.1.2), not_mem_optionBlocks_keys (Ne.symm others.2.1), by simp⟩

theorem skillDoc_allowsExactly (reads : ReadsBlocks HeaderKey serde) (s : SkillDoc) (plain : DocPlain serde s) :
    AllowsExactly serde s.markdown s.allowedTools := by
  obtain ⟨value, name⟩ := optionBlocks_alone plain.name
  obtain ⟨value', description⟩ := optionBlocks_alone plain.description
  exact allowsExactly_lined reads ⟨by decide, by decide⟩ (by decide) name description plain.allowedTools (.inl rfl)
    (ended s.body)

theorem commandDoc_allowsExactly (reads : ReadsBlocks HeaderKey serde) (c : CommandDoc) (plain : CommandPlain serde c) :
    AllowsExactly serde c.markdown c.allowedTools := by
  rw [CommandDoc.markdown]
  cases headed : c.hasFm with
  | true =>
    obtain ⟨value, description⟩ := optionBlocks_alone plain.description
    obtain ⟨value', model⟩ := optionBlocks_alone plain.model
    rw [if_pos rfl]
    refine allowsExactly_lined reads ⟨by decide, by decide⟩ (by decide) description model plain.allowedTools ?_ _
    simp only [CommandDoc.hasFm, Bool.or_eq_true, Bool.not_eq_true', List.isEmpty_eq_false_iff] at headed
    rcases headed with (some | some) | some
    · exact .inl some
    · exact .inr (.inr some)
    · exact .inr (.inl some)
  | false =>
    rw [if_neg (by simp)]
    refine ⟨{ frontmatter := ∅, body := ended c.body }, ?_, .inr ⟨Std.ExtTreeMap.getElem?_empty, ?_⟩⟩
    · rw [parseStr]
      split
      · next begins => rw [plain.unheaded headed begins]
      · rfl
    · simp only [CommandDoc.hasFm, Bool.or_eq_false_iff, Bool.not_eq_false', List.isEmpty_iff] at headed
      exact headed.1.2

/-- The files are composed exactly if every summary is cut between two characters, and a header says what is meant
if each text in it is read by itself as what it is. -/
theorem projection_faithful (p : ConceptProjection) (sdk : Projection) (toStringPretty : Value → Option String) :
    (p.composed.isSome ↔ ∀ s ∈ p.skills, s.SummaryFits) ∧
      (∀ s ∈ sdk.skills, s.file ∈ renderProjection toStringPretty sdk) ∧
      (∀ c ∈ sdk.commands, c.file ∈ renderProjection toStringPretty sdk) ∧
      ∀ serde, ReadsBlocks HeaderKey serde →
        (∀ s ∈ p.skills, s.Plain serde → s.Faithful serde) ∧
        (∀ s ∈ sdk.skills, DocPlain serde s → AllowsExactly serde s.file.2 s.allowedTools) ∧
        ∀ c ∈ sdk.commands, CommandPlain serde c → AllowsExactly serde c.file.2 c.allowedTools := by
  have first {file : String × String}
      (member : file ∈ sdk.skills.map SkillDoc.file ++ sdk.commands.map CommandDoc.file) :
      file ∈ renderProjection toStringPretty sdk := List.mem_append_left _ (List.mem_append_left _ member)
  refine ⟨composed_isSome_iff p, fun s member => first ?_, fun c member => first ?_, fun serde reads => ⟨?_, ?_, ?_⟩⟩
  · exact List.mem_append_left _ (List.mem_map_of_mem member)
  · exact List.mem_append_right _ (List.mem_map_of_mem member)
  · exact fun s _ => s.faithful reads
  · exact fun s _ => skillDoc_allowsExactly reads s
  · exact fun c _ => commandDoc_allowsExactly reads c

end

theorem frontmatterList_text (key : String) {items : List String} (present : items ≠ []) :
    frontmatterList key items = key ++ ":" ++ listText items ++ "\n" := by
  have ends := join_listText items
  rw [frontmatterList, SkillProposal.listLines, if_neg (by simpa using present)]
  have colon : ":\n" = ":" ++ "\n" := rfl
  rw [colon, ← String.append_assoc, String.append_assoc, ends, String.append_assoc, String.append_assoc,
    String.append_assoc]

/-- The lines of a description can be a list of tools: the file is the same. -/
theorem description_grants (s : SkillDoc) (d : String) {tools : List String} (present : tools ≠ []) :
    ({ s with
        description := some (d ++ "\nallowed-tools:" ++ listText tools), allowedTools := [] } : SkillDoc).markdown =
      ({ s with description := some d, allowedTools := tools } : SkillDoc).markdown := by
  have none : frontmatterList "allowed-tools" [] = "" := rfl
  rw [SkillDoc.markdown, SkillDoc.markdown, frontmatterList_text _ present, none, ← String.toList_inj]
  simp [optionLine]

theorem keyword_grants (s : SkillSnapshot) (k : String) {tools : List String} (present : tools ≠ []) :
    renderSkill { s with keywords := [k ++ "\ntools:" ++ listText tools], tools := [] } =
      renderSkill { s with keywords := [k], tools } := by
  have none : frontmatterList "tools" [] = "" := rfl
  have one (item : String) : frontmatterList "keywords" [item] = "keywords:\n  - " ++ item ++ "\n" := by
    rw [← String.toList_inj]
    simp [frontmatterList, SkillProposal.listLines]
  rw [renderSkill, renderSkill, frontmatterList_text _ present, none, one, one]
  refine congrArg ended ?_
  rw [← String.toList_inj]
  simp

theorem lists_unique {value : Option Value} {tools : List String} (present : tools ≠ []) (lists : Lists value tools) :
    ¬ Lists value [] := by
  obtain rfl : value = some (.array (tools.map .string)) := lists.resolve_right fun none => present none.2
  rintro (empty | none)
  · simp [present] at empty
  · cases none.1

theorem description_unread (serde : SerdeYaml) (s : SkillDoc) (d : String) {tools : List String} (present : tools ≠ [])
    (right : AllowsExactly serde ({ s with description := some d, allowedTools := tools } : SkillDoc).markdown tools) :
    ¬ AllowsExactly serde ({ s with
      description := some (d ++ "\nallowed-tools:" ++ listText tools), allowedTools := []
      } : SkillDoc).markdown [] := by
  rw [description_grants s d present]
  obtain ⟨doc, read, lists⟩ := right
  rintro ⟨doc', read', empty⟩
  rw [read, Except.ok.injEq] at read'
  exact lists_unique present lists (read' ▸ empty)

theorem keyword_unread (serde : SerdeYaml) (s : SkillSnapshot) (k : String) {tools : List String} (present : tools ≠ [])
    (right : ({ s with keywords := [k], tools } : SkillSnapshot).Faithful serde) :
    ¬ ({ s with keywords := [k ++ "\ntools:" ++ listText tools], tools := [] } : SkillSnapshot).Faithful serde := by
  obtain ⟨doc, read, said⟩ := right
  rintro ⟨doc', read', said'⟩
  rw [keyword_grants s k present, read, Except.ok.injEq] at read'
  exact lists_unique present said.tools (read' ▸ said'.tools)

def rag : SkillSnapshot where
  id := "rag"
  name := "RAG"
  instructionFragment := "Use the codebase index before answering.\n"
  keywords := ["search"]
  priority := 7
  tools := ["Read"]

def reviewing : SkillDoc := ⟨"review", some "Review", some "Reviews", ["Read"], "Do a review."⟩

def echoing : CommandDoc := ⟨"echo", some "Echo", [], none, "Echo: $ARGUMENTS"⟩

theorem rag_plain : rag.Plain plainYaml where
  name := ⟨rfl, rfl, by unfold Unmarked; decide, .inr rfl⟩
  id := ⟨rfl, rfl, by unfold Unmarked; decide, .inr rfl⟩
  keywords _ := ⟨rfl, rfl, by unfold Unmarked; decide, .inr rfl⟩
  tools _ := ⟨rfl, rfl, by unfold Unmarked; decide, .inr rfl⟩

theorem reviewing_plain : DocPlain plainYaml reviewing where
  name t same := by
    cases same
    exact ⟨.string "Review", rfl, rfl, by unfold Unmarked; decide, .inr rfl⟩
  description t same := by
    cases same
    exact ⟨.string "Reviews", rfl, rfl, by unfold Unmarked; decide, .inr rfl⟩
  allowedTools _ := ⟨rfl, rfl, by unfold Unmarked; decide, .inr rfl⟩

theorem echoing_plain : CommandPlain plainYaml echoing where
  description t same := by
    cases same
    exact ⟨.string "Echo", rfl, rfl, by unfold Unmarked; decide, .inr rfl⟩
  model t same := nomatch same
  allowedTools present := absurd rfl present
  unheaded none := nomatch none

theorem rag_faithful : (ConceptProjection.composed ⟨none, [rag], none⟩).isSome ∧ rag.Faithful plainYaml ∧
    AllowsExactly plainYaml reviewing.markdown ["Read"] ∧ AllowsExactly plainYaml echoing.markdown [] := by
  obtain ⟨total, -, -, headers⟩ :=
    projection_faithful ⟨none, [rag], none⟩ ⟨[reviewing], [echoing], [], none⟩ fun _ => none
  obtain ⟨skills, docs, commands⟩ := headers plainYaml (plainYaml_readsBlocks HeaderKey)
  refine ⟨total.mpr ?_, skills rag (by simp) rag_plain, docs reviewing (by simp) reviewing_plain,
    commands echoing (by simp) echoing_plain⟩
  intro s member
  rw [List.mem_singleton.mp member]
  exact .inl (by decide)

theorem pieces_line {text : List Char} (line : '\n' ∉ text) (filled : text ≠ []) : pieces (· = '\n') text = [text] := by
  induction text with
  | nil => exact absurd rfl filled
  | cons c rest ih =>
    rw [List.mem_cons, not_or] at line
    have other : ¬ decide (c = '\n') = true := by simpa using Ne.symm line.1
    rw [pieces, if_neg other]
    cases rest with
    | nil => rfl
    | cons d rest => rw [ih line.2 (List.cons_ne_nil d rest)]

theorem headline_line {first last : Char} {middle : List Char} (line : '\n' ∉ first :: (middle ++ [last]))
    (begins : isWhitespace first = false) (ends : isWhitespace last = false) :
    headline (String.ofList (first :: (middle ++ [last]))) = first :: (middle ++ [last]) := by
  have final : (first :: (middle ++ [last])).getLast? = some last := by
    rw [← List.cons_append, List.getLast?_concat]
  have kept : stripLineEnd (first :: (middle ++ [last])) = first :: (middle ++ [last]) := by
    rw [stripLineEnd, final, if_neg]
    rintro same
    exact line (by simp [Option.some.inj same])
  have visible : ¬ isWhitespace last = true := by simp [ends]
  have trimmed : (first :: (middle ++ [last])).rdropWhile isWhitespace = first :: (middle ++ [last]) := by
    rw [← List.cons_append, List.rdropWhile_concat_neg _ _ _ visible]
  rw [headline, String.toList_ofList, lines, pieces_line line (List.cons_ne_nil _ _), List.map_singleton,
    List.head?_cons, Option.getD_some, kept, trim, String.toList_ofList, String.toList_ofList,
    List.dropWhile_cons_of_neg (by simp [begins]), trimmed]

theorem utf8Length_replicate (n : Nat) (c : Char) : utf8Length (List.replicate n c) = n * c.utf8Size := by
  induction n with
  | zero => rw [Nat.zero_mul]; rfl
  | succ n ih => rw [List.replicate_succ, utf8Length_cons, ih, Nat.succ_mul, Nat.add_comm]

-- One byte and sixty letters of two bytes.
def longLine : SkillSnapshot :=
  { rag with instructionFragment := String.ofList ('a' :: (List.replicate 59 'é' ++ ['é'])) }

theorem longLine_unfit : ¬ longLine.SummaryFits := by
  have line : '\n' ∉ 'a' :: (List.replicate 59 'é' ++ ['é']) := by simp
  have letters : 'a' :: (List.replicate 59 'é' ++ ['é']) = 'a' :: List.replicate 60 'é' := rfl
  have length (n : Nat) : utf8Length ('a' :: List.replicate n 'é') = 1 + n * 2 := by
    rw [utf8Length_cons, utf8Length_replicate]
    rfl
  rw [SkillSnapshot.SummaryFits, longLine, headline_line line (by decide) (by decide), letters, length]
  rintro (short | ⟨front, begins, size⟩)
  · omega
  · cases front with
    | nil => exact absurd size (by decide)
    | cons c front =>
      obtain ⟨rfl, more⟩ := List.cons_prefix_cons.mp begins
      obtain ⟨-, same⟩ := List.prefix_replicate_iff.mp more
      rw [same, length] at size
      omega

def shell : List String := ["Bash"]

theorem shell_plain : ({ rag with tools := shell } : SkillSnapshot).Plain plainYaml where
  name := rag_plain.name
  id := rag_plain.id
  keywords := rag_plain.keywords
  tools _ := ⟨rfl, rfl, by unfold Unmarked; decide, .inr rfl⟩

theorem reviewing_shell_plain : DocPlain plainYaml { reviewing with allowedTools := shell } where
  name := reviewing_plain.name
  description := reviewing_plain.description
  allowedTools _ := ⟨rfl, rfl, by unfold Unmarked; decide, .inr rfl⟩

/-- A long line is cut inside a character, and a line of a text grants a tool. -/
theorem projection_fails : ConceptProjection.composed ⟨none, [longLine], none⟩ = none ∧
    ¬ ({ rag with keywords := ["search\ntools:\n  - Bash"], tools := [] } : SkillSnapshot).Faithful plainYaml ∧
    AllowsExactly plainYaml ({ reviewing with
      description := some "Reviews\nallowed-tools:\n  - Bash", allowedTools := [] } : SkillDoc).markdown ["Bash"] ∧
    ¬ AllowsExactly plainYaml ({ reviewing with
      description := some "Reviews\nallowed-tools:\n  - Bash", allowedTools := [] } : SkillDoc).markdown [] := by
  have honest := skillDoc_allowsExactly (plainYaml_readsBlocks HeaderKey) _ reviewing_shell_plain
  have present : shell ≠ [] := List.cons_ne_nil _ _
  have text : "Reviews" ++ "\nallowed-tools:" ++ listText shell = "Reviews\nallowed-tools:\n  - Bash" := by decide
  refine ⟨?_, ?_, ?_, ?_⟩
  · rw [← Option.not_isSome_iff_eq_none, composed_isSome_iff]
    exact fun fits => longLine_unfit (fits longLine (by simp))
  · have text : "search" ++ "\ntools:" ++ listText shell = "search\ntools:\n  - Bash" := by decide
    rw [← text]
    exact keyword_unread plainYaml rag "search" present
      (SkillSnapshot.faithful (plainYaml_readsBlocks HeaderKey) _ shell_plain)
  · rw [← text, description_grants reviewing "Reviews" present]
    exact honest
  · rw [← text]
    exact description_unread plainYaml reviewing "Reviews" present honest

end AtomrAgents.CodingCli
