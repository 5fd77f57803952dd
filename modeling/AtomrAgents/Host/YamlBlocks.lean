import AtomrAgents.Host.Markdown

set_option autoImplicit false

/-! A header that is written block by block, each the key with what stands under it. What is asked of the YAML
parser is that it reads a mapping from its entries. -/

namespace AtomrAgents

open Shared

def isLineBreak (c : Char) : Bool := c == '\n'

def textLines (text : String) : List (List Char) := text.toList.splitOnP isLineBreak

-- YAML has more line breaks.
def isYamlBreak (c : Char) : Bool := isLineBreak c || ['\r', '\u0085', '\u2028', '\u2029'].contains c

def yamlLines (text : String) : List (List Char) := text.toList.splitOnP isYamlBreak

def Unmarked (text : String) : Prop :=
  ∀ line ∈ yamlLines text, ¬"---".toList <+: line ∧ ¬"...".toList <+: line

def PlainKey (key : String) : Prop := key.toList ≠ [] ∧ ∀ c ∈ key.toList, c.isLower ∨ c = '_'

def BeginsWith (Key : String → Prop) (text : String) : Prop := ∃ key rest, Key key ∧ text = key ++ ":" ++ rest

def Yaml.isScalar : Yaml → Bool
  | .null | .bool _ | .number _ | .string _ => true
  | _ => false

def Yaml.isFlat : Yaml → Bool
  | .sequence items => items.all isScalar
  | value => value.isScalar

structure YamlBlock where
  key : String
  text : String
  value : Yaml

namespace YamlBlock

def render (block : YamlBlock) : String := block.key ++ ":" ++ block.text

def entry (block : YamlBlock) : Yaml × Yaml := (.string block.key, block.value)

def Reads (serde : SerdeYaml) (block : YamlBlock) : Prop :=
  serde.fromStr block.render = some (.mapping [block.entry])

-- Other entries may follow. A block scalar may be another text once its last line has ended, and the parser allows
-- only so many aliases in all.
structure Closed (serde : SerdeYaml) (block : YamlBlock) : Prop where
  ended : serde.fromStr (block.render ++ "\n") = some (.mapping [block.entry])
  unmarked : Unmarked block.render
  unaliased : '*' ∉ block.render.toList ∨ block.value.isFlat = true

end YamlBlock

-- A block mapping is read entry after entry, if no key comes twice.
structure ReadsEntries (Key : String → Prop) (serde : SerdeYaml) : Prop where
  blocks (block : YamlBlock) (rest : String) (entries : List (Yaml × Yaml)) (known : Key block.key)
    (begins : BeginsWith Key rest) (closed : block.Closed serde) (read : serde.fromStr rest = some (.mapping entries))
    (apart : .string block.key ∉ entries.map Prod.fst) :
    serde.fromStr (block.render ++ "\n" ++ rest) = some (.mapping (block.entry :: entries))

-- A decimal is read as a number.
structure ReadsBlocks (Key : String → Prop) (serde : SerdeYaml) : Prop extends ReadsEntries Key serde where
  number (n : UInt8) (ending : String) (blank : ending = "" ∨ ending = "\n") :
    serde.fromStr ("priority: " ++ toString n.toNat ++ ending) =
      some (.mapping [(.string "priority", .number (.posInt n.toUInt64))])

def joinLines : List String → String
  | [] => ""
  | [line] => line
  | line :: lines => line ++ "\n" ++ joinLines lines

section Lines

theorem joinLines_cons {line : String} {lines : List String} (present : lines ≠ []) :
    joinLines (line :: lines) = line ++ "\n" ++ joinLines lines := by
  cases lines with
  | nil => exact absurd rfl present
  | cons next lines => rfl

theorem textLines_append (front back : String) :
    textLines (front ++ "\n" ++ back) = textLines front ++ textLines back := by
  have chars : (front ++ "\n" ++ back).toList = front.toList ++ '\n' :: back.toList := by
    simp [String.toList_append]
  rw [textLines, chars, List.splitOnP_append_cons _ _ rfl]
  rfl

theorem textLines_joinLines {lines : List String} (present : lines ≠ []) :
    textLines (joinLines lines) = lines.flatMap textLines := by
  induction lines with
  | nil => exact absurd rfl present
  | cons line lines ih =>
    cases lines with
    | nil => simp [joinLines]
    | cons next lines =>
      have more := List.cons_ne_nil next lines
      rw [joinLines_cons more, textLines_append, ih more]
      rfl

theorem join_ended {lines : List String} (present : lines ≠ []) :
    String.join (lines.map fun line => line ++ "\n") = joinLines lines ++ "\n" := by
  induction lines with
  | nil => exact absurd rfl present
  | cons line lines ih =>
    cases lines with
    | nil => simp [joinLines]
    | cons next lines =>
      have more := List.cons_ne_nil next lines
      rw [List.map_cons, String.join_cons, ih more, joinLines_cons more]
      simp only [String.append_assoc]

theorem unbroken_priority (n : Nat) : ∀ c ∈ ("priority: " ++ toString n).toList, isYamlBreak c = false := by
  intro c member
  rw [String.toList_append, List.mem_append] at member
  rcases member with early | digit
  · have unbroken : ("priority: ".toList.all fun c => !isYamlBreak c) = true := by decide
    simpa using List.all_eq_true.mp unbroken c early
  · rw [Nat.toString_eq_repr, Nat.toList_repr] at digit
    have plain := Nat.isDigit_of_mem_toDigits (by decide) (by decide) digit
    rw [← Bool.not_eq_true]
    intro breaks
    simp only [isYamlBreak, isLineBreak, Bool.or_eq_true, beq_iff_eq, List.contains_iff_mem, List.mem_cons,
      List.not_mem_nil, or_false] at breaks
    rcases breaks with rfl | rfl | rfl | rfl | rfl
    all_goals exact absurd plain (by decide)

theorem textLines_priority (n : Nat) : textLines ("priority: " ++ toString n) = [("priority: " ++ toString n).toList] :=
  List.splitOnP_eq_singleton fun c member => (Bool.or_eq_false_iff.mp (unbroken_priority n c member)).1

theorem unmarked_priority (n : Nat) : Unmarked ("priority: " ++ toString n) := by
  intro line member
  rw [yamlLines, List.splitOnP_eq_singleton (unbroken_priority n), List.mem_singleton] at member
  have first : ∃ rest, line = 'p' :: rest := ⟨_, member.trans (String.toList_append ..)⟩
  obtain ⟨rest, rfl⟩ := first
  constructor
  · exact fun dashes => absurd (List.cons_prefix_cons.mp dashes).1 (by decide)
  · exact fun dots => absurd (List.cons_prefix_cons.mp dots).1 (by decide)

theorem Unmarked.fence_not_mem {text : String} (unmarked : Unmarked text) : "---".toList ∉ textLines text := by
  intro line
  have unbroken : ("---".toList.all fun c => !(['\r', '\u0085', '\u2028', '\u2029'].contains c)) = true := by decide
  have found := mem_splitOnP_or line fun c member => Bool.not_eq_true' _ |>.mp (List.all_eq_true.mp unbroken c member)
  exact (unmarked _ found).1 List.prefix_rfl

end Lines

section Blocks

variable {serde : SerdeYaml} {Key : String → Prop} {blocks : List YamlBlock}

theorem YamlBlock.beginsWith {block : YamlBlock} (known : Key block.key) : BeginsWith Key block.render :=
  ⟨block.key, block.text, known, rfl⟩

theorem beginsWith_append {text : String} (begins : BeginsWith Key text) (more : String) :
    BeginsWith Key (text ++ more) := by
  obtain ⟨key, rest, plain, rfl⟩ := begins
  exact ⟨key, rest ++ more, plain, by simp only [String.append_assoc]⟩

theorem reads_joined (reads : ReadsEntries Key serde) (present : blocks ≠ [])
    (known : ∀ block ∈ blocks, Key block.key) (closed : ∀ block ∈ blocks.dropLast, block.Closed serde)
    (read : ∀ block ∈ blocks, block.Reads serde) (distinct : (blocks.map YamlBlock.key).Nodup) :
    BeginsWith Key (joinLines (blocks.map YamlBlock.render)) ∧
      serde.fromStr (joinLines (blocks.map YamlBlock.render)) = some (.mapping (blocks.map YamlBlock.entry)) := by
  induction blocks with
  | nil => exact absurd rfl present
  | cons block blocks ih =>
    rw [List.forall_mem_cons] at known read
    rw [List.map_cons, List.nodup_cons] at distinct
    have begins := YamlBlock.beginsWith known.1
    cases blocks with
    | nil => exact ⟨begins, read.1⟩
    | cons next blocks =>
      rw [List.dropLast_cons_of_ne_nil (List.cons_ne_nil next blocks), List.forall_mem_cons] at closed
      obtain ⟨begins', read'⟩ := ih (List.cons_ne_nil next blocks) known.2 closed.2 read.2 distinct.2
      rw [List.map_cons, joinLines_cons (by simp)]
      refine ⟨?_, ?_⟩
      · rw [String.append_assoc]
        exact beginsWith_append begins _
      · refine reads.blocks block _ _ known.1 begins' closed.1 read' fun later => ?_
        obtain ⟨entry, member, same⟩ := List.mem_map.mp later
        obtain ⟨other, here, rfl⟩ : ∃ other ∈ next :: blocks, other.entry = entry := List.mem_map.mp member
        exact distinct.1 (List.mem_map.mpr ⟨other, here, Yaml.string.inj same⟩)

theorem entriesToJson_cons (block : YamlBlock) (blocks : List YamlBlock) (fields : Values) :
    entriesToJson serde ((block :: blocks).map YamlBlock.entry) fields =
      entriesToJson serde (blocks.map YamlBlock.entry)
        (fields.insert block.key (yamlToJson serde block.value)) := by
  rw [List.map_cons, YamlBlock.entry, entriesToJson]
  rfl

theorem field_of_absent {key : String} (absent : key ∉ blocks.map YamlBlock.key) (fields : Values) :
    (entriesToJson serde (blocks.map YamlBlock.entry) fields)[key]? = fields[key]? := by
  induction blocks generalizing fields with
  | nil => rfl
  | cons block blocks ih =>
    rw [List.map_cons, List.mem_cons, not_or] at absent
    rw [entriesToJson_cons, ih absent.2, Std.ExtTreeMap.getElem?_insert, if_neg]
    simpa using Ne.symm absent.1

theorem field_of_mem (distinct : (blocks.map YamlBlock.key).Nodup) {block : YamlBlock} (member : block ∈ blocks)
    (fields : Values) : (entriesToJson serde (blocks.map YamlBlock.entry) fields)[block.key]? =
      some (yamlToJson serde block.value) := by
  induction blocks generalizing fields with
  | nil => cases member
  | cons first blocks ih =>
    rw [List.map_cons, List.nodup_cons] at distinct
    rw [entriesToJson_cons]
    rcases List.mem_cons.mp member with rfl | later
    · rw [field_of_absent distinct.1, Std.ExtTreeMap.getElem?_insert_self]
    · exact ih distinct.2 later _

end Blocks

section Closing

theorem breakOn_closer {header : String} (plain : "---".toList ∉ textLines header) (rest : List Char) :
    breakOn closer (header.toList ++ (closer ++ rest)) = some (header.toList, rest) := by
  refine breakOn_append (by decide) _ _ ?_
  rintro ⟨front, back, whole⟩
  have left : (header.toList ++ '\n' :: "---".toList).splitOnP isLineBreak =
      textLines header ++ ["---".toList] := by
    rw [List.splitOnP_append_cons _ _ rfl]
    rfl
  have right : (front ++ '\n' :: ("---".toList ++ '\n' :: back)).splitOnP isLineBreak =
      front.splitOnP isLineBreak ++ "---".toList :: back.splitOnP isLineBreak := by
    rw [List.splitOnP_append_cons _ _ rfl, List.splitOnP_append_cons _ _ rfl]
    rfl
  have same : front ++ '\n' :: ("---".toList ++ '\n' :: back) = header.toList ++ '\n' :: "---".toList := by
    rw [← show header.toList ++ closer.dropLast = header.toList ++ '\n' :: "---".toList from rfl, ← whole,
      List.append_assoc]
    rfl
  rw [same, left] at right
  have shorter := congrArg List.dropLast right
  rw [List.dropLast_concat, List.dropLast_append_of_ne_nil (List.cons_ne_nil _ _),
    List.dropLast_cons_of_ne_nil (List.splitOnP_ne_nil _ _)] at shorter
  rw [shorter] at plain
  exact plain (by simp)

theorem parseStr_blocks {serde : SerdeYaml} {Key : String → Prop} {blocks : List YamlBlock}
    (reads : ReadsEntries Key serde) (present : blocks ≠ []) (known : ∀ block ∈ blocks, Key block.key)
    (closed : ∀ block ∈ blocks.dropLast, block.Closed serde) (read : ∀ block ∈ blocks, block.Reads serde)
    (distinct : (blocks.map YamlBlock.key).Nodup) (plain : ∀ block ∈ blocks, "---".toList ∉ textLines block.render)
    {text body : String} (whole : text.toList =
      fence ++ ((joinLines (blocks.map YamlBlock.render)).toList ++ (closer ++ body.toList)))
    (path : Option (List UnixPath.Component)) : parseStr serde text path =
      .ok { frontmatter := entriesToJson serde (blocks.map YamlBlock.entry) ∅, body } := by
  obtain ⟨-, together⟩ := reads_joined reads present known closed read distinct
  have closes : "---".toList ∉ textLines (joinLines (blocks.map YamlBlock.render)) := by
    rw [textLines_joinLines (by simpa using present), List.mem_flatMap]
    rintro ⟨text, member, line⟩
    obtain ⟨block, here, rfl⟩ := List.mem_map.mp member
    exact plain block here line
  rw [parseStr, whole, if_pos (List.prefix_append _ _), List.drop_left, breakOn_closer closes]
  simp only [String.ofList_toList, together]

end Closing

end AtomrAgents

namespace AtomrAgents

open Shared

-- What YAML has for other kinds of values.
def reservedWords : List String :=
  ["null", "Null", "NULL", "true", "True", "TRUE", "false", "False", "FALSE"]

def readScalar (text : List Char) : Option Yaml :=
  let n := Nat.ofDigitChars 10 text 0
  if text = (toString n).toList ∧ n < 2 ^ 64 then some (.number (.posInt n.toUInt64))
  else if text ≠ [] ∧ text.all Char.isAlpha ∧ String.ofList text ∉ reservedWords then
    some (.string (String.ofList text))
  else none

def readItem (line : List Char) : Option Yaml :=
  if "  - ".toList <+: line then readScalar (line.drop 4) else none

def isWord (key : List Char) : Bool :=
  key.head?.any Char.isLower && key.all (fun c => c.isLower || c == '-' || c == '_') &&
    String.ofList key ∉ reservedWords

-- A line at the margin with the lines below it that are not.
def readGroup : List Char × List (List Char) → Option (String × Yaml)
  | (line, items) =>
    match breakOn [':'] line, items with
    | some (key, ' ' :: text), [] =>
      if isWord key then (readScalar text).map fun value => (String.ofList key, value) else none
    | some (key, []), _ :: _ =>
      if isWord key then (items.mapM readItem).map fun values => (String.ofList key, .sequence values) else none
    | _, _ => none

def groupLine (line : List Char) (lines : List (List Char) × List (List Char × List (List Char))) :
    List (List Char) × List (List Char × List (List Char)) :=
  if line.head? = some ' ' then (line :: lines.1, lines.2) else ([], (line, lines.1) :: lines.2)

def unended (text : String) : String :=
  if text.toList.getLast? = some '\n' then String.ofList text.toList.dropLast else text

def readPlain (text : String) : Option Yaml :=
  let (loose, groups) := (textLines (unended text)).foldr groupLine ([], [])
  if loose = [] then do
    let entries ← groups.mapM readGroup
    if (entries.map Prod.fst).Nodup then
      some (.mapping (entries.map fun entry => (.string entry.1, entry.2)))
    else none
  else none

def plainYaml : SerdeYaml where
  fromStr := readPlain
  toString _ := none

theorem groupLines_append (lines : List (List Char)) (groups : List (List Char × List (List Char))) :
    lines.foldr groupLine ([], groups) =
      ((lines.foldr groupLine ([], [])).1, (lines.foldr groupLine ([], [])).2 ++ groups) := by
  induction lines with
  | nil => rfl
  | cons line lines ih =>
    rw [List.foldr_cons, List.foldr_cons, ih, groupLine, groupLine]
    split
    · rfl
    · rfl

theorem readPlain_eq_some {text : String} {value : Yaml} : readPlain text = some value ↔
    ∃ groups entries, (textLines (unended text)).foldr groupLine ([], []) = ([], groups) ∧
      groups.mapM readGroup = some entries ∧ (entries.map Prod.fst).Nodup ∧
      value = .mapping (entries.map fun entry => (.string entry.1, entry.2)) := by
  rw [readPlain]
  obtain ⟨loose, groups⟩ := (textLines (unended text)).foldr groupLine ([], [])
  simp only [Prod.mk.injEq]
  constructor
  · intro read
    split at read
    next none =>
      obtain ⟨entries, each, read⟩ := Option.bind_eq_some_iff.mp read
      split at read
      next distinct =>
        rw [Option.some_inj] at read
        exact ⟨groups, entries, ⟨none, rfl⟩, each, distinct, read.symm⟩
      next => cases read
    next => cases read
  · rintro ⟨groups, entries, ⟨rfl, rfl⟩, each, distinct, rfl⟩
    simp [each, distinct]

theorem readScalar_toString {n : Nat} (small : n < 2 ^ 64) :
    readScalar (toString n).toList = some (.number (.posInt n.toUInt64)) := by
  have value : Nat.ofDigitChars 10 (toString n).toList 0 = n := by
    rw [Nat.toString_eq_repr, Nat.toList_repr, Nat.ofDigitChars_ten_toDigits]
  rw [readScalar, value, if_pos ⟨rfl, small⟩]

theorem unended_ended (text : String) : unended (text ++ "\n") = text := by
  have chars : (text ++ "\n").toList = text.toList ++ ['\n'] := String.toList_append ..
  rw [unended, chars, List.getLast?_concat, if_pos rfl, List.dropLast_concat, String.ofList_toList]

theorem unended_append (front : String) {rest : String} (present : rest.toList ≠ []) :
    unended (front ++ rest) = front ++ unended rest := by
  rw [unended, unended, String.toList_append, List.getLast?_append_of_ne_nil _ present]
  split
  · rw [List.dropLast_append_of_ne_nil present, String.ofList_append, String.ofList_toList]
  · rfl

theorem unended_unbroken {text : String} (unbroken : ∀ c ∈ text.toList, isYamlBreak c = false) :
    unended text = text := by
  rw [unended, if_neg]
  intro last
  cases unbroken '\n' (List.mem_of_getLast? last)

theorem readPlain_priority {n : Nat} (small : n < 2 ^ 64) {text : String}
    (line : unended text = "priority: " ++ toString n) :
    readPlain text = some (.mapping [(.string "priority", .number (.posInt n.toUInt64))]) := by
  have parts : ("priority: " ++ toString n).toList = "priority".toList ++ ([':'] ++ ' ' :: (toString n).toList) := by
    rw [String.toList_append]
    rfl
  refine readPlain_eq_some.mpr ⟨[("priority".toList ++ ([':'] ++ ' ' :: (toString n).toList), [])],
    [("priority", .number (.posInt n.toUInt64))], ?_, ?_, List.nodup_singleton _, rfl⟩
  · rw [line, textLines_priority, parts]
    rfl
  · have key : breakOn [':'] ("priority".toList ++ ([':'] ++ ' ' :: (toString n).toList)) =
        some ("priority".toList, ' ' :: (toString n).toList) := breakOn_append (by decide) _ _ (by decide)
    have word : isWord "priority".toList = true := by decide
    have group : readGroup ("priority".toList ++ ([':'] ++ ' ' :: (toString n).toList), []) =
        some ("priority", .number (.posInt n.toUInt64)) := by
      simp only [readGroup, key, word, if_true, readScalar_toString small]
      rfl
    rw [List.mapM_cons, group]
    rfl

theorem plainYaml_readsEntries (Key : String → Prop) : ReadsEntries Key plainYaml where
  blocks block rest entries' _ begins closed read' apart := by
    obtain ⟨groups, fields, lines, each, distinct, same⟩ := readPlain_eq_some.mp closed.ended
    obtain ⟨groups', fields', lines', each', distinct', same'⟩ := readPlain_eq_some.mp read'
    have present : rest.toList ≠ [] := by
      obtain ⟨key, text, -, rfl⟩ := begins
      simp
    rw [unended_ended] at lines
    have whole : block.entry :: entries' =
        (fields ++ fields').map fun entry => (.string entry.1, entry.2) := by
      rw [List.map_append, ← Yaml.mapping.inj same, ← Yaml.mapping.inj same']
      rfl
    refine readPlain_eq_some.mpr ⟨groups ++ groups', fields ++ fields', ?_, ?_, ?_, congrArg Yaml.mapping whole⟩
    · rw [unended_append _ present, textLines_append, List.foldr_append, lines', groupLines_append, lines]
    · rw [List.mapM_append, each, each']
      rfl
    · rw [List.map_append, List.nodup_append]
      refine ⟨distinct, distinct', ?_⟩
      rintro key here other there rfl
      obtain ⟨field, member, rfl⟩ := List.mem_map.mp here
      obtain ⟨field', member', same''⟩ := List.mem_map.mp there
      obtain ⟨one, -⟩ : .string field.1 = Yaml.string block.key ∧ field.2 = block.value := by
        have entry : (.string field.1, field.2) ∈ [block.entry] := by
          rw [Yaml.mapping.inj same]
          exact List.mem_map_of_mem member
        simpa [YamlBlock.entry] using entry
      refine apart ?_
      rw [← one, ← same'', Yaml.mapping.inj same', List.map_map]
      exact List.mem_map_of_mem member'

theorem plainYaml_readsBlocks (Key : String → Prop) : ReadsBlocks Key plainYaml where
  toReadsEntries := plainYaml_readsEntries Key
  number n ending blank := by
    have wide : n.toUInt64 = n.toNat.toUInt64 := by simp
    have small : n.toNat < 2 ^ 64 := n.toNat_lt.trans (by decide)
    rw [wide]
    refine readPlain_priority small ?_
    rcases blank with rfl | rfl
    · rw [String.append_empty]
      exact unended_unbroken (unbroken_priority n.toNat)
    · exact unended_ended _

end AtomrAgents
