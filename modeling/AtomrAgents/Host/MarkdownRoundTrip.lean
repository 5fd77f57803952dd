import AtomrAgents.Host.YamlBlocks
import AtomrAgents.Host.YamlJson

set_option autoImplicit false

namespace AtomrAgents

open Shared Shared.UnixPath

structure JsonDoc extends MarkdownDoc where
  json : AllJson frontmatter

variable (serde : SerdeYaml)

def MarkdownDoc.header (doc : MarkdownDoc) : Yaml := .mapping (insertValues [] doc.frontmatter)

def MarkdownDoc.toMarkdownString (doc : MarkdownDoc) : String :=
  if doc.frontmatter.isEmpty then doc.body
  else "---\n" ++ (serde.toString doc.header).getD "" ++ "---\n" ++ doc.body

def readHeader (text : String) : Option Values :=
  match serde.fromStr text with
  | some (.mapping entries) => some (entriesToJson serde entries ∅)
  | some .null => some ∅
  | _ => none

-- The library prints the header as lines none of which is a fence, and reads it back.
structure PrintsBack (doc : MarkdownDoc) (lines : String) : Prop where
  prints : serde.toString doc.header = some (lines ++ "\n")
  reads : serde.fromStr (lines ++ "\n") = some doc.header
  unfenced : "---".toList ∉ textLines lines

def LooksFenced (body : String) : Prop :=
  fence <+: body.toList ∧ closer <:+: body.toList.drop fence.length

-- A body without a header does not look like one with a header; a header is read the same without its last line
-- break.
def MarkdownDoc.Tellable (doc : MarkdownDoc) (lines : String) : Prop :=
  if doc.frontmatter.isEmpty then ¬ LooksFenced doc.body
  else readHeader serde lines = readHeader serde (lines ++ "\n")

variable {serde} {path : Option (List Component)}

theorem parseStr_plain {body : String} (plain : ¬ LooksFenced body) :
    parseStr serde body path = .ok { frontmatter := ∅, body } := by
  unfold parseStr
  split
  next begins =>
    have none : breakOn closer (body.toList.drop fence.length) = none :=
      (breakOn_eq_none_iff (by decide)).mpr fun inside => plain ⟨begins, inside⟩
    simp only [none]
  next => rfl

theorem parseStr_header {text : String} {yamlPart body : List Char} (begins : fence <+: text.toList)
    (found : breakOn closer (text.toList.drop fence.length) = some (yamlPart, body)) (doc : MarkdownDoc) :
    parseStr serde text path = .ok doc ↔
      readHeader serde (String.ofList yamlPart) = some doc.frontmatter ∧ doc.body = String.ofList body := by
  obtain ⟨frontmatter, docBody⟩ := doc
  unfold parseStr readHeader
  simp only [if_pos begins, found]
  cases serde.fromStr (String.ofList yamlPart) with
  | none => simp
  | some value =>
    cases value <;> simp [eq_comm]

theorem parseStr_ne_of_fenced {body : String} (fenced : LooksFenced body) (frontmatter : Values) :
    parseStr serde body path ≠ .ok { frontmatter, body } := by
  intro same
  cases found : breakOn closer (body.toList.drop fence.length) with
  | none => exact (breakOn_eq_none_iff (by decide)).mp found fenced.2
  | some parts =>
    obtain ⟨yamlPart, rest⟩ := parts
    have whole : body = String.ofList rest := ((parseStr_header fenced.1 found _).mp same).2
    -- What follows the closing fence is shorter than the text.
    have long := congrArg List.length (append_of_breakOn found)
    have size : body.toList.length = rest.length := by rw [whole, String.toList_ofList]
    simp only [List.length_drop, List.length_append, closer, List.length_cons] at long
    omega

theorem toMarkdownString_toList {doc : MarkdownDoc} {lines : String} (prints : PrintsBack serde doc lines)
    (fields : doc.frontmatter.isEmpty = false) :
    (doc.toMarkdownString serde).toList = fence ++ (lines.toList ++ (closer ++ doc.body.toList)) := by
  rw [MarkdownDoc.toMarkdownString, fields, prints.prints]
  simp only [Bool.false_eq_true, if_false, Option.getD_some, String.toList_append, closer, fence, List.append_assoc]
  rfl

theorem readHeader_printed (doc : JsonDoc) {lines : String} (prints : PrintsBack serde doc.toMarkdownDoc lines) :
    readHeader serde (lines ++ "\n") = some doc.frontmatter := by
  rw [readHeader, prints.reads, MarkdownDoc.header]
  exact congrArg some (entriesToJson_insertValues serde doc.json.fields)

/-- A document is read back just when its text cannot be mistaken. -/
theorem roundTrip_iff (serde : SerdeYaml) (doc : JsonDoc) (lines : String)
    (prints : PrintsBack serde doc.toMarkdownDoc lines) (path : Option (List Component)) :
    parseStr serde (doc.toMarkdownString serde) path = .ok doc.toMarkdownDoc ↔ doc.Tellable serde lines := by
  rw [MarkdownDoc.Tellable]
  split
  next empty =>
    have bare : doc.toMarkdownDoc = { frontmatter := ∅, body := doc.body } :=
      congrArg (MarkdownDoc.mk · doc.body) (Std.ExtTreeMap.isEmpty_iff.mp empty)
    have text : doc.toMarkdownString serde = doc.body := if_pos empty
    rw [text]
    constructor
    · exact fun back fenced => parseStr_ne_of_fenced fenced doc.frontmatter back
    · exact fun plain => (parseStr_plain plain).trans (congrArg Except.ok bare.symm)
  next fields =>
    have text := toMarkdownString_toList prints (Bool.eq_false_iff.mpr fields)
    have begins : fence <+: (doc.toMarkdownString serde).toList := text ▸ List.prefix_append _ _
    have found : breakOn closer ((doc.toMarkdownString serde).toList.drop fence.length) =
        some (lines.toList, doc.body.toList) := by
      rw [text, List.drop_left]
      exact breakOn_closer prints.unfenced _
    rw [parseStr_header begins found, readHeader_printed doc prints, String.ofList_toList, String.ofList_toList]
    exact and_iff_left rfl

-- A library for one entry, which may end in a line break.
def priorityYaml : SerdeYaml where
  fromStr text := readPlain (String.ofList (text.toList.takeWhile (!isLineBreak ·)))
  toString
    | .mapping [(.string "priority", .number (.posInt n))] => some ("priority: " ++ toString n.toNat ++ "\n")
    | _ => none

def urgentDoc : JsonDoc where
  frontmatter := (∅ : Values).insert "priority" (.number (.posInt 7))
  body := "---\nrest\n---\n"
  json := allJson_empty.insert "priority" trivial

theorem urgentDoc_header : urgentDoc.header = .mapping [(.string "priority", .number (.posInt 7))] := by
  rfl

theorem urgentDoc_prints : PrintsBack priorityYaml urgentDoc.toMarkdownDoc "priority: 7" where
  prints := by
    rw [urgentDoc_header]
    rfl
  reads := by
    rw [urgentDoc_header]
    have line : unended (String.ofList (("priority: 7" ++ "\n").toList.takeWhile (!isLineBreak ·))) =
        "priority: " ++ toString 7 := by decide
    exact readPlain_priority (by decide) line
  unfenced := by decide

theorem urgentDoc_roundTrip :
    parseStr priorityYaml (urgentDoc.toMarkdownString priorityYaml) none = .ok urgentDoc.toMarkdownDoc :=
  (roundTrip_iff priorityYaml urgentDoc "priority: 7" urgentDoc_prints none).mpr (by
    rw [MarkdownDoc.Tellable, if_neg (by decide)]
    rfl)

def quotedDoc : MarkdownDoc where
  frontmatter := ∅
  body := "---\npriority: 7\n---\nrest\n"

theorem quotedDoc_fenced : LooksFenced quotedDoc.body := by
  rw [LooksFenced]
  decide

-- Its first lines come back as a header.
theorem quotedDoc_taken : parseStr priorityYaml (quotedDoc.toMarkdownString priorityYaml) none ≠ .ok quotedDoc ∧
    parseStr priorityYaml (quotedDoc.toMarkdownString priorityYaml) none =
      .ok { frontmatter := urgentDoc.frontmatter, body := "rest\n" } := by
  have found : breakOn closer (quotedDoc.body.toList.drop fence.length) =
      some ("priority: 7".toList, "rest\n".toList) := rfl
  constructor
  · exact parseStr_ne_of_fenced quotedDoc_fenced ∅
  · refine (parseStr_header quotedDoc_fenced.1 found _).mpr ⟨?_, rfl⟩
    have header : readHeader priorityYaml "priority: 7" = readHeader priorityYaml ("priority: 7" ++ "\n") := rfl
    rw [String.ofList_toList, header, readHeader_printed urgentDoc urgentDoc_prints]

end AtomrAgents
