import AtomrAgents.Core.Text
import AtomrAgents.DeepResearch.Strategies

set_option autoImplicit false

/-! A researcher that cites every hit of a search, a writer that puts the citations behind the sub-questions
they support, and a verifier that numbers the citations anew. The writer's markers are kept with the source of
the citation they are made from. -/

namespace AtomrAgents.DeepResearch

open Shared

structure WebSearchRequest where
  query : String
  maxResults : Nat
  allowedDomains : List String
  blockedDomains : List String

-- An error is its text.
structure WebSearch where
  providerName : String
  search : WebSearchRequest → Except String (List WebSearchHit)

namespace MockResearcher

def searchReq (sub : SubQuestion) (request : ResearchRequest) : WebSearchRequest where
  query := sub.text
  maxResults := max request.breadth 1
  allowedDomains := request.scope.allowedDomains
  blockedDomains := request.scope.blockedDomains

def cite (provider : String) (sub : SubQuestion) (r : ResearchResult) (hit : WebSearchHit) : ResearchResult :=
  (r.recordSearchHit provider hit (some sub.id)).appendCitation
    { Citation.new 0 hit.url hit.title hit.snippet with supports := [sub.id] }

def research (search : WebSearch) (sub : SubQuestion) (request : ResearchRequest) (r : ResearchResult) :
    RoleAnswer Unit :=
  match search.search (searchReq sub request) with
  | .error e => (.error ("web search error: " ++ e), r)
  | .ok hits =>
    let r := hits.foldl (cite search.providerName sub) r
    let status := if hits.isEmpty then .unresolved else .answered
    match r.setSubQuestionStatus sub.id status with
    | (.error e, r) => (.error e, r)
    | (.ok (), r) =>
      (.ok (), r.pushTranscript {
        role := .researcher
        label := "researcher:" ++ sub.id
        summary := toString hits.length ++ " hits via " ++ search.providerName ++ " for sub-question `" ++
          sub.text ++ "`"
        subQuestionId := some sub.id })

end MockResearcher

inductive Piece where
  | text (s : String)
  | marker (number : Nat) (source : Url)

def Piece.render : Piece → String
  | .text s => s
  | .marker number _ => "[" ++ toString number ++ "]"

abbrev Prose := List Piece

def Prose.render : Prose → String
  | [] => ""
  | piece :: rest => piece.render ++ Prose.render rest

namespace ConcatWriter

structure Draft where
  heading : String
  body : Prose
  answersSubQuestions : List String

structure Writing where
  report : Prose
  drafts : List Draft

-- `firstUpper`: the first letter of `char::to_uppercase`.
def titleOf (firstUpper : Char → Char) (query : String) : String :=
  match (trim query).toList with
  | [] => "Research report"
  | c :: rest => String.ofList (firstUpper c :: rest)

variable (plan : Plan)

def sectionForSq (id : String) : Option String :=
  (plan.subQuestions.find? fun s => s.id = id).bind fun s => s.«section»

def headings : List String := if plan.outline.isEmpty then ["Findings"] else plan.outline

def sectionSubs (heading : String) : List SubQuestion :=
  plan.subQuestions.filter fun s => sectionForSq plan s.id = some heading

variable (citations : List Citation)

def finding (sq : SubQuestion) : Prose :=
  match citations.filter fun c => sq.id ∈ c.supports with
  | [] => [.text ("**" ++ sq.text ++ "** No corroborating sources found.\n\n")]
  | first :: more =>
    let markers := ((first :: more).map fun c => Piece.marker c.number c.url).intersperse (.text " ")
    let snippetPreview := ((citations.find? fun c => c.number = first.number).map Citation.snippet).getD ""
    .text ("**" ++ sq.text ++ "** " ++ snippetPreview ++ " ") :: markers ++ [.text "\n\n"]

def sectionBody (heading : String) : Prose :=
  let body : Prose := (sectionSubs plan heading).flatMap (finding citations)
  if body.render = "" then [.text "_No content for this section yet._\n\n"] else body

def draft (heading : String) : Draft where
  heading := heading
  body := sectionBody plan citations heading
  answersSubQuestions := (sectionSubs plan heading).map SubQuestion.id

def writing (firstUpper : Char → Char) (request : ResearchRequest) : Writing :=
  let preferMarkdown := request.outputFormat matches .markdown _
  let title := (if preferMarkdown then "# " else "") ++ titleOf firstUpper request.query ++ "\n\n"
  let drafts := (headings plan).map (draft plan citations)
  { report := .text title :: drafts.flatMap fun d =>
      .text ((if preferMarkdown then "## " else "") ++ d.heading ++ "\n\n") :: d.body
    drafts }

def Draft.toSection (d : Draft) : DraftSection where
  heading := d.heading
  body := d.body.render
  answersSubQuestions := d.answersSubQuestions

def write (firstUpper : Char → Char) (request : ResearchRequest) (r : ResearchResult) : RoleAnswer Unit :=
  let w := writing plan r.citations firstUpper request
  let r := w.drafts.foldl (fun r d => r.appendDraftSection d.toSection) r
  (.ok (), (r.setFinalReport w.report.render).pushTranscript
    (.new .writer "writer" ("wrote " ++ toString (headings plan).length ++ " sections")))

end ConcatWriter

namespace DeterministicCitationVerifier

-- `isMatch`: whether the text has a match of `\[\d+\]`.
def coverage (isMatch : String → Bool) (r : ResearchResult) : CoverageSignals :=
  match r.plan with
  | none => {
    subQuestionsAnswered := 0
    subQuestionsUnresolved := 0
    unresolvedGaps := []
    confidencePerSection := [] }
  | some plan => {
    subQuestionsAnswered := plan.subQuestions.countP fun sq => sq.status = .answered
    subQuestionsUnresolved := plan.subQuestions.countP fun sq => sq.status ≠ .answered
    unresolvedGaps := (r.artifacts.drafts.filter fun d => !isMatch d.body).map DraftSection.heading
    confidencePerSection :=
      upserts (fun c => some c.1) [] (r.artifacts.drafts.map fun d => (d.heading, isMatch d.body)) }

def verify (isMatch : String → Bool) (_request : ResearchRequest) (r : ResearchResult) : RoleAnswer Unit :=
  let snapBefore := r.renumberCitations
  let numbers := snapBefore.citations.map Citation.number
  let r := numbers.foldl (fun r n => r.markCitationStatus n .verified) snapBefore
  let r := r.setCoverage (coverage isMatch snapBefore)
  (.ok (), r.pushTranscript (.new .verifier "verifier" ("verified " ++ toString snapBefore.citations.length ++
    " citations; " ++ toString r.coverage.subQuestionsAnswered ++ " answered sub-questions")))

end DeterministicCitationVerifier

end AtomrAgents.DeepResearch
