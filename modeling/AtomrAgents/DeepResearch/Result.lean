import AtomrAgents.Shared.FirstMatch
import AtomrAgents.Shared.KeyedAppend
import Mathlib.Data.List.Basic
import Mathlib.Data.String.Basic

set_option autoImplicit false

/-! The request, the plan and the result, and what the shared handle does to the result. Times, ids of results
and telemetry are left out. -/

namespace AtomrAgents.DeepResearch

open Shared

abbrev Url := String

structure ClarificationTurn where
  question : String
  answer : String

structure ResearchScope where
  allowedDomains : List String
  blockedDomains : List String
  background : Option String

inductive OutputFormat where
  | markdown (template : Option String)
  | plain

inductive HitlPolicy where
  | autoClarify
  | askOnce
  | askEveryRound
  | off
  deriving DecidableEq

structure ResearchRequest where
  query : String
  clarifications : List ClarificationTurn
  scope : ResearchScope
  depth : Nat
  breadth : Nat
  outputFormat : OutputFormat
  humanInTheLoop : HitlPolicy

def ResearchRequest.new (query : String) : ResearchRequest where
  query := query
  clarifications := []
  scope := { allowedDomains := [], blockedDomains := [], background := none }
  depth := 2
  breadth := 3
  outputFormat := .markdown none
  humanInTheLoop := .autoClarify

inductive SubQuestionStatus where
  | pending
  | inProgress
  | answered
  | unresolved
  deriving DecidableEq

structure SubQuestion where
  id : String
  text : String
  rationale : Option String
  «section» : Option String
  status : SubQuestionStatus

structure Plan where
  outline : List String
  subQuestions : List SubQuestion
  rationale : Option String

def Plan.new : Plan where
  outline := []
  subQuestions := []
  rationale := none

inductive CitationStatus where
  | unverified
  | verified
  | flagged
  deriving DecidableEq

structure Citation where
  number : Nat
  url : Url
  title : String
  snippet : String
  supports : List String
  status : CitationStatus

def Citation.new (number : Nat) (url : Url) (title snippet : String) : Citation where
  number := number
  url := url
  title := title
  snippet := snippet
  supports := []
  status := .unverified

structure DraftSection where
  heading : String
  body : String
  answersSubQuestions : List String

structure WebSearchHit where
  url : Url
  title : String
  snippet : String

structure RawSearchHit where
  provider : String
  url : Url
  title : String
  snippet : String
  subQuestionId : Option String

structure Artifacts where
  drafts : List DraftSection
  scratchpad : String
  rawSearchHits : List RawSearchHit

-- The confidence of a section is 1 or 0.
structure CoverageSignals where
  subQuestionsAnswered : Nat
  subQuestionsUnresolved : Nat
  unresolvedGaps : List String
  confidencePerSection : List (String × Bool)

inductive NodeKind where
  | clarifier
  | planner
  | researcher
  | writer
  | critic
  | verifier
  | supervisor
  | other
  deriving DecidableEq

structure NodeStep where
  role : NodeKind
  label : String
  summary : String
  subQuestionId : Option String

def NodeStep.new (role : NodeKind) (label summary : String) : NodeStep where
  role := role
  label := label
  summary := summary
  subQuestionId := none

inductive ResearchState where
  | pending
  | clarifying
  | running
  | verifying
  | done
  | failed
  deriving DecidableEq

structure ResearchResult where
  query : String
  strategy : String
  state : ResearchState
  finalReport : Option String
  citations : List Citation
  plan : Option Plan
  transcript : List NodeStep
  coverage : CoverageSignals
  artifacts : Artifacts
  modelId : Option String
  failureReason : Option String

def ResearchResult.new (query strategy : String) : ResearchResult where
  query := query
  strategy := strategy
  state := .pending
  finalReport := none
  citations := []
  plan := none
  transcript := []
  coverage := {
    subQuestionsAnswered := 0
    subQuestionsUnresolved := 0
    unresolvedGaps := []
    confidencePerSection := [] }
  artifacts := { drafts := [], scratchpad := "", rawSearchHits := [] }
  modelId := none
  failureReason := none

-- `(index as u32) + 1`, as released builds compute it.
def numberAt (index : Nat) : Nat := (index % 2 ^ 32 + 1) % 2 ^ 32

namespace ResearchResult

variable (r : ResearchResult)

def pushTranscript (step : NodeStep) : ResearchResult := { r with transcript := r.transcript ++ [step] }

def recordClarification (question answer : String) : ResearchResult :=
  r.pushTranscript (.new .clarifier "clarifier" ("Q: " ++ question ++ " | A: " ++ answer))

def setPlan (plan : Plan) : ResearchResult :=
  { r with plan := some plan }.pushTranscript (.new .planner "planner" ("plan: " ++
    toString plan.subQuestions.length ++ " sub-questions, " ++ toString plan.outline.length ++ " sections"))

def appendSubQuestion (sub : SubQuestion) : ResearchResult :=
  let plan := r.plan.getD .new
  { r with plan := some { plan with subQuestions := plan.subQuestions ++ [sub] } }

def setSubQuestionStatus (id : String) (status : SubQuestionStatus) : Except String Unit × ResearchResult :=
  let unknown := Except.error ("tool error: unknown sub_question_id `" ++ id ++ "`")
  match r.plan with
  | none => (unknown, r)
  | some plan =>
    if plan.subQuestions.any (·.id = id) then
      let subQuestions := modifyFirst (fun s => s.id = id) (fun s => { s with status }) plan.subQuestions
      (.ok (), { r with plan := some { plan with subQuestions } })
    else (unknown, r)

def recordSearchHit (provider : String) (hit : WebSearchHit) (subQuestionId : Option String) : ResearchResult :=
  let raw : RawSearchHit := {
    provider
    url := hit.url
    title := hit.title
    snippet := hit.snippet
    subQuestionId }
  { r with artifacts := { r.artifacts with rawSearchHits := r.artifacts.rawSearchHits ++ [raw] } }

def appendDraftSection («section» : DraftSection) : ResearchResult :=
  { r with artifacts := { r.artifacts with drafts := r.artifacts.drafts ++ [«section»] } }.pushTranscript
    (.new .writer "writer" ("appended section `" ++ «section».heading ++ "` (" ++
      toString «section».body.length ++ " chars)"))

def appendCitation (citation : Citation) : ResearchResult :=
  let citation :=
    if citation.number = 0 then { citation with number := numberAt r.citations.length } else citation
  { r with citations := r.citations ++ [citation] }

def setFinalReport (text : String) : ResearchResult := { r with finalReport := some text }

def setCoverage (coverage : CoverageSignals) : ResearchResult := { r with coverage }

def markCitationStatus (number : Nat) (status : CitationStatus) : ResearchResult :=
  { r with citations := modifyFirst (fun c => c.number = number) (fun c => { c with status }) r.citations }

-- The earliest citation of a source is kept.
def renumberCitations : ResearchResult :=
  { r with citations := (firsts Citation.url [] r.citations).mapIdx fun i c => { c with number := numberAt i } }

def finalize : ResearchResult := { r with state := .done }

def fail (reason : String) : ResearchResult := { r with state := .failed, failureReason := some reason }

end ResearchResult

end AtomrAgents.DeepResearch
