import AtomrAgents.Core.Context
import AtomrAgents.Core.Text
import AtomrAgents.Shared.Joints

set_option autoImplicit false

namespace AtomrAgents

variable {P : Type}

-- The content of a message in a batch: a text, or parts of which the middleware does not look at any.
inductive BatchContent (P : Type) where
  | text (t : String)
  | parts (parts : P)

structure BatchMessage (P : Type) where
  role : MessageRole
  content : BatchContent P

structure ModelBatch (P : Type) where
  requestId : String
  model : String
  messages : List (BatchMessage P)
  stream : Bool
  estimatedTokens : Nat

structure RedactionMiddleware where
  patterns : List String
  replacement : String

namespace RedactionMiddleware

variable (middleware : RedactionMiddleware)

def redact (text : String) : String :=
  middleware.patterns.foldl (fun t p => replace t p middleware.replacement) text

def redactMessage (message : BatchMessage P) : BatchMessage P :=
  match message.content with
  | .text t => { message with content := .text (middleware.redact t) }
  | .parts _ => message

def beforeModelCall (batch : ModelBatch P) : ModelBatch P :=
  { batch with messages := batch.messages.map middleware.redactMessage }

def Redacted (batch : ModelBatch P) : Prop :=
  ∀ message ∈ batch.messages, ∀ text, message.content = .text text →
    ∀ p ∈ middleware.patterns, ¬ p.toList <:+: text.toList

def after (front : List String) (text : String) : String := { middleware with patterns := front }.redact text

-- Whenever the turn of a pattern or a later one puts the pattern together, out of the text beside a replacement and
-- the replacement, a still later turn cuts through every occurrence of it.
def Settles (text : String) : Prop :=
  ∀ front q rest, middleware.patterns = front ++ q :: rest →
    Shared.Undone q.toList middleware.replacement.toList ((q :: rest).map String.toList)
      (middleware.after front text).toList

variable {middleware}

theorem toList_redact (text : String) :
    (middleware.redact text).toList =
      Shared.replacedAll middleware.replacement.toList (middleware.patterns.map String.toList) text.toList := by
  have turns (patterns : List String) (text : String) :
      (patterns.foldl (fun t p => replace t p middleware.replacement) text).toList =
        Shared.replacedAll middleware.replacement.toList (patterns.map String.toList) text.toList := by
    induction patterns generalizing text with
    | nil => rfl
    | cons p patterns ih =>
      rw [List.foldl_cons, ih, toList_replace]
      rfl
  exact turns middleware.patterns text

theorem redact_append {front rest : List String} (split : middleware.patterns = front ++ rest) (text : String) :
    middleware.redact text = { middleware with patterns := rest }.redact (middleware.after front text) := by
  simp [redact, after, split]

section

variable (filled : ∀ p ∈ middleware.patterns, p ≠ "")
  (clear : ∀ p ∈ middleware.patterns, ¬ p.toList <:+: middleware.replacement.toList)

include filled clear

theorem absent_iff {front rest : List String} {q : String} (split : middleware.patterns = front ++ q :: rest)
    (text : String) :
    ¬ q.toList <:+: (middleware.redact text).toList ↔
      Shared.Undone q.toList middleware.replacement.toList ((q :: rest).map String.toList)
        (middleware.after front text).toList := by
  have member : ∀ p ∈ q :: rest, p ∈ middleware.patterns := by
    intro p member
    simp only [split, List.mem_append]
    exact .inr member
  have nonempty : ∀ p ∈ q :: rest, p.toList ≠ [] := fun p inside => by simpa using filled p (member p inside)
  rw [redact_append split, toList_redact, List.map_cons]
  apply Shared.absent_own_iff
  · exact nonempty q (by simp)
  · exact clear q (member q (by simp))
  · simpa using fun p inside => nonempty p (by simp [inside])

theorem settles_iff (text : String) :
    (∀ p ∈ middleware.patterns, ¬ p.toList <:+: (middleware.redact text).toList) ↔ middleware.Settles text := by
  constructor
  · intro absent front q rest split
    exact (absent_iff filled clear split text).mp (absent q (by simp [split]))
  · intro settles p member
    cases List.append_of_mem member with
    | intro front rest =>
      cases rest with
      | intro rest split => exact (absent_iff filled clear split text).mpr (settles front p rest split)

end

theorem mem_beforeModelCall {batch : ModelBatch P} {text : String} :
    (∃ message ∈ (middleware.beforeModelCall batch).messages, message.content = .text text) ↔
      ∃ message ∈ batch.messages, ∃ before, message.content = .text before ∧ middleware.redact before = text := by
  simp only [beforeModelCall, List.mem_map, exists_exists_and_eq_and]
  constructor
  · intro ⟨message, member, found⟩
    cases content : message.content with
    | text before => exact ⟨message, member, before, content, by simpa [redactMessage, content] using found⟩
    | parts parts => simp [redactMessage, content] at found
  · intro ⟨message, member, before, content, found⟩
    exact ⟨message, member, by simp [redactMessage, content, found]⟩

theorem redacted_iff (middleware : RedactionMiddleware) (batch : ModelBatch P)
    (filled : ∀ p ∈ middleware.patterns, p ≠ "")
    (clear : ∀ p ∈ middleware.patterns, ¬ p.toList <:+: middleware.replacement.toList) :
    middleware.Redacted (middleware.beforeModelCall batch) ↔
      ∀ message ∈ batch.messages, ∀ text, message.content = .text text → middleware.Settles text := by
  constructor
  · intro redacted message member text content
    obtain ⟨message', member', content'⟩ := mem_beforeModelCall.mpr ⟨message, member, text, content, rfl⟩
    exact (settles_iff filled clear text).mp (redacted message' member' _ content')
  · intro settles message member text content
    obtain ⟨message', member', before, content', rfl⟩ := mem_beforeModelCall.mp ⟨message, member, content⟩
    exact (settles_iff filled clear before).mpr (settles message' member' before content')

def memo (text : String) : ModelBatch Unit where
  requestId := "r"
  model := "m"
  messages := [{ role := .user, content := .text text }]
  stream := false
  estimatedTokens := 1

def dashes : RedactionMiddleware := { patterns := ["ab", "b"], replacement := "-" }

theorem redacted_iff_dashes : dashes.redact "aabb" = "a--" ∧
    dashes.Redacted (dashes.beforeModelCall (memo "aabb")) := by
  have apart : ∀ p ∈ dashes.patterns, ∀ c ∈ p.toList, c ∉ dashes.replacement.toList := by simp [dashes]
  refine ⟨by decide, (redacted_iff dashes (memo "aabb") (by decide) (by decide)).mpr ?_⟩
  intro message _ text _ front q rest split
  apply Shared.undone_of_separates
  exact Shared.Separates.of_disjoint (by decide) (apart q (by simp [split]))

-- What is left of "secsecretret" when "secret" is taken out of it.
theorem rejoined :
    ¬ (∀ (middleware : RedactionMiddleware) (batch : ModelBatch Unit), (∀ p ∈ middleware.patterns, p ≠ "") →
        (∀ p ∈ middleware.patterns, ¬ p.toList <:+: middleware.replacement.toList) →
          middleware.Redacted (middleware.beforeModelCall batch)) ∧
      redact { patterns := ["secret"], replacement := "" } "secsecretret" = "secret" := by
  have left : redact { patterns := ["secret"], replacement := "" } "secsecretret" = "secret" := by decide
  refine ⟨fun complete => ?_, left⟩
  have redacted := complete { patterns := ["secret"], replacement := "" } (memo "secsecretret") (by decide) (by decide)
  apply redacted { role := .user, content := .text "secret" } _ "secret" rfl "secret" (by simp)
  · exact List.infix_rfl
  · simp [beforeModelCall, memo, redactMessage, left]

/-- A replacement that overlaps with no pattern brings none back, in any batch and in any order of the patterns. -/
theorem redacted_of_separates (filled : ∀ p ∈ middleware.patterns, p ≠ "")
    (clear : ∀ p ∈ middleware.patterns, ¬ p.toList <:+: middleware.replacement.toList)
    (separates : ∀ p ∈ middleware.patterns, Shared.Separates middleware.replacement.toList p.toList)
    (batch : ModelBatch P) : middleware.Redacted (middleware.beforeModelCall batch) := by
  intro message member text content
  obtain ⟨_, _, before, _, rfl⟩ := mem_beforeModelCall.mp ⟨message, member, content⟩
  rw [settles_iff filled clear before]
  intro front q rest split
  exact Shared.undone_of_separates (separates q (by simp [split]))

end RedactionMiddleware

end AtomrAgents
