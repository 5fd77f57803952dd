import AtomrAgents.Agent.CallerContext

set_option autoImplicit false

namespace AtomrAgents

open Shared

section

variable {W U τ : Type} {Any : τ → Type} {json : ValueJson} {agent : Agent W U Any} {w : Nat → W}
  {p : Prepared W Any} {budgets : AgentBudgets} {iterations : IterationBudget} {moment : Nat}
  {calls : List ParsedToolCall}

def Prepared.Selects (p : Prepared W Any) (call : ParsedToolCall) : Prop :=
  ∃ toolRef ∈ p.toolRefs, toolRef.name = call.name

instance (p : Prepared W Any) (call : ParsedToolCall) : Decidable (p.Selects call) :=
  inferInstanceAs (Decidable (∃ toolRef ∈ p.toolRefs, toolRef.name = call.name))

structure Admitted (json : ValueJson) (p : Prepared W Any) (calls : List ParsedToolCall)
    (spawned : List (Invocation Any)) : Prop where
  decoded : ∀ (k : Nat) (invocation : Invocation Any), spawned[k]? = some invocation →
    ∃ call : ParsedToolCall, calls[k]? = some call ∧ call.arguments json = .ok invocation.args
  refused : (∃ call ∈ calls, ¬ p.Selects call) → spawned = []

def Admissible (json : ValueJson) (p : Prepared W Any) (calls : List ParsedToolCall) : Prop :=
  (∀ call ∈ calls, p.Selects call ∧ ∃ args, call.arguments json = .ok args) ∨
    ∃ call ∈ calls.head?, ¬ p.Selects call

namespace Agent

def invocation (json : ValueJson) (agent : Agent W U Any) (p : Prepared W Any) (budgets : AgentBudgets)
    (iterations : IterationBudget) (call : ParsedToolCall) : Invocation Any where
  tool := call.name
  args := (call.arguments json).toOption.getD .null
  ctx := agent.invokeCtx p budgets iterations call

theorem spawnCalls_spawned : (agent.spawnCalls json w p budgets iterations moment calls).2 =
    (calls.takeWhile fun call => p.Selects call).map (agent.invocation json p budgets iterations) := by
  induction calls generalizing moment with
  | nil => rfl
  | cons call rest ih =>
    rw [spawnCalls]
    cases found : p.toolRefs.find? (fun toolRef => toolRef.name = call.name) with
    | none =>
      have unknown : ¬ p.Selects call := by
        rw [List.find?_eq_none] at found
        simpa [Prepared.Selects] using found
      simp [unknown]
    | some toolRef =>
      have name : toolRef.name = call.name := by simpa using List.find?_some found
      have known : p.Selects call := ⟨toolRef, List.mem_of_find?_eq_some found, name⟩
      rw [List.takeWhile_cons_of_pos (by simpa using known), List.map_cons, ← ih]
      rfl

theorem invocation_args {call : ParsedToolCall} {args : Value} (decodes : call.arguments json = .ok args) :
    (agent.invocation json p budgets iterations call).args = args := by
  simp [invocation, decodes, Except.toOption]

theorem admitted_iff : Admitted json p calls (agent.spawnCalls json w p budgets iterations moment calls).2 ↔
    Admissible json p calls := by
  rw [spawnCalls_spawned]
  constructor
  · intro admitted
    by_cases known : ∀ call ∈ calls, p.Selects call
    · have whole : calls.takeWhile (fun call => p.Selects call) = calls := by simpa using known
      refine .inl fun call member => ⟨known call member, ?_⟩
      obtain ⟨k, here⟩ := List.getElem?_of_mem member
      obtain ⟨same, found, decodes⟩ := admitted.decoded k (agent.invocation json p budgets iterations call)
        (by rw [whole, List.getElem?_map, here]; rfl)
      rw [here, Option.some.injEq] at found
      subst found
      exact ⟨_, decodes⟩
    · push Not at known
      have none := admitted.refused known
      cases calls with
      | nil => simp at known
      | cons call rest =>
        refine .inr ⟨call, rfl, fun selected => ?_⟩
        rw [List.takeWhile_cons_of_pos (by simpa using selected)] at none
        cases none
  · rintro (clean | ⟨call, first, unknown⟩)
    · have whole : calls.takeWhile (fun call => p.Selects call) = calls := by
        simpa using fun call member => (clean call member).1
      constructor
      · intro k invocation spawned
        rw [whole, List.getElem?_map, Option.map_eq_some_iff] at spawned
        obtain ⟨call, found, rfl⟩ := spawned
        obtain ⟨args, decodes⟩ := (clean call (List.mem_of_getElem? found)).2
        exact ⟨call, found, by rw [invocation_args decodes, decodes]⟩
      · rintro ⟨call, member, unknown⟩
        exact absurd (clean call member).1 unknown
    · have none : calls.takeWhile (fun call => p.Selects call) = [] := by
        cases calls with
        | nil => rfl
        | cons head rest =>
          rw [List.head?_cons, Option.mem_some_iff] at first
          subst first
          simp [unknown]
      exact ⟨by simp [none], by simp [none]⟩

def asked (agent : Agent W U Any) (w : Nat → W) (p : Prepared W Any) (loop : TurnLoop U Any) :
    List ParsedToolCall :=
  match loop.iterations.consumeOne, agent.inference (w loop.moment) (agent.batch p loop.messages) with
  | .ok _, .ok r => if r.toolCalls = [] ∨ r.finishReason ≠ some .toolCalls then [] else r.toolCalls
  | _, _ => []

variable (json agent w p budgets)

theorem spawns_admitted_iff (loop : TurnLoop U Any) :
    Admitted json p (agent.asked w p loop) (agent.spawns json w p budgets loop) ↔
      Admissible json p (agent.asked w p loop) := by
  have none : Admitted json p [] ([] : List (Invocation Any)) ↔ Admissible json p [] :=
    ⟨fun _ => .inl nofun, fun _ => ⟨nofun, fun _ => rfl⟩⟩
  unfold asked spawns
  cases loop.iterations.consumeOne with
  | error e => exact none
  | ok iterations =>
    cases agent.inference (w loop.moment) (agent.batch p loop.messages) with
    | error e => exact none
    | ok r =>
      by_cases stop : r.toolCalls = [] ∨ r.finishReason ≠ some .toolCalls
      · simp only [if_pos stop]
        exact none
      · simp only [if_neg stop]
        exact admitted_iff

theorem exists_spawned {Q : List (Invocation Any) → Prop} {before after spawned : List (Invocation Any)}
    (pass : after = before ++ spawned) : (∃ added, after = before ++ added ∧ Q added) ↔ Q spawned := by
  subst pass
  simp

variable [Add U]

/-- What a reply of the model sets going, in whatever state of the loop it comes. -/
theorem iterate_admitted_iff (loop : TurnLoop U Any) (i : Nat) :
    (agent.iterate json w p budgets loop i).Post
        (fun next => ∃ spawned, next.invocations = loop.invocations ++ spawned ∧
          Admitted json p (agent.asked w p loop) spawned)
        (fun report => ∃ spawned, report.invocations = loop.invocations ++ spawned ∧
          Admitted json p (agent.asked w p loop) spawned) ↔
      Admissible json p (agent.asked w p loop) := by
  have pass := agent.iterate_invocations json w p budgets loop i
  rw [← spawns_admitted_iff json agent w p budgets loop]
  cases turn : agent.iterate json w p budgets loop i with
  | next state =>
    rw [turn, Flow.post_next] at pass
    exact exists_spawned pass
  | ret report =>
    rw [turn, Flow.post_ret] at pass
    exact exists_spawned pass

end Agent

end

section

def strictJson : ValueJson :=
  { toString := fun _ => "null"
    fromStr := fun text => if text = "null" then .ok .null else .error "expected value" }

def hasty : Agent Unit Nat (fun _ : Unit => Unit) where
  id := "hasty"
  model := "mock"
  instructions _ _ := .ok { systemPrompt := "Use tools.", estimatedTokens := 3 }
  tools _ budget := (.ok [{ id := "echo", name := "echo", handle := fun _ args _ => .ok args }], budget)
  memory _ budget := (.ok [], budget)
  skills _ budget := (.ok [], budget)
  inference _ _ := .ok
    { text := "", usage := 1, finishReason := some .toolCalls
      toolCalls := [{ id := "1", name := "echo", argumentsRaw := "nul" },
        { id := "2", name := "ecoh", argumentsRaw := "" }] }
  maxToolIterations := 3

def anyBudgets : AgentBudgets :=
  { tokens := .new 100, time := { remainingMs := 1 }, money := { remainingMicroUsd := 1 }
    iterations := { remaining := 9 } }

-- The tool runs on null, and the turn fails.
theorem hasty_spawns :
    (hasty.runTurnImpl strictJson (fun _ => ()) "hi" anyBudgets).result = .error (.tool "unknown tool: ecoh") ∧
      (hasty.runTurnImpl strictJson (fun _ => ()) "hi" anyBudgets).invocations.map (fun i => (i.tool, i.args)) =
        [("echo", .null)] ∧
      (ParsedToolCall.mk "1" "echo" "nul").arguments strictJson = .error (.tool "tool args parse: expected value") :=
  ⟨rfl, rfl, rfl⟩

end

end AtomrAgents
