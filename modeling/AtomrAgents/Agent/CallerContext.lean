import AtomrAgents.Agent.Pipeline
import AtomrAgents.Security.Walled

set_option autoImplicit false

namespace AtomrAgents

open Shared

def Invocation.Bare {τ : Type} {Any : τ → Type} (invocation : Invocation Any) : Prop :=
  invocation.ctx.extensions = .new

namespace Agent

section Spawn

variable {W U τ : Type} {Any : τ → Type} {json : ValueJson} {agent : Agent W U Any} {w : Nat → W}
  {p : Prepared W Any} {budgets : AgentBudgets} {iterations : IterationBudget} {moment : Nat}
  {calls : List ParsedToolCall}

theorem spawnCalls_bare {invocation : Invocation Any}
    (spawned : invocation ∈ (agent.spawnCalls json w p budgets iterations moment calls).2) :
    invocation.Bare := by
  induction calls generalizing moment with
  | nil => simp [spawnCalls] at spawned
  | cons call rest ih =>
    rw [spawnCalls] at spawned
    cases found : p.toolRefs.find? (fun toolRef => toolRef.name = call.name) with
    | none => simp [found] at spawned
    | some toolRef =>
      simp only [found, List.mem_cons] at spawned
      cases spawned with
      | inl this => rw [this, Invocation.Bare, invokeCtx]
      | inr later => exact ih later

theorem spawnCalls_eq_nil_iff :
    (agent.spawnCalls json w p budgets iterations moment calls).2 = [] ↔
      ∀ call ∈ calls.head?, ∀ toolRef ∈ p.toolRefs, toolRef.name ≠ call.name := by
  cases calls with
  | nil => simp [spawnCalls]
  | cons call rest =>
    rw [spawnCalls]
    cases found : p.toolRefs.find? (fun toolRef => toolRef.name = call.name) with
    | none =>
      rw [List.find?_eq_none] at found
      simpa using found
    | some toolRef =>
      have name : toolRef.name = call.name := by simpa using List.find?_some found
      have member := List.mem_of_find?_eq_some found
      simp only [List.head?_cons, reduceCtorEq, false_iff]
      intro unknown
      exact unknown call rfl toolRef member name

theorem spawnCalls_fails (asked : calls ≠ [])
    (none_spawned : (agent.spawnCalls json w p budgets iterations moment calls).2 = []) :
    ∃ e, (agent.spawnCalls json w p budgets iterations moment calls).1 = .error e := by
  cases calls with
  | nil => exact absurd rfl asked
  | cons call rest =>
    rw [spawnCalls] at none_spawned ⊢
    cases found : p.toolRefs.find? (fun toolRef => toolRef.name = call.name) with
    | none => exact ⟨_, rfl⟩
    | some toolRef => simp [found] at none_spawned

end Spawn

section Turn

variable {W U τ : Type} {Any : τ → Type} [Add U] (json : ValueJson) (agent : Agent W U Any)
  (w : Nat → W) (p : Prepared W Any) (budgets : AgentBudgets)

def spawns (loop : TurnLoop U Any) : List (Invocation Any) :=
  match loop.iterations.consumeOne, agent.inference (w loop.moment) (agent.batch p loop.messages) with
  | .ok iterations, .ok r =>
    if r.toolCalls = [] ∨ r.finishReason ≠ some .toolCalls then []
    else (agent.spawnCalls json w p budgets iterations (loop.moment + 1) r.toolCalls).2
  | _, _ => []

theorem iterate_invocations (loop : TurnLoop U Any) (i : Nat) :
    (agent.iterate json w p budgets loop i).Post
      (fun next => next.invocations = loop.invocations ++ agent.spawns json w p budgets loop)
      (fun report => report.invocations = loop.invocations ++ agent.spawns json w p budgets loop) := by
  rw [iterate, spawns]
  cases loop.iterations.consumeOne with
  | error e => simp [TurnLoop.returns]
  | ok iterations =>
    cases agent.inference (w loop.moment) (agent.batch p loop.messages) with
    | error e => simp [TurnLoop.returns]
    | ok r =>
      by_cases stop : r.toolCalls = [] ∨ r.finishReason ≠ some .toolCalls
      · simp [stop, TurnLoop.done, TurnLoop.returns]
      · simp only [stop, if_false]
        split <;> simp [TurnLoop.returns]

omit [Add U] in
theorem spawns_bare {loop : TurnLoop U Any} {invocation : Invocation Any}
    (spawned : invocation ∈ agent.spawns json w p budgets loop) :
    invocation.Bare := by
  rw [spawns] at spawned
  split at spawned
  · split at spawned
    · cases spawned
    · exact spawnCalls_bare spawned
  · cases spawned

theorem iterate_appends (loop : TurnLoop U Any) (i : Nat) :
    (agent.iterate json w p budgets loop i).Post
      (fun next => Appends Invocation.Bare loop.invocations next.invocations)
      (fun report => Appends Invocation.Bare loop.invocations report.invocations) :=
  (agent.iterate_invocations json w p budgets loop i).mono
    (fun _ pass => ⟨_, pass, fun _ => agent.spawns_bare json w p budgets⟩)
    fun _ pass => ⟨_, pass, fun _ => agent.spawns_bare json w p budgets⟩

theorem iterate_next_spawns (loop : TurnLoop U Any) (i : Nat) :
    (agent.iterate json w p budgets loop i).Post
      (fun _ => agent.spawns json w p budgets loop ≠ []) (fun _ => True) := by
  rw [iterate, spawns]
  cases loop.iterations.consumeOne with
  | error e => trivial
  | ok iterations =>
    cases agent.inference (w loop.moment) (agent.batch p loop.messages) with
    | error e => trivial
    | ok r =>
      by_cases stop : r.toolCalls = [] ∨ r.finishReason ≠ some .toolCalls
      · simp [stop]
      · have asked : r.toolCalls ≠ [] := fun none => stop (.inl none)
        simp only [stop, if_false]
        split
        · trivial
        · next results awaited =>
          intro none_spawned
          obtain ⟨e, failed⟩ := spawnCalls_fails asked none_spawned
          rw [failed] at awaited
          cases awaited

theorem passes_append (passes : List Nat) (loop : TurnLoop U Any) :
    Appends Invocation.Bare loop.invocations
      ((forEach (agent.iterate json w p budgets) passes loop).finish TurnLoop.done).invocations := by
  have run := forEach_appends _ TurnLoop.invocations TurnReport.invocations
    (agent.iterate_appends json w p budgets) passes loop
  exact run.finish (fun report : TurnReport U Any =>
    Appends Invocation.Bare loop.invocations report.invocations) fun _ appends => appends

theorem passes_first (loop : TurnLoop U Any) (i : Nat) (passes : List Nat) :
    ((forEach (agent.iterate json w p budgets) (i :: passes) loop).finish
        TurnLoop.done).invocations = [] ↔
      loop.invocations = [] ∧ agent.spawns json w p budgets loop = [] := by
  have logged := agent.iterate_invocations json w p budgets loop i
  have goes_on := agent.iterate_next_spawns json w p budgets loop i
  rw [forEach]
  cases pass : agent.iterate json w p budgets loop i with
  | ret report =>
    rw [pass, Flow.post_ret] at logged
    simp [Flow.finish, logged]
  | next next =>
    rw [pass, Flow.post_next] at logged goes_on
    have kept := (agent.passes_append json w p budgets passes next).subset
    rw [Flow.bind_next]
    constructor
    · intro none
      rw [none, List.subset_nil, logged] at kept
      exact List.append_eq_nil_iff.mp kept
    · intro none
      exact absurd none.2 goes_on

end Turn

section Run

variable {W U τ : Type} {Any : τ → Type} [Add U] [Zero U] (json : ValueJson) (agent : Agent W U Any)
  (w : Nat → W) (p : Prepared W Any) (budgets : AgentBudgets) (user : String) (ctx : CallCtx Any)

theorem runTurnImpl_bare {invocation : Invocation Any}
    (spawned : invocation ∈ (agent.runTurnImpl json w user budgets).invocations) :
    invocation.Bare := by
  rw [runTurnImpl] at spawned
  cases prepared : agent.prepare user budgets.tokens with
  | error e => simp [prepared] at spawned
  | ok p =>
    simp only [prepared] at spawned
    have turn := agent.passes_append json w p budgets (List.range (max agent.maxToolIterations 1))
      (start p budgets)
    exact turn.forall_of_nil invocation spawned

def Asks (p : Prepared W Any) (r : TurnResult U) : Prop :=
  r.finishReason = some .toolCalls ∧
    ∃ call ∈ r.toolCalls.head?, ∃ toolRef ∈ p.toolRefs, toolRef.name = call.name

def AsksForTool (budgets : AgentBudgets) : Prop :=
  ∃ p, agent.prepare user budgets.tokens = .ok p ∧ budgets.iterations.remaining ≠ 0 ∧
    ∃ r, agent.inference (w 0) (agent.batch p p.messages) = .ok r ∧ Asks p r

omit [Add U] in
theorem spawns_start_ne_nil : agent.spawns json w p budgets (start p budgets) ≠ [] ↔
    budgets.iterations.remaining ≠ 0 ∧
      ∃ r, agent.inference (w 0) (agent.batch p p.messages) = .ok r ∧ Asks p r := by
  rw [spawns, start, IterationBudget.consumeOne]
  by_cases exhausted : budgets.iterations.remaining = 0
  · simp [exhausted]
  cases answer : agent.inference (w 0) (agent.batch p p.messages) with
  | error e => simp [exhausted]
  | ok r =>
    simp only [exhausted, if_false, ne_eq, not_false_eq_true, true_and, Except.ok.injEq,
      exists_eq_left', Asks]
    by_cases stop : r.toolCalls = [] ∨ ¬ r.finishReason = some .toolCalls
    · rw [if_pos stop]
      cases stop with
      | inl none => simp [none]
      | inr other => simp [other]
    · rw [if_neg stop, spawnCalls_eq_nil_iff]
      push Not at stop
      simp [stop.2]

theorem runTurnImpl_invocations : (agent.runTurnImpl json w user budgets).invocations = [] ↔
    ¬ agent.AsksForTool w user budgets := by
  rw [runTurnImpl, AsksForTool]
  cases prepared : agent.prepare user budgets.tokens with
  | error e => simp
  | ok p =>
    obtain ⟨n, passes⟩ : ∃ n, max agent.maxToolIterations 1 = n + 1 :=
      Nat.exists_eq_add_of_le' (Nat.le_max_right _ 1)
    have first := agent.spawns_start_ne_nil json w p budgets
    simp only [passes, List.range_succ_eq_map, Except.ok.injEq, exists_eq_left']
    rw [passes_first, ← first, not_not]
    simp [start]

end Run

end Agent

section Walls

variable {W U κ : Type} {Host : κ → Type} [Add U] [Zero U] (json : ValueJson)
  (agent : Agent W U (ExtensionType.Any Host)) (w : Nat → W) (user : String)
  (ctx : CallCtx (ExtensionType.Any Host))

structure SeesCaller (invocation : Invocation (ExtensionType.Any Host)) : Prop where
  extensions : invocation.ctx.extensions = ctx.extensions
  wall : ∀ tool : WalledTool W Host, tool.deny invocation.ctx.extensions = tool.deny ctx.extensions

def ContextReachesTools (report : TurnReport U (ExtensionType.Any Host)) : Prop :=
  ∀ invocation ∈ report.invocations, SeesCaller (W := W) ctx invocation

theorem wall_denies (tool : WalledTool W Host) {invocation : Invocation (ExtensionType.Any Host)}
    (bare : invocation.Bare) : tool.deny invocation.ctx.extensions = some (.accessDenied
      ("tool '" ++ tool.inner.descriptor.name ++ "' requires a clearance context, none attached")) := by
  rw [bare]
  rfl

/-- The caller's extensions reach the tools just when there is nothing to lose: the caller has none, or
no tool is invoked. -/
theorem context_reaches_tools :
    ContextReachesTools (W := W) ctx (agent.dispatch json w user ctx) ↔
      ctx.extensions = .new ∨ ¬ agent.AsksForTool w user ctx.budgets := by
  have bare {invocation : Invocation (ExtensionType.Any Host)}
      (spawned : invocation ∈ (agent.dispatch json w user ctx).invocations) : invocation.Bare :=
    agent.runTurnImpl_bare json w ctx.budgets user spawned
  rw [← agent.runTurnImpl_invocations json w ctx.budgets user, ← Agent.dispatch]
  constructor
  · intro reaches
    cases spawned : (agent.dispatch json w user ctx).invocations with
    | nil => exact .inr rfl
    | cons invocation rest =>
      have member : invocation ∈ (agent.dispatch json w user ctx).invocations := by simp [spawned]
      left
      rw [← (reaches invocation member).extensions]
      exact bare member
  · intro nothing invocation spawned
    cases nothing with
    | inl none =>
      have same : invocation.ctx.extensions = ctx.extensions := by rw [none, bare spawned]
      exact ⟨same, fun tool => by rw [same]⟩
    | inr none =>
      rw [none] at spawned
      cases spawned

end Walls

section Desk

abbrev Host (_ : Unit) : Type := String

def alice : CallCtx (ExtensionType.Any Host) where
  agentId := none
  tokens := .new 100
  time := { remainingMs := 1000 }
  money := { remainingMicroUsd := 1000000 }
  iterations := { remaining := 2 }
  trace := []
  extensions := Extensions.new.insert .clearanceContext
    (ClearanceContext.mk "alice" .mnpi [])

def echo : WalledTool Nat Host where
  inner := { descriptor := { id := "echo", name := "echo" }, invoke := fun _ args _ => .ok args }
  need := { minLevel := .internal, compartments := [] }
  mandate := none

def desk : Agent Nat Nat (ExtensionType.Any Host) where
  id := "desk"
  model := "mock"
  instructions _ _ := .ok { systemPrompt := "Use tools.", estimatedTokens := 3 }
  tools _ budget := (.ok (staticSelect [echo.toTool]), budget)
  memory _ budget := (.ok [], budget)
  skills _ budget := (.ok [], budget)
  inference moment _ := .ok (if moment = 0 then
    { text := "", usage := 1, finishReason := some .toolCalls
      toolCalls := [{ id := "call_1", name := "echo", argumentsRaw := "" }] }
    else { text := "done", usage := 1, finishReason := some (.other "stop"), toolCalls := [] })
  maxToolIterations := 3

-- `serde_json` as far as it knows `null`.
def nullJson : ValueJson := { toString := fun _ => "null", fromStr := fun _ => .ok .null }

-- She is cleared for the tool, and its wall finds no clearance.
theorem context_reaches_tools_fails :
    ¬ ContextReachesTools (W := Nat) alice (desk.dispatch nullJson id "go" alice) := by
  intro reaches
  let clearance := ClearanceContext.mk "alice" .mnpi []
  have carried : alice.extensions .clearanceContext = some clearance := by rfl
  have cleared : echo.deny alice.extensions = none :=
    (echo.deny_eq_none_iff alice.extensions).mpr ⟨clearance, carried, by decide⟩
  have asks : desk.AsksForTool id "go" alice.budgets := by
    refine ⟨_, rfl, by decide, _, rfl, rfl, _, rfl, ?_⟩
    exact ⟨_, List.mem_singleton_self _, rfl⟩
  have spawned : (desk.runTurnImpl nullJson id "go" alice.budgets).invocations ≠ [] := by
    rw [ne_eq, Agent.runTurnImpl_invocations, not_not]
    exact asks
  obtain ⟨invocation, member⟩ := List.exists_mem_of_ne_nil _ spawned
  have bare := desk.runTurnImpl_bare nullJson id alice.budgets "go" member
  have same := (reaches invocation member).wall echo
  rw [wall_denies echo bare, cleared] at same
  cases same

example : (desk.dispatch nullJson id "go" alice).result = .error (.policyDenied
    "access denied: tool 'echo' requires a clearance context, none attached") := by
  rfl

end Desk

end AtomrAgents
