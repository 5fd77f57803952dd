import AtomrAgents.Agent.Pipeline
import AtomrAgents.Context.Packing

set_option autoImplicit false

namespace AtomrAgents

structure RenderedPersona where
  identity : String
  estimatedTokens : Nat

-- `&mut TokenBudget`: the budget comes back.
abbrev InstructionAssembler :=
  RenderedPersona → String → String → TokenBudget → Except AgentError RenderedInstructions × TokenBudget

-- `((text.chars().count() + 3) / 4) as u32`
def charTokens (text : String) : Nat := (text.length + 3) / 4 % 2 ^ 32

def DefaultAssembler.assemble : InstructionAssembler := fun persona task behavior budget =>
  let frags : List ContextFragment :=
    [ { source := "task", priority := 9, estimatedTokens := charTokens task, text := task },
      { source := "persona", priority := 6, estimatedTokens := persona.estimatedTokens
        text := persona.identity },
      { source := "behavior", priority := 4, estimatedTokens := charTokens behavior, text := behavior } ]
  match ContextAssembler.assemble frags budget with
  | .error e => (.error e, budget)
  | .ok (r, budget) =>
    (.ok { systemPrompt := r.join "\n\n", estimatedTokens := r.totalTokens }, budget)

structure ComposedInstructionStrategy where
  persona : AgentContext → TokenBudget → Except AgentError RenderedPersona × TokenBudget
  task : AgentContext → TokenBudget → Except AgentError String × TokenBudget
  behavior : AgentContext → TokenBudget → Except AgentError String × TokenBudget
  assembler : InstructionAssembler

namespace ComposedInstructionStrategy

def new (persona : AgentContext → TokenBudget → Except AgentError RenderedPersona × TokenBudget)
    (task behavior : AgentContext → TokenBudget → Except AgentError String × TokenBudget) :
    ComposedInstructionStrategy :=
  { persona, task, behavior, assembler := DefaultAssembler.assemble }

def render (strategy : ComposedInstructionStrategy) (ctx : AgentContext) (budget : TokenBudget) :
    Except AgentError RenderedInstructions × TokenBudget :=
  let sub := budget.slice 3
  let (persona, bp) := strategy.persona ctx sub
  let (task, bt) := strategy.task ctx sub
  let (behavior, bb) := strategy.behavior ctx sub
  match persona, task, behavior with
  | .ok persona, .ok task, .ok behavior =>
    strategy.assembler persona task behavior (budget.spend ((sub.remaining - bp.remaining) +
      (sub.remaining - bt.remaining) + (sub.remaining - bb.remaining)))
  | .error e, _, _ => (.error e, budget)
  | .ok _, .error e, _ => (.error e, budget)
  | .ok _, .ok _, .error e => (.error e, budget)

-- The budget that the turn hands over is not looked at again.
def instructions (strategy : ComposedInstructionStrategy) (ctx : AgentContext) (budget : TokenBudget) :
    Except AgentError RenderedInstructions := (strategy.render ctx budget).1

end ComposedInstructionStrategy

def InstructionAssembler.WithinBudget (assembler : InstructionAssembler) : Prop :=
  ∀ persona task behavior budget instr rest,
    assembler persona task behavior budget = (.ok instr, rest) → instr.estimatedTokens ≤ budget.remaining

theorem DefaultAssembler.withinBudget : InstructionAssembler.WithinBudget DefaultAssembler.assemble := by
  intro persona task behavior budget instr rest assembled
  obtain ⟨kept, left, packed, fits, -⟩ := ContextAssembler.assemble_exact
    [ { source := "task", priority := 9, estimatedTokens := charTokens task, text := task },
      { source := "persona", priority := 6, estimatedTokens := persona.estimatedTokens
        text := persona.identity },
      { source := "behavior", priority := 4, estimatedTokens := charTokens behavior, text := behavior } ] budget
  simp only [DefaultAssembler.assemble, packed, Prod.mk.injEq, Except.ok.injEq] at assembled
  rw [← assembled.1]
  exact fits

theorem TokenBudget.spend_remaining (budget : TokenBudget) (n : Nat) :
    (budget.spend n).remaining = budget.remaining - n := by
  have enough : ¬ budget.remaining < min n budget.remaining := by omega
  simp only [spend, consume, if_neg enough]
  omega

theorem ComposedInstructionStrategy.render_within {strategy : ComposedInstructionStrategy}
    (within : strategy.assembler.WithinBudget) {ctx : AgentContext} {budget : TokenBudget}
    {instr : RenderedInstructions} (rendered : strategy.instructions ctx budget = .ok instr) :
    instr.estimatedTokens ≤ budget.remaining := by
  unfold instructions render at rendered
  dsimp only at rendered
  split at rendered
  · next persona task behavior _ _ _ =>
    have reported := within persona task behavior _ instr _ (Prod.ext rendered rfl)
    rw [TokenBudget.spend_remaining] at reported
    omega
  · cases rendered
  · cases rendered
  · cases rendered

section

variable {W U τ : Type} {Any : τ → Type}

namespace Agent

variable (agent : Agent W U Any)

def resolved (user : String) (tokens : TokenBudget) : TokenBudget :=
  let agentCtx := AgentContext.forAgent agent.id { user, history := [] }
  let sub := tokens.slice 3
  tokens.spend ((sub.remaining - (agent.memory agentCtx sub).2.remaining) +
    (sub.remaining - (agent.skills agentCtx sub).2.remaining) +
    (sub.remaining - (agent.tools agentCtx sub).2.remaining))

theorem join_head {rendered : RenderedContext} {first : ContextFragment}
    (leads : rendered.fragments.head? = some first) (sep : String) :
    ∃ rest, rendered.join sep = first.text ++ rest := by
  obtain ⟨fragments, totalTokens⟩ := rendered
  cases fragments with
  | nil => cases leads
  | cons head others =>
    cases leads
    cases others with
    | nil => exact ⟨"", by simp [RenderedContext.join]⟩
    | cons next others =>
      exact ⟨_, by
        rw [RenderedContext.join, List.map_cons, List.map_cons, String.intercalate_cons_cons, String.append_assoc]⟩

theorem prepare_inversion {user : String} {tokens : TokenBudget} {p : Prepared W Any}
    (prepared : agent.prepare user tokens = .ok p) :
    ∃ mem instr assembled left,
      agent.instructions (.forAgent agent.id { user, history := [] })
          ((agent.resolved user tokens).slice 2) = .ok instr ∧
        ContextAssembler.assemble (fragments instr mem)
          ((agent.resolved user tokens).spend instr.estimatedTokens) = .ok (assembled, left) ∧
        p.messages = [{ role := .system, content := assembled.join "\n\n" },
          { role := .user, content := user }] := by
  unfold prepare at prepared
  cases mem : (agent.memory (.forAgent agent.id { user, history := [] }) (tokens.slice 3)).1 with
  | error e => simp [mem, bind, Except.bind] at prepared
  | ok chunks =>
    cases skills : (agent.skills (.forAgent agent.id { user, history := [] }) (tokens.slice 3)).1 with
    | error e => simp [mem, skills, bind, Except.bind] at prepared
    | ok refs =>
      cases tools : (agent.tools (.forAgent agent.id { user, history := [] }) (tokens.slice 3)).1 with
      | error e => simp [mem, skills, tools, bind, Except.bind] at prepared
      | ok toolRefs =>
        simp only [mem, skills, tools, bind, Except.bind] at prepared
        split at prepared
        · cases prepared
        · next instr rendered =>
          split at prepared
          · cases prepared
          · next packed assembled =>
            cases prepared
            exact ⟨chunks, instr, packed.1, packed.2, rendered, assembled, rfl⟩

/-- Half of what is left is enough to keep the prompt, for which as much again was set aside. -/
theorem system_prompt_survives {strategy : ComposedInstructionStrategy}
    (within : strategy.assembler.WithinBudget) (composed : agent.instructions = strategy.instructions)
    {user : String} {tokens : TokenBudget} {p : Prepared W Any} (prepared : agent.prepare user tokens = .ok p) :
    ∃ instr rest,
      strategy.instructions (.forAgent agent.id { user, history := [] })
          ((agent.resolved user tokens).slice 2) = .ok instr ∧
        p.messages = [{ role := .system, content := instr.systemPrompt ++ rest },
          { role := .user, content := user }] := by
  obtain ⟨mem, instr, assembled, left, rendered, packed, messages⟩ := agent.prepare_inversion prepared
  rw [composed] at rendered
  have half : instr.estimatedTokens ≤ (agent.resolved user tokens).remaining / 2 :=
    strategy.render_within within rendered
  have fits : instr.estimatedTokens ≤ ((agent.resolved user tokens).spend instr.estimatedTokens).remaining := by
    rw [TokenBudget.spend_remaining]
    omega
  -- the prompt has priority 9, what the memory recalls 5
  obtain ⟨first, rest, same, leads⟩ := @ContextAssembler.assemble_first _
    { source := "system", priority := 9, estimatedTokens := instr.estimatedTokens, text := instr.systemPrompt }
    (mem.map fun c => { source := "memory", priority := 5, estimatedTokens := c.estimatedTokens, text := c.text })
    fits (by simp)
  rw [fragments, same] at packed
  cases packed
  obtain ⟨tail, joined⟩ := join_head leads "\n\n"
  exact ⟨instr, tail, rendered, by rw [messages, joined]⟩

end Agent

end

section

def concierge : ComposedInstructionStrategy :=
  .new (fun _ budget => (.ok { identity := "You are kind.", estimatedTokens := 4 }, budget))
    (fun _ budget => (.ok "Answer.", budget)) (fun _ budget => (.ok "", budget))

def clerk : Agent Unit Nat (fun _ : Unit => Unit) where
  id := "clerk"
  model := "mock"
  instructions := concierge.instructions
  tools _ budget := (.ok [], budget)
  memory _ budget := (.ok [{ text := "The desk is open.", estimatedTokens := 5 }], budget)
  skills _ budget := (.ok [], budget)
  inference _ _ := .ok { text := "done", usage := 1, finishReason := none, toolCalls := [] }
  maxToolIterations := 1

theorem clerk_prompt_survives :
    ∃ p instr rest, clerk.prepare "hi" (.new 40) = .ok p ∧
      concierge.instructions (.forAgent "clerk" { user := "hi", history := [] })
        ((clerk.resolved "hi" (.new 40)).slice 2) = .ok instr ∧
      p.messages = [{ role := .system, content := instr.systemPrompt ++ rest },
        { role := .user, content := "hi" }] := by
  obtain ⟨p, prepared⟩ : ∃ p, clerk.prepare "hi" (.new 40) = .ok p := ⟨_, rfl⟩
  obtain ⟨instr, rest, survives⟩ := clerk.system_prompt_survives DefaultAssembler.withinBudget rfl prepared
  exact ⟨p, instr, rest, prepared, survives⟩

end

end AtomrAgents
