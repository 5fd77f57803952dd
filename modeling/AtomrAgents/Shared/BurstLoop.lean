import AtomrAgents.Shared.Operations

set_option autoImplicit false

/-! A producer sends items over an unbounded channel. The loop waits for one, takes what else is ready, and
then folds the burst into its state, item by item; an item that is an error ends it. Producer and loop take
their turns in any order. -/

namespace Shared

-- What is particular to one loop; `feed` is what others do to the state meanwhile.
structure BurstBody (σ α ι ρ ε : Type) where
  stop : σ → Option (ρ × σ)
  enter : σ → σ
  fold : σ → α → Except ε σ
  leave : σ → σ
  ended : σ → ρ × σ
  feed : σ → ι → σ

inductive BurstPhase (α ρ ε : Type) where
  | top
  | waiting
  | collecting (batch : List α)
  | folding (rest : List α)
  | finished (reason : ρ)
  | failed (e : ε)

structure BurstLoop (σ α ρ ε : Type) where
  queue : List (Except ε α)
  closed : Bool
  phase : BurstPhase α ρ ε
  state : σ

inductive BurstEvent (α ι ε : Type) where
  | send (item : Except ε α)
  | close
  | feed (x : ι)
  | turn

namespace BurstLoop

variable {σ α ι ρ ε : Type}

def start (state : σ) : BurstLoop σ α ρ ε := { queue := [], closed := false, phase := .top, state }

def turn (body : BurstBody σ α ι ρ ε) (loop : BurstLoop σ α ρ ε) : BurstLoop σ α ρ ε :=
  match loop.phase with
  | .top =>
    match body.stop loop.state with
    | some (reason, state) => { loop with phase := .finished reason, state }
    | none => { loop with phase := .waiting, state := body.enter loop.state }
  | .waiting =>
    match loop.queue with
    | [] =>
      if loop.closed then
        { loop with phase := .finished (body.ended loop.state).1, state := (body.ended loop.state).2 }
      else loop
    | .error e :: queue => { loop with queue, phase := .failed e }
    | .ok item :: queue => { loop with queue, phase := .collecting [item] }
  | .collecting batch =>
    match loop.queue with
    | [] => { loop with phase := .folding batch }
    | .error e :: queue => { loop with queue, phase := .failed e }
    | .ok item :: queue => { loop with queue, phase := .collecting (batch ++ [item]) }
  | .folding [] => { loop with phase := .top, state := body.leave loop.state }
  | .folding (item :: rest) =>
    match body.fold loop.state item with
    | .error e => { loop with phase := .failed e }
    | .ok state => { loop with phase := .folding rest, state }
  | .finished _ => loop
  | .failed _ => loop

-- Nothing is sent over a channel that is closed.
def next (body : BurstBody σ α ι ρ ε) (loop : BurstLoop σ α ρ ε) : BurstEvent α ι ε → BurstLoop σ α ρ ε
  | .send item => if loop.closed then loop else { loop with queue := loop.queue ++ [item] }
  | .close => { loop with closed := true }
  | .feed x => { loop with state := body.feed loop.state x }
  | .turn => loop.turn body

def step (body : BurstBody σ α ι ρ ε) (loop : BurstLoop σ α ρ ε) (event : BurstEvent α ι ε) :
    Unit × BurstLoop σ α ρ ε := ((), loop.next body event)

def after (body : BurstBody σ α ι ρ ε) (state : σ) (events : List (BurstEvent α ι ε)) :
    BurstLoop σ α ρ ε := Operations.final (step body) (start state) events

def sent : List (BurstEvent α ι ε) → List (Except ε α)
  | [] => []
  | .send item :: rest => item :: sent rest
  | .close :: _ => []
  | .feed _ :: rest => sent rest
  | .turn :: rest => sent rest

def inHand : BurstPhase α ρ ε → List α
  | .collecting batch => batch
  | .folding rest => rest
  | _ => []

def Running : BurstPhase α ρ ε → Prop
  | .failed _ => False
  | _ => True

variable {body : BurstBody σ α ι ρ ε} {loop : BurstLoop σ α ρ ε}

theorem closed_turn (loop : BurstLoop σ α ρ ε) : (loop.turn body).closed = loop.closed := by
  rw [turn.eq_def]
  split
  · split <;> rfl
  · split
    · split <;> rfl
    · rfl
    · rfl
  · split <;> rfl
  · rfl
  · split <;> rfl
  · rfl
  · rfl

-- `related` holds before and after each part of the loop, at the same items.
structure Simulates {σ' ρ' : Type} (body : BurstBody σ α ι ρ ε) (body' : BurstBody σ' α ι ρ' ε)
    (related : σ → σ' → Prop) (reasons : ρ → ρ' → Prop) : Prop where
  stop : ∀ s s', related s s' → (body.stop s = none ∧ body'.stop s' = none) ∨
    ∃ r t r' t', body.stop s = some (r, t) ∧ body'.stop s' = some (r', t') ∧ reasons r r' ∧ related t t'
  enter : ∀ s s', related s s' → related (body.enter s) (body'.enter s')
  fold : ∀ s s' item, related s s' → (∃ e, body.fold s item = .error e ∧ body'.fold s' item = .error e) ∨
    ∃ t t', body.fold s item = .ok t ∧ body'.fold s' item = .ok t' ∧ related t t'
  leave : ∀ s s', related s s' → related (body.leave s) (body'.leave s')
  ended : ∀ s s', related s s' →
    reasons (body.ended s).1 (body'.ended s').1 ∧ related (body.ended s).2 (body'.ended s').2
  feed : ∀ s s' x, related s s' → related (body.feed s x) (body'.feed s' x)

inductive PhaseRelated {ρ' : Type} (reasons : ρ → ρ' → Prop) : BurstPhase α ρ ε → BurstPhase α ρ' ε → Prop where
  | top : PhaseRelated reasons .top .top
  | waiting : PhaseRelated reasons .waiting .waiting
  | collecting (batch : List α) : PhaseRelated reasons (.collecting batch) (.collecting batch)
  | folding (rest : List α) : PhaseRelated reasons (.folding rest) (.folding rest)
  | finished {r : ρ} {r' : ρ'} (same : reasons r r') : PhaseRelated reasons (.finished r) (.finished r')
  | failed (e : ε) : PhaseRelated reasons (.failed e) (.failed e)

theorem PhaseRelated.eq {phase phase' : BurstPhase α ρ ε} (same : PhaseRelated Eq phase phase') :
    phase = phase' := by
  cases same with
  | finished same => rw [same]
  | top | waiting | collecting | folding | failed => rfl

structure Related {σ' ρ' : Type} (related : σ → σ' → Prop) (reasons : ρ → ρ' → Prop)
    (loop : BurstLoop σ α ρ ε) (loop' : BurstLoop σ' α ρ' ε) : Prop where
  queue : loop.queue = loop'.queue
  closed : loop.closed = loop'.closed
  phase : PhaseRelated reasons loop.phase loop'.phase
  state : related loop.state loop'.state

theorem Related.turn {σ' ρ' : Type} {body' : BurstBody σ' α ι ρ' ε} {related : σ → σ' → Prop}
    {reasons : ρ → ρ' → Prop} (simulates : Simulates body body' related reasons) {loop' : BurstLoop σ' α ρ' ε}
    (holds : Related related reasons loop loop') :
    Related related reasons (loop.turn body) (loop'.turn body') := by
  obtain ⟨queue, closed, phase, state⟩ := loop
  obtain ⟨queue', closed', phase', state'⟩ := loop'
  obtain ⟨rfl, rfl, phases, states⟩ := holds
  simp only at phases states
  cases phases with
  | top =>
    simp only [BurstLoop.turn]
    obtain ⟨stays, stays'⟩ | ⟨r, t, r', t', stops, stops', same, after_⟩ := simulates.stop state state' states
    · rw [stays, stays']
      exact ⟨rfl, rfl, .waiting, simulates.enter _ _ states⟩
    · rw [stops, stops']
      exact ⟨rfl, rfl, .finished same, after_⟩
  | waiting =>
    cases queue with
    | nil =>
      simp only [BurstLoop.turn]
      split
      · obtain ⟨same, after_⟩ := simulates.ended state state' states
        exact ⟨rfl, rfl, .finished same, after_⟩
      · exact ⟨rfl, rfl, .waiting, states⟩
    | cons item queue =>
      cases item with
      | error e => exact ⟨rfl, rfl, .failed e, states⟩
      | ok item => exact ⟨rfl, rfl, .collecting _, states⟩
  | collecting batch =>
    cases queue with
    | nil => exact ⟨rfl, rfl, .folding _, states⟩
    | cons item queue =>
      cases item with
      | error e => exact ⟨rfl, rfl, .failed e, states⟩
      | ok item => exact ⟨rfl, rfl, .collecting _, states⟩
  | folding rest =>
    cases rest with
    | nil => exact ⟨rfl, rfl, .top, simulates.leave _ _ states⟩
    | cons item rest =>
      simp only [BurstLoop.turn]
      obtain ⟨e, fails, fails'⟩ | ⟨t, t', folds, folds', after_⟩ := simulates.fold state state' item states
      · rw [fails, fails']
        exact ⟨rfl, rfl, .failed e, states⟩
      · rw [folds, folds']
        exact ⟨rfl, rfl, .folding _, after_⟩
  | finished same => exact ⟨rfl, rfl, .finished same, states⟩
  | failed e => exact ⟨rfl, rfl, .failed e, states⟩

theorem related_after {σ' ρ' : Type} {body' : BurstBody σ' α ι ρ' ε} {related : σ → σ' → Prop}
    {reasons : ρ → ρ' → Prop} (simulates : Simulates body body' related reasons) {s : σ} {s' : σ'}
    (begins : related s s') (events : List (BurstEvent α ι ε)) :
    Related related reasons (after body s events) (after body' s' events) := by
  have general : ∀ (loop : BurstLoop σ α ρ ε) (loop' : BurstLoop σ' α ρ' ε), Related related reasons loop loop' →
      Related related reasons (Operations.final (step body) loop events)
        (Operations.final (step body') loop' events) := by
    induction events with
    | nil => exact fun _ _ holds => holds
    | cons event rest ih =>
      intro loop loop' holds
      refine ih _ _ ?_
      cases event with
      | send item =>
        simp only [step, next, holds.closed]
        split
        · exact holds
        · exact ⟨by rw [holds.queue], rfl, holds.phase, holds.state⟩
      | close => exact ⟨holds.queue, rfl, holds.phase, holds.state⟩
      | feed x => exact ⟨holds.queue, holds.closed, holds.phase, simulates.feed _ _ x holds.state⟩
      | turn => exact holds.turn simulates
  exact general _ _ ⟨rfl, rfl, .top, begins⟩

structure Keeps (body : BurstBody σ α ι ρ ε) (invariant : σ → Prop) : Prop where
  stop : ∀ s r t, invariant s → body.stop s = some (r, t) → invariant t
  enter : ∀ s, invariant s → invariant (body.enter s)
  fold : ∀ s item t, invariant s → body.fold s item = .ok t → invariant t
  leave : ∀ s, invariant s → invariant (body.leave s)
  ended : ∀ s, invariant s → invariant (body.ended s).2
  feed : ∀ s x, invariant s → invariant (body.feed s x)

theorem Keeps.turn {invariant : σ → Prop} (keeps : Keeps body invariant) (holds : invariant loop.state) :
    invariant (loop.turn body).state := by
  rw [BurstLoop.turn.eq_def]
  split
  · split
    · next r t stops => exact keeps.stop _ r t holds stops
    · exact keeps.enter _ holds
  · split
    · split
      · exact keeps.ended _ holds
      · exact holds
    · exact holds
    · exact holds
  · split <;> exact holds
  · exact keeps.leave _ holds
  · split
    · exact holds
    · next t folds => exact keeps.fold _ _ t holds folds
  · exact holds
  · exact holds

theorem Keeps.final {invariant : σ → Prop} (keeps : Keeps body invariant) (holds : invariant loop.state)
    (events : List (BurstEvent α ι ε)) : invariant (Operations.final (step body) loop events).state := by
  refine Operations.final_keeps (fun loop => invariant loop.state) (fun loop event holds => ?_) loop events holds
  cases event with
  | send item =>
    simp only [step, next]
    split <;> exact holds
  | close => exact holds
  | feed x => exact keeps.feed _ x holds
  | turn => exact keeps.turn holds

section View

variable {τ : Type}

-- Where the invariant holds, only the fold changes the view, and it does so by `apply`.
structure Views (body : BurstBody σ α ι ρ ε) (invariant : σ → Prop) (view : σ → τ) (apply : τ → α → τ) :
    Prop where
  keeps : Keeps body invariant
  stop : ∀ s r t, body.stop s = some (r, t) → view t = view s
  enter : ∀ s, view (body.enter s) = view s
  fold : ∀ s item t, invariant s → body.fold s item = .ok t → view t = apply (view s) item
  leave : ∀ s, view (body.leave s) = view s
  ended : ∀ s, view (body.ended s).2 = view s
  feed : ∀ s x, view (body.feed s x) = view s

-- What came so far: what was folded, what is in hand, and the queue.
def Accounts (view : σ → τ) (apply : τ → α → τ) (began : τ) (came : List (Except ε α))
    (loop : BurstLoop σ α ρ ε) : Prop :=
  Running loop.phase → ∃ taken : List α,
    came = taken.map .ok ++ ((inHand loop.phase).map .ok ++ loop.queue) ∧
      view loop.state = taken.foldl apply began

variable {invariant : σ → Prop} {view : σ → τ} {apply : τ → α → τ} {began : τ} {came : List (Except ε α)}

theorem Accounts.turn (accounts : Accounts view apply began came loop) (views : Views body invariant view apply)
    (holds : invariant loop.state) : Accounts view apply began came (loop.turn body) := by
  obtain ⟨queue, closed, phase, state⟩ := loop
  cases phase with
  | top =>
    obtain ⟨taken, came_, seen⟩ := accounts trivial
    simp only [BurstLoop.turn]
    split
    · next r t stops => exact fun _ => ⟨taken, came_, (views.stop _ r t stops).trans seen⟩
    · exact fun _ => ⟨taken, came_, (views.enter _).trans seen⟩
  | waiting =>
    obtain ⟨taken, came_, seen⟩ := accounts trivial
    cases queue with
    | nil =>
      simp only [BurstLoop.turn]
      split
      · exact fun _ => ⟨taken, came_, (views.ended _).trans seen⟩
      · exact fun _ => ⟨taken, came_, seen⟩
    | cons item queue =>
      cases item with
      | error e => exact fun running => running.elim
      | ok item => exact fun _ => ⟨taken, came_, seen⟩
  | collecting batch =>
    obtain ⟨taken, came_, seen⟩ := accounts trivial
    cases queue with
    | nil => exact fun _ => ⟨taken, came_, seen⟩
    | cons item queue =>
      cases item with
      | error e => exact fun running => running.elim
      | ok item => exact fun _ => ⟨taken, by simpa [BurstLoop.turn, inHand] using came_, seen⟩
  | folding rest =>
    obtain ⟨taken, came_, seen⟩ := accounts trivial
    cases rest with
    | nil => exact fun _ => ⟨taken, came_, (views.leave _).trans seen⟩
    | cons item rest =>
      simp only [BurstLoop.turn]
      split
      · exact fun running => running.elim
      · next t folds =>
        refine fun _ => ⟨taken ++ [item], by simpa [inHand] using came_, ?_⟩
        rw [List.foldl_append, ← seen]
        exact views.fold _ item t holds folds
  | finished reason => exact accounts
  | failed e => exact accounts

theorem Accounts.final (accounts : Accounts view apply began came loop) (views : Views body invariant view apply)
    (holds : invariant loop.state) (events : List (BurstEvent α ι ε)) :
    Accounts view apply began (came ++ if loop.closed then [] else sent events)
      (Operations.final (step body) loop events) := by
  induction events generalizing came loop with
  | nil =>
    simp only [sent, ite_self, List.append_nil]
    exact accounts
  | cons event rest ih =>
    cases event with
    | send item =>
      cases open_ : loop.closed with
      | true =>
        have later := ih accounts holds
        rw [open_, if_pos rfl] at later
        simpa [Operations.final, step, next, open_] using later
      | false =>
        have more : Accounts view apply began (came ++ [item]) { loop with queue := loop.queue ++ [item] } := by
          intro running
          obtain ⟨taken, came_, seen⟩ := accounts running
          exact ⟨taken, by simp [came_], seen⟩
        have later := ih more holds
        simpa [Operations.final, step, next, open_, sent] using later
    | close =>
      have shut : Accounts view apply began came { loop with closed := true } := accounts
      have later := ih shut holds
      simpa [Operations.final, step, next, sent] using later
    | feed x =>
      have fed : Accounts view apply began came { loop with state := body.feed loop.state x } := by
        intro running
        obtain ⟨taken, came_, seen⟩ := accounts running
        exact ⟨taken, came_, (views.feed _ x).trans seen⟩
      exact ih fed (views.keeps.feed _ x holds)
    | turn =>
      have same : (loop.turn body).closed = loop.closed := closed_turn loop
      have later := ih (accounts.turn views holds) (views.keeps.turn holds)
      rw [same] at later
      exact later

def Drained (isEnd : ρ → Prop) (loop : BurstLoop σ α ρ ε) : Prop :=
  ∀ reason, loop.phase = .finished reason → isEnd reason → loop.queue = [] ∧ loop.closed = true

theorem Drained.next {isEnd : ρ → Prop} (caps : ∀ s r t, body.stop s = some (r, t) → ¬isEnd r)
    (drained : Drained isEnd loop) (event : BurstEvent α ι ε) : Drained isEnd (loop.next body event) := by
  cases event with
  | send item =>
    simp only [BurstLoop.next]
    split
    · exact drained
    · next opened => exact fun reason done isEnd_ => absurd (drained reason done isEnd_).2 opened
  | close => exact fun reason done isEnd_ => ⟨(drained reason done isEnd_).1, rfl⟩
  | feed x => exact drained
  | turn =>
    simp only [BurstLoop.next, BurstLoop.turn.eq_def]
    split
    · split
      · next r t stops =>
        intro reason done isEnd_
        cases done
        exact absurd isEnd_ (caps _ r t stops)
      · exact fun reason done => by cases done
    · split
      · next empty =>
        split
        · next closed => exact fun _ _ _ => ⟨empty, closed⟩
        · exact drained
      · exact fun reason done => by cases done
      · exact fun reason done => by cases done
    · split <;> exact fun reason done => by cases done
    · exact fun reason done => by cases done
    · split <;> exact fun reason done => by cases done
    · exact drained
    · exact drained

theorem view_ended (views : Views body invariant view apply) {isEnd : ρ → Prop}
    (caps : ∀ s r t, body.stop s = some (r, t) → ¬isEnd r) {state : σ} (holds : invariant state)
    {events : List (BurstEvent α ι ε)} {reason : ρ}
    (done : (after body state events).phase = .finished reason) (isEnd_ : isEnd reason) :
    ∃ taken : List α, sent events = taken.map .ok ∧
      view (after body state events).state = taken.foldl apply (view state) := by
  have begins : Accounts view apply (view state) [] (start state : BurstLoop σ α ρ ε) := fun _ => ⟨[], rfl, rfl⟩
  have accounts := begins.final views holds events
  have drained : Drained isEnd (after body state events) :=
    Operations.final_keeps (Drained isEnd) (fun _ event drained => drained.next caps event) (start state) events
      fun _ done => by cases done
  obtain ⟨taken, came_, seen⟩ := accounts (by rw [← after, done]; trivial)
  refine ⟨taken, ?_, seen⟩
  have empty := (drained reason done isEnd_).1
  rw [← after, done, empty] at came_
  simpa [start, inHand] using came_

end View

end BurstLoop

end Shared
