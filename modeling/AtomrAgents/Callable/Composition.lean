import AtomrAgents.Core.Context
import AtomrAgents.Shared.ForkJoinBounds
import Mathlib.Data.String.Basic

set_option autoImplicit false

/-! A callable is what its `call` does: it runs closures, one after the other or in tasks that it spawns, and
each closure answers as it likes. What the decorators and the pipelines add to that is the code of this crate.
-/

namespace AtomrAgents.Composition

open Shared.ForkJoin

variable {F τ : Type} {Any : τ → Type}

structure Request (F : Type) (Any : τ → Type) where
  inner : F
  input : Value
  ctx : CallCtx Any

abbrev Answer := Except AgentError Value

abbrev CallJob (F : Type) (Any : τ → Type) := Job (Request F Any) Answer Value AgentError

structure Callable (F : Type) (Any : τ → Type) where
  label : String
  call : Value → CallCtx Any → CallJob F Any

def FnCallable.labeled (label : String) (inner : F) : Callable F Any where
  label
  call := fun input ctx => .ask { inner, input, ctx } .done

-- `BTreeMap::insert`: the entries are in the order of their keys, and a later one replaces an earlier one.
def insertKey {β : Type} (key : String) (x : β) : List (String × β) → List (String × β)
  | [] => [(key, x)]
  | entry :: rest =>
    if key = entry.1 then (key, x) :: rest
    else if key < entry.1 then (key, x) :: entry :: rest
    else entry :: insertKey key x rest

def collect {β : Type} (entries : List (String × β)) : List (String × β) :=
  entries.foldl (fun map entry => insertKey entry.1 entry.2 map) []

-- The backoff between two attempts only delays the second.
structure RetryPolicy where
  maxAttempts : Nat

def attempts (inner : Callable F Any) (input : Value) (ctx : CallCtx Any) :
    Nat → Option AgentError → CallJob F Any
  | 0, lastErr => .done (.error (lastErr.getD (.internal "retry exhausted with no error")))
  | left + 1, _ =>
    (inner.call input ctx).bind fun
      | .ok v => .done (.ok v)
      | .error e => attempts inner input ctx left (some e)

def withRetry (inner : Callable F Any) (policy : RetryPolicy) : Callable F Any where
  label := "retry(" ++ inner.label ++ ")"
  call := fun input ctx => attempts inner input ctx policy.maxAttempts none

def tryAlternates (input : Value) (ctx : CallCtx Any) : List (Callable F Any) → Option AgentError → CallJob F Any
  | [], lastErr => .done (.error (lastErr.getD (.internal "fallbacks exhausted")))
  | alt :: rest, _ =>
    (alt.call input ctx).bind fun
      | .ok v => .done (.ok v)
      | .error e => tryAlternates input ctx rest (some e)

-- the error of the primary is dropped
def withFallbacks (primary : Callable F Any) (alternates : List (Callable F Any)) : Callable F Any where
  label := "fallback(" ++ primary.label ++ ")"
  call := fun input ctx =>
    (primary.call input ctx).bind fun
      | .ok v => .done (.ok v)
      | .error _ => tryAlternates input ctx alternates none

structure RunConfig where
  runName : Option String
  tags : List String

def RunConfig.frames (config : RunConfig) : List String :=
  (config.runName.map fun name => "run:" ++ name).toList ++ config.tags.map fun tag => "tag:" ++ tag

def withConfig (inner : Callable F Any) (config : RunConfig) : Callable F Any where
  label := config.runName.getD ("config(" ++ inner.label ++ ")")
  call := fun input ctx => inner.call input { ctx with trace := ctx.trace ++ config.frames }

def branch (predicate : Value → Bool) (ifTrue ifFalse : Callable F Any) : Callable F Any where
  label := "branch(" ++ ifTrue.label ++ " | " ++ ifFalse.label ++ ")"
  call := fun input ctx => if predicate input then ifTrue.call input ctx else ifFalse.call input ctx

def joinOutputs (names : List String) : Except AgentError (List Value) → CallJob F Any
  | .error e => .done (.error e)
  | .ok outputs => .done (.ok (.object (collect (names.zip outputs))))

-- The tasks are spawned and then awaited in the order of the names.
def fanOut (branches : List (String × Callable F Any)) : Callable F Any where
  label := "fan_out(" ++ String.intercalate "," (branches.map Prod.fst) ++ ")"
  call := fun input ctx =>
    let branches := collect branches
    .fork none branches.length (fun i => (branches.get i).2.call input ctx) (joinOutputs (branches.map Prod.fst))

inductive StageKind where
  | sequential
  | assign

structure Stage (F : Type) (Any : τ → Type) where
  kind : StageKind
  key : Option String
  callable : Callable F Any

structure Pipeline (F : Type) (Any : τ → Type) where
  stages : List (Stage F Any)
  label : String

namespace Pipeline

variable (pipeline : Pipeline F Any)

def of (c : Callable F Any) : Pipeline F Any :=
  { stages := [{ kind := .sequential, key := none, callable := c }], label := c.label }

def then_ (c : Callable F Any) : Pipeline F Any where
  stages := pipeline.stages ++ [{ kind := .sequential, key := none, callable := c }]
  label := pipeline.label ++ " | " ++ c.label

def identity : Callable F Any := { label := "passthrough", call := fun input _ => .done (.ok input) }

def passthrough : Pipeline F Any :=
  if pipeline.stages.isEmpty then of identity else pipeline.then_ identity

def assign (key : String) (c : Callable F Any) : Pipeline F Any where
  stages := pipeline.stages ++ [{ kind := .assign, key := some key, callable := c }]
  label := pipeline.label ++ ".assign(" ++ key ++ ")"

def fanOutWith (branches : List (String × Callable F Any)) : Pipeline F Any where
  stages := pipeline.stages ++ [{ kind := .sequential, key := none, callable := fanOut branches }]
  label := pipeline.label ++ " | fan_out(" ++ String.intercalate "," (branches.map Prod.fst) ++ ")"

def fieldsOf : Value → List (String × Value)
  | .object fields => fields
  | other => [("input", other)]

def callStages (ctx : CallCtx Any) : List (Stage F Any) → Value → CallJob F Any
  | [], current => .done (.ok current)
  | stage :: rest, current =>
    match stage.kind, stage.key with
    | .sequential, _ =>
      (stage.callable.call current ctx).bind fun
        | .error e => .done (.error e)
        | .ok current => callStages ctx rest current
    | .assign, none => .done (.error (.internal "assign without key"))
    | .assign, some key =>
      (stage.callable.call current ctx).bind fun
        | .error e => .done (.error e)
        | .ok derived => callStages ctx rest (.object (insertKey key derived (fieldsOf current)))

def build : Callable F Any := { label := pipeline.label, call := fun input ctx => callStages ctx pipeline.stages input }

end Pipeline

inductive Expr (F : Type) where
  | fn (label : String) (inner : F)
  | retry (inner : Expr F) (policy : RetryPolicy)
  | fallbacks (primary : Expr F) (n : Nat) (alternates : Fin n → Expr F)
  | config (inner : Expr F) (settings : RunConfig)
  | branch (predicate : Value → Bool) (ifTrue ifFalse : Expr F)
  | fanOut (n : Nat) (names : Fin n → String) (branches : Fin n → Expr F)
  | pipeline (first : Expr F) (n : Nat) (keys : Fin n → Option String) (stages : Fin n → Expr F)
  | passthrough

namespace Expr

-- A stage of a pipeline without a key is chained, one with a key assigned.
def chain (pipeline : Pipeline F Any) (stage : Option String × Callable F Any) : Pipeline F Any :=
  match stage.1 with
  | none => pipeline.then_ stage.2
  | some key => pipeline.assign key stage.2

def denote : Expr F → Callable F Any
  | .fn label inner => FnCallable.labeled label inner
  | .retry inner policy => withRetry inner.denote policy
  | .fallbacks primary _ alternates => withFallbacks primary.denote (List.ofFn fun i => (alternates i).denote)
  | .config inner settings => withConfig inner.denote settings
  | .branch predicate ifTrue ifFalse => Composition.branch predicate ifTrue.denote ifFalse.denote
  | .fanOut _ names branches => Composition.fanOut (List.ofFn fun i => (names i, (branches i).denote))
  | .pipeline first _ keys stages =>
    ((List.ofFn fun i => (keys i, (stages i).denote)).foldl chain (Pipeline.of first.denote)).build
  | .passthrough => Pipeline.identity

def cost : Expr F → Nat
  | .fn _ _ => 1
  | .retry inner policy => policy.maxAttempts * inner.cost
  | .fallbacks primary _ alternates => primary.cost + ∑ i, (alternates i).cost
  | .config inner _ => inner.cost
  | .branch _ ifTrue ifFalse => max ifTrue.cost ifFalse.cost
  | .fanOut _ _ branches => ∑ i, (branches i).cost
  | .pipeline first _ _ stages => first.cost + ∑ i, (stages i).cost
  | .passthrough => 0

-- A closure of the composition, with the frames that the configs around it add, from the outside in.
def Reaches : Expr F → F → List String → Prop
  | .fn _ inner, f, frames => f = inner ∧ frames = []
  | .retry inner _, f, frames => inner.Reaches f frames
  | .fallbacks primary _ alternates, f, frames =>
    primary.Reaches f frames ∨ ∃ i, (alternates i).Reaches f frames
  | .config inner settings, f, frames => ∃ rest, inner.Reaches f rest ∧ frames = settings.frames ++ rest
  | .branch _ ifTrue ifFalse, f, frames => ifTrue.Reaches f frames ∨ ifFalse.Reaches f frames
  | .fanOut _ _ branches, f, frames => ∃ i, (branches i).Reaches f frames
  | .pipeline first _ _ stages, f, frames => first.Reaches f frames ∨ ∃ i, (stages i).Reaches f frames
  | .passthrough, _, _ => False

end Expr

theorem exists_of_forall₂ {α β : Type} {R : α → β → Prop} {xs : List α} {ys : List β}
    (all : List.Forall₂ R xs ys) {x : α} (member : x ∈ xs) : ∃ y, R x y := by
  induction all with
  | nil => cases member
  | @cons head y rest ys here later ih =>
    cases member with
    | head => exact ⟨y, here⟩
    | tail _ inside => exact ih inside

theorem forall₂_ofFn {α β : Type} {R : α → β → Prop} {n : Nat} {f : Fin n → α} {g : Fin n → β}
    (each : ∀ i, R (f i) (g i)) : List.Forall₂ R (List.ofFn f) (List.ofFn g) := by
  rw [List.forall₂_iff_get]
  refine ⟨by simp, fun i _ _ => ?_⟩
  simp only [List.get_ofFn]
  exact each _

section Groups

variable {β : Type} {permits : Permits} {members : List β} {ns : List Nat}
  {join : Except AgentError (List Value) → CallJob F Any}

theorem atMost_fork (call : β → CallJob F Any)
    (each : List.Forall₂ (fun member n => (call member).AtMost n) members ns)
    (later : ∀ joined, (join joined).AtMost 0) :
    (Job.fork permits members.length (fun i => call (members.get i)) join).AtMost ns.sum := by
  obtain ⟨same, each⟩ := List.forall₂_iff_get.mp each
  refine ⟨fun i => ns.get (Fin.cast same i), 0, ?_, fun i => each i i.isLt (same ▸ i.isLt), later⟩
  have total : ∑ i : Fin members.length, ns.get (Fin.cast same i) = ∑ i : Fin ns.length, ns.get i :=
    Fintype.sum_equiv (finCongr same) _ _ fun _ => rfl
  rw [total, ← List.sum_ofFn, List.ofFn_get, Nat.add_zero]

theorem asks_fork (call : β → CallJob F Any) {P : Request F Any → Prop}
    (each : ∀ member ∈ members, (call member).Asks P)
    (later : ∀ joined, (join joined).Asks P) :
    (Job.fork permits members.length (fun i => call (members.get i)) join).Asks P :=
  ⟨fun i => each _ (List.get_mem members i), later⟩

end Groups

section Collect

variable {β : Type} (R : β → Nat → Prop) {entries : List (String × β)} {ns : List Nat}

theorem forall₂_insertKey (each : List.Forall₂ (fun entry n => R entry.2 n) entries ns) (key : String) {x : β}
    {n : Nat} (new : R x n) :
    ∃ ns', List.Forall₂ (fun entry n => R entry.2 n) (insertKey key x entries) ns' ∧ ns'.sum ≤ ns.sum + n := by
  induction each with
  | nil => exact ⟨[n], .cons new .nil, by simp⟩
  | @cons entry m rest ms here later ih =>
    rw [insertKey]
    split
    · exact ⟨n :: ms, .cons new later, by simp only [List.sum_cons]; omega⟩
    · split
      · exact ⟨n :: m :: ms, .cons new (.cons here later), by simp only [List.sum_cons]; omega⟩
      · obtain ⟨ns', each, less⟩ := ih
        exact ⟨m :: ns', .cons here each, by simp only [List.sum_cons]; omega⟩

theorem forall₂_collect (each : List.Forall₂ (fun entry n => R entry.2 n) entries ns) :
    ∃ ns', List.Forall₂ (fun entry n => R entry.2 n) (collect entries) ns' ∧ ns'.sum ≤ ns.sum := by
  have fold (map : List (String × β)) (ms : List Nat)
      (stored : List.Forall₂ (fun entry n => R entry.2 n) map ms) :
      ∃ ns', List.Forall₂ (fun entry n => R entry.2 n)
        (entries.foldl (fun map entry => insertKey entry.1 entry.2 map) map) ns' ∧
          ns'.sum ≤ ms.sum + ns.sum := by
    induction each generalizing map ms with
    | nil => exact ⟨ms, stored, by simp⟩
    | cons here later ih =>
      obtain ⟨ms', stored, less⟩ := forall₂_insertKey R stored _ here
      obtain ⟨ns', all, less'⟩ := ih _ ms' stored
      exact ⟨ns', all, by simp only [List.sum_cons]; omega⟩
  have all := fold [] [] .nil
  rw [List.sum_nil, Nat.zero_add] at all
  exact all

end Collect

def Within (reached : F → List String → Prop) (ctx : CallCtx Any) (request : Request F Any) : Prop :=
  ∃ frames, reached request.inner frames ∧ request.ctx = { ctx with trace := ctx.trace ++ frames }

structure Accounted (c : Callable F Any) (n : Nat) (reached : F → List String → Prop) : Prop where
  calls : ∀ input ctx, (c.call input ctx).AtMost n
  within : ∀ input ctx, (c.call input ctx).Asks (Within reached ctx)

namespace Accounted

variable {c d : Callable F Any} {m n : Nat} {reached wider : F → List String → Prop}

theorem mono (accounted : Accounted c m reached) (le : m ≤ n)
    (wide : ∀ f frames, reached f frames → wider f frames) : Accounted c n wider where
  calls input ctx := (accounted.calls input ctx).mono le
  within input ctx := by
    refine (accounted.within input ctx).imp ?_
    rintro request ⟨frames, member, same⟩
    exact ⟨frames, wide _ _ member, same⟩

theorem fn (label : String) (inner : F) :
    Accounted (FnCallable.labeled label inner : Callable F Any) 1 fun f frames => f = inner ∧ frames = [] where
  calls input ctx := ⟨0, le_refl 1, fun _ => trivial⟩
  within input ctx := by
    refine ⟨⟨[], ⟨rfl, rfl⟩, ?_⟩, fun _ => trivial⟩
    rw [List.append_nil]

theorem retry (accounted : Accounted c n reached) (policy : RetryPolicy) :
    Accounted (withRetry c policy) (policy.maxAttempts * n) reached := by
  have each (left : Nat) (lastErr : Option AgentError) (input : Value) (ctx : CallCtx Any) :
      (attempts c input ctx left lastErr).AtMost (left * n) ∧
        (attempts c input ctx left lastErr).Asks (Within reached ctx) := by
    induction left generalizing lastErr with
    | zero => exact ⟨trivial, trivial⟩
    | succ left ih =>
      constructor
      · have total : (left + 1) * n = n + left * n := by rw [Nat.succ_mul, Nat.add_comm]
        rw [total]
        refine (accounted.calls input ctx).bind ?_
        rintro (e | v)
        · exact (ih (some e)).1
        · trivial
      · refine (accounted.within input ctx).bind ?_
        rintro (e | v)
        · exact (ih (some e)).2
        · trivial
  exact ⟨fun input ctx => (each _ none input ctx).1, fun input ctx => (each _ none input ctx).2⟩

theorem config (accounted : Accounted c n reached) (settings : RunConfig) :
    Accounted (withConfig c settings) n
      fun f frames => ∃ rest, reached f rest ∧ frames = settings.frames ++ rest where
  calls input ctx := accounted.calls input _
  within input ctx := by
    refine (accounted.within input _).imp ?_
    rintro request ⟨rest, member, same⟩
    refine ⟨settings.frames ++ rest, ⟨rest, member, rfl⟩, ?_⟩
    rw [same, ← List.append_assoc]

theorem branch (predicate : Value → Bool) (ifTrue : Accounted c m reached) (ifFalse : Accounted d n reached) :
    Accounted (Composition.branch predicate c d) (max m n) reached where
  calls input ctx := by
    simp only [Composition.branch]
    split
    · exact (ifTrue.calls input ctx).mono (Nat.le_max_left m n)
    · exact (ifFalse.calls input ctx).mono (Nat.le_max_right m n)
  within input ctx := by
    simp only [Composition.branch]
    split
    · exact ifTrue.within input ctx
    · exact ifFalse.within input ctx

section Lists

variable {ns : List Nat}

theorem tryAlternates {alternates : List (Callable F Any)}
    (each : List.Forall₂ (fun c n => Accounted c n reached) alternates ns) (input : Value) (ctx : CallCtx Any)
    (lastErr : Option AgentError) :
    (Composition.tryAlternates input ctx alternates lastErr).AtMost ns.sum ∧
      (Composition.tryAlternates input ctx alternates lastErr).Asks (Within reached ctx) := by
  induction each generalizing lastErr with
  | nil => exact ⟨trivial, trivial⟩
  | @cons alt n rest ns here later ih =>
    rw [List.sum_cons]
    constructor
    · refine (here.calls input ctx).bind ?_
      rintro (e | v)
      · exact (ih (some e)).1
      · trivial
    · refine (here.within input ctx).bind ?_
      rintro (e | v)
      · exact (ih (some e)).2
      · trivial

theorem fallbacks (primary : Accounted c n reached) {alternates : List (Callable F Any)}
    (each : List.Forall₂ (fun c n => Accounted c n reached) alternates ns) :
    Accounted (withFallbacks c alternates) (n + ns.sum) reached where
  calls input ctx := by
    refine (primary.calls input ctx).bind ?_
    rintro (e | v)
    · exact (tryAlternates each input ctx none).1
    · trivial
  within input ctx := by
    refine (primary.within input ctx).bind ?_
    rintro (e | v)
    · exact (tryAlternates each input ctx none).2
    · trivial

theorem fanOut {branches : List (String × Callable F Any)}
    (each : List.Forall₂ (fun branch n => Accounted branch.2 n reached) branches ns) :
    Accounted (Composition.fanOut branches) ns.sum reached := by
  obtain ⟨ns', collected, less⟩ := forall₂_collect (fun c n => Accounted c n reached) each
  constructor
  · intro input ctx
    have bounded : ((Composition.fanOut branches).call input ctx).AtMost ns'.sum :=
      atMost_fork (fun branch : String × Callable F Any => branch.2.call input ctx)
        (collected.imp fun _ _ accounted => accounted.calls input ctx) (by rintro (e | outputs) <;> trivial)
    exact bounded.mono less
  · intro input ctx
    refine asks_fork (fun branch : String × Callable F Any => branch.2.call input ctx) ?_
      (by rintro (e | outputs) <;> trivial)
    intro branch member
    obtain ⟨n, accounted⟩ := exists_of_forall₂ collected member
    exact accounted.within input ctx

theorem callStages {stages : List (Stage F Any)}
    (each : List.Forall₂ (fun stage n => Accounted stage.callable n reached) stages ns) (ctx : CallCtx Any)
    (current : Value) :
    (Pipeline.callStages ctx stages current).AtMost ns.sum ∧
      (Pipeline.callStages ctx stages current).Asks (Within reached ctx) := by
  induction each generalizing current with
  | nil => exact ⟨trivial, trivial⟩
  | @cons stage n rest ns here later ih =>
    rw [List.sum_cons, Pipeline.callStages]
    split
    · constructor
      · refine (here.calls current ctx).bind ?_
        rintro (e | v)
        · trivial
        · exact (ih v).1
      · refine (here.within current ctx).bind ?_
        rintro (e | v)
        · trivial
        · exact (ih v).2
    · exact ⟨trivial, trivial⟩
    · constructor
      · refine (here.calls current ctx).bind ?_
        rintro (e | v)
        · trivial
        · exact (ih _).1
      · refine (here.within current ctx).bind ?_
        rintro (e | v)
        · trivial
        · exact (ih _).2

end Lists

end Accounted

def Expr.stage (key : Option String) (c : Callable F Any) : Stage F Any :=
  match key with
  | none => { kind := .sequential, key := none, callable := c }
  | some key => { kind := .assign, key := some key, callable := c }

theorem Expr.stages_chain (steps : List (Option String × Callable F Any)) (pipeline : Pipeline F Any) :
    (steps.foldl chain pipeline).stages = pipeline.stages ++ steps.map fun step => stage step.1 step.2 := by
  induction steps generalizing pipeline with
  | nil => simp
  | cons step rest ih =>
    obtain ⟨key, c⟩ := step
    rw [List.foldl_cons, ih]
    cases key <;> simp [chain, Pipeline.then_, Pipeline.assign, stage]

theorem Expr.accounted (e : Expr F) : Accounted (e.denote : Callable F Any) e.cost e.Reaches := by
  induction e with
  | fn label inner => exact .fn label inner
  | retry inner policy ih => exact ih.retry policy
  | fallbacks primary n alternates ihPrimary ih =>
    have total : ∑ i, (alternates i).cost = (List.ofFn fun i => (alternates i).cost).sum := List.sum_ofFn.symm
    rw [cost, total]
    refine (ihPrimary.mono (le_refl _) fun f frames member => .inl member).fallbacks (forall₂_ofFn fun i => ?_)
    exact (ih i).mono (le_refl _) fun f frames member => .inr ⟨i, member⟩
  | config inner settings ih => exact ih.config settings
  | branch predicate ifTrue ifFalse ihTrue ihFalse =>
    exact .branch predicate (ihTrue.mono (le_refl _) fun f frames member => .inl member)
      (ihFalse.mono (le_refl _) fun f frames member => .inr member)
  | fanOut n names branches ih =>
    have total : ∑ i, (branches i).cost = (List.ofFn fun i => (branches i).cost).sum := List.sum_ofFn.symm
    rw [cost, total]
    refine .fanOut (forall₂_ofFn fun i => ?_)
    exact (ih i).mono (le_refl _) fun f frames member => ⟨i, member⟩
  | pipeline first n keys stages ihFirst ih =>
    have total : first.cost + ∑ i, (stages i).cost =
        (first.cost :: List.ofFn fun i => (stages i).cost).sum := by
      rw [List.sum_cons, List.sum_ofFn]
    have each : List.Forall₂
        (fun (stage : Stage F Any) m => Accounted stage.callable m (Expr.pipeline first n keys stages).Reaches)
        ((List.ofFn fun i => (keys i, ((stages i).denote : Callable F Any))).foldl chain
          (Pipeline.of first.denote)).stages
        (first.cost :: List.ofFn fun i => (stages i).cost) := by
      rw [stages_chain, List.map_ofFn]
      refine .cons (ihFirst.mono (le_refl _) fun f frames member => .inl member) (forall₂_ofFn fun i => ?_)
      have same : (stage (keys i) ((stages i).denote : Callable F Any)).callable = (stages i).denote := by
        cases keys i <;> rfl
      simp only [Function.comp_apply, same]
      exact (ih i).mono (le_refl _) fun f frames member => .inr ⟨i, member⟩
    rw [cost, total]
    exact ⟨fun input ctx => (Accounted.callStages each ctx input).1,
      fun input ctx => (Accounted.callStages each ctx input).2⟩
  | passthrough => exact ⟨fun _ _ => trivial, fun _ _ => trivial⟩

/-- Whatever the closures answer and whichever task takes its turn when: a composition calls closures no
oftener than its cost, only those that it is made of, and each in the caller's context, with the frames of
the configs around it. -/
theorem calls_accounted (e : Expr F) (input : Value) (ctx : CallCtx Any) (schedule : List (List Nat × Answer))
    (last : Proc (Request F Any) Answer Value AgentError) (log : List (Request F Any × Answer))
    (ran : Proc.run schedule ((e.denote : Callable F Any).call input ctx).start = some (last, log)) :
    log.length ≤ e.cost ∧ ∀ entry ∈ log, Within e.Reaches ctx entry.1 :=
  ⟨Proc.run_atMost ran (Proc.atMost_start (e.accounted.calls input ctx)),
    Proc.run_asks ran (Proc.asks_start (e.accounted.within input ctx))⟩

def emptyCtx : CallCtx (fun _ : Unit => Unit) where
  agentId := none
  tokens := .new 1000
  time := { remainingMs := 10000 }
  money := { remainingMicroUsd := 1000000 }
  iterations := { remaining := 10 }
  trace := []
  extensions := .new

-- A closure that fails twice, and a second one that is spawned beside it.
def retriedBesideEcho : Expr String :=
  .fanOut 2 (fun i => if i = 0 then "b" else "a") fun i =>
    if i = 0 then .config (.retry (.fn "flaky" "flaky") { maxAttempts := 2 }) { runName := some "job", tags := [] }
    else .fn "echo" "echo"

def flakyFirst : List (List Nat × Answer) :=
  [([1], .ok .null), ([1], .error (.internal "boom")), ([0], .ok .null), ([1], .error (.internal "boom")),
    ([0], .ok .null), ([], .ok .null)]

theorem calls_accounted_retried :
    ∃ last log,
      Proc.run flakyFirst
        ((retriedBesideEcho.denote : Callable String fun _ : Unit => Unit).call .null emptyCtx).start =
          some (last, log) ∧
      log.length ≤ 3 ∧ ∀ entry ∈ log, Within retriedBesideEcho.Reaches emptyCtx entry.1 := by
  have ran : ∃ last log, Proc.run flakyFirst
      ((retriedBesideEcho.denote : Callable String fun _ : Unit => Unit).call .null emptyCtx).start =
        some (last, log) := ⟨_, _, rfl⟩
  obtain ⟨last, log, ran⟩ := ran
  exact ⟨last, log, ran, calls_accounted retriedBesideEcho .null emptyCtx _ _ _ ran⟩

end AtomrAgents.Composition
