import AtomrAgents.Callable.Composition
import AtomrAgents.Shared.Table

set_option autoImplicit false

/-! `fan_out` runs its branches on one input, `dispatch_fan_out` one callable on each of many inputs, with so
many of them at a time as it is given. -/

namespace AtomrAgents.Composition

open Shared.ForkJoin

variable {F τ : Type} {Any : τ → Type}

section Keys

variable {β : Type}

theorem mem_keys_insertKey {key other : String} {x : β} {map : List (String × β)} :
    other ∈ (insertKey key x map).map Prod.fst ↔ other = key ∨ other ∈ map.map Prod.fst := by
  induction map with
  | nil => simp [insertKey]
  | cons entry rest ih =>
    rw [insertKey]
    split
    · next same => simp [same]
    · split
      · simp
      · rw [List.map_cons, List.mem_cons, ih, List.map_cons, List.mem_cons]
        tauto

theorem increasing_insertKey {key : String} {x : β} {map : List (String × β)}
    (increasing : (map.map Prod.fst).Pairwise (· < ·)) :
    ((insertKey key x map).map Prod.fst).Pairwise (· < ·) := by
  induction map with
  | nil => simp [insertKey]
  | cons entry rest ih =>
    rw [List.map_cons, List.pairwise_cons] at increasing
    rw [insertKey]
    split
    · next same =>
      rw [List.map_cons, List.pairwise_cons, same]
      exact increasing
    · next other =>
      split
      · next less =>
        rw [List.map_cons, List.map_cons, List.pairwise_cons, List.pairwise_cons]
        refine ⟨?_, increasing⟩
        intro later member
        rw [List.mem_cons] at member
        rcases member with same | member
        · rw [same]
          exact less
        · exact lt_trans less (increasing.1 later member)
      · next notLess =>
        rw [List.map_cons, List.pairwise_cons]
        refine ⟨?_, ih increasing.2⟩
        intro later member
        rcases mem_keys_insertKey.mp member with same | member
        · rw [same]
          exact lt_of_le_of_ne (not_lt.mp notLess) (Ne.symm other)
        · exact increasing.1 later member

theorem increasing_collect (entries : List (String × β)) :
    ((collect entries).map Prod.fst).Pairwise (· < ·) := by
  have fold (map : List (String × β)) (increasing : (map.map Prod.fst).Pairwise (· < ·)) :
      ((entries.foldl (fun map entry => insertKey entry.1 entry.2 map) map).map Prod.fst).Pairwise (· < ·) := by
    induction entries generalizing map with
    | nil => exact increasing
    | cons entry rest ih => exact ih _ (increasing_insertKey increasing)
  exact fold [] .nil

theorem insertKey_last {key : String} {x : β} {map : List (String × β)}
    (greatest : ∀ other ∈ map.map Prod.fst, other < key) : insertKey key x map = map ++ [(key, x)] := by
  induction map with
  | nil => rfl
  | cons entry rest ih =>
    rw [List.map_cons, List.forall_mem_cons] at greatest
    rw [insertKey, if_neg (ne_of_gt greatest.1), if_neg (not_lt_of_gt greatest.1), ih greatest.2]
    rfl

theorem collect_of_increasing {entries : List (String × β)}
    (increasing : (entries.map Prod.fst).Pairwise (· < ·)) : collect entries = entries := by
  have fold (later map : List (String × β)) (increasing : ((map ++ later).map Prod.fst).Pairwise (· < ·)) :
      later.foldl (fun map entry => insertKey entry.1 entry.2 map) map = map ++ later := by
    induction later generalizing map with
    | nil => simp
    | cons entry rest ih =>
      have greatest : ∀ other ∈ map.map Prod.fst, other < entry.1 := by
        rw [List.map_append, List.pairwise_append] at increasing
        exact fun other member => increasing.2.2 other member entry.1 (by simp)
      rw [List.foldl_cons, insertKey_last greatest, ih _ (by simpa using increasing), List.append_assoc]
      rfl
  exact fold entries [] increasing

end Keys

def Callable.outcome (c : Callable F Any) (f : Request F Any → Answer) (input : Value) (ctx : CallCtx Any) : Answer :=
  (c.call input ctx).value f

-- Each name with the outcome of its branch, or the error of the first branch that has one.
def fanOutOutcome (branches : List (String × Callable F Any)) (f : Request F Any → Answer) (input : Value)
    (ctx : CallCtx Any) : Answer :=
  (gather ((collect branches).map fun branch => branch.2.outcome f input ctx)).map fun outputs =>
    .object (((collect branches).map Prod.fst).zip outputs)

theorem length_of_gather {ε v : Type} {results : List (Except ε v)} {xs : List v}
    (all : gather results = .ok xs) : xs.length = results.length := by
  induction results generalizing xs with
  | nil =>
    cases all
    rfl
  | cons result rest ih =>
    cases result with
    | error e => cases all
    | ok x =>
      rw [gather] at all
      cases later : gather rest with
      | error e =>
        rw [later] at all
        cases all
      | ok ys =>
        rw [later] at all
        cases all
        rw [List.length_cons, List.length_cons, ih later]

theorem ofFn_comp_get {α β : Type} (xs : List α) (g : α → β) : (List.ofFn fun i => g (xs.get i)) = xs.map g := by
  conv_rhs => rw [← List.ofFn_get xs, List.map_ofFn]
  rfl

theorem outcome_fanOut (branches : List (String × Callable F Any)) (f : Request F Any → Answer) (input : Value)
    (ctx : CallCtx Any) : (fanOut branches).outcome f input ctx = fanOutOutcome branches f input ctx := by
  have each : (List.ofFn fun i => (((collect branches).get i).2.call input ctx).value f) =
      (collect branches).map fun branch => branch.2.outcome f input ctx :=
    ofFn_comp_get (collect branches) fun branch => branch.2.outcome f input ctx
  rw [Callable.outcome, fanOutOutcome, fanOut, Job.value, each]
  cases joined : gather ((collect branches).map fun branch => branch.2.outcome f input ctx) with
  | error e => rfl
  | ok outputs =>
    have long := length_of_gather joined
    rw [List.length_map] at long
    have names : (((collect branches).map Prod.fst).zip outputs).map Prod.fst = (collect branches).map Prod.fst :=
      List.map_fst_zip (by simp [long])
    have inOrder := collect_of_increasing (names ▸ increasing_collect branches)
    simp only [joinOutputs, Job.value, inOrder]
    rfl

/-- If the closures answer by their input and context alone, the branches of a fan-out may take their turns
in any order: none gets stuck, and all come to the same result after the same number of turns. -/
theorem fan_out_any_order (branches : List (String × Callable F Any)) (f : Request F Any → Answer) (input : Value)
    (ctx : CallCtx Any) :
    ∃ turns, ∀ schedule last log,
      Proc.run schedule ((fanOut branches).call input ctx).start = some (last, log) →
      (∀ entry ∈ log, entry.2 = f entry.1) →
        (∀ result, last.result? = some result → result = fanOutOutcome branches f input ctx) ∧
          schedule.length ≤ turns ∧
          (schedule.length = turns → last.result? = some (fanOutOutcome branches f input ctx)) ∧
          (schedule.length < turns → ∃ path, ∀ answer, (Proc.turn path answer last).isSome) := by
  refine ⟨((fanOut branches).call input ctx).work f, ?_⟩
  intro schedule last log ran follows
  have any := Proc.run_confluent ran follows
  rwa [Proc.value_start, Proc.work_start, ← Callable.outcome, outcome_fanOut] at any

def twoBranches : List (String × Callable String fun _ : Unit => Unit) :=
  [("b", FnCallable.labeled "b" "b"), ("a", FnCallable.labeled "a" "a")]

def failingB (request : Request String fun _ : Unit => Unit) : Answer :=
  if request.inner = "b" then .error (.internal "boom") else .ok .null

-- The branch that fails answers first, and is awaited last.
def failsFirst : List (List Nat × Answer) :=
  [([1], .ok .null), ([1], .error (.internal "boom")), ([0], .ok .null), ([0], .ok .null), ([], .ok .null)]

theorem fan_out_any_order_fails_first :
    ∃ last log, Proc.run failsFirst ((fanOut twoBranches).call .null emptyCtx).start = some (last, log) ∧
      ∀ result, last.result? = some result → result = fanOutOutcome twoBranches failingB .null emptyCtx := by
  obtain ⟨turns, any⟩ := fan_out_any_order twoBranches failingB .null emptyCtx
  have ran : ∃ last log, Proc.run failsFirst ((fanOut twoBranches).call .null emptyCtx).start = some (last, log) ∧
      ∀ entry ∈ log, entry.2 = failingB entry.1 := ⟨_, _, rfl, by simp [failingB]⟩
  obtain ⟨last, log, ran, follows⟩ := ran
  exact ⟨last, log, ran, (any failsFirst last log ran follows).1⟩

def inputsOf : Value → List Value
  | .array items => items
  | .null => []
  | single => [single]

def permitsFor (concurrency : Nat) : Permits := some ⟨max concurrency 1, by omega⟩

-- `out.sort_by_key` on the indices of the inputs.
def sortByIndex (outputs : List Value) : List Value :=
  (Shared.orderBy Prod.snd outputs.zipIdx).map Prod.fst

def joinInOrder : Except AgentError (List Value) → CallJob F Any
  | .error e => .done (.error e)
  | .ok outputs => .done (.ok (.array (sortByIndex outputs)))

-- The outputs are returned as a list, not as a value.
def dispatchAll (target : Callable F Any) (concurrency : Nat) (inputs : List Value) (ctx : CallCtx Any) :
    CallJob F Any :=
  .fork (permitsFor concurrency) inputs.length (fun i => target.call (inputs.get i) ctx) joinInOrder

def dispatchFanOut (producer target : Callable F Any) (concurrency : Nat) (seedInput : Value) (ctx : CallCtx Any) :
    CallJob F Any :=
  (producer.call seedInput ctx).bind fun
    | .error e => .done (.error e)
    | .ok produced => dispatchAll target concurrency (inputsOf produced) ctx

def dispatchOutcome (producer target : Callable F Any) (f : Request F Any → Answer) (seedInput : Value)
    (ctx : CallCtx Any) : Answer :=
  match producer.outcome f seedInput ctx with
  | .error e => .error e
  | .ok produced => (gather ((inputsOf produced).map fun input => target.outcome f input ctx)).map .array

theorem sortByIndex_eq (outputs : List Value) : sortByIndex outputs = outputs := by
  have increasing : outputs.zipIdx.Pairwise fun a b => a.2 < b.2 := by
    apply List.pairwise_map.mp
    rw [List.zipIdx_map_snd]
    exact List.pairwise_lt_range' _ (by decide)
  rw [sortByIndex, Shared.orderBy_eq (List.Perm.refl _) increasing, List.zipIdx_map_fst]

theorem value_dispatchAll (target : Callable F Any) (concurrency : Nat) (inputs : List Value) (ctx : CallCtx Any)
    (f : Request F Any → Answer) :
    (dispatchAll target concurrency inputs ctx).value f =
      (gather (inputs.map fun input => target.outcome f input ctx)).map .array := by
  have each : (List.ofFn fun i => (target.call (inputs.get i) ctx).value f) =
      inputs.map fun input => target.outcome f input ctx :=
    ofFn_comp_get inputs fun input => target.outcome f input ctx
  rw [dispatchAll, Job.value, each]
  cases gather (inputs.map fun input => target.outcome f input ctx) with
  | error e => rfl
  | ok outputs =>
    simp only [joinInOrder, Job.value, sortByIndex_eq]
    rfl

theorem value_dispatchFanOut (producer target : Callable F Any) (concurrency : Nat) (seedInput : Value)
    (ctx : CallCtx Any) (f : Request F Any → Answer) :
    (dispatchFanOut producer target concurrency seedInput ctx).value f =
      dispatchOutcome producer target f seedInput ctx := by
  rw [dispatchFanOut, Job.value_bind, dispatchOutcome, Callable.outcome]
  cases (producer.call seedInput ctx).value f with
  | error e => rfl
  | ok produced => exact value_dispatchAll target concurrency (inputsOf produced) ctx f

/-- If the closures answer by their input and context alone: however many targets may be called at a time and
in whichever order they take their turns, a dispatch does not get stuck, and returns the outputs in the order
of the inputs, or the error of the first of them that has one. -/
theorem dispatch_any_order (producer target : Callable F Any) (f : Request F Any → Answer) (concurrency : Nat)
    (seedInput : Value) (ctx : CallCtx Any) :
    ∃ turns, ∀ schedule last log,
      Proc.run schedule (dispatchFanOut producer target concurrency seedInput ctx).start = some (last, log) →
      (∀ entry ∈ log, entry.2 = f entry.1) →
        (∀ result, last.result? = some result → result = dispatchOutcome producer target f seedInput ctx) ∧
          schedule.length ≤ turns ∧
          (schedule.length = turns → last.result? = some (dispatchOutcome producer target f seedInput ctx)) ∧
          (schedule.length < turns → ∃ path, ∀ answer, (Proc.turn path answer last).isSome) := by
  refine ⟨(dispatchFanOut producer target concurrency seedInput ctx).work f, ?_⟩
  intro schedule last log ran follows
  have any := Proc.run_confluent ran follows
  rwa [Proc.value_start, Proc.work_start, value_dispatchFanOut] at any

/-- Whatever the target answers, no more than `concurrency` of its calls are under way at a time (one, if it
is zero), and the inputs together cost no more than a call each. -/
theorem dispatch_bounded {target : Callable F Any} {n : Nat} {reached : F → List String → Prop}
    (accounted : Accounted target n reached) (concurrency : Nat) (inputs : List Value) (ctx : CallCtx Any)
    (schedule : List (List Nat × Answer)) (last : Proc (Request F Any) Answer Value AgentError)
    (log : List (Request F Any × Answer))
    (ran : Proc.run schedule (dispatchAll target concurrency inputs ctx).start = some (last, log)) :
    (∃ busy, last.group = some (permitsFor concurrency, busy) ∧ busy ≤ max concurrency 1) ∧
      log.length ≤ inputs.length * n ∧ ∀ entry ∈ log, Within reached ctx entry.1 := by
  refine ⟨?_, ?_, ?_⟩
  · exact Proc.run_group ran (Proc.admitted_start _) rfl
  · have each : List.Forall₂ (fun input m => (target.call input ctx).AtMost m) inputs
        (List.replicate inputs.length n) := by
      rw [List.forall₂_iff_get]
      refine ⟨by simp, fun i _ _ => ?_⟩
      simpa using accounted.calls _ ctx
    have bounded : (dispatchAll target concurrency inputs ctx).AtMost (List.replicate inputs.length n).sum :=
      atMost_fork (fun input => target.call input ctx) each (by rintro (e | outputs) <;> trivial)
    rw [List.sum_replicate, smul_eq_mul] at bounded
    exact Proc.run_atMost ran (Proc.atMost_start bounded)
  · have asks : (dispatchAll target concurrency inputs ctx).Asks (Within reached ctx) :=
      asks_fork (fun input => target.call input ctx) (fun input _ => accounted.within input ctx)
        (by rintro (e | outputs) <;> trivial)
    exact Proc.run_asks ran (Proc.asks_start asks)

def echo : Callable String fun _ : Unit => Unit := FnCallable.labeled "echo" "echo"

def threeInputs : Callable String fun _ : Unit => Unit := FnCallable.labeled "producer" "producer"

def producesThree (request : Request String fun _ : Unit => Unit) : Answer :=
  if request.inner = "producer" then .ok (.array [.null, .bool true, .null]) else .ok request.input

-- The second of three targets starts first, and the third waits for a permit.
def twoAtATime : List (List Nat × Answer) :=
  [([], .ok (.array [.null, .bool true, .null])), ([1], .ok .null), ([0], .ok .null), ([1], .ok (.bool true))]

theorem dispatch_any_order_two :
    ∃ last log, Proc.run twoAtATime (dispatchFanOut threeInputs echo 2 .null emptyCtx).start = some (last, log) ∧
      ∃ path, ∀ answer, (Proc.turn path answer last).isSome ∨ last.result?.isSome := by
  obtain ⟨turns, any⟩ := dispatch_any_order threeInputs echo producesThree 2 .null emptyCtx
  have ran : ∃ last log, Proc.run twoAtATime (dispatchFanOut threeInputs echo 2 .null emptyCtx).start =
      some (last, log) ∧ ∀ entry ∈ log, entry.2 = producesThree entry.1 :=
    ⟨_, _, rfl, by simp [producesThree, inputsOf]⟩
  obtain ⟨last, log, ran, follows⟩ := ran
  obtain ⟨-, most, finished, progress⟩ := any twoAtATime last log ran follows
  refine ⟨last, log, ran, ?_⟩
  rcases Nat.lt_or_ge twoAtATime.length turns with less | all
  · obtain ⟨path, able⟩ := progress less
    exact ⟨path, fun answer => .inl (able answer)⟩
  · exact ⟨[], fun _ => .inr (by rw [finished (Nat.le_antisymm most all)]; rfl)⟩

theorem dispatch_bounded_two :
    ∃ last log busy, Proc.run twoAtATime.tail
        (dispatchAll echo 2 [.null, .bool true, .null] emptyCtx).start = some (last, log) ∧
      last.group = some (permitsFor 2, busy) ∧ busy ≤ 2 ∧ log.length ≤ 3 := by
  have ran : ∃ last log, Proc.run twoAtATime.tail
      (dispatchAll echo 2 [.null, .bool true, .null] emptyCtx).start = some (last, log) := ⟨_, _, rfl⟩
  obtain ⟨last, log, ran⟩ := ran
  obtain ⟨⟨busy, group, few⟩, calls, -⟩ :=
    dispatch_bounded (Accounted.fn "echo" "echo") 2 [.null, .bool true, .null] emptyCtx _ last log ran
  exact ⟨last, log, busy, ran, group, few, calls⟩

end AtomrAgents.Composition
