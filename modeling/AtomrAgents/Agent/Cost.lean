import AtomrAgents.Shared.GroupedFold
import AtomrAgents.Shared.Joined
import Mathlib.Data.String.Basic
import Mathlib.Logic.Function.Basic

set_option autoImplicit false

namespace AtomrAgents

structure DecisionKey where
  desk : String
  strategy : String
  decisionId : String
  deriving DecidableEq

def DecisionKey.canonical (key : DecisionKey) : String :=
  key.desk ++ "/" ++ key.strategy ++ "/" ++ key.decisionId

structure Spend where
  microUsd : UInt64
  tokens : UInt32
  decisionKey : Option DecisionKey

inductive BudgetScope where
  | desk (name : String)
  | strategy (name : String)
  | global
  deriving DecidableEq

inductive Cap where
  | money (microUsd : UInt64)
  | tokens (tokens : UInt32)

structure Budget where
  cap : Cap
  scope : BudgetScope

structure BudgetExceeded where
  scope : BudgetScope
  spent : UInt64

-- The pair of micro-USD and tokens that is kept for each key.
structure Tally where
  microUsd : UInt64
  tokens : UInt32

namespace Tally

def zero : Tally := { microUsd := 0, tokens := 0 }

def add (tally : Tally) (spend : Spend) : Tally where
  microUsd := tally.microUsd + spend.microUsd
  tokens := tally.tokens + spend.tokens

end Tally

-- A key that is missing from a map counts as one with the default entry.
structure SpendLedger where
  byKey : String → Tally
  byDesk : String → Tally
  byStrategy : String → Tally
  totalMicro : UInt64
  totalTokens : UInt32

structure ResultUsage where
  inputTokens : UInt64
  outputTokens : UInt64
  costMicroUsd : UInt64

namespace SpendLedger

def new : SpendLedger where
  byKey := fun _ => .zero
  byDesk := fun _ => .zero
  byStrategy := fun _ => .zero
  totalMicro := 0
  totalTokens := 0

def record (ledger : SpendLedger) (spend : Spend) : SpendLedger :=
  let ledger := { ledger with
    totalMicro := ledger.totalMicro + spend.microUsd
    totalTokens := ledger.totalTokens + spend.tokens }
  match spend.decisionKey with
  | some k =>
    { ledger with
      byKey := Function.update ledger.byKey k.canonical ((ledger.byKey k.canonical).add spend)
      byDesk := Function.update ledger.byDesk k.desk ((ledger.byDesk k.desk).add spend)
      byStrategy := Function.update ledger.byStrategy k.strategy ((ledger.byStrategy k.strategy).add spend) }
  | none => ledger

def spendBy (ledger : SpendLedger) (key : DecisionKey) : UInt64 := (ledger.byKey key.canonical).microUsd

def scopeSpend (ledger : SpendLedger) : BudgetScope → Tally
  | .global => { microUsd := ledger.totalMicro, tokens := ledger.totalTokens }
  | .desk name => ledger.byDesk name
  | .strategy name => ledger.byStrategy name

def check (ledger : SpendLedger) (budget : Budget) : Except BudgetExceeded Unit :=
  let spent := ledger.scopeSpend budget.scope
  let exceeded :=
    match budget.cap with
    | .money cap => if cap < spent.microUsd then some spent.microUsd else none
    | .tokens cap => if cap < spent.tokens then some spent.tokens.toUInt64 else none
  match exceeded with
  | some spent => .error { scope := budget.scope, spent }
  | none => .ok ()

def recordResult (ledger : SpendLedger) (r : ResultUsage) : SpendLedger :=
  ledger.record {
    microUsd := r.costMicroUsd
    tokens := (r.inputTokens + r.outputTokens).toUInt32
    decisionKey := none }

end SpendLedger

end AtomrAgents

namespace AtomrAgents

open Shared

structure Usage where
  microUsd : Nat
  tokens : Nat
  decisionKey : Option DecisionKey

inductive LedgerCall where
  | record (spend : Spend)
  | recordResult (r : ResultUsage)

namespace LedgerCall

def apply (ledger : SpendLedger) : LedgerCall → SpendLedger
  | .record spend => ledger.record spend
  | .recordResult r => ledger.recordResult r

def spend : LedgerCall → Spend
  | .record spend => spend
  | .recordResult r =>
    { microUsd := r.costMicroUsd
      tokens := (r.inputTokens + r.outputTokens).toUInt32
      decisionKey := none }

def usage : LedgerCall → Usage
  | .record spend =>
    { microUsd := spend.microUsd.toNat
      tokens := spend.tokens.toNat
      decisionKey := spend.decisionKey }
  | .recordResult r =>
    { microUsd := r.costMicroUsd.toNat
      tokens := r.inputTokens.toNat + r.outputTokens.toNat
      decisionKey := none }

end LedgerCall

def microUsdOf (part : Usage → Bool) (calls : List LedgerCall) : Nat :=
  ((calls.filter fun call => part call.usage).map fun call => call.usage.microUsd).sum

def tokensOf (part : Usage → Bool) (calls : List LedgerCall) : Nat :=
  ((calls.filter fun call => part call.usage).map fun call => call.usage.tokens).sum

def BudgetScope.covers (scope : BudgetScope) (usage : Usage) : Bool :=
  match scope with
  | .global => true
  | .desk name => usage.decisionKey.map DecisionKey.desk = some name
  | .strategy name => usage.decisionKey.map DecisionKey.strategy = some name

def Budget.Exceeded (budget : Budget) (calls : List LedgerCall) : Prop :=
  match budget.cap with
  | .money cap => cap.toNat < microUsdOf budget.scope.covers calls
  | .tokens cap => cap.toNat < tokensOf budget.scope.covers calls

structure SpendLedger.Exact (ledger : SpendLedger) (calls : List LedgerCall) : Prop where
  spendBy : ∀ key, (ledger.spendBy key).toNat =
    microUsdOf (fun usage => usage.decisionKey = some key) calls
  totalMicro : ledger.totalMicro.toNat = microUsdOf (fun _ => true) calls
  totalTokens : ledger.totalTokens.toNat = tokensOf (fun _ => true) calls
  check : ∀ budget, (∃ e, ledger.check budget = .error e) ↔ budget.Exceeded calls

def DecisionKey.Plain (key : DecisionKey) : Prop :=
  '/' ∉ key.desk.toList ∧ '/' ∉ key.strategy.toList ∧ '/' ∉ key.decisionId.toList

structure Countable (calls : List LedgerCall) : Prop where
  microUsd : microUsdOf (fun _ => true) calls < 2 ^ 64
  tokens : tokensOf (fun _ => true) calls < 2 ^ 32
  plain : ∀ call ∈ calls, call.usage.microUsd ≠ 0 → ∀ key, call.usage.decisionKey = some key → key.Plain

namespace DecisionKey

variable {key other : DecisionKey}

theorem toList_canonical (key : DecisionKey) :
    key.canonical.toList = key.desk.toList ++ '/' :: (key.strategy.toList ++ '/' :: key.decisionId.toList) := by
  simp [canonical, String.toList_append]

theorem canonical_eq_iff : key.canonical = other.canonical ↔
    key.desk.toList ++ '/' :: (key.strategy.toList ++ '/' :: key.decisionId.toList) =
      other.desk.toList ++ '/' :: (other.strategy.toList ++ '/' :: other.decisionId.toList) := by
  rw [← String.toList_inj, toList_canonical, toList_canonical]

theorem count_canonical (key : DecisionKey) : key.canonical.toList.count '/' =
    key.desk.toList.count '/' + key.strategy.toList.count '/' + key.decisionId.toList.count '/' + 2 := by
  rw [toList_canonical]
  simp only [List.count_append, List.count_cons_self]
  omega

theorem Plain.eq_of_canonical (plain : key.Plain) (same : key.canonical = other.canonical) : key = other := by
  have counts := other.count_canonical
  rw [← same, key.count_canonical, List.count_eq_zero.mpr plain.1, List.count_eq_zero.mpr plain.2.1,
    List.count_eq_zero.mpr plain.2.2] at counts
  have desk : '/' ∉ other.desk.toList := List.count_eq_zero.mp (by omega)
  have strategy : '/' ∉ other.strategy.toList := List.count_eq_zero.mp (by omega)
  obtain ⟨desks, rest⟩ := (joined_inj_of_not_mem plain.1 desk).mp (canonical_eq_iff.mp same)
  obtain ⟨strategies, ids⟩ := (joined_inj_of_not_mem plain.2.1 strategy).mp rest
  cases key
  cases other
  simp_all [String.toList_inj]

theorem exists_other (separated : ¬ key.Plain) :
    ∃ other : DecisionKey, other ≠ key ∧ other.canonical = key.canonical := by
  have split {text : String} (member : '/' ∈ text.toList) :
      ∃ front back : String, text.toList = front.toList ++ '/' :: back.toList := by
    obtain ⟨front, back, same⟩ := List.append_of_mem member
    exact ⟨String.ofList front, String.ofList back, by simpa using same⟩
  have longer {text front back : String} (same : text.toList = front.toList ++ '/' :: back.toList) :
      front ≠ text ∧ back ≠ text := by
    constructor
    · rintro rfl
      simp at same
    · rintro rfl
      have lengths := congrArg List.length same
      simp at lengths
      omega
  by_cases desk : '/' ∈ key.desk.toList
  · obtain ⟨front, back, same⟩ := split desk
    refine ⟨⟨front, back ++ "/" ++ key.strategy, key.decisionId⟩, ?_, ?_⟩
    · intro equal
      exact (longer same).1 (congrArg DecisionKey.desk equal)
    · rw [canonical_eq_iff, same]
      simp [String.toList_append]
  by_cases strategy : '/' ∈ key.strategy.toList
  · obtain ⟨front, back, same⟩ := split strategy
    refine ⟨⟨key.desk ++ "/" ++ front, back, key.decisionId⟩, ?_, ?_⟩
    · intro equal
      exact (longer same).2 (congrArg DecisionKey.strategy equal)
    · rw [canonical_eq_iff, same]
      simp [String.toList_append]
  by_cases decisionId : '/' ∈ key.decisionId.toList
  · obtain ⟨front, back, same⟩ := split decisionId
    refine ⟨⟨key.desk, key.strategy ++ "/" ++ front, back⟩, ?_, ?_⟩
    · intro equal
      exact (longer same).2 (congrArg DecisionKey.decisionId equal)
    · rw [canonical_eq_iff, same]
      simp [String.toList_append]
  · exact absurd ⟨desk, strategy, decisionId⟩ separated

end DecisionKey

namespace SpendLedger

def run (calls : List LedgerCall) : SpendLedger := calls.foldl LedgerCall.apply .new

def addCall (tally : Tally) (call : LedgerCall) : Tally := tally.add call.spend

theorem apply_eq (ledger : SpendLedger) (call : LedgerCall) :
    call.apply ledger = ledger.record call.spend := by
  cases call <;> rfl

theorem decisionKey_usage (call : LedgerCall) : call.usage.decisionKey = call.spend.decisionKey := by
  cases call <;> rfl

theorem byKey_run (calls : List LedgerCall) (k : String) : (run calls).byKey k =
    (calls.filter fun call => call.usage.decisionKey.map DecisionKey.canonical = some k).foldl addCall
      .zero := by
  apply foldl_of_credit SpendLedger.byKey
  intro ledger call
  rw [apply_eq, credit, decisionKey_usage]
  cases here : call.spend.decisionKey <;> simp [record, here, addCall]

theorem scopeSpend_run (calls : List LedgerCall) (scope : BudgetScope) : (run calls).scopeSpend scope =
    (calls.filter fun call => scope.covers call.usage).foldl addCall .zero := by
  cases scope with
  | global =>
    have credited (ledger : SpendLedger) (call : LedgerCall) :
        addCall (ledger.scopeSpend .global) call = (call.apply ledger).scopeSpend .global := by
      rw [apply_eq]
      cases here : call.spend.decisionKey <;> simp [record, here, addCall, Tally.add, scopeSpend]
    simp only [BudgetScope.covers, List.filter_true]
    exact (List.foldl_hom (fun ledger : SpendLedger => ledger.scopeSpend .global) credited).symm
  | desk name =>
    apply foldl_of_credit SpendLedger.byDesk
    intro ledger call
    rw [apply_eq, credit, decisionKey_usage]
    cases here : call.spend.decisionKey <;> simp [record, here, addCall]
  | strategy name =>
    apply foldl_of_credit SpendLedger.byStrategy
    intro ledger call
    rw [apply_eq, credit, decisionKey_usage]
    cases here : call.spend.decisionKey <;> simp [record, here, addCall]

theorem toNat_microUsd (tally : Tally) (calls : List LedgerCall) :
    (calls.foldl addCall tally).microUsd.toNat =
      (tally.microUsd.toNat + (calls.map fun call => call.usage.microUsd).sum) % 2 ^ 64 := by
  induction calls generalizing tally with
  | nil => simp [Nat.mod_eq_of_lt tally.microUsd.toNat_lt]
  | cons call rest ih =>
    have own : call.spend.microUsd.toNat = call.usage.microUsd := by cases call <;> rfl
    rw [List.foldl_cons, ih, addCall, Tally.add, UInt64.toNat_add, own, List.map_cons, List.sum_cons]
    omega

theorem toNat_tokens (tally : Tally) (calls : List LedgerCall) :
    (calls.foldl addCall tally).tokens.toNat =
      (tally.tokens.toNat + (calls.map fun call => call.usage.tokens).sum) % 2 ^ 32 := by
  induction calls generalizing tally with
  | nil => simp [Nat.mod_eq_of_lt tally.tokens.toNat_lt]
  | cons call rest ih =>
    have own : call.spend.tokens.toNat = call.usage.tokens % 2 ^ 32 := by
      cases call with
      | record spend => exact (Nat.mod_eq_of_lt spend.tokens.toNat_lt).symm
      | recordResult r =>
        simp only [LedgerCall.spend, LedgerCall.usage, UInt64.toNat_toUInt32, UInt64.toNat_add]
        omega
    rw [List.foldl_cons, ih, addCall, Tally.add, UInt32.toNat_add, own, List.map_cons, List.sum_cons]
    omega

theorem toNat_scopeSpend (calls : List LedgerCall) (scope : BudgetScope) :
    ((run calls).scopeSpend scope).microUsd.toNat = microUsdOf scope.covers calls % 2 ^ 64 ∧
      ((run calls).scopeSpend scope).tokens.toNat = tokensOf scope.covers calls % 2 ^ 32 := by
  rw [scopeSpend_run, toNat_microUsd, toNat_tokens]
  exact ⟨congrArg (· % 2 ^ 64) (Nat.zero_add _), congrArg (· % 2 ^ 32) (Nat.zero_add _)⟩

def sharesText (key : DecisionKey) (usage : Usage) : Bool :=
  usage.decisionKey.map DecisionKey.canonical = some key.canonical

theorem toNat_spendBy (calls : List LedgerCall) (key : DecisionKey) :
    ((run calls).spendBy key).toNat = microUsdOf (sharesText key) calls % 2 ^ 64 := by
  rw [spendBy, byKey_run, toNat_microUsd]
  exact congrArg (· % 2 ^ 64) (Nat.zero_add _)

theorem microUsdOf_le (part : Usage → Bool) (calls : List LedgerCall) :
    microUsdOf part calls ≤ microUsdOf (fun _ => true) calls := by
  simp only [microUsdOf, List.filter_true]
  exact sum_filter_le _ _ calls

theorem tokensOf_le (part : Usage → Bool) (calls : List LedgerCall) :
    tokensOf part calls ≤ tokensOf (fun _ => true) calls := by
  simp only [tokensOf, List.filter_true]
  exact sum_filter_le _ _ calls

theorem spendBy_eq_iff {calls : List LedgerCall} (fits : microUsdOf (fun _ => true) calls < 2 ^ 64)
    (key : DecisionKey) :
    ((run calls).spendBy key).toNat = microUsdOf (fun usage => usage.decisionKey = some key) calls ↔
      ∀ call ∈ calls, sharesText key call.usage = true → call.usage.decisionKey ≠ some key →
        call.usage.microUsd = 0 := by
  have le := microUsdOf_le (sharesText key) calls
  rw [toNat_spendBy, Nat.mod_eq_of_lt (by omega), microUsdOf, microUsdOf, sum_filter_eq_iff]
  · simp only [decide_eq_false_iff_not, ne_eq]
  · intro call own
    simp [sharesText, of_decide_eq_true own]

theorem check_iff {calls : List LedgerCall} (microUsd : microUsdOf (fun _ => true) calls < 2 ^ 64)
    (tokens : tokensOf (fun _ => true) calls < 2 ^ 32) (budget : Budget) :
    (∃ e, (run calls).check budget = .error e) ↔ budget.Exceeded calls := by
  obtain ⟨cap, scope⟩ := budget
  obtain ⟨money, count⟩ := toNat_scopeSpend calls scope
  have few := microUsdOf_le scope.covers calls
  have few' := tokensOf_le scope.covers calls
  rw [Nat.mod_eq_of_lt (by omega)] at money count
  cases cap with
  | money cap =>
    simp only [check, Budget.Exceeded, ← money, ← UInt64.lt_iff_toNat_lt]
    by_cases more : cap < ((run calls).scopeSpend scope).microUsd <;> simp [more]
  | tokens cap =>
    simp only [check, Budget.Exceeded, ← count, ← UInt32.lt_iff_toNat_lt]
    by_cases more : cap < ((run calls).scopeSpend scope).tokens <;> simp [more]

/-- The ledger is exact after any calls just when the sums fit their types and nothing was spent under a
key whose parts contain the separator. -/
theorem exact_iff_countable (calls : List LedgerCall) : (run calls).Exact calls ↔ Countable calls := by
  have global := toNat_scopeSpend calls .global
  constructor
  · intro exact_
    have microUsd : microUsdOf (fun _ => true) calls < 2 ^ 64 :=
      exact_.totalMicro ▸ (run calls).totalMicro.toNat_lt
    refine ⟨microUsd, exact_.totalTokens ▸ (run calls).totalTokens.toNat_lt, ?_⟩
    intro call member some key own
    by_contra separated
    obtain ⟨other, different, same⟩ := key.exists_other separated
    have alone := (spendBy_eq_iff microUsd other).mp (exact_.spendBy other) call member
    apply some
    apply alone
    · simp [sharesText, own, same]
    · rw [own]
      exact fun equal => different (Option.some_inj.mp equal).symm
  · rintro ⟨microUsd, tokens, plain⟩
    refine ⟨?_, ?_, ?_, check_iff microUsd tokens⟩
    · intro key
      rw [spendBy_eq_iff microUsd]
      intro call member shares other
      by_contra some
      obtain ⟨own, here, same⟩ := Option.map_eq_some_iff.mp (of_decide_eq_true shares)
      rw [here, ((plain call member some own here).eq_of_canonical same)] at other
      exact other rfl
    · exact global.1.trans (Nat.mod_eq_of_lt microUsd)
    · exact global.2.trans (Nat.mod_eq_of_lt tokens)

section Example

def fill (key : DecisionKey) : LedgerCall :=
  .record { microUsd := 5, tokens := 1, decisionKey := some key }

-- Both keys read `a/b/c/d`.
theorem exact_iff_countable_fails :
    ¬ (run [fill ⟨"a/b", "c", "d"⟩]).Exact [fill ⟨"a/b", "c", "d"⟩] := by
  intro exact_
  exact absurd (exact_.spendBy ⟨"a", "b/c", "d"⟩) (by decide)

end Example

end SpendLedger

end AtomrAgents
