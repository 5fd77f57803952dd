import AtomrAgents.Core.Value
import Mathlib.Algebra.Order.Field.Basic
import Mathlib.Data.List.Nodup
import Mathlib.Tactic.Linarith
import Mathlib.Tactic.NormNum

set_option autoImplicit false

/-! Scores are taken from an ordered field, with its logarithm as a parameter. What is a letter, and the lower
case of a text, come from the tables of Unicode. -/

namespace AtomrAgents

structure UnicodeTables where
  toLowercase : String → String
  isAlphanumeric : Char → Bool

structure Document (K : Type) where
  id : String
  text : String
  metadata : Value
  score : K

abbrev Retriever (K : Type) := String → Except AgentError (List (Document K))

def tokenize (unicode : UnicodeTables) (text : String) : List String :=
  (((unicode.toLowercase text).toList.splitOnP fun c => !unicode.isAlphanumeric c).map
    String.ofList).filter (· ≠ "")

def dedup (tokens : List String) : List String :=
  tokens.foldl (fun out t => if t ∈ out then out else out ++ [t]) []

structure Index (K : Type) where
  docs : List (Document K)
  df : Std.ExtTreeMap String Nat compare
  avgLen : K

structure Bm25Retriever (K : Type) where
  index : Index K
  topK : Nat

section Definitions

variable {K : Type} [Field K]

namespace Bm25

def k1 : K := 3 / 2

def b : K := 3 / 4

end Bm25

namespace Index

variable (unicode : UnicodeTables)

def empty : Index K := { docs := [], df := ∅, avgLen := 0 }

def add (index : Index K) (doc : Document K) : Index K :=
  let docs := index.docs ++ [doc]
  let total := (docs.map fun d => (tokenize unicode d.text).length).sum
  { docs
    df := (dedup (tokenize unicode doc.text)).foldl (fun df t => df.insert t (df.getD t 0 + 1)) index.df
    avgLen := if docs = [] then 0 else total / docs.length }

variable [LinearOrder K] (ln : K → K) (index : Index K)

-- What a token of the query that occurs `f` times among `dl` tokens adds to the score.
def gain (q : String) (f dl : Nat) : K :=
  let n : K := index.docs.length
  let df : K := index.df.getD q 0
  let idf := ln ((n - df + 1 / 2) / (df + 1 / 2) + 1)
  let denom := f + Bm25.k1 * (1 - Bm25.b + Bm25.b * dl / max index.avgLen 1)
  idf * (f * (Bm25.k1 + 1)) / max denom (1 / 1000000)

def score (qTokens : List String) (text : String) : K :=
  let tokens := tokenize unicode text
  qTokens.foldl (fun score q =>
    let f := tokens.count q
    if f = 0 then score else score + index.gain ln q f tokens.length) 0

end Index

namespace Bm25Retriever

variable (unicode : UnicodeTables)

def new (topK : Nat) : Bm25Retriever K := { index := .empty, topK }

def add (r : Bm25Retriever K) (doc : Document K) : Bm25Retriever K :=
  { r with index := r.index.add unicode doc }

def addMany (r : Bm25Retriever K) (docs : List (Document K)) : Bm25Retriever K :=
  docs.foldl (add unicode) r

variable [LinearOrder K] (ln : K → K)

def retrieve (r : Bm25Retriever K) : Retriever K := fun query =>
  if r.index.docs.isEmpty then .ok []
  else
    let qTokens := tokenize unicode query
    let scored := r.index.docs.map fun d => (d, r.index.score unicode ln qTokens d.text)
    let scored := (scored.filter fun entry => 0 < entry.2).mergeSort fun x y => y.2 ≤ x.2
    .ok ((scored.take r.topK).map fun entry => { entry.1 with score := entry.2 })

end Bm25Retriever

end Definitions

section Dedup

theorem dedup_nodup (tokens : List String) : (dedup tokens).Nodup := by
  have step (out : List String) (t : String) (once : out.Nodup) :
      (if t ∈ out then out else out ++ [t]).Nodup := by
    split
    · exact once
    · next new => simpa only [List.concat_eq_append] using once.concat new
  have all (tokens out : List String) (once : out.Nodup) :
      (tokens.foldl (fun out t => if t ∈ out then out else out ++ [t]) out).Nodup := by
    induction tokens generalizing out with
    | nil => exact once
    | cons t tokens ih => exact ih _ (step out t once)
  exact all tokens [] List.nodup_nil

theorem getD_count (tokens : List String) (df : Std.ExtTreeMap String Nat compare) (q : String) :
    (tokens.foldl (fun df t => df.insert t (df.getD t 0 + 1)) df).getD q 0 =
      df.getD q 0 + tokens.count q := by
  induction tokens generalizing df with
  | nil => rfl
  | cons t tokens ih =>
    rw [List.foldl_cons, ih, Std.ExtTreeMap.getD_insert, List.count_cons]
    by_cases same : t = q
    · subst same
      simp
      omega
    · simp [same]

end Dedup

namespace Index

variable {K : Type} [Field K]

def Counted (index : Index K) : Prop := ∀ q, index.df.getD q 0 ≤ index.docs.length

theorem Counted.add {index : Index K} (counted : index.Counted) (unicode : UnicodeTables)
    (doc : Document K) : (index.add unicode doc).Counted := by
  intro q
  have once := List.nodup_iff_count_le_one.mp (dedup_nodup (tokenize unicode doc.text)) q
  have before := counted q
  simp only [Index.add, getD_count, List.length_append, List.length_singleton]
  omega

end Index

namespace Bm25Retriever

variable {K : Type} [Field K] (unicode : UnicodeTables)

theorem addMany_docs (docs : List (Document K)) (r : Bm25Retriever K) :
    (r.addMany unicode docs).index.docs = r.index.docs ++ docs := by
  induction docs generalizing r with
  | nil => simp [addMany]
  | cons doc docs ih =>
    have rest := ih (r.add unicode doc)
    rw [addMany, List.foldl_cons, ← addMany, rest]
    simp [Bm25Retriever.add, Index.add]

theorem addMany_topK (docs : List (Document K)) (r : Bm25Retriever K) :
    (r.addMany unicode docs).topK = r.topK := by
  induction docs generalizing r with
  | nil => rfl
  | cons doc docs ih => exact ih _

theorem addMany_counted (docs : List (Document K)) (r : Bm25Retriever K) (counted : r.index.Counted) :
    (r.addMany unicode docs).index.Counted := by
  induction docs generalizing r with
  | nil => exact counted
  | cons doc docs ih => exact ih _ (counted.add unicode doc)

end Bm25Retriever

section Scores

variable {K : Type} [Field K] [LinearOrder K] [IsStrictOrderedRing K] {ln : K → K}
  (ln_pos : ∀ x, 1 < x → 0 < ln x) {index : Index K} (counted : index.Counted)

include ln_pos counted

theorem Index.gain_pos (q : String) {f : Nat} (dl : Nat) (occurs : f ≠ 0) :
    0 < index.gain ln q f dl := by
  have docs : ((index.df.getD q 0 : Nat) : K) ≤ index.docs.length := by
    exact_mod_cast counted q
  have df : (0 : K) ≤ (index.df.getD q 0 : Nat) := Nat.cast_nonneg _
  have idf : 0 < ln ((index.docs.length - (index.df.getD q 0 : Nat) + 1 / 2) /
      ((index.df.getD q 0 : Nat) + 1 / 2) + 1) := by
    apply ln_pos
    have rare : (0 : K) < (index.docs.length - (index.df.getD q 0 : Nat) + 1 / 2) /
        ((index.df.getD q 0 : Nat) + 1 / 2) := by
      apply div_pos <;> linarith
    linarith
  have often : (0 : K) < f := Nat.cast_pos.mpr (Nat.pos_of_ne_zero occurs)
  have k1 : (0 : K) < Bm25.k1 := by
    rw [Bm25.k1]
    norm_num
  exact div_pos (mul_pos idf (mul_pos often (by linarith))) (lt_max_of_lt_right (by norm_num))

theorem Index.score_pos_iff (unicode : UnicodeTables) (qTokens : List String) (text : String) :
    0 < index.score unicode ln qTokens text ↔ ∃ q ∈ qTokens, q ∈ tokenize unicode text := by
  have run (qTokens : List String) (acc : K) (acc_nonneg : 0 ≤ acc) :
      0 < qTokens.foldl (fun score q =>
          let f := (tokenize unicode text).count q
          if f = 0 then score
          else score + index.gain ln q f (tokenize unicode text).length) acc ↔
        0 < acc ∨ ∃ q ∈ qTokens, q ∈ tokenize unicode text := by
    induction qTokens generalizing acc with
    | nil => simp
    | cons q qTokens ih =>
      rw [List.foldl_cons]
      by_cases absent : (tokenize unicode text).count q = 0
      · have missing : q ∉ tokenize unicode text := List.count_eq_zero.mp absent
        simp only [absent, if_true]
        rw [ih acc acc_nonneg]
        simp [missing]
      · have present : q ∈ tokenize unicode text := by
          by_contra missing
          exact absent (List.count_eq_zero.mpr missing)
        have gains := Index.gain_pos ln_pos counted q (tokenize unicode text).length absent
        simp only [absent, if_false]
        rw [ih _ (by linarith)]
        simp only [List.mem_cons, exists_eq_or_imp, present, true_or, or_true, iff_true]
        exact .inl (by linarith)
  rw [Index.score, run qTokens 0 le_rfl]
  simp

end Scores

end AtomrAgents
