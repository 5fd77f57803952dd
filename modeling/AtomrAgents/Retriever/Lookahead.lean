import AtomrAgents.Retriever.RetrievalFilter
import AtomrAgents.Shared.Ranking
import Mathlib.Analysis.SpecialFunctions.Log.Basic

set_option autoImplicit false

namespace AtomrAgents

open Shared

section Definitions

variable {K : Type} [Field K] (unicode : UnicodeTables)

def Document.unscored (doc : Document K) : Document K := { doc with score := 0 }

def bm25 (topK : Nat) (corpus : List (Document K)) : Bm25Retriever K :=
  (Bm25Retriever.new topK).addMany unicode corpus

def Index.ofCorpus (corpus : List (Document K)) : Index K := corpus.foldl (Index.add unicode) .empty

def relevant (query : String) (doc : Document K) : Bool :=
  (tokenize unicode query).any fun q => q ∈ tokenize unicode doc.text

def hits (corpus : List (Document K)) (query : String) : List (Document K × Nat) :=
  corpus.zipIdx.filter fun hit => relevant unicode query hit.1

variable [LinearOrder K] (ln : K → K)

def filtered (filter : RetrieverFilter) (topK : Nat) (corpus : List (Document K)) (query : String) :
    Except AgentError (List (Document K)) :=
  let r : FilteredRetriever K := { inner := (bm25 unicode topK corpus).retrieve unicode ln, filter }
  (r.retrieve query).map fun docs => docs.map Document.unscored

def LookaheadFree (filter : RetrieverFilter) (topK : Nat) (corpus : List (Document K))
    (query : String) : Prop :=
  filtered unicode ln filter topK corpus query =
    filtered unicode ln filter topK (corpus.filter filter.admits) query

def scoreIn (corpus : List (Document K)) (query : String) (doc : Document K) : K :=
  (Index.ofCorpus unicode corpus).score unicode ln (tokenize unicode query) doc.text

/-- By the scores of the whole corpus, the best documents among those that are admitted stay among the
best, and stay ahead of whatever they are ahead of by the scores of what is admitted. -/
def RankingUnskewed (filter : RetrieverFilter) (topK : Nat) (corpus : List (Document K))
    (query : String) : Prop :=
  Unskewed (scoreIn unicode ln corpus query ∘ Prod.fst)
    (scoreIn unicode ln (corpus.filter filter.admits) query ∘ Prod.fst) Prod.snd
    (hits unicode corpus query) (filter.admits ∘ Prod.fst) topK

end Definitions

section Corpus

variable {K : Type} (unicode : UnicodeTables) (corpus : List (Document K)) (query : String)

theorem map_fst_hits : (hits unicode corpus query).map Prod.fst =
    corpus.filter (relevant unicode query) := by
  have same := List.filter_map (f := Prod.fst) (p := relevant unicode query) (l := corpus.zipIdx)
  rw [List.zipIdx_map_fst] at same
  exact same.symm

theorem hits_increasing :
    (hits unicode corpus query).Pairwise fun x y => x.2 < y.2 := by
  apply List.Pairwise.filter
  rw [← List.pairwise_map (f := Prod.snd), List.zipIdx_map_snd]
  exact List.pairwise_lt_range'

variable [Field K]

theorem bm25_index (topK : Nat) : (bm25 unicode topK corpus).index = Index.ofCorpus unicode corpus := by
  have run (r : Bm25Retriever K) :
      (r.addMany unicode corpus).index = corpus.foldl (Index.add unicode) r.index := by
    induction corpus generalizing r with
    | nil => rfl
    | cons doc corpus ih => exact ih (r.add unicode doc)
  exact run (.new topK)

theorem ofCorpus_docs : (Index.ofCorpus unicode corpus).docs = corpus := by
  rw [← bm25_index unicode corpus 0, bm25, Bm25Retriever.addMany_docs]
  rfl

theorem ofCorpus_counted : (Index.ofCorpus unicode corpus).Counted := by
  rw [← bm25_index unicode corpus 0]
  exact Bm25Retriever.addMany_counted unicode corpus _ fun q => by
    simp [Bm25Retriever.new, Index.empty]

end Corpus

section

variable {K : Type} [Field K] [LinearOrder K] {ln : K → K} (unicode : UnicodeTables)
  (corpus : List (Document K)) (query : String)

theorem scoreIn_congr {x y : Document K} (text : x.text = y.text) :
    scoreIn unicode ln corpus query x = scoreIn unicode ln corpus query y := by
  rw [scoreIn, text, scoreIn]

end

section

variable {K : Type} [Field K] [LinearOrder K] [IsStrictOrderedRing K] {ln : K → K}
  (ln_pos : ∀ x, 1 < x → 0 < ln x) (unicode : UnicodeTables) (filter : RetrieverFilter) (topK : Nat)
  (corpus : List (Document K)) (query : String)

include ln_pos

theorem scoreIn_pos_iff (doc : Document K) :
    0 < scoreIn unicode ln corpus query doc ↔ relevant unicode query doc := by
  rw [scoreIn, Index.score_pos_iff ln_pos (ofCorpus_counted unicode corpus)]
  simp [relevant]

theorem sorted_scores : ((corpus.map fun doc => (doc, scoreIn unicode ln corpus query doc)).filter
      fun entry => 0 < entry.2).mergeSort (fun x y => y.2 ≤ x.2) =
    (ranking (scoreIn unicode ln corpus query) (corpus.filter (relevant unicode query))).map
      fun doc => (doc, scoreIn unicode ln corpus query doc) := by
  have positive : (fun entry : Document K × K => decide (0 < entry.2)) ∘
      (fun doc => (doc, scoreIn unicode ln corpus query doc)) = relevant unicode query := by
    funext doc
    rw [Bool.eq_iff_iff]
    simpa using scoreIn_pos_iff ln_pos unicode corpus query doc
  rw [List.filter_map, positive]
  exact (map_ranking (fun doc => (doc, scoreIn unicode ln corpus query doc)) Prod.snd _).symm

theorem retrieve_bm25 : (bm25 unicode topK corpus).retrieve unicode ln query =
    .ok (((ranking (scoreIn unicode ln corpus query)
      (corpus.filter (relevant unicode query))).take topK).map
        fun doc => { doc with score := scoreIn unicode ln corpus query doc }) := by
  have k : (bm25 unicode topK corpus).topK = topK := Bm25Retriever.addMany_topK unicode corpus _
  have sorted := sorted_scores ln_pos unicode corpus query
  rw [Bm25Retriever.retrieve, bm25_index, ofCorpus_docs, k]
  cases corpus with
  | nil => simp [ranking]
  | cons first rest =>
    simp only [scoreIn] at sorted ⊢
    simp only [List.isEmpty_cons, Bool.false_eq_true, if_false, sorted, ← List.map_take, List.map_map,
      Function.comp_def]

theorem filtered_eq : filtered unicode ln filter topK corpus query =
    .ok ((cutThenFilter (scoreIn unicode ln corpus query) (corpus.filter (relevant unicode query))
      filter.admits topK).map Document.unscored) := by
  simp only [filtered, FilteredRetriever.retrieve, retrieve_bm25 ln_pos, Except.map, List.filter_map,
    List.map_map, cutThenFilter]
  rfl

theorem filtered_admitted : filtered unicode ln filter topK (corpus.filter filter.admits) query =
    .ok ((filterThenCut (scoreIn unicode ln (corpus.filter filter.admits) query)
      (corpus.filter (relevant unicode query)) filter.admits topK).map Document.unscored) := by
  rw [filtered_eq ln_pos, cutThenFilter, filterThenCut, List.filter_comm, List.filter_eq_self.mpr]
  intro doc best
  have member := (ranking_perm _ _).mem_iff.mp (List.mem_of_mem_take best)
  exact List.of_mem_filter member

theorem lookaheadFree_iff : LookaheadFree unicode ln filter topK corpus query ↔
    RankingUnskewed unicode ln filter topK corpus query := by
  have same_scores (corpus : List (Document K)) (x y : Document K × Nat)
      (same : x.1.unscored = y.1.unscored) :
      scoreIn unicode ln corpus query x.1 = scoreIn unicode ln corpus query y.1 := by
    have text : x.1.unscored.text = y.1.unscored.text := congrArg Document.text same
    exact scoreIn_congr unicode corpus query text
  rw [LookaheadFree, filtered_eq ln_pos, filtered_admitted ln_pos, Except.ok.injEq,
    ← map_fst_hits, ← map_cutThenFilter, ← map_filterThenCut, List.map_map, List.map_map,
    RankingUnskewed]
  exact cut_eq_iff (hits_increasing unicode corpus query)
    (same_scores corpus) (same_scores (corpus.filter filter.admits))

end

/-- The documents ingested later have no influence on what is returned just when they do not skew the
ranking by which it is cut off. -/
theorem lookahead_free (unicode : UnicodeTables) (corpus : List (Document ℝ)) (query : String)
    (topK : Nat) (t : Int) : LookaheadFree unicode Real.log (.asOf t) topK corpus query ↔
      RankingUnskewed unicode Real.log (.asOf t) topK corpus query :=
  lookaheadFree_iff (fun _ => Real.log_pos) unicode (.asOf t) topK corpus query

def ascii : UnicodeTables where
  toLowercase := id
  isAlphanumeric c := c.isAlphanum

def dated {K : Type} [Field K] (id : String) (systemTime : UInt64) : Document K :=
  { id, text := "rust", metadata := .object [("system_time", .number (.posInt systemTime))], score := 0 }

-- A later document with the same text takes the only place.
theorem lookahead_free_fails : ¬ LookaheadFree ascii Real.log (.asOf 200) 1
    [dated "future" 300, dated "past" 100] "rust" := by
  rw [lookaheadFree_iff (fun _ => Real.log_pos)]
  intro unskewed
  have token : tokenize ascii "rust" = ["rust"] := by decide
  have about (id : String) (t : UInt64) : relevant ascii "rust" (dated (K := ℝ) id t) = true := by
    simp [relevant, dated, token]
  have early : (RetrieverFilter.asOf 200).admits (dated (K := ℝ) "past" 100) = true := by decide
  have late : (RetrieverFilter.asOf 200).admits (dated (K := ℝ) "future" 300) = false := by decide
  have found : hits ascii [dated (K := ℝ) "future" 300, dated "past" 100] "rust" =
      [(dated "future" 300, 0), (dated "past" 100, 1)] := by
    simp [hits, about]
  rw [RankingUnskewed, found] at unskewed
  have tie : scoreIn ascii Real.log [dated "future" 300, dated "past" 100] "rust" (dated "future" 300) =
      scoreIn ascii Real.log [dated "future" 300, dated "past" 100] "rust" (dated "past" 100) :=
    scoreIn_congr ascii _ "rust" rfl
  have room := unskewed.room (dated "past" 100, 1) (by simp [early])
    (by simp [ahead, early, late, Precedes])
  simp [ahead, Precedes, tie] at room

end AtomrAgents
