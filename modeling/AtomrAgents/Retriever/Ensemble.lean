import AtomrAgents.Retriever.Bm25
import AtomrAgents.Shared.Ranking
import Mathlib.Algebra.BigOperators.Group.List.Basic
import Mathlib.Data.List.Dedup
import Mathlib.Data.List.Induction

set_option autoImplicit false

namespace AtomrAgents

structure EnsembleRetriever (K : Type) where
  members : List (Retriever K)
  k : K
  topK : Nat

namespace EnsembleRetriever

abbrev Fused (K : Type) := Std.ExtTreeMap String (Document K × K) compare

section Definitions

variable {K : Type} [Field K]

def withRrf (members : List (Retriever K)) (topK : Nat) : EnsembleRetriever K := { members, k := 60, topK }

def contribution (k : K) (rank : Nat) : K := 1 / (k + rank + 1)

def fuseHit (k : K) (fused : Fused K) (hit : Document K × Nat) : Fused K :=
  match fused[hit.1.id]? with
  | some (doc, score) => fused.insert hit.1.id (doc, score + contribution k hit.2)
  | none => fused.insert hit.1.id (hit.1, contribution k hit.2)

def fuse (e : EnsembleRetriever K) (query : String) : Except AgentError (Fused K) :=
  e.members.foldlM (fun fused r => do
    let hits ← r query
    pure (hits.zipIdx.foldl (fuseHit e.k) fused)) ∅

-- `entries` is in the order in which the map is turned into its values.
def ranked [LinearOrder K] (e : EnsembleRetriever K) (entries : List (String × Document K × K)) : List (Document K) :=
  (Shared.ranking Document.score (entries.map fun entry => { entry.2.1 with score := entry.2.2 })).take e.topK

-- What `retrieve` may return, for some order of the map.
def Returns [LinearOrder K] (e : EnsembleRetriever K) (query : String) (docs : List (Document K)) : Prop :=
  ∃ fused entries, e.fuse query = .ok fused ∧ entries.Perm fused.toList ∧ docs = e.ranked entries

def hitsOf (query : String) (r : Retriever K) : List (Document K × Nat) :=
  match r query with
  | .ok hits => hits.zipIdx
  | .error _ => []

def hits (e : EnsembleRetriever K) (query : String) : List (Document K × Nat) := e.members.flatMap (hitsOf query)

def firstHit (hits : List (Document K × Nat)) (id : String) : Option (Document K) :=
  (hits.find? fun hit => hit.1.id == id).map Prod.fst

def fusedScore (k : K) (hits : List (Document K × Nat)) (id : String) : K :=
  ((hits.filter fun hit => hit.1.id == id).map fun hit => contribution k hit.2).sum

def ids (hits : List (Document K × Nat)) : List String := (hits.map fun hit => hit.1.id).dedup

def higher [LinearOrder K] (k : K) (hits : List (Document K × Nat)) (id : String) : Nat :=
  (ids hits).countP fun other => fusedScore k hits id < fusedScore k hits other

-- Nothing that can be among the best ties with another document.
def ScoresApart [LinearOrder K] (k : K) (topK : Nat) (hits : List (Document K × Nat)) : Prop :=
  ∀ id ∈ ids hits, higher k hits id < topK → ∀ other ∈ ids hits, fusedScore k hits other = fusedScore k hits id →
    other = id

end Definitions

variable {K : Type} {query : String} {hits hits' : List (Document K × Nat)} {id : String}

theorem firstHit_append (hits hits' : List (Document K × Nat)) (id : String) :
    firstHit (hits ++ hits') id = (firstHit hits id).or (firstHit hits' id) := by
  cases earlier : hits.find? (fun hit => hit.1.id == id) <;> simp [firstHit, List.find?_append, earlier]

theorem firstHit_singleton (hit : Document K × Nat) (id : String) :
    firstHit [hit] id = if hit.1.id = id then some hit.1 else none := by
  by_cases same : hit.1.id = id <;> simp [firstHit, same]

theorem firstHit_eq_none : firstHit hits id = none ↔ id ∉ ids hits := by
  simp only [firstHit, Option.map_eq_none_iff, List.find?_eq_none, ids, List.mem_dedup, List.mem_map, beq_iff_eq]
  constructor
  · rintro none ⟨hit, member, same⟩
    exact none hit member same
  · intro none hit member same
    exact none ⟨hit, member, same⟩

theorem id_of_firstHit {doc : Document K} (first : firstHit hits id = some doc) : doc.id = id := by
  obtain ⟨hit, found, rfl⟩ := Option.map_eq_some_iff.mp first
  simpa using List.find?_some found

variable [Field K] {k : K}

theorem getElem?_fuseHits (k : K) (hits : List (Document K × Nat)) (id : String) :
    (hits.foldl (fuseHit k) ∅)[id]? = (firstHit hits id).map fun doc => (doc, fusedScore k hits id) := by
  induction hits using List.reverseRecOn generalizing id with
  | nil => simp [firstHit]
  | append_singleton hits hit ih =>
    rw [List.foldl_append, List.foldl_cons, List.foldl_nil, fuseHit, ih, firstHit_append, firstHit_singleton]
    by_cases same : hit.1.id = id
    · subst same
      cases first : firstHit hits hit.1.id with
      | some doc => simp [fusedScore]
      | none =>
        have absent : hits.filter (fun other => other.1.id == hit.1.id) = [] := by
          rw [firstHit_eq_none, ids, List.mem_dedup, List.mem_map] at first
          apply List.filter_eq_nil_iff.mpr
          intro other member
          simpa using fun same => first ⟨other, member, same⟩
        simp [fusedScore, absent]
    · have other : fusedScore k (hits ++ [hit]) id = fusedScore k hits id := by simp [fusedScore, same]
      cases first : firstHit hits hit.1.id <;>
        simp [Std.ExtTreeMap.getElem?_insert, same, ih, other]

structure Fuses (k : K) (hits : List (Document K × Nat)) (docs : List (Document K)) : Prop where
  ids : (docs.map Document.id).Perm (ids hits)
  first : ∀ doc ∈ docs, ∃ hit, firstHit hits doc.id = some hit ∧ doc = { hit with score := fusedScore k hits doc.id }

theorem Fuses.nodup {docs : List (Document K)} (fuses : Fuses k hits docs) : (docs.map Document.id).Nodup :=
  fuses.ids.nodup_iff.mpr (List.nodup_dedup _)

theorem Fuses.mem {docs : List (Document K)} (fuses : Fuses k hits docs) {hit : Document K}
    (first : firstHit hits id = some hit) : { hit with score := fusedScore k hits id } ∈ docs := by
  have present : id ∈ EnsembleRetriever.ids hits := by
    by_contra absent
    rw [firstHit_eq_none.mpr absent] at first
    cases first
  obtain ⟨doc, member, rfl⟩ := List.mem_map.mp (fuses.ids.mem_iff.mpr present)
  obtain ⟨hit', first', same⟩ := fuses.first doc member
  rw [first] at first'
  cases first'
  rwa [same] at member

theorem Fuses.score {docs : List (Document K)} (fuses : Fuses k hits docs) :
    ∀ doc ∈ docs, doc.score = fusedScore k hits doc.id := by
  intro doc member
  obtain ⟨hit, -, same⟩ := fuses.first doc member
  exact congrArg Document.score same

theorem fuses_of_entries {entries : List (String × Document K × K)}
    (perm : entries.Perm (hits.foldl (fuseHit k) ∅).toList) :
    Fuses k hits (entries.map fun entry => { entry.2.1 with score := entry.2.2 }) := by
  have found : ∀ entry ∈ entries, (firstHit hits entry.1).map (fun doc => (doc, fusedScore k hits entry.1)) =
      some entry.2 := by
    intro entry member
    rw [← getElem?_fuseHits, ← Std.ExtTreeMap.mem_toList_iff_getElem?_eq_some]
    exact perm.mem_iff.mp member
  have key : ∀ entry ∈ entries, entry.2.1.id = entry.1 := by
    intro entry member
    obtain ⟨doc, first, same⟩ := Option.map_eq_some_iff.mp (found entry member)
    rw [← same]
    exact id_of_firstHit first
  constructor
  · have keys : (entries.map fun entry => { entry.2.1 with score := entry.2.2 : Document K }).map Document.id =
        entries.map Prod.fst := by
      simpa using key
    rw [keys]
    have nodup : (entries.map Prod.fst).Nodup := by
      rw [(perm.map Prod.fst).nodup_iff, Std.ExtTreeMap.map_fst_toList_eq_keys]
      exact Std.ExtTreeMap.nodup_keys
    rw [EnsembleRetriever.ids, List.perm_ext_iff_of_nodup nodup (List.nodup_dedup _)]
    intro id
    rw [(perm.map Prod.fst).mem_iff, Std.ExtTreeMap.map_fst_toList_eq_keys, Std.ExtTreeMap.mem_keys,
      Std.ExtTreeMap.mem_iff_isSome_getElem?, getElem?_fuseHits, Option.isSome_map, Option.isSome_iff_ne_none, ne_eq,
      firstHit_eq_none, not_not]
    rfl
  · intro doc member
    obtain ⟨entry, inside, rfl⟩ := List.mem_map.mp member
    obtain ⟨hit, first, same⟩ := Option.map_eq_some_iff.mp (found entry inside)
    have id := key entry inside
    refine ⟨hit, by simpa [id] using first, ?_⟩
    have source : entry.2.1 = hit ∧ entry.2.2 = fusedScore k hits entry.1 := by simp [← same]
    simp [source, ← id]

section Members

variable {members members' : List (Retriever K)}

def AllReturn (members : List (Retriever K)) (query : String) : Prop := ∀ r ∈ members, ∃ hits, r query = .ok hits

theorem fuse_eq_ok {e : EnsembleRetriever K} {fused : Fused K} :
    e.fuse query = .ok fused ↔ AllReturn e.members query ∧ fused = (e.hits query).foldl (fuseHit e.k) ∅ := by
  have general : ∀ (members : List (Retriever K)) (start : Fused K),
      members.foldlM (fun fused r => do
          let hits ← r query
          pure (hits.zipIdx.foldl (fuseHit e.k) fused)) start = .ok fused ↔
        AllReturn members query ∧ fused = (members.flatMap (hitsOf query)).foldl (fuseHit e.k) start := by
    intro members
    induction members with
    | nil =>
      intro start
      simp [AllReturn, pure, Except.pure, eq_comm]
    | cons r members ih =>
      intro start
      cases here : r query with
      | error error => simp [AllReturn, here, bind, Except.bind]
      | ok hits =>
        have first : hitsOf query r = hits.zipIdx := by simp [hitsOf, here]
        have rest := ih (hits.zipIdx.foldl (fuseHit e.k) start)
        simp only [List.foldlM_cons, here, bind, Except.bind, pure, Except.pure, List.flatMap_cons, first,
          List.foldl_append] at rest ⊢
        rw [rest]
        simp [AllReturn, here]
  exact general e.members ∅

omit [Field K] in
theorem allReturn_perm (same : members.Perm members') : AllReturn members query ↔ AllReturn members' query := by
  simp only [AllReturn, same.mem_iff]

omit [Field K] in
theorem hits_perm (same : members.Perm members') :
    (members.flatMap (hitsOf query)).Perm (members'.flatMap (hitsOf query)) := same.flatMap_right _

theorem fusedScore_perm (same : hits.Perm hits') (id : String) : fusedScore k hits id = fusedScore k hits' id :=
  ((same.filter _).map _).sum_eq

omit [Field K] in
theorem ids_perm (same : hits.Perm hits') : (ids hits).Perm (ids hits') := (same.map _).dedup

omit [Field K] in
theorem exists_member_of_firstHit {hit : Document K} (first : firstHit (members.flatMap (hitsOf query)) id = some hit) :
    ∃ r ∈ members, firstHit (hitsOf query r) id = some hit := by
  induction members with
  | nil => simp [firstHit] at first
  | cons r members ih =>
    rw [List.flatMap_cons, firstHit_append] at first
    cases here : firstHit (hitsOf query r) id with
    | some other =>
      rw [here, Option.some_or] at first
      exact ⟨r, List.mem_cons_self, here.trans first⟩
    | none =>
      rw [here, Option.none_or] at first
      obtain ⟨r', member, found⟩ := ih first
      exact ⟨r', List.mem_cons_of_mem r member, found⟩

omit [Field K] in
theorem firstHit_cons {r : Retriever K} {hit : Document K} (first : firstHit (hitsOf query r) id = some hit) :
    firstHit ((r :: members).flatMap (hitsOf query)) id = some hit := by
  rw [List.flatMap_cons, firstHit_append, first, Option.some_or]

end Members

section Orders

variable [LinearOrder K] {e : EnsembleRetriever K} {docs docs' : List (Document K)}

theorem above_eq (fuses : Fuses k hits docs) (doc : Document K) (member : doc ∈ docs) :
    Shared.above Document.score docs doc = higher k hits doc.id := by
  rw [higher, ← fuses.ids.countP_eq, List.countP_map, Shared.above]
  apply List.countP_congr
  intro other inside
  simp [fuses.score doc member, fuses.score other inside]

/-- The answer is the same whatever order the members and the map have. -/
def OrderIndependent (e : EnsembleRetriever K) (query : String) : Prop :=
  ∀ members, members.Perm e.members → ∀ docs docs', e.Returns query docs →
    { e with members }.Returns query docs' → docs' = docs

/-- No document that can be among the best ties with another one, and its members agree on what it holds. -/
structure Unambiguous (e : EnsembleRetriever K) (query : String) : Prop where
  apart : ScoresApart e.k e.topK (e.hits query)
  agree : ∀ id ∈ ids (e.hits query), higher e.k (e.hits query) id < e.topK → ∀ r ∈ e.members, ∀ r' ∈ e.members,
    ∀ hit hit', firstHit (hitsOf query r) id = some hit → firstHit (hitsOf query r') id = some hit' →
      hit.text = hit'.text ∧ hit.metadata = hit'.metadata

theorem higher_perm (same : hits.Perm hits') (id : String) : higher k hits id = higher k hits' id := by
  simp only [higher, (ids_perm same).countP_eq, fusedScore_perm same]

omit [LinearOrder K] in
theorem nodup_of_fuses (fuses : Fuses k hits docs) : docs.Nodup := fuses.nodup.of_map _

theorem ScoresApart.perm {topK : Nat} (apart : ScoresApart k topK hits) (same : hits'.Perm hits) :
    ScoresApart k topK hits' := by
  intro id present few other present' tie
  rw [higher_perm same] at few
  rw [fusedScore_perm same, fusedScore_perm same] at tie
  exact apart id ((ids_perm same).mem_iff.mp present) few other ((ids_perm same).mem_iff.mp present') tie

theorem apart_of_fuses {topK : Nat} (fuses : Fuses k hits docs) (apart : ScoresApart k topK hits) :
    Shared.Apart Document.score docs topK := by
  intro doc member few other inside tie
  rw [above_eq fuses doc member] at few
  have present : ∀ doc ∈ docs, doc.id ∈ ids hits := fun doc member =>
    fuses.ids.mem_iff.mp (List.mem_map_of_mem member)
  have scores : fusedScore k hits other.id = fusedScore k hits doc.id := by
    rw [← fuses.score doc member, ← fuses.score other inside, tie]
  have id := apart _ (present doc member) few _ (present other inside) scores
  exact List.inj_on_of_nodup_map fuses.nodup inside member id

theorem returns_iff : e.Returns query docs ↔ AllReturn e.members query ∧
    ∃ entries, entries.Perm ((e.hits query).foldl (fuseHit e.k) ∅).toList ∧ docs = e.ranked entries := by
  constructor
  · rintro ⟨fused, entries, ok, perm, same⟩
    obtain ⟨all, rfl⟩ := fuse_eq_ok.mp ok
    exact ⟨all, entries, perm, same⟩
  · rintro ⟨all, entries, perm, same⟩
    exact ⟨_, entries, fuse_eq_ok.mpr ⟨all, rfl⟩, perm, same⟩

theorem mem_of_agree {topK : Nat} (fuses : Fuses k hits docs) (fuses' : Fuses k hits' docs') (perm : hits'.Perm hits)
    (agree : ∀ id ∈ ids hits, higher k hits id < topK → ∀ hit hit', firstHit hits' id = some hit →
      firstHit hits id = some hit' → hit.text = hit'.text ∧ hit.metadata = hit'.metadata) :
    ∀ doc ∈ docs', Shared.above Document.score docs' doc < topK →
      doc ∈ docs ∧ Shared.above Document.score docs doc < topK := by
  intro doc member few
  rw [above_eq fuses' doc member, higher_perm perm] at few
  have present : doc.id ∈ ids hits :=
    (ids_perm perm).mem_iff.mp (fuses'.ids.mem_iff.mp (List.mem_map_of_mem member))
  obtain ⟨hit, here, same⟩ := fuses'.first doc member
  obtain ⟨hit', here'⟩ : ∃ hit', firstHit hits doc.id = some hit' := by
    apply Option.ne_none_iff_exists'.mp
    rw [ne_eq, firstHit_eq_none, not_not]
    exact present
  obtain ⟨text, metadata⟩ := agree doc.id present few hit hit' here here'
  have id := (id_of_firstHit here).trans (id_of_firstHit here').symm
  have equal : doc = { hit' with score := fusedScore k hits doc.id } := by
    rw [← fusedScore_perm perm, ← text, ← metadata, ← id]
    exact same
  have inside : doc ∈ docs := by
    rw [equal]
    exact fuses.mem here'
  exact ⟨inside, by rwa [above_eq fuses doc inside]⟩

theorem same_of_unambiguous {members : List (Retriever K)} (perm : members.Perm e.members)
    (unambiguous : e.Unambiguous query) (fuses : Fuses e.k (e.hits query) docs)
    (fuses' : Fuses e.k (members.flatMap (hitsOf query)) docs') :
    (Shared.ranking Document.score docs').take e.topK = (Shared.ranking Document.score docs).take e.topK := by
  have hits : (members.flatMap (hitsOf query)).Perm (e.hits query) := hits_perm perm
  have agree : ∀ id ∈ ids (e.hits query), higher e.k (e.hits query) id < e.topK → ∀ hit hit',
      firstHit (members.flatMap (hitsOf query)) id = some hit → firstHit (e.hits query) id = some hit' →
        hit.text = hit'.text ∧ hit.metadata = hit'.metadata := by
    intro id present few hit hit' here here'
    obtain ⟨r, inside, found⟩ := exists_member_of_firstHit here
    obtain ⟨r', inside', found'⟩ := exists_member_of_firstHit here'
    exact unambiguous.agree id present few r (perm.mem_iff.mp inside) r' inside' hit hit' found found'
  apply Shared.take_ranking_eq (nodup_of_fuses fuses') (nodup_of_fuses fuses)
  · intro doc
    constructor
    · rintro ⟨member, few⟩
      exact mem_of_agree fuses fuses' hits agree doc member few
    · rintro ⟨member, few⟩
      refine mem_of_agree fuses' fuses hits.symm (fun id present few hit hit' here here' => ?_) doc member few
      rw [higher_perm hits] at few
      have same := agree id ((ids_perm hits).mem_iff.mp present) few hit' hit here' here
      exact ⟨same.1.symm, same.2.symm⟩
  · exact apart_of_fuses fuses' (unambiguous.apart.perm hits)
  · exact apart_of_fuses fuses unambiguous.apart

omit [LinearOrder K] in
theorem entries_first (present : id ∈ ids hits) : ∃ hit rest, firstHit hits id = some hit ∧
    ((id, hit, fusedScore k hits id) :: rest).Perm (hits.foldl (fuseHit k) ∅).toList := by
  obtain ⟨hit, here⟩ : ∃ hit, firstHit hits id = some hit := by
    apply Option.ne_none_iff_exists'.mp
    rw [ne_eq, firstHit_eq_none, not_not]
    exact present
  have member : (id, hit, fusedScore k hits id) ∈ (hits.foldl (fuseHit k) ∅).toList := by
    simp [Std.ExtTreeMap.mem_toList_iff_getElem?_eq_some, getElem?_fuseHits, here]
  obtain ⟨front, back, split⟩ := List.append_of_mem member
  exact ⟨hit, front ++ back, here, split ▸ List.perm_middle.symm⟩

theorem getElem?_ranked (present : id ∈ ids (e.hits query)) (few : higher e.k (e.hits query) id < e.topK) :
    ∃ entries doc, entries.Perm ((e.hits query).foldl (fuseHit e.k) ∅).toList ∧ doc.id = id ∧
      (e.ranked entries)[higher e.k (e.hits query) id]? = some doc := by
  obtain ⟨hit, rest, here, perm⟩ := entries_first (k := e.k) present
  have fuses := fuses_of_entries perm
  have first := id_of_firstHit here
  rw [List.map_cons] at fuses
  have place := @Shared.getElem?_ranking_cons _ _ _ Document.score _ _ (nodup_of_fuses fuses)
  rw [above_eq fuses _ List.mem_cons_self] at place
  refine ⟨_, { hit with score := fusedScore e.k (e.hits query) id }, perm, first, ?_⟩
  rw [ranked, List.getElem?_take_of_lt few, List.map_cons]
  simpa [first] using place

theorem apart_of_independent (all : AllReturn e.members query) (independent : e.OrderIndependent query) :
    ScoresApart e.k e.topK (e.hits query) := by
  intro id present few other present' tie
  have higher' : higher e.k (e.hits query) other = higher e.k (e.hits query) id := by rw [higher, higher, tie]
  obtain ⟨entries, doc, perm, first, place⟩ := getElem?_ranked present few
  obtain ⟨entries', doc', perm', first', place'⟩ := getElem?_ranked present' (higher' ▸ few)
  have same := independent e.members (.refl _) _ _ (returns_iff.mpr ⟨all, entries, perm, rfl⟩)
    (returns_iff.mpr ⟨all, entries', perm', rfl⟩)
  have equal : e.ranked entries' = e.ranked entries := same
  rw [higher', equal, place] at place'
  rw [← first, ← first', Option.some.inj place']

theorem mem_take_of_fuses {topK : Nat} {doc : Document K} (fuses : Fuses k hits docs) (apart : ScoresApart k topK hits)
    (member : doc ∈ docs) (few : higher k hits doc.id < topK) :
    doc ∈ (Shared.ranking Document.score docs).take topK := by
  rw [← above_eq fuses doc member] at few
  exact Shared.mem_take_of_above (nodup_of_fuses fuses) member (apart_of_fuses fuses apart doc member few) few

theorem nodup_ranked {entries : List (String × Document K × K)}
    (perm : entries.Perm ((e.hits query).foldl (fuseHit e.k) ∅).toList) :
    ((e.ranked entries).map Document.id).Nodup := by
  have nodup := (fuses_of_entries perm).nodup
  have all := (Shared.ranking_perm Document.score (entries.map fun entry => { entry.2.1 with score := entry.2.2 })).map
    Document.id
  exact (all.nodup_iff.mpr nodup).sublist ((List.take_sublist _ _).map Document.id)

theorem agree_of_independent (all : AllReturn e.members query) (independent : e.OrderIndependent query) :
    ∀ id ∈ ids (e.hits query), higher e.k (e.hits query) id < e.topK → ∀ r ∈ e.members, ∀ r' ∈ e.members,
      ∀ hit hit', firstHit (hitsOf query r) id = some hit → firstHit (hitsOf query r') id = some hit' →
        hit.text = hit'.text ∧ hit.metadata = hit'.metadata := by
  intro id present few r inside r' inside' hit hit' here here'
  have apart := apart_of_independent all independent
  have plain : e.Returns query (e.ranked _) := returns_iff.mpr ⟨all, _, .refl _, rfl⟩
  -- With the member `r` asked first, its hit is in the answer.
  have best : ∀ r ∈ e.members, ∀ hit, firstHit (hitsOf query r) id = some hit →
      { hit with score := fusedScore e.k (e.hits query) id } ∈
        e.ranked ((e.hits query).foldl (fuseHit e.k) ∅).toList := by
    intro r inside hit here
    obtain ⟨front, back, split⟩ := List.append_of_mem inside
    have perm : (r :: (front ++ back)).Perm e.members := split ▸ List.perm_middle.symm
    have hits : ((r :: (front ++ back)).flatMap (hitsOf query)).Perm (e.hits query) := hits_perm perm
    have fuses := fuses_of_entries (k := e.k)
      (List.Perm.refl (((r :: (front ++ back)).flatMap (hitsOf query)).foldl (fuseHit e.k) ∅).toList)
    have member := fuses.mem (firstHit_cons here)
    have first := id_of_firstHit here
    rw [fusedScore_perm hits] at member
    have taken := mem_take_of_fuses fuses (apart.perm hits) member (by rw [higher_perm hits, first]; exact few)
    have returned : { e with members := r :: (front ++ back) }.Returns query _ :=
      returns_iff.mpr ⟨(allReturn_perm perm).mpr all, _, .refl _, rfl⟩
    rw [← independent _ perm _ _ plain returned]
    exact taken
  have ids := (id_of_firstHit here).trans (id_of_firstHit here').symm
  have equal := List.inj_on_of_nodup_map (nodup_ranked (.refl _)) (best r inside hit here)
      (best r' inside' hit' here') ids
  simp only [Document.mk.injEq] at equal
  exact ⟨equal.2.1, equal.2.2.1⟩

/-- The answer does not depend on any order exactly if nothing ties where it is cut and above, and the members hold
the same of what can be there. -/
theorem orderIndependent_iff (e : EnsembleRetriever K) (query : String) :
    e.OrderIndependent query ↔ (AllReturn e.members query → e.Unambiguous query) := by
  constructor
  · intro independent all
    exact ⟨apart_of_independent all independent, agree_of_independent all independent⟩
  · intro unambiguous members perm docs docs' returned returned'
    obtain ⟨all, entries, same, rfl⟩ := returns_iff.mp returned
    obtain ⟨-, entries', same', rfl⟩ := returns_iff.mp returned'
    exact same_of_unambiguous (e := e) perm (unambiguous all) (fuses_of_entries same) (fuses_of_entries same')

-- Two members with one document each, of which one is to be returned.
def tied : EnsembleRetriever ℚ :=
  withRrf [fun _ => .ok [{ id := "d1", text := "rust", metadata := .null, score := 1 }],
    fun _ => .ok [{ id := "d2", text := "python", metadata := .null, score := 1 }]] 1

theorem tied_by_order : ¬ tied.OrderIndependent "query" := by
  intro independent
  have all : AllReturn tied.members "query" := by
    intro r member
    simp only [tied, withRrf, List.mem_cons, List.not_mem_nil, or_false] at member
    rcases member with rfl | rfl <;> exact ⟨_, rfl⟩
  have apart := apart_of_independent all independent "d1" (by decide) (by decide +kernel) "d2" (by decide) (by rfl)
  simp at apart

end Orders

end EnsembleRetriever

end AtomrAgents
