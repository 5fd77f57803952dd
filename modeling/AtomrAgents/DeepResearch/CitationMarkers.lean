import AtomrAgents.DeepResearch.Roles
import Mathlib.Data.List.Nodup

set_option autoImplicit false

namespace AtomrAgents.DeepResearch

open Shared

theorem render_append (xs ys : Prose) : Prose.render (xs ++ ys) = xs.render ++ ys.render := by
  induction xs with
  | nil => exact (String.empty_append).symm
  | cons piece rest ih =>
    rw [List.cons_append, Prose.render, ih, Prose.render, String.append_assoc]

theorem mem_intersperse {α : Type} {x sep : α} (different : x ≠ sep) (xs : List α) :
    x ∈ xs.intersperse sep ↔ x ∈ xs := by
  induction xs with
  | nil => rfl
  | cons y rest ih =>
    cases rest with
    | nil => rfl
    | cons z rest =>
      rw [List.intersperse_cons_cons, List.mem_cons, List.mem_cons, ih, or_iff_right different]
      exact List.mem_cons.symm

namespace ConcatWriter

def Writing.HasMarker (w : Writing) (n : Nat) (u : Url) : Prop :=
  .marker n u ∈ w.report ∨ ∃ d ∈ w.drafts, .marker n u ∈ d.body

def Written (plan : Plan) (id : String) : Prop := ∃ heading ∈ headings plan, sectionForSq plan id = some heading

variable {plan : Plan} {citations : List Citation} {sq : SubQuestion} {heading : String} {n : Nat} {u : Url}

theorem mem_finding :
    Piece.marker n u ∈ finding citations sq ↔
      ∃ c ∈ citations, sq.id ∈ c.supports ∧ c.number = n ∧ c.url = u := by
  have cited : (∃ c ∈ citations, sq.id ∈ c.supports ∧ c.number = n ∧ c.url = u) ↔
      Piece.marker n u ∈ (citations.filter fun c => sq.id ∈ c.supports).map fun c => .marker c.number c.url := by
    simp [and_assoc]
  rw [cited, finding]
  split
  · next none => simp [none]
  · next first more some =>
    have different : Piece.marker n u ≠ .text " " := by simp
    rw [some, List.mem_append, List.mem_cons, mem_intersperse different]
    simp

theorem finding_render : (finding citations sq).render ≠ "" := by
  rw [finding]
  split <;> simp [Prose.render, Piece.render, String.append_eq_empty_iff]

theorem mem_sectionBody :
    Piece.marker n u ∈ sectionBody plan citations heading ↔
      ∃ sq ∈ sectionSubs plan heading, Piece.marker n u ∈ finding citations sq := by
  rw [sectionBody]
  split
  · next empty =>
    have none : sectionSubs plan heading = [] := by
      cases subs : sectionSubs plan heading with
      | nil => rfl
      | cons first more =>
        rw [subs, List.flatMap_cons, render_append, String.append_eq_empty_iff] at empty
        exact absurd empty.1 finding_render
    simp [none]
  · exact List.mem_flatMap

theorem mem_draft :
    Piece.marker n u ∈ (draft plan citations heading).body ↔
      ∃ c ∈ citations, (∃ id ∈ c.supports, sectionForSq plan id = some heading) ∧ c.number = n ∧ c.url = u := by
  rw [draft, mem_sectionBody]
  constructor
  · rintro ⟨sq, member, marked⟩
    obtain ⟨c, cited, supports, rest⟩ := mem_finding.mp marked
    exact ⟨c, cited, ⟨sq.id, supports, of_decide_eq_true (List.mem_filter.mp member).2⟩, rest⟩
  · rintro ⟨c, cited, ⟨id, supports, placed⟩, rest⟩
    obtain ⟨sq, found, -⟩ := Option.bind_eq_some_iff.mp placed
    have same : sq.id = id := by simpa using List.find?_some found
    refine ⟨sq, List.mem_filter.mpr ⟨List.mem_of_find?_eq_some found, ?_⟩, ?_⟩
    · exact decide_eq_true (same ▸ placed)
    · exact mem_finding.mpr ⟨c, cited, same ▸ supports, rest⟩

theorem hasMarker_iff {firstUpper : Char → Char} {request : ResearchRequest} :
    (writing plan citations firstUpper request).HasMarker n u ↔
      ∃ c ∈ citations, (∃ id ∈ c.supports, Written plan id) ∧ c.number = n ∧ c.url = u := by
  have drafts : (writing plan citations firstUpper request).HasMarker n u ↔
      ∃ heading ∈ headings plan, Piece.marker n u ∈ (draft plan citations heading).body := by
    simp [Writing.HasMarker, writing]
  rw [drafts]
  constructor
  · rintro ⟨heading, member, marked⟩
    obtain ⟨c, cited, ⟨id, supports, placed⟩, rest⟩ := mem_draft.mp marked
    exact ⟨c, cited, ⟨id, supports, heading, member, placed⟩, rest⟩
  · rintro ⟨c, cited, ⟨id, supports, heading, member, placed⟩, rest⟩
    exact ⟨heading, member, mem_draft.mpr ⟨c, cited, ⟨id, supports, placed⟩, rest⟩⟩

theorem drafts_kept (drafts : List Draft) (r : ResearchResult) :
    (drafts.foldl (fun r d => r.appendDraftSection d.toSection) r).citations = r.citations ∧
      (drafts.foldl (fun r d => r.appendDraftSection d.toSection) r).artifacts.drafts =
        r.artifacts.drafts ++ drafts.map Draft.toSection := by
  induction drafts generalizing r with
  | nil => simp
  | cons d rest ih =>
    obtain ⟨citations, drafts⟩ := ih (r.appendDraftSection d.toSection)
    refine ⟨citations, ?_⟩
    rw [List.foldl_cons, drafts, ResearchResult.appendDraftSection, ResearchResult.pushTranscript]
    simp

theorem write_citations (firstUpper : Char → Char) (request : ResearchRequest) (r : ResearchResult) :
    (write plan firstUpper request r).2.citations = r.citations :=
  (drafts_kept _ r).1

end ConcatWriter

namespace MockResearcher

def hits (search : WebSearch) (sub : SubQuestion) (request : ResearchRequest) : List WebSearchHit :=
  match search.search (searchReq sub request) with
  | .ok hits => hits
  | .error _ => []

def researchInOrder (tasks : List (SubQuestion × WebSearch)) (request : ResearchRequest) (r : ResearchResult) :
    ResearchResult :=
  tasks.foldl (fun r task => (research task.2 task.1 request r).2) r

def found (tasks : List (SubQuestion × WebSearch)) (request : ResearchRequest) : List (String × WebSearchHit) :=
  tasks.flatMap fun task => (hits task.2 task.1 request).map fun hit => (task.1.id, hit)

def citationAt (entry : (String × WebSearchHit) × Nat) : Citation :=
  { Citation.new (numberAt entry.2) entry.1.2.url entry.1.2.title entry.1.2.snippet with supports := [entry.1.1] }

def cited (start : Nat) (found : List (String × WebSearchHit)) : List Citation :=
  (found.zipIdx start).map citationAt

theorem cited_append (start : Nat) (xs ys : List (String × WebSearchHit)) :
    cited start (xs ++ ys) = cited start xs ++ cited (start + xs.length) ys := by
  rw [cited, List.zipIdx_append, List.map_append]
  rfl

theorem mem_cited {c : Citation} {found : List (String × WebSearchHit)} :
    c ∈ cited 0 found ↔ ∃ i id hit, found[i]? = some (id, hit) ∧ citationAt ((id, hit), i) = c := by
  rw [cited, List.mem_map]
  constructor
  · rintro ⟨⟨⟨id, hit⟩, i⟩, member, same⟩
    exact ⟨i, id, hit, List.mem_zipIdx_iff_getElem?.mp member, same⟩
  · rintro ⟨i, id, hit, here, same⟩
    exact ⟨((id, hit), i), List.mem_zipIdx_iff_getElem?.mpr here, same⟩

theorem map_url_cited (start : Nat) (found : List (String × WebSearchHit)) :
    (cited start found).map Citation.url = found.map fun f => f.2.url := by
  rw [cited, List.map_map]
  refine List.ext_getElem (by simp) fun i _ _ => ?_
  simp [citationAt, Citation.new]

variable {search : WebSearch} {sub : SubQuestion} {request : ResearchRequest}

theorem cite_hits_citations (provider : String) (hits : List WebSearchHit) (r : ResearchResult) :
    (hits.foldl (cite provider sub) r).citations =
      r.citations ++ cited r.citations.length (hits.map fun hit => (sub.id, hit)) := by
  induction hits generalizing r with
  | nil => simp [cited]
  | cons hit rest ih =>
    have first : (cite provider sub r hit).citations =
        r.citations ++ cited r.citations.length [(sub.id, hit)] := rfl
    rw [List.foldl_cons, ih, first, List.append_assoc, List.map_cons, ← List.singleton_append, cited_append]
    simp [cited]

theorem setSubQuestionStatus_citations (r : ResearchResult) (id : String) (status : SubQuestionStatus) :
    (r.setSubQuestionStatus id status).2.citations = r.citations := by
  rw [ResearchResult.setSubQuestionStatus]
  split
  · rfl
  · split <;> rfl

theorem research_citations (r : ResearchResult) :
    (research search sub request r).2.citations =
      r.citations ++ cited r.citations.length ((hits search sub request).map fun hit => (sub.id, hit)) := by
  rw [research, hits]
  cases search.search (searchReq sub request) with
  | error e => simp [cited]
  | ok hits =>
    have kept := setSubQuestionStatus_citations (hits.foldl (cite search.providerName sub) r) sub.id
      (if hits.isEmpty then .unresolved else .answered)
    rw [← cite_hits_citations search.providerName hits r]
    dsimp only
    split <;>
      · next set =>
        rw [set] at kept
        exact kept

theorem researchInOrder_citations (tasks : List (SubQuestion × WebSearch)) (r : ResearchResult) :
    (researchInOrder tasks request r).citations =
      r.citations ++ cited r.citations.length (found tasks request) := by
  induction tasks generalizing r with
  | nil => simp [researchInOrder, found, cited]
  | cons task rest ih =>
    have more : found (task :: rest) request =
        ((hits task.2 task.1 request).map fun hit => (task.1.id, hit)) ++ found rest request := List.flatMap_cons
    rw [researchInOrder, List.foldl_cons, ← researchInOrder, ih, research_citations, more, cited_append,
      List.append_assoc, List.length_append]
    simp [cited]

end MockResearcher

namespace DeterministicCitationVerifier

theorem mark_citations (numbers : List Nat) (r : ResearchResult) :
    (numbers.foldl (fun r n => r.markCitationStatus n .verified) r).citations.map (fun c => (c.number, c.url)) =
      r.citations.map fun c => (c.number, c.url) := by
  induction numbers generalizing r with
  | nil => rfl
  | cons n rest ih =>
    rw [List.foldl_cons, ih]
    exact map_modifyFirst (fun c : Citation => (c.number, c.url)) fun _ => rfl

theorem verify_citations (isMatch : String → Bool) (request : ResearchRequest) (r : ResearchResult) :
    (verify isMatch request r).2.citations.map (fun c => (c.number, c.url)) =
      (firsts id [] (r.citations.map Citation.url)).mapIdx fun i u => (numberAt i, u) := by
  have marked := mark_citations (r.renumberCitations.citations.map Citation.number) r.renumberCitations
  refine Eq.trans marked (List.ext_getElem? fun i => ?_)
  rw [ResearchResult.renumberCitations, ← map_firsts, List.getElem?_map, List.getElem?_mapIdx,
    List.getElem?_mapIdx, List.getElem?_map, Option.map_map, Option.map_map]
  rfl

end DeterministicCitationVerifier

open ConcatWriter MockResearcher DeterministicCitationVerifier

section Markers

variable (firstUpper : Char → Char) (isMatch : String → Bool) (plan : Plan)
  (tasks : List (SubQuestion × WebSearch)) (request : ResearchRequest) (start : ResearchResult)

def written : Writing := writing plan (researchInOrder tasks request start).citations firstUpper request

def verified : ResearchResult :=
  (verify isMatch request (write plan firstUpper request (researchInOrder tasks request start)).2).2

def MarkersTruthful (w : Writing) (citations : List Citation) : Prop :=
  ∀ n u, w.HasMarker n u → ∃ c ∈ citations, c.number = n ∧ c.url = u

def Numbered (citations : List Citation) : Prop :=
  citations.map Citation.number = List.range' 1 citations.length

def sources : List Url := firsts id [] ((found tasks request).map fun f => f.2.url)

theorem numberAt_eq_iff {i j : Nat} (bound : j < 2 ^ 32) : numberAt j = numberAt i ↔ j = i % 2 ^ 32 := by
  rw [numberAt, numberAt]
  omega

section Renumbered

variable {citations : List Citation} {us : List Url}
  (renumbered : citations.map (fun c => (c.number, c.url)) = us.mapIdx fun i u => (numberAt i, u))

include renumbered

theorem numbered_iff : Numbered citations ↔ us.length < 2 ^ 32 := by
  have length : citations.length = us.length := by simpa using congrArg List.length renumbered
  have numbers : citations.map Citation.number = (List.range us.length).map numberAt := by
    have firsts := congrArg (List.map Prod.fst) renumbered
    rw [List.map_map] at firsts
    refine firsts.trans (List.ext_getElem (by simp) fun i _ _ => ?_)
    simp
  have numbered : Numbered citations ↔ ∀ i < us.length, numberAt i = i + 1 := by
    rw [Numbered, numbers, length, List.range'_eq_map_range, List.map_inj_left]
    simp [Nat.add_comm]
  rw [numbered]
  constructor
  · intro same
    by_contra long
    have wrapped := same (2 ^ 32 - 1) (by omega)
    simp [numberAt] at wrapped
  · intro short i bound
    rw [numberAt]
    omega

theorem refers_iff (nodup : us.Nodup) (short : us.length < 2 ^ 32) {i : Nat} {u : Url} (member : u ∈ us) :
    (∃ c ∈ citations, c.number = numberAt i ∧ c.url = u) ↔ i % 2 ^ 32 = us.idxOf u := by
  have pair : (∃ c ∈ citations, c.number = numberAt i ∧ c.url = u) ↔
      (numberAt i, u) ∈ citations.map fun c => (c.number, c.url) := by
    simp [Prod.mk.injEq]
  rw [pair, renumbered, List.mem_mapIdx]
  constructor
  · rintro ⟨j, bound, same⟩
    obtain ⟨number, rfl⟩ := Prod.mk.inj same
    rw [nodup.idxOf_getElem, ← (numberAt_eq_iff (by omega)).mp number]
  · intro place
    have bound : us.idxOf u < us.length := List.idxOf_lt_length_iff.mpr member
    refine ⟨us.idxOf u, bound, Prod.mk.injEq .. ▸ ⟨?_, List.getElem_idxOf bound⟩⟩
    exact (numberAt_eq_iff (by omega)).mpr place.symm

end Renumbered

-- The hit stands where its source stands among the different sources.
def KeepsPlace (i : Nat) (hit : WebSearchHit) : Prop := i % 2 ^ 32 = (sources tasks request).idxOf hit.url

theorem keepsPlace_iff {i : Nat} {id : String} {hit : WebSearchHit} (few : (found tasks request).length ≤ 2 ^ 32)
    (here : (found tasks request)[i]? = some (id, hit)) :
    KeepsPlace tasks request i hit ↔ (((found tasks request).map fun f => f.2.url).take (i + 1)).Nodup := by
  obtain ⟨bound, here⟩ := List.getElem?_eq_some_iff.mp here
  have within : i < ((found tasks request).map fun f => f.2.url).length := by simpa using bound
  have source : ((found tasks request).map fun f => f.2.url)[i] = hit.url := by rw [List.getElem_map, here]
  rw [← idxOf_firsts_eq_iff within, source, KeepsPlace, sources, Nat.mod_eq_of_lt (by omega), eq_comm]

/-- The markers are true, and the numbers are those from 1 on, exactly when the different sources can be numbered
and every hit for a written sub-question keeps its place. -/
theorem markers_truthful_iff (fresh : start.citations = []) :
    MarkersTruthful (written firstUpper plan tasks request start)
          (verified firstUpper isMatch plan tasks request start).citations ∧
        Numbered (verified firstUpper isMatch plan tasks request start).citations ↔
      (sources tasks request).length < 2 ^ 32 ∧
        ∀ i id hit, (found tasks request)[i]? = some (id, hit) → Written plan id →
          KeepsPlace tasks request i hit := by
  have citations : (researchInOrder tasks request start).citations = cited 0 (found tasks request) := by
    rw [researchInOrder_citations, fresh]
    rfl
  have renumbered : (verified firstUpper isMatch plan tasks request start).citations.map
      (fun c => (c.number, c.url)) = (sources tasks request).mapIdx fun i u => (numberAt i, u) := by
    rw [verified, verify_citations, write_citations, citations, map_url_cited]
    rfl
  have nodup : (sources tasks request).Nodup := nodup_firsts _ _
  have source {i : Nat} {id : String} {hit : WebSearchHit}
      (here : (found tasks request)[i]? = some (id, hit)) : hit.url ∈ sources tasks request := by
    refine mem_firsts.mpr ⟨List.mem_map.mpr ⟨(id, hit), List.mem_of_getElem? here, rfl⟩, List.not_mem_nil⟩
  rw [numbered_iff renumbered, and_comm]
  refine and_congr_right fun short => ?_
  simp only [MarkersTruthful, written, hasMarker_iff, citations, mem_cited]
  constructor
  · intro truthful i id hit here placed
    refine (refers_iff renumbered nodup short (source here)).mp (truthful _ _ ?_)
    exact ⟨citationAt ((id, hit), i), ⟨i, id, hit, here, rfl⟩, ⟨id, by simp [citationAt], placed⟩, rfl, rfl⟩
  · rintro places n u ⟨c, ⟨i, id, hit, here, rfl⟩, ⟨id', supports, placed⟩, rfl, rfl⟩
    have same : id' = id := by simpa [citationAt] using supports
    exact (refers_iff renumbered nodup short (source here)).mpr (places i id hit here (same ▸ placed))

end Markers

-- Two sub-questions, for which the same source is found.
def twoQuestions : Plan :=
  { Plan.new with subQuestions := ["sq-1", "sq-2"].map fun id => {
      id
      text := id
      rationale := none
      «section» := some "Findings"
      status := .pending } }

def answers (urls : List Url) : WebSearch where
  providerName := "mock"
  search _ := .ok (urls.map fun url => { url, title := url, snippet := "snippet" })

def overlappingTasks : List (SubQuestion × WebSearch) :=
  twoQuestions.subQuestions.zip [answers ["https://a.test/"], answers ["https://a.test/", "https://b.test/"]]

def disjointTasks : List (SubQuestion × WebSearch) :=
  twoQuestions.subQuestions.zip [answers ["https://a.test/"], answers ["https://b.test/"]]

def planned : ResearchResult := (ResearchResult.new "q" "plan-and-execute").setPlan twoQuestions

theorem disjoint_markers_truthful :
    MarkersTruthful (written Char.toUpper twoQuestions disjointTasks (.new "q") planned)
        (verified Char.toUpper (fun _ => true) twoQuestions disjointTasks (.new "q") planned).citations ∧
      Numbered (verified Char.toUpper (fun _ => true) twoQuestions disjointTasks (.new "q") planned).citations := by
  refine (markers_truthful_iff Char.toUpper (fun _ => true) twoQuestions disjointTasks (.new "q") planned rfl).mpr
    ⟨by decide, fun i id hit here _ => ?_⟩
  refine (keepsPlace_iff disjointTasks (.new "q") (by decide) here).mpr (List.Nodup.sublist (List.take_sublist _ _) ?_)
  decide

/-- The second question's marker for the source that both have refers to the other source, and its marker for that
refers to nothing. -/
theorem shared_source_misnumbered :
    (verified Char.toUpper (fun _ => true) twoQuestions overlappingTasks (.new "q") planned).citations.map
        (fun c => (c.number, c.url)) = [(1, "https://a.test/"), (2, "https://b.test/")] ∧
      (written Char.toUpper twoQuestions overlappingTasks (.new "q") planned).HasMarker 2 "https://a.test/" ∧
      (written Char.toUpper twoQuestions overlappingTasks (.new "q") planned).HasMarker 3 "https://b.test/" ∧
      ¬ MarkersTruthful (written Char.toUpper twoQuestions overlappingTasks (.new "q") planned)
        (verified Char.toUpper (fun _ => true) twoQuestions overlappingTasks (.new "q") planned).citations := by
  have numbered : (verified Char.toUpper (fun _ => true) twoQuestions overlappingTasks (.new "q")
      planned).citations.map (fun c => (c.number, c.url)) = [(1, "https://a.test/"), (2, "https://b.test/")] := by
    decide
  have marked (n : Nat) (u : Url) (c : Citation)
      (cited : c ∈ (researchInOrder overlappingTasks (.new "q") planned).citations) (number : c.number = n)
      (source : c.url = u) (supports : "sq-2" ∈ c.supports) :
      (written Char.toUpper twoQuestions overlappingTasks (.new "q") planned).HasMarker n u :=
    hasMarker_iff.mpr ⟨c, cited, ⟨"sq-2", supports, "Findings", .head _, rfl⟩, number, source⟩
  have second := marked 2 "https://a.test/" _ (.tail _ (.head _)) rfl rfl (.head _)
  have third := marked 3 "https://b.test/" _ (.tail _ (.tail _ (.head _))) rfl rfl (.head _)
  refine ⟨numbered, second, third, fun truthful => ?_⟩
  obtain ⟨c, cited, number, source⟩ := truthful 3 "https://b.test/" third
  have pair := List.mem_map_of_mem (f := fun c : Citation => (c.number, c.url)) cited
  rw [numbered, number, source] at pair
  exact absurd pair (by decide)

end AtomrAgents.DeepResearch
