import AtomrAgents.Core.Value
import AtomrAgents.Shared.BestOfParts
import AtomrAgents.Shared.Operations
import AtomrAgents.Shared.Ranking

set_option autoImplicit false

namespace AtomrAgents

open Shared

inductive MemoryKind where
  | episodic
  | semantic
  | working
  | scratchpad
  deriving DecidableEq

inductive MemoryNamespace where
  | agent (id : String)
  | team (id : String)
  | org (id : String)
  deriving DecidableEq

structure MemoryItem where
  id : String
  kind : MemoryKind
  namespace_ : MemoryNamespace
  payload : Value
  timestampMs : Int
  tags : List String

abbrev InMemoryStore := List MemoryItem

def namespacesMatch : MemoryNamespace → MemoryNamespace → Bool
  | .agent x, .agent y => x == y
  | .team x, .team y => x == y
  | .org x, .org y => x == y
  | _, _ => false

namespace InMemoryStore

def put (store : InMemoryStore) (item : MemoryItem) : Except AgentError Unit × InMemoryStore :=
  (.ok (), store ++ [item])

def under (store : InMemoryStore) (namespace_ : MemoryNamespace) : List MemoryItem :=
  store.filter fun item => namespacesMatch item.namespace_ namespace_

def list (store : InMemoryStore) (namespace_ : MemoryNamespace) (limit : Nat) : List MemoryItem :=
  (ranking MemoryItem.timestampMs (store.under namespace_)).take limit

end InMemoryStore

-- A handle; the store behind it is given to each operation.
structure NamespacedMemory where
  org : String
  team : Option String
  agent : String
  allowTeamWrite : Bool

namespace NamespacedMemory

def new (org agent : String) : NamespacedMemory where
  org := org
  team := none
  agent := agent
  allowTeamWrite := false

def put (memory : NamespacedMemory) (store : InMemoryStore) (item : MemoryItem) :
    Except AgentError Unit × InMemoryStore :=
  match item.namespace_ with
  | .agent id =>
    if id = memory.agent then store.put item
    else (.error (.policyDenied ("agent " ++ memory.agent ++ " cannot write to " ++ id)), store)
  | .team id =>
    if memory.allowTeamWrite = false ∨ memory.team ≠ some id then
      (.error (.policyDenied ("write to team namespace " ++ id ++ " denied")), store)
    else store.put item
  | .org _ => (.error (.policyDenied "agents cannot write to org-level memory"), store)

def list (memory : NamespacedMemory) (store : InMemoryStore) (namespace_ : MemoryNamespace)
    (limit : Nat) : List MemoryItem :=
  let out := store.list namespace_ limit
  match namespace_ with
  | .agent _ =>
    let out :=
      match memory.team with
      | some team => out ++ store.list (.team team) limit
      | none => out
    let out := out ++ store.list (.org memory.org) limit
    (ranking MemoryItem.timestampMs out).take limit
  | _ => out

end NamespacedMemory

theorem namespacesMatch_iff (a b : MemoryNamespace) : namespacesMatch a b = true ↔ a = b := by
  cases a <;> cases b <;> simp [namespacesMatch]

end AtomrAgents

/-! A handle belongs to an agent, which is to read its own items, those of its team and those of its
organisation. Reads of the agent's own namespace cascade over all three; what else is asked for goes to the
store as it is. -/

namespace AtomrAgents

open Shared

section Levels

variable {ρ κ : Type} [DecidableEq κ]

theorem flatMap_filter_perm (key : ρ → κ) (items : List ρ) {keys : List κ} (distinct : keys.Nodup) :
    (keys.flatMap fun k => items.filter fun item => key item = k).Perm
      (items.filter fun item => key item ∈ keys) := by
  induction keys with
  | nil => simp
  | cons k rest ih =>
    obtain ⟨other, distinct⟩ := List.nodup_cons.mp distinct
    have split := List.filter_append_perm (fun item => key item = k)
      (items.filter fun item => key item ∈ k :: rest)
    have here : (items.filter fun item => key item ∈ k :: rest).filter (fun item => key item = k) =
        items.filter fun item => key item = k := by
      rw [List.filter_filter]
      apply List.filter_congr
      intro item _
      by_cases same : key item = k <;> simp [same]
    have there : (items.filter fun item => key item ∈ k :: rest).filter (fun item => !decide (key item = k)) =
        items.filter fun item => key item ∈ rest := by
      rw [List.filter_filter]
      apply List.filter_congr
      intro item _
      by_cases same : key item = k <;> simp [same, other]
    rw [here, there] at split
    exact ((ih distinct).append_left _).trans split

end Levels

theorem InMemoryStore.under_eq (store : InMemoryStore) (namespace_ : MemoryNamespace) :
    store.under namespace_ = store.filter fun item => item.namespace_ = namespace_ := by
  apply List.filter_congr
  intro item _
  rw [Bool.eq_iff_iff, namespacesMatch_iff, decide_eq_true_iff]

theorem InMemoryStore.mem_list {store : InMemoryStore} {namespace_ : MemoryNamespace} {limit : Nat}
    {item : MemoryItem} (listed : item ∈ store.list namespace_ limit) :
    item ∈ store ∧ item.namespace_ = namespace_ := by
  have member := (ranking_perm _ _).mem_iff.mp (List.mem_of_mem_take listed)
  rw [InMemoryStore.under_eq, List.mem_filter] at member
  exact ⟨member.1, of_decide_eq_true member.2⟩

namespace NamespacedMemory

variable (memory : NamespacedMemory)

def outerLevels : List MemoryNamespace := memory.team.toList.map .team ++ [.org memory.org]

def levels : List MemoryNamespace := .agent memory.agent :: memory.outerLevels

def Writable (namespace_ : MemoryNamespace) : Prop :=
  namespace_ = .agent memory.agent ∨
    memory.allowTeamWrite = true ∧ ∃ team, memory.team = some team ∧ namespace_ = .team team

theorem outerLevels_nodup : memory.outerLevels.Nodup := by
  cases here : memory.team <;> simp [outerLevels, here]

theorem agent_not_mem_outerLevels (id : String) : .agent id ∉ memory.outerLevels := by
  cases here : memory.team <;> simp [outerLevels, here]

theorem levels_nodup : memory.levels.Nodup :=
  List.nodup_cons.mpr ⟨memory.agent_not_mem_outerLevels _, memory.outerLevels_nodup⟩

theorem list_agent (store : InMemoryStore) (id : String) (limit : Nat) :
    memory.list store (.agent id) limit =
      (ranking MemoryItem.timestampMs (store.list (.agent id) limit ++
        bestOfEach MemoryItem.timestampMs limit (memory.outerLevels.map store.under))).take limit := by
  cases here : memory.team with
  | none => simp [list, outerLevels, bestOfEach, InMemoryStore.list, here]
  | some team => simp [list, outerLevels, bestOfEach, InMemoryStore.list, here]

theorem flatten_perm (store : InMemoryStore) {namespaces : List MemoryNamespace}
    (distinct : namespaces.Nodup) :
    (namespaces.map store.under).flatten.Perm
      (store.filter fun item => item.namespace_ ∈ namespaces) := by
  have perm := flatMap_filter_perm MemoryItem.namespace_ store distinct
  simp only [← InMemoryStore.under_eq] at perm
  rwa [List.flatMap_def] at perm

theorem put_cases (store : InMemoryStore) (item : MemoryItem) :
    memory.Writable item.namespace_ ∧ memory.put store item = (.ok (), store ++ [item]) ∨
      ¬ memory.Writable item.namespace_ ∧ ∃ e, memory.put store item = (.error e, store) := by
  unfold put Writable
  cases namespace_ : item.namespace_ with
  | agent id =>
    by_cases own : id = memory.agent
    · simp [own, InMemoryStore.put]
    · simp [own]
  | team id =>
    by_cases allowed : memory.allowTeamWrite = true
    · by_cases own : memory.team = some id
      · simp [allowed, own, InMemoryStore.put]
      · simp [allowed, own]
    · simp [allowed]
  | org id => simp

def putThrough (store : InMemoryStore) (call : NamespacedMemory × MemoryItem) :
    Except AgentError Unit × InMemoryStore :=
  call.1.put store call.2

theorem map_team_iff (namespace_ : MemoryNamespace) :
    memory.team.map MemoryNamespace.team = some namespace_ ↔
      ∃ team, memory.team = some team ∧ namespace_ = .team team := by
  rw [Option.map_eq_some_iff]
  exact exists_congr fun team => and_congr_right fun _ => eq_comm

instance (namespace_ : MemoryNamespace) : Decidable (memory.Writable namespace_) :=
  decidable_of_iff
    (namespace_ = .agent memory.agent ∨
      memory.allowTeamWrite = true ∧ memory.team.map MemoryNamespace.team = some namespace_)
    (or_congr_right (and_congr_right fun _ => memory.map_team_iff namespace_))

def writable (puts : List (NamespacedMemory × MemoryItem)) : List MemoryItem :=
  (puts.filter fun call => call.1.Writable call.2.namespace_).map Prod.snd

theorem final_putThrough (store : InMemoryStore) (puts : List (NamespacedMemory × MemoryItem)) :
    Operations.final putThrough store puts = store ++ writable puts := by
  induction puts generalizing store with
  | nil => simp [Operations.final, writable]
  | cons call rest ih =>
    rw [Operations.final, ih]
    rcases call.1.put_cases store call.2 with ⟨allowed, accepted⟩ | ⟨denied, e, refused⟩
    · simp [putThrough, accepted, writable, allowed]
    · simp [putThrough, refused, writable, denied]

section Cascade

-- The newest items, in this order; items of different times are different.
def Newest (limit : Nat) (items newest : List MemoryItem) : Prop :=
  ∃ ordered : List MemoryItem, ordered.Perm items ∧
    (ordered.Pairwise fun a b => b.timestampMs < a.timestampMs) ∧ newest = ordered.take limit

theorem list_own (store : InMemoryStore) (limit : Nat)
    (distinct : (store.map MemoryItem.timestampMs).Nodup) :
    Newest limit (store.filter fun item => item.namespace_ ∈ memory.levels)
      (memory.list store (.agent memory.agent) limit) := by
  have perm := flatten_perm store memory.levels_nodup
  have apart : ((memory.levels.map store.under).flatten.map MemoryItem.timestampMs).Nodup := by
    rw [(perm.map _).nodup_iff]
    exact distinct.sublist (List.filter_sublist.map _)
  refine ⟨ranking MemoryItem.timestampMs (memory.levels.map store.under).flatten,
    (ranking_perm _ _).trans perm, pairwise_lt_ranking apart, ?_⟩
  rw [list_agent, ← take_ranking_parts apart]
  rfl

/-- Any puts with different timestamps store the items that their handles may write, in their order, and no
others. The agent's own namespace then lists the newest of all stored items that the agent is to read, and a
put is accepted just where the agent may write. -/
theorem cascade (store : InMemoryStore) (puts : List (NamespacedMemory × MemoryItem)) (limit : Nat)
    (distinct : ((store ++ puts.map Prod.snd).map MemoryItem.timestampMs).Nodup) :
    Operations.final putThrough store puts = store ++ writable puts ∧
      Newest limit ((store ++ writable puts).filter fun item => item.namespace_ ∈ memory.levels)
        (memory.list (Operations.final putThrough store puts) (.agent memory.agent) limit) ∧
      ∀ item, (memory.put (Operations.final putThrough store puts) item).1 = .ok () ↔
        memory.Writable item.namespace_ := by
  have stored := final_putThrough store puts
  refine ⟨stored, ?_, ?_⟩
  · rw [stored]
    apply list_own
    have kept : (writable puts).Sublist (puts.map Prod.snd) := List.filter_sublist.map _
    exact distinct.sublist ((kept.append_left store).map _)
  · intro item
    rcases memory.put_cases (Operations.final putThrough store puts) item with
      ⟨writable, accepted⟩ | ⟨denied, e, refused⟩
    · simp [writable, accepted]
    · simp [denied, refused]

section Example

def bob : NamespacedMemory := { NamespacedMemory.new "o" "bob" with team := some "t" }

def note (namespace_ : MemoryNamespace) (timestampMs : Int) : MemoryItem where
  id := "note"
  kind := .episodic
  namespace_ := namespace_
  payload := .null
  timestampMs := timestampMs
  tags := []

-- Bob's note is stored, and that of the team, where he may not write, is not.
theorem cascade_bob :
    Operations.final putThrough [note (.team "t") 2] [(bob, note (.agent "bob") 1), (bob, note (.team "t") 3)] =
        [note (.team "t") 2, note (.agent "bob") 1] ∧
      Newest 1 [note (.team "t") 2, note (.agent "bob") 1]
        (bob.list [note (.team "t") 2, note (.agent "bob") 1] (.agent bob.agent) 1) ∧
      ∀ item, (bob.put [note (.team "t") 2, note (.agent "bob") 1] item).1 = .ok () ↔
        bob.Writable item.namespace_ := by
  have stored : writable [(bob, note (.agent "bob") 1), (bob, note (.team "t") 3)] = [note (.agent "bob") 1] := by
    rfl
  obtain ⟨all, newest, accepted⟩ := cascade bob [note (.team "t") 2]
    [(bob, note (.agent "bob") 1), (bob, note (.team "t") 3)] 1 (by decide)
  rw [stored] at all newest
  rw [all] at newest accepted
  exact ⟨all, newest, accepted⟩

end Example

end Cascade

section Isolation

-- Nothing is stored under the namespace, or nothing of it is among the first `limit` items.
def Shielded (store : InMemoryStore) (namespace_ : MemoryNamespace) (limit : Nat) : Prop :=
  (∀ item ∈ store, item.namespace_ ≠ namespace_) ∨
    match namespace_ with
    | .agent _ =>
      limit ≤ store.countP fun item => item.namespace_ ∈ memory.outerLevels ∧
        ∀ foreign ∈ store, foreign.namespace_ = namespace_ → foreign.timestampMs < item.timestampMs
    | .team _ | .org _ => limit = 0

variable {memory}

theorem list_eq_nil_iff (store : InMemoryStore) (namespace_ : MemoryNamespace) (limit : Nat) :
    store.list namespace_ limit = [] ↔ limit = 0 ∨ ∀ item ∈ store, item.namespace_ ≠ namespace_ := by
  have same := (ranking_perm MemoryItem.timestampMs (store.under namespace_)).length_eq
  rw [InMemoryStore.list, List.take_eq_nil_iff, ← List.length_eq_zero_iff, same,
    List.length_eq_zero_iff, InMemoryStore.under_eq, List.filter_eq_nil_iff]
  simp

theorem mem_outer {store : InMemoryStore} {limit : Nat} {item : MemoryItem}
    (member : item ∈ bestOfEach MemoryItem.timestampMs limit (memory.outerLevels.map store.under)) :
    item.namespace_ ∈ memory.outerLevels := by
  have perm := flatten_perm store memory.outerLevels_nodup
  have inside := perm.mem_iff.mp ((bestOfEach_subperm _ _ _).subset member)
  exact of_decide_eq_true (List.mem_filter.mp inside).2

theorem readable_iff_of_foreign {store : InMemoryStore} {id : String} (foreign : id ≠ memory.agent)
    {limit : Nat} {item : MemoryItem} (listed : item ∈ memory.list store (.agent id) limit) :
    item.namespace_ ∈ memory.levels ↔
      item ∈ bestOfEach MemoryItem.timestampMs limit (memory.outerLevels.map store.under) := by
  rw [list_agent] at listed
  have member := (ranking_perm _ _).mem_iff.mp (List.mem_of_mem_take listed)
  constructor
  · intro inside
    rcases List.mem_append.mp member with here | there
    · rw [(InMemoryStore.mem_list here).2] at inside
      rcases List.mem_cons.mp inside with same | outer
      · cases same
        exact absurd rfl foreign
      · exact absurd outer (memory.agent_not_mem_outerLevels id)
    · exact there
  · intro there
    exact List.mem_cons_of_mem _ (mem_outer there)

theorem exists_newest {store : InMemoryStore} {namespace_ : MemoryNamespace}
    (present : ¬ ∀ item ∈ store, item.namespace_ ≠ namespace_) :
    ∃ newest : Int, ∀ time,
      (∀ item ∈ store, item.namespace_ = namespace_ → item.timestampMs < time) ↔ newest < time := by
  have some : store.under namespace_ ≠ [] := by
    rw [InMemoryStore.under_eq, Ne, List.filter_eq_nil_iff]
    simpa using present
  obtain ⟨best, member, most⟩ := exists_best MemoryItem.timestampMs some
  rw [InMemoryStore.under_eq, List.mem_filter, decide_eq_true_iff] at member
  refine ⟨best.timestampMs, fun time => ⟨fun all => all best member.1 member.2, ?_⟩⟩
  intro above item there same
  apply (most item ?_).trans_lt above
  rw [InMemoryStore.under_eq, List.mem_filter]
  exact ⟨there, decide_eq_true same⟩

theorem list_foreign (store : InMemoryStore) {id : String} (foreign : id ≠ memory.agent) (limit : Nat) :
    (∀ item ∈ memory.list store (.agent id) limit, item.namespace_ ∈ memory.levels) ↔
      memory.Shielded store (.agent id) limit := by
  have apart : ∀ item ∈ store.list (.agent id) limit,
      item ∉ bestOfEach MemoryItem.timestampMs limit (memory.outerLevels.map store.under) := by
    intro item listed member
    have same := (InMemoryStore.mem_list listed).2
    exact memory.agent_not_mem_outerLevels id (same ▸ mem_outer member)
  have own : (∀ item ∈ memory.list store (.agent id) limit, item.namespace_ ∈ memory.levels) ↔
      ∀ item ∈ memory.list store (.agent id) limit,
        item ∈ bestOfEach MemoryItem.timestampMs limit (memory.outerLevels.map store.under) := by
    apply forall₂_congr
    intro item listed
    exact readable_iff_of_foreign foreign listed
  rw [own, list_agent, take_ranking_append_iff _ _ _ _ apart, list_eq_nil_iff, Shielded]
  by_cases none : ∀ item ∈ store, item.namespace_ ≠ .agent id
  · exact iff_of_true (.inl (.inr none)) (.inl none)
  by_cases zero : limit = 0
  · exact iff_of_true (.inl (.inl zero)) (.inr (zero ▸ Nat.zero_le _))
  simp only [none, zero, or_self, false_or]
  obtain ⟨newest, newer⟩ := exists_newest none
  have listed (time : Int) : (∀ item ∈ store.list (.agent id) limit, item.timestampMs < time) ↔
      newest < time := by
    rw [InMemoryStore.list, take_ranking_lt_iff _ _ zero, ← newer, InMemoryStore.under_eq]
    simp
  simp only [listed, newer]
  rw [le_countP_bestOfEach_iff, (flatten_perm store memory.outerLevels_nodup).countP_eq,
    List.countP_filter]
  simp [and_comm]

theorem list_team_or_org (store : InMemoryStore) {namespace_ : MemoryNamespace} (limit : Nat)
    (whole : ∀ id, namespace_ ≠ .agent id) :
    memory.list store namespace_ limit = store.list namespace_ limit := by
  cases namespace_ with
  | agent id => exact absurd rfl (whole id)
  | team id | org id => rfl

theorem list_readable (store : InMemoryStore) {namespace_ : MemoryNamespace} (limit : Nat)
    (own : namespace_ ∈ memory.levels) {item : MemoryItem}
    (listed : item ∈ memory.list store namespace_ limit) : item.namespace_ ∈ memory.levels := by
  by_cases agent : ∃ id, namespace_ = .agent id
  · obtain ⟨id, rfl⟩ := agent
    rw [list_agent] at listed
    have member := (ranking_perm _ _).mem_iff.mp (List.mem_of_mem_take listed)
    rcases List.mem_append.mp member with here | outer
    · rw [(InMemoryStore.mem_list here).2]
      exact own
    · exact List.mem_cons_of_mem _ (mem_outer outer)
  · rw [list_team_or_org store limit (not_exists.mp agent)] at listed
    rw [(InMemoryStore.mem_list listed).2]
    exact own

/-- Whatever the handles of a store have put into it: a read gives away nothing that the agent is not to
read just when it asks for what the agent is to read, or what it asks for is shielded. -/
theorem read_isolation (memory : NamespacedMemory) (store : InMemoryStore)
    (puts : List (NamespacedMemory × MemoryItem)) (namespace_ : MemoryNamespace) (limit : Nat) :
    (∀ item ∈ memory.list (Operations.final putThrough store puts) namespace_ limit,
        item.namespace_ ∈ memory.levels) ↔
      namespace_ ∈ memory.levels ∨
        memory.Shielded (Operations.final putThrough store puts) namespace_ limit := by
  generalize Operations.final putThrough store puts = stored
  by_cases own : namespace_ ∈ memory.levels
  · exact iff_of_true (fun item listed => list_readable stored limit own listed) (.inl own)
  rw [or_iff_right own]
  by_cases agent : ∃ id, namespace_ = .agent id
  · obtain ⟨id, rfl⟩ := agent
    apply list_foreign
    rintro rfl
    exact own List.mem_cons_self
  · have whole := not_exists.mp agent
    have empty : (∀ item ∈ stored.list namespace_ limit, item.namespace_ ∈ memory.levels) ↔
        stored.list namespace_ limit = [] := by
      rw [List.eq_nil_iff_forall_not_mem]
      apply forall₂_congr
      intro item listed
      rw [(InMemoryStore.mem_list listed).2]
      exact iff_of_false own fun none => none
    rw [list_team_or_org stored limit whole, empty, list_eq_nil_iff]
    cases namespace_ with
    | agent id => exact absurd rfl (whole id)
    | team id | org id => exact or_comm

section Example

def alice : NamespacedMemory := NamespacedMemory.new "o" "alice"

-- Alice puts down a note of her own, and Bob asks for her namespace.
theorem read_isolation_fails :
    ¬ ∀ item ∈ bob.list (Operations.final putThrough [] [(alice, note (.agent "alice") 1)])
      (.agent "alice") 1, item.namespace_ ∈ bob.levels := by
  intro isolated
  have there : Operations.final putThrough [] [(alice, note (.agent "alice") 1)] =
      [note (.agent "alice") 1] := rfl
  have listed : bob.list [note (.agent "alice") 1] (.agent "alice") 1 = [note (.agent "alice") 1] := by
    simp [list, InMemoryStore.list, InMemoryStore.under, namespacesMatch, ranking, note, bob, new]
  rw [there, listed] at isolated
  have readable := isolated _ (List.mem_singleton.mpr rfl)
  revert readable
  decide

end Example

end Isolation

end NamespacedMemory

end AtomrAgents
