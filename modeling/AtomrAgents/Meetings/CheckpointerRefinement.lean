import AtomrAgents.Meetings.Store
import AtomrAgents.Shared.Interleaving
import Mathlib.Data.List.Permutation

set_option autoImplicit false

namespace AtomrAgents

open Shared CheckpointerMeetingsStore

namespace CheckpointerMeetingsStore

variable {json : SerdeValue MeetingAnalysis} {checkpointer : InMemoryCheckpointer}

theorem savedStep_le_nextStep (checkpointer : InMemoryCheckpointer) (run : RunId) :
    checkpointer.savedStep workflow run ≤ nextStep checkpointer run := by
  rw [InMemoryCheckpointer.savedStep, nextStep]
  cases checkpointer.latest workflow run with
  | none => exact Nat.le_refl _
  | some s => exact Nat.le_succ _

theorem get_congr {checkpointer' : InMemoryCheckpointer} {id : String}
    (same : checkpointer'.latest workflow id = checkpointer.latest workflow id) :
    get json checkpointer' id = get json checkpointer id := by
  rw [get, get, same]

theorem loadIndex_congr {checkpointer' : InMemoryCheckpointer}
    (same : checkpointer'.latest workflow indexRun = checkpointer.latest workflow indexRun) :
    loadIndex checkpointer' = loadIndex checkpointer := by
  rw [loadIndex, loadIndex, same]

theorem readIds_strings (ids : List String) : readIds (.array (ids.map .string)) = some ids := by
  rw [readIds]
  induction ids with
  | nil => rfl
  | cons id ids ih => simp [List.mapM_cons, Value.asStr, ih]

section Saved

variable {run : RunId} {superStep : Nat} {label : String} {values : Values} {now : Int}

theorem latest_saved (later : checkpointer.savedStep workflow run ≤ superStep) :
    (checkpointer.save (snapshot run superStep label values now)).latest workflow run =
      some (snapshot run superStep label values now) :=
  checkpointer.latest_save_of_le _ rfl rfl later

theorem latest_saved_other {other : RunId} (ne : run ≠ other) :
    (checkpointer.save (snapshot run superStep label values now)).latest workflow other =
      checkpointer.latest workflow other :=
  checkpointer.latest_save_of_ne _ fun same => ne same.2

theorem loadIndex_saved {ids : List String} (later : checkpointer.savedStep workflow indexRun ≤ superStep) :
    loadIndex (checkpointer.save (snapshot indexRun superStep label (indexValues ids) now)) = ids := by
  rw [loadIndex, latest_saved later]
  simp [snapshot, indexValues, readIds_strings]

theorem get_indexRun_saved {ids : List String} (later : checkpointer.savedStep workflow indexRun ≤ superStep) :
    get json (checkpointer.save (snapshot indexRun superStep label (indexValues ids) now)) indexRun =
      .ok none := by
  rw [get, latest_saved later]
  simp [snapshot, indexValues]

end Saved

end CheckpointerMeetingsStore

namespace MeetingsWrite

def result : MeetingsWrite → Option MeetingAnalysis
  | .put analysis => some analysis
  | .delete _ => none

variable {write : MeetingsWrite} {ids ids' : List String}

structure Reindexed (write : MeetingsWrite) (ids ids' : List String) : Prop where
  own : write.id ∈ ids' ↔ write.result.isSome
  other : ∀ id, id ≠ write.id → (id ∈ ids' ↔ id ∈ ids)
  nodup : ids.Nodup → ids'.Nodup

theorem reindexed_of_none (nothing : write.reindex ids = none) : Reindexed write ids ids where
  own := by
    cases write with
    | put analysis => simpa [reindex, id, result] using nothing
    | delete => cases nothing
  other _ _ := Iff.rfl
  nodup distinct := distinct

theorem reindexed_of_some (changed : write.reindex ids = some ids') : Reindexed write ids ids' := by
  cases write with
  | put analysis =>
    simp only [reindex, List.any_beq', Option.ite_none_left_eq_some, Option.some_inj] at changed
    obtain ⟨absent, rfl⟩ := changed
    refine ⟨by simp [id, result], fun other ne => ?_, fun distinct => ?_⟩
    · have ne : other ≠ analysis.id := ne
      simp [ne]
    · rw [List.nodup_append]
      refine ⟨distinct, List.nodup_singleton _, fun a member b last => ?_⟩
      rw [List.mem_singleton] at last
      subst last
      rintro rfl
      exact absent (by simpa using member)
  | delete deleted =>
    rw [reindex, Option.some_inj] at changed
    subst changed
    refine ⟨by simp [id, result], fun other ne => ?_, fun distinct => distinct.filter _⟩
    have ne : other ≠ deleted := ne
    simp [ne]

theorem values_ok {json : SerdeValue MeetingAnalysis}
    (readBack : ∀ analysis, write = .put analysis → json.RoundTrips analysis) :
    ∃ values, write.values json = .ok values := by
  cases write with
  | put analysis =>
    obtain ⟨value, sent, -⟩ := readBack analysis rfl
    exact ⟨_, by rw [MeetingsWrite.values, sent]; rfl⟩
  | delete deleted => exact ⟨_, rfl⟩

theorem get_saved {json : SerdeValue MeetingAnalysis} {checkpointer : InMemoryCheckpointer} {values : Values}
    {superStep : Nat} {label : String} {now : Int}
    (readBack : ∀ analysis, write = .put analysis → json.RoundTrips analysis)
    (encoded : write.values json = .ok values)
    (later : checkpointer.savedStep workflow write.id ≤ superStep) :
    get json (checkpointer.save (snapshot write.id superStep label values now)) write.id =
      .ok write.result := by
  rw [CheckpointerMeetingsStore.get, latest_saved later]
  cases write with
  | put analysis =>
    obtain ⟨value, sent, back⟩ := readBack analysis rfl
    rw [MeetingsWrite.values, sent] at encoded
    cases encoded
    simp [snapshot, back, result, Except.map]
  | delete deleted =>
    cases encoded
    simp [snapshot, Value.asBool, result]

theorem get_inMemory (writes : List MeetingsWrite) (store : InMemoryMeetingsStore)
    (distinct : (writes.map id).Nodup) :
    (∀ write ∈ writes, (writes.foldl inMemory store).get write.id = write.result) ∧
      ∀ other, other ∉ writes.map id → (writes.foldl inMemory store).get other = store.get other := by
  induction writes generalizing store with
  | nil => exact ⟨by simp, fun _ _ => rfl⟩
  | cons write writes ih =>
    rw [List.map_cons, List.nodup_cons] at distinct
    obtain ⟨fresh, distinct⟩ := distinct
    obtain ⟨called, others⟩ := ih (inMemory store write) distinct
    have own : (inMemory store write).get write.id = write.result := by
      cases write with
      | put analysis => exact (store.find_upsert analysis analysis.id).trans (if_pos rfl)
      | delete deleted => exact (store.find_delete deleted deleted).trans (if_pos rfl)
    refine ⟨fun later member => ?_, fun other outside => ?_⟩
    · rcases List.mem_cons.mp member with rfl | member
      · exact (others later.id fresh).trans own
      · exact called later member
    · rw [List.map_cons, List.mem_cons, not_or] at outside
      refine (others other outside.2).trans ?_
      cases write with
      | put analysis => exact (store.find_upsert analysis other).trans (if_neg (Ne.symm outside.1))
      | delete deleted => exact (store.find_delete deleted other).trans (if_neg outside.1)

end MeetingsWrite

structure Represents (json : SerdeValue MeetingAnalysis) (checkpointer : InMemoryCheckpointer)
    (store : InMemoryMeetingsStore) : Prop where
  get : ∀ id, CheckpointerMeetingsStore.get json checkpointer id = .ok (store.get id)
  listed : ∀ id, id ∈ loadIndex checkpointer ↔ (store.get id).isSome
  once : (loadIndex checkpointer).Nodup
  unreserved : store.get indexRun = none

theorem Represents.empty (json : SerdeValue MeetingAnalysis) : Represents json [] Table.empty where
  get _ := rfl
  listed _ := ⟨nofun, nofun⟩
  once := List.nodup_nil
  unreserved := rfl

section Listing

variable {json : SerdeValue MeetingAnalysis} {checkpointer : InMemoryCheckpointer} {store : InMemoryMeetingsStore}

theorem listRows_eq (found : ∀ id, get json checkpointer id = .ok (store.get id)) (ids : List String) :
    listRows json checkpointer ids = .ok ((ids.filterMap store.get).map MeetingsSummary.of) := by
  induction ids with
  | nil => rfl
  | cons id ids ih =>
    rw [listRows, found, ih]
    cases here : store.get id with
    | none => simp [here, Except.map]
    | some analysis => simp [here, Except.map]

theorem Represents.rows_perm (represents : Represents json checkpointer store) :
    ((loadIndex checkpointer).filterMap store.get).Perm store.rows := by
  have once : ((loadIndex checkpointer).filterMap store.get).Nodup := by
    apply represents.once.filterMap
    intro id id' analysis here there
    rw [← (Table.find_eq_some_iff.mp here).2, ← (Table.find_eq_some_iff.mp there).2]
  rw [List.perm_ext_iff_of_nodup once (store.unique.of_map MeetingAnalysis.id)]
  intro analysis
  rw [List.mem_filterMap]
  constructor
  · rintro ⟨id, -, found⟩
    exact (Table.find_eq_some_iff.mp found).1
  · intro member
    have found : store.get analysis.id = some analysis := Table.find_eq_some_iff.mpr ⟨member, rfl⟩
    exact ⟨analysis.id, (represents.listed analysis.id).mpr (by rw [found]; rfl), found⟩

theorem Represents.list (represents : Represents json checkpointer store) :
    CheckpointerMeetingsStore.list json checkpointer = .ok store.list := by
  rw [CheckpointerMeetingsStore.list, listRows_eq represents.get]
  refine congrArg Except.ok (orderBy_congr (represents.rows_perm.map MeetingsSummary.of) ?_)
  rw [List.map_map]
  exact store.unique

end Listing

def Progressed (json : SerdeValue MeetingAnalysis) (checkpointer : InMemoryCheckpointer) (task : WriteTask) :
    Prop :=
  match task.phase with
  | .called => True
  | .stepped values superStep =>
    task.write.values json = .ok values ∧ checkpointer.savedStep workflow task.write.id ≤ superStep
  | .saved | .indexing _ | .indexStepped _ _ => get json checkpointer task.write.id = .ok task.write.result
  | .returned _ =>
    get json checkpointer task.write.id = .ok task.write.result ∧
      (task.write.id ∈ loadIndex checkpointer ↔ task.write.result.isSome)

-- The index that a call saves is the one it would compute now, under the step that is next now.
def IndexUndisturbed (threads : Threads InMemoryCheckpointer WriteTask) (i : Nat) : Prop :=
  ∀ task, threads.locals[i]? = some task → ∀ ids superStep, task.phase = .indexStepped ids superStep →
    task.write.reindex (loadIndex threads.shared) = some ids ∧ superStep = nextStep threads.shared indexRun

def startWrites (checkpointer : InMemoryCheckpointer) (writes : List (MeetingsWrite × Int × Int)) :
    Threads InMemoryCheckpointer WriteTask where
  shared := checkpointer
  locals := writes.map fun entry =>
    { write := entry.1, savedMs := entry.2.1, indexedMs := entry.2.2, phase := .called }

structure Underway (json : SerdeValue MeetingAnalysis) (store : InMemoryMeetingsStore) (writes : List MeetingsWrite)
    (threads : Threads InMemoryCheckpointer WriteTask) : Prop where
  calls : threads.locals.map WriteTask.write = writes
  progressed : ∀ (i : Nat) (task : WriteTask), threads.locals[i]? = some task →
    Progressed json threads.shared task
  idle : ∀ id, id ∉ writes.map MeetingsWrite.id → get json threads.shared id = .ok (store.get id) ∧
    (id ∈ loadIndex threads.shared ↔ (store.get id).isSome)
  once : (loadIndex threads.shared).Nodup

section Turns

variable {json : SerdeValue MeetingAnalysis} {store : InMemoryMeetingsStore} {writes : List MeetingsWrite}
  {checkpointer checkpointer' : InMemoryCheckpointer} {task task' : WriteTask}
  {threads next : Threads InMemoryCheckpointer WriteTask} {i : Nat}

theorem Progressed.kept (same : checkpointer'.latest workflow task.write.id =
      checkpointer.latest workflow task.write.id)
    (listed : task.write.id ∈ loadIndex checkpointer' ↔ task.write.id ∈ loadIndex checkpointer)
    (progressed : Progressed json checkpointer task) : Progressed json checkpointer' task := by
  unfold Progressed at progressed ⊢
  rw [get_congr same, InMemoryCheckpointer.savedStep, same, listed]
  exact progressed

theorem turn_write (takes : task.turn json checkpointer = some (task', checkpointer')) :
    task'.write = task.write := by
  rw [WriteTask.turn] at takes
  split at takes
  · split at takes <;> (cases takes; rfl)
  · cases takes
    rfl
  · split at takes <;> (cases takes; rfl)
  · cases takes
    rfl
  · cases takes
    rfl
  · cases takes

theorem Underway.write_id (underway : Underway json store writes threads)
    (here : threads.locals[i]? = some task) : (writes.map MeetingsWrite.id)[i]? = some task.write.id := by
  rw [← underway.calls, List.getElem?_map, List.getElem?_map, here]
  rfl

theorem Underway.id_ne (underway : Underway json store writes threads)
    (distinct : (writes.map MeetingsWrite.id).Nodup) {j : Nat} {other : WriteTask} (ne : j ≠ i)
    (here : threads.locals[i]? = some task) (there : threads.locals[j]? = some other) :
    task.write.id ≠ other.write.id := by
  intro same
  have own := underway.write_id here
  have bound := (List.getElem?_eq_some_iff.mp own).1
  exact ne ((List.getElem?_inj bound distinct).mp (by rw [own, underway.write_id there, same])).symm

theorem Underway.id_mem (underway : Underway json store writes threads)
    (here : threads.locals[i]? = some task) : task.write.id ∈ writes.map MeetingsWrite.id :=
  List.mem_of_getElem? (underway.write_id here)

theorem Underway.quiet (underway : Underway json store writes threads) {own own' : WriteTask}
    (turned : Threads.Turn (WriteTask.turn json) threads i own own' next) (same : next.shared = threads.shared)
    (progressed : Progressed json threads.shared own') : Underway json store writes next where
  calls := by rw [turned.map_locals WriteTask.write (turn_write turned.takes), underway.calls]
  progressed := by
    refine turned.each (P := fun checkpointer _ task => Progressed json checkpointer task) ?_ ?_ <;> rw [same]
    · exact progressed
    · exact fun j other _ found => underway.progressed j other found
  idle := by
    rw [same]
    exact underway.idle
  once := by
    rw [same]
    exact underway.once

theorem Underway.saved (underway : Underway json store writes threads)
    (distinct : (writes.map MeetingsWrite.id).Nodup) (unreserved : indexRun ∉ writes.map MeetingsWrite.id)
    {own own' : WriteTask} (turned : Threads.Turn (WriteTask.turn json) threads i own own' next)
    {superStep : Nat} {label : String} {values : Values} {now : Int}
    (saves : next.shared = threads.shared.save (snapshot own.write.id superStep label values now))
    (progressed : Progressed json next.shared own') : Underway json store writes next := by
  have mine := underway.id_mem turned.before
  have kept : ∀ id, own.write.id ≠ id →
      next.shared.latest workflow id = threads.shared.latest workflow id := by
    intro id ne
    rw [saves, latest_saved_other ne]
  have index : loadIndex next.shared = loadIndex threads.shared :=
    loadIndex_congr (kept indexRun fun same => unreserved (same ▸ mine))
  refine ⟨?_, ?_, ?_, ?_⟩
  · rw [turned.map_locals WriteTask.write (turn_write turned.takes), underway.calls]
  · refine turned.each (P := fun checkpointer _ task => Progressed json checkpointer task) progressed ?_
    intro j other ne found
    exact (underway.progressed j other found).kept
      (kept other.write.id (underway.id_ne distinct ne turned.before found)) (by rw [index])
  · intro id outside
    rw [index, get_congr (kept id fun same => outside (same ▸ mine))]
    exact underway.idle id outside
  · rw [index]
    exact underway.once

theorem Underway.indexed (underway : Underway json store writes threads)
    (distinct : (writes.map MeetingsWrite.id).Nodup) (unreserved : indexRun ∉ writes.map MeetingsWrite.id)
    (free : store.get indexRun = none) {own own' : WriteTask}
    (turned : Threads.Turn (WriteTask.turn json) threads i own own' next) {ids : List String} {superStep : Nat}
    {label : String} {now : Int} (later : threads.shared.savedStep workflow indexRun ≤ superStep)
    (saves : next.shared = threads.shared.save (snapshot indexRun superStep label (indexValues ids) now))
    (reindexed : own.write.Reindexed (loadIndex threads.shared) ids)
    (progressed : Progressed json next.shared own') : Underway json store writes next := by
  have mine := underway.id_mem turned.before
  have kept : ∀ id, indexRun ≠ id →
      next.shared.latest workflow id = threads.shared.latest workflow id := by
    intro id ne
    rw [saves, latest_saved_other ne]
  have index : loadIndex next.shared = ids := by rw [saves, loadIndex_saved later]
  refine ⟨?_, ?_, ?_, ?_⟩
  · rw [turned.map_locals WriteTask.write (turn_write turned.takes), underway.calls]
  · refine turned.each (P := fun checkpointer _ task => Progressed json checkpointer task) progressed ?_
    intro j other ne found
    have apart := underway.id_ne distinct ne turned.before found
    refine (underway.progressed j other found).kept (kept other.write.id ?_) ?_
    · exact fun same => unreserved (same ▸ underway.id_mem found)
    · rw [index, reindexed.other other.write.id apart.symm]
  · intro id outside
    rw [index, reindexed.other id fun same => outside (same ▸ mine)]
    refine ⟨?_, (underway.idle id outside).2⟩
    by_cases reserved : indexRun = id
    · rw [← reserved, saves, get_indexRun_saved later, free]
    · rw [get_congr (kept id reserved)]
      exact (underway.idle id outside).1
  · rw [index]
    exact reindexed.nodup underway.once

theorem Underway.step (underway : Underway json store writes threads)
    (distinct : (writes.map MeetingsWrite.id).Nodup) (unreserved : indexRun ∉ writes.map MeetingsWrite.id)
    (free : store.get indexRun = none)
    (readBack : ∀ analysis, MeetingsWrite.put analysis ∈ writes → json.RoundTrips analysis)
    (guard : IndexUndisturbed threads i) {own own' : WriteTask}
    (turned : Threads.Turn (WriteTask.turn json) threads i own own' next) :
    Underway json store writes next := by
  have before := underway.progressed i own turned.before
  have takes := turned.takes
  have member : own.write ∈ writes := by
    rw [← underway.calls]
    exact List.mem_map_of_mem (List.mem_of_getElem? turned.before)
  have readBack' : ∀ analysis, own.write = .put analysis → json.RoundTrips analysis := by
    intro analysis is_put
    exact readBack analysis (is_put ▸ member)
  rw [WriteTask.turn] at takes
  rw [Progressed] at before
  cases phase : own.phase with
  | called =>
    obtain ⟨values, encoded⟩ := MeetingsWrite.values_ok readBack'
    simp only [phase, encoded, Option.some_inj, Prod.mk.injEq] at takes
    refine underway.quiet turned takes.2.symm ?_
    rw [← takes.1]
    exact ⟨encoded, savedStep_le_nextStep _ _⟩
  | stepped values superStep =>
    simp only [phase, Option.some_inj, Prod.mk.injEq] at takes before
    refine underway.saved distinct unreserved turned takes.2.symm ?_
    rw [← takes.1, ← takes.2]
    exact MeetingsWrite.get_saved readBack' before.1 before.2
  | saved =>
    simp only [phase] at takes before
    cases changed : own.write.reindex (loadIndex threads.shared) with
    | none =>
      simp only [changed, Option.some_inj, Prod.mk.injEq] at takes
      refine underway.quiet turned takes.2.symm ?_
      rw [← takes.1]
      exact ⟨before, (MeetingsWrite.reindexed_of_none changed).own⟩
    | some ids =>
      simp only [changed, Option.some_inj, Prod.mk.injEq] at takes
      refine underway.quiet turned takes.2.symm ?_
      rw [← takes.1]
      exact before
  | indexing ids =>
    simp only [phase, Option.some_inj, Prod.mk.injEq] at takes before
    refine underway.quiet turned takes.2.symm ?_
    rw [← takes.1]
    exact before
  | indexStepped ids superStep =>
    simp only [phase, Option.some_inj, Prod.mk.injEq] at takes before
    obtain ⟨changed, next_⟩ := guard own turned.before ids superStep phase
    have reindexed := MeetingsWrite.reindexed_of_some changed
    have later : threads.shared.savedStep workflow indexRun ≤ superStep := by
      rw [next_]
      exact savedStep_le_nextStep _ _
    refine underway.indexed distinct unreserved free turned later takes.2.symm reindexed ?_
    have apart : indexRun ≠ own.write.id := fun same => unreserved (same ▸ underway.id_mem turned.before)
    rw [← takes.1, ← takes.2]
    refine ⟨?_, ?_⟩
    · rw [get_congr (latest_saved_other apart)]
      exact before
    · rw [loadIndex_saved later]
      exact reindexed.own
  | returned result =>
    simp only [phase] at takes
    cases takes

end Turns

structure MeetingsStores (json : SerdeValue MeetingAnalysis) where
  checkpointer : InMemoryCheckpointer
  inMemory : InMemoryMeetingsStore
  represents : Represents json checkpointer inMemory

def MeetingsStores.new (json : SerdeValue MeetingAnalysis) : MeetingsStores json where
  checkpointer := []
  inMemory := Table.empty
  represents := Represents.empty json

section Runs

variable {json : SerdeValue MeetingAnalysis}

theorem underway_start (stores : MeetingsStores json) (writes : List (MeetingsWrite × Int × Int)) :
    Underway json stores.inMemory (writes.map Prod.fst) (startWrites stores.checkpointer writes) where
  calls := by simp [startWrites, Function.comp_def]
  progressed := by
    intro i task found
    rw [startWrites, List.getElem?_map, Option.map_eq_some_iff] at found
    obtain ⟨entry, -, rfl⟩ := found
    trivial
  idle id _ := ⟨stores.represents.get id, stores.represents.listed id⟩
  once := stores.represents.once

theorem Underway.represents {store : InMemoryMeetingsStore} {writes order : List MeetingsWrite}
    {last : Threads InMemoryCheckpointer WriteTask} (underway : Underway json store writes last)
    (distinct : (writes.map MeetingsWrite.id).Nodup) (unreserved : indexRun ∉ writes.map MeetingsWrite.id)
    (free : store.get indexRun = none) (same : order.Perm writes)
    (returned : ∀ task ∈ last.locals, ∃ result, task.phase = .returned result) :
    Represents json last.shared (order.foldl MeetingsWrite.inMemory store) := by
  have ids := same.map MeetingsWrite.id
  obtain ⟨called, others⟩ := MeetingsWrite.get_inMemory order store (ids.nodup_iff.mpr distinct)
  have done : ∀ write ∈ writes, get json last.shared write.id = .ok write.result ∧
      (write.id ∈ loadIndex last.shared ↔ write.result.isSome) := by
    intro write member
    rw [← underway.calls] at member
    obtain ⟨task, there, rfl⟩ := List.mem_map.mp member
    obtain ⟨i, found⟩ := List.mem_iff_getElem?.mp there
    obtain ⟨result, phase⟩ := returned task there
    have progressed := underway.progressed i task found
    rw [Progressed, phase] at progressed
    exact progressed
  have each : ∀ id, get json last.shared id = .ok ((order.foldl MeetingsWrite.inMemory store).get id) ∧
      (id ∈ loadIndex last.shared ↔ ((order.foldl MeetingsWrite.inMemory store).get id).isSome) := by
    intro id
    by_cases member : id ∈ writes.map MeetingsWrite.id
    · obtain ⟨write, inside, rfl⟩ := List.mem_map.mp member
      rw [called write (same.mem_iff.mpr inside)]
      exact done write inside
    · rw [others id fun inside => member (ids.mem_iff.mp inside)]
      exact underway.idle id member
  refine ⟨fun id => (each id).1, fun id => (each id).2, underway.once, ?_⟩
  rw [others indexRun fun inside => unreserved (ids.mem_iff.mp inside), free]

/-- Calls on different ids, none of them the id of the index: `get` and `list` answer as the table does after the
calls in any order, in a run in which every index that is saved is computed from the stored one. -/
theorem stores_agree (stores : MeetingsStores json) (writes : List (MeetingsWrite × Int × Int))
    (order : List MeetingsWrite) (same : order.Perm (writes.map Prod.fst))
    (distinct : ((writes.map Prod.fst).map MeetingsWrite.id).Nodup)
    (unreserved : indexRun ∉ (writes.map Prod.fst).map MeetingsWrite.id)
    (readBack : ∀ analysis, MeetingsWrite.put analysis ∈ writes.map Prod.fst → json.RoundTrips analysis)
    (schedule : List Nat) (last : Threads InMemoryCheckpointer WriteTask)
    (undisturbed : Threads.Along (WriteTask.turn json) IndexUndisturbed
      (startWrites stores.checkpointer writes) schedule)
    (ran : Threads.run (WriteTask.turn json) (startWrites stores.checkpointer writes) schedule = some last)
    (returned : ∀ task ∈ last.locals, ∃ result, task.phase = .returned result) :
    (∀ id, get json last.shared id = .ok ((order.foldl MeetingsWrite.inMemory stores.inMemory).get id)) ∧
      list json last.shared = .ok (order.foldl MeetingsWrite.inMemory stores.inMemory).list := by
  have free := stores.represents.unreserved
  have underway : Underway json stores.inMemory (writes.map Prod.fst) last :=
    Threads.run_invariant IndexUndisturbed (Underway json stores.inMemory (writes.map Prod.fst))
      (fun _ _ _ _ _ underway guard turned =>
        underway.step distinct unreserved free readBack guard turned)
      schedule _ (underway_start stores writes) undisturbed ran
  have represents := underway.represents distinct unreserved free same returned
  exact ⟨represents.get, represents.list⟩

end Runs

def millis (n : Int) : Value :=
  .number (if 0 ≤ n then .posInt n.toNat.toUInt64 else .negInt (Int64.ofInt n))

-- An analysis without rows, as `serde_json` writes it.
def newAnalysisJson : SerdeValue MeetingAnalysis where
  toValue a := .ok (.object [
    ("actions", .array []),
    ("attendees", .array []),
    ("generated_at_ms", millis a.generatedAtMs),
    ("id", .string a.id),
    ("notes", .array []),
    ("source_transcript_id", .string a.sourceTranscriptId),
    ("state", .string "pending"),
    ("summary_levels", .object [("segments", .array [])]),
    ("updated_at_ms", millis a.updatedAtMs)])
  fromValue value :=
    match (value.get "id").bind Value.asStr, (value.get "generated_at_ms").bind Value.asI64 with
    | some id, some now => .ok (MeetingAnalysis.new id now)
    | _, _ => .error "missing field"

def twoPuts : List (MeetingsWrite × Int × Int) :=
  [(.put (MeetingAnalysis.new "a" 0), 1, 2), (.put (MeetingAnalysis.new "b" 0), 3, 4)]

def startTwoPuts : Threads InMemoryCheckpointer WriteTask := startWrites [] twoPuts

theorem twoPuts_agree :
    ∃ last, Threads.run (WriteTask.turn newAnalysisJson) startTwoPuts [0, 1, 0, 1, 0, 0, 0, 1, 1, 1] = some last ∧
      (∀ id, get newAnalysisJson last.shared id =
        .ok (((twoPuts.map Prod.fst).foldl MeetingsWrite.inMemory Table.empty).get id)) ∧
      list newAnalysisJson last.shared =
        .ok ((twoPuts.map Prod.fst).foldl MeetingsWrite.inMemory Table.empty).list := by
  refine ⟨_, rfl, stores_agree (.new newAnalysisJson) twoPuts (twoPuts.map Prod.fst) (.refl _) (by decide)
    (by decide) ?_ [0, 1, 0, 1, 0, 0, 0, 1, 1, 1] _ ?_ rfl ?_⟩
  · intro analysis member
    rcases List.mem_pair.mp member with is_put | is_put <;> (cases is_put; exact ⟨_, rfl, rfl⟩)
  · refine Threads.along_cons ?_ rfl (Threads.along_cons ?_ rfl (Threads.along_cons ?_ rfl
      (Threads.along_cons ?_ rfl (Threads.along_cons ?_ rfl (Threads.along_cons ?_ rfl
      (Threads.along_cons ?_ rfl (Threads.along_cons ?_ rfl (Threads.along_cons ?_ rfl
      (Threads.along_cons ?_ rfl trivial))))))))) <;>
      rintro task ⟨⟩ ids superStep ⟨⟩ <;> exact ⟨rfl, rfl⟩
  · intro task member
    rcases List.mem_pair.mp member with rfl | rfl <;> exact ⟨_, rfl⟩

/-- Two calls read the index before either has saved it, and the later one drops the id of the other. An analysis
under the id of the index does not come back. -/
theorem index_disturbed :
    (∃ last, Threads.run (WriteTask.turn newAnalysisJson) startTwoPuts [0, 0, 0, 1, 1, 1, 0, 0, 1, 1] = some last ∧
      (∀ task ∈ last.locals, task.phase = .returned (.ok ())) ∧
      ∀ order : List MeetingsWrite, order.Perm (twoPuts.map Prod.fst) →
        list newAnalysisJson last.shared ≠ .ok (order.foldl MeetingsWrite.inMemory Table.empty).list) ∧
    ∃ last, Threads.run (WriteTask.turn newAnalysisJson)
        (startWrites [] [(.put (MeetingAnalysis.new indexRun 0), 1, 2)]) [0, 0, 0, 0, 0] = some last ∧
      (∀ task ∈ last.locals, task.phase = .returned (.ok ())) ∧
      get newAnalysisJson last.shared indexRun ≠
        .ok ((MeetingsWrite.put (MeetingAnalysis.new indexRun 0)).inMemory Table.empty |>.get indexRun) := by
  refine ⟨⟨_, rfl, ?_, fun order same listed => ?_⟩, _, rfl, ?_, fun found => ?_⟩
  · intro task member
    rcases List.mem_pair.mp member with rfl | rfl <;> rfl
  · have one := Except.ok.inj listed
    have short := congrArg List.length one
    rw [InMemoryMeetingsStore.list, (orderBy_perm _ _).length_eq, (orderBy_perm _ _).length_eq] at short
    rcases List.perm_pair.mp same with rfl | rfl <;> cases short
  · intro task member
    rw [List.mem_singleton.mp member]
  · cases found

end AtomrAgents
