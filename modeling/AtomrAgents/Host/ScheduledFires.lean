import AtomrAgents.Host.Scheduler

set_option autoImplicit false

namespace AtomrAgents

open Shared

abbrev SchedulerLog := List (SchedulerOp × Option SchedulerReturn)

-- What a call does to the last start of an entry: its registration, or its last fire since.
def lastStartStep (id : String) (last : Option (CronEntry × Nat)) :
    SchedulerOp × Option SchedulerReturn → Option (CronEntry × Nat)
  | (.register entry now, some (.registered (.ok _))) => if entry.id = id then some (entry, now) else last
  | (.remove removed, _) => if removed = id then none else last
  | (.fireDue _, some (.fired results)) =>
    match results.find? fun fire => fire.cronId = id with
    | some fire => last.map fun start => (start.1, fire.firedAtMs)
    | none => last
  | _ => last

def lastStart (id : String) (log : SchedulerLog) : Option (CronEntry × Nat) :=
  log.foldl (lastStartStep id) none

def Punctual (log : SchedulerLog) : Option SchedulerReturn → Prop
  | some (.fired results) => ∀ fire ∈ results, ∃ entry start secs,
      lastStart fire.cronId log = some (entry, start) ∧ ExactInterval entry.expression secs ∧
        start + secs * 1000 ≤ fire.firedAtMs
  | some _ => True
  | none => False

def CronEntry.Fits (entry : CronEntry) (now : Nat) : Prop :=
  SafeExpression entry.expression ∧ ∀ secs, ExactInterval entry.expression secs → now + secs * 1000 < 2 ^ 64

def SchedulerOp.Fits (inner : SchedulerInner) : SchedulerOp → Prop
  | .register entry now => entry.Fits now
  | .remove _ => True
  | .fireDue now => ∀ (id : String) (due : Nat) (entry : CronEntry), inner.nextDueMs[id]? = some due → due ≤ now →
      inner.entries[id]? = some entry → entry.enabled → entry.Fits now

def SchedulerInner.Scheduled (inner : SchedulerInner) (log : SchedulerLog) : Prop :=
  ∀ id due, inner.nextDueMs[id]? = some due → ∃ entry start secs, inner.entries[id]? = some entry ∧
    lastStart id log = some (entry, start) ∧ ExactInterval entry.expression secs ∧ due = start + secs * 1000

variable {checks : Bool} {inner : SchedulerInner} {log : SchedulerLog}

theorem lastStart_append (id : String) (log : SchedulerLog) (entry : SchedulerOp × Option SchedulerReturn) :
    lastStart id (log ++ [entry]) = lastStartStep id (lastStart id log) entry := by
  rw [lastStart, List.foldl_append]
  rfl

theorem dueAfter_of_fits {now secs : Nat} (fits : now + secs * 1000 < 2 ^ 64) :
    SchedulerInner.dueAfter checks now secs = some (now + secs * 1000) := by
  have ms : secs * 1000 < 2 ^ 64 := by omega
  simp [SchedulerInner.dueAfter, checkedU64_of_lt ms, checkedU64_of_lt fits]

theorem CronEntry.Fits.parses {entry : CronEntry} {now secs : Nat} (fits : entry.Fits now)
    (exact : ExactInterval entry.expression secs) :
    parseExpression checks entry.expression = some (.ok secs) := by
  have bound := fits.2 secs exact
  exact parseExpression_exact exact (by omega) checks

-- What a loop over due ids fires, and what it leaves: the entries that fired are due an interval later.
structure FireEffect (now : Nat) (ids : List String) (inner after : SchedulerInner) (fired : List CronFireResult) :
    Prop where
  entries : after.entries = inner.entries
  source : ∀ fire ∈ fired, fire.cronId ∈ ids ∧ fire.firedAtMs = now
  kept : ∀ id, id ∉ fired.map CronFireResult.cronId → after.nextDueMs[id]? = inner.nextDueMs[id]?
  moved : ∀ id ∈ fired.map CronFireResult.cronId, ∃ entry secs, inner.entries[id]? = some entry ∧
    ExactInterval entry.expression secs ∧ after.nextDueMs[id]? = some (now + secs * 1000)

theorem FireEffect.skip {now : Nat} {id : String} {ids : List String} {after : SchedulerInner}
    {fired : List CronFireResult} (effect : FireEffect now ids inner after fired) :
    FireEffect now (id :: ids) inner after fired where
  entries := effect.entries
  source fire member := ⟨List.mem_cons_of_mem id (effect.source fire member).1, (effect.source fire member).2⟩
  kept := effect.kept
  moved := effect.moved

theorem FireEffect.fire {now secs : Nat} {id : String} {ids : List String} {after : SchedulerInner}
    {fired : List CronFireResult} {entry : CronEntry} {fire : CronFireResult} (fresh : id ∉ ids)
    (found : inner.entries[id]? = some entry) (exact : ExactInterval entry.expression secs)
    (own : fire.cronId = id) (atNow : fire.firedAtMs = now)
    (effect : FireEffect now ids
      { inner with nextDueMs := inner.nextDueMs.insert id (now + secs * 1000) } after fired) :
    FireEffect now (id :: ids) inner after (fire :: fired) where
  entries := effect.entries
  source other member := by
    rcases List.mem_cons.mp member with rfl | later
    · exact ⟨own ▸ List.mem_cons_self, atNow⟩
    · exact ⟨List.mem_cons_of_mem id (effect.source other later).1, (effect.source other later).2⟩
  kept other missing := by
    rw [List.map_cons, List.mem_cons, not_or, own] at missing
    rw [effect.kept other missing.2, Std.ExtTreeMap.getElem?_insert, if_neg]
    exact fun same => missing.1 (compare_eq_iff_eq.mp same).symm
  moved other member := by
    have unfired : id ∉ fired.map CronFireResult.cronId := by
      rintro again
      obtain ⟨later, inside, same⟩ := List.mem_map.mp again
      exact fresh (same ▸ (effect.source later inside).1)
    rw [List.map_cons, List.mem_cons, own] at member
    rcases member with rfl | later
    · exact ⟨entry, secs, found, exact, by rw [effect.kept _ unfired, Std.ExtTreeMap.getElem?_insert_self]⟩
    · exact effect.moved other later

theorem fireEach_effect (now : Nat) (ids : List String) (fired : List CronFireResult) (inner : SchedulerInner)
    (distinct : ids.Nodup)
    (fits : ∀ id ∈ ids, ∀ entry, inner.entries[id]? = some entry → entry.enabled →
      entry.Fits now ∧ ∃ secs, ExactInterval entry.expression secs) :
    ∃ more after, SchedulerInner.fireEach checks now ids fired inner = (some (fired ++ more), after) ∧
      FireEffect now ids inner after more := by
  induction ids generalizing fired inner with
  | nil =>
    refine ⟨[], inner, by rw [SchedulerInner.fireEach, List.append_nil], rfl, ?_, fun _ _ => rfl, ?_⟩
    · simp
    · simp
  | cons id ids ih =>
    obtain ⟨fresh, distinct⟩ := List.nodup_cons.mp distinct
    have later := fun other member => fits other (List.mem_cons_of_mem id member)
    rw [SchedulerInner.fireEach]
    cases found : inner.entries[id]? with
    | none =>
      obtain ⟨more, after, result, effect⟩ := ih fired inner distinct later
      exact ⟨more, after, result, effect.skip⟩
    | some entry =>
      cases enabled : entry.enabled with
      | false =>
        simp only [enabled, Bool.false_eq_true, if_false]
        obtain ⟨more, after, result, effect⟩ := ih fired inner distinct later
        exact ⟨more, after, result, effect.skip⟩
      | true =>
        obtain ⟨safe, secs, exact⟩ := fits id List.mem_cons_self entry found enabled
        simp only [enabled, if_true, safe.parses exact, Except.toOption, Option.getD_some,
          dueAfter_of_fits (safe.2 secs exact)]
        obtain ⟨more, after, result, effect⟩ := ih
          (fired ++ [{ cronId := id, firedAtMs := now, call := entry.call, input := entry.input }])
          { inner with nextDueMs := inner.nextDueMs.insert id (now + secs * 1000) } distinct later
        let fire : CronFireResult := { cronId := id, firedAtMs := now, call := entry.call, input := entry.input }
        refine ⟨fire :: more, after, ?_, effect.fire fresh found exact rfl rfl⟩
        rw [result, List.append_assoc]
        rfl

theorem mem_dueIds {now : Nat} {id : String} :
    id ∈ inner.dueIds now ↔ ∃ due, inner.nextDueMs[id]? = some due ∧ due ≤ now := by
  simp [SchedulerInner.dueIds, Std.ExtTreeMap.mem_toList_iff_getElem?_eq_some]

theorem nodup_dueIds (inner : SchedulerInner) (now : Nat) : (inner.dueIds now).Nodup := by
  have distinct : inner.nextDueMs.toList.Pairwise fun a b => a.1 ≠ b.1 :=
    Std.ExtTreeMap.distinct_keys_toList.imp fun apart same => apart (compare_eq_iff_eq.mpr same)
  rw [SchedulerInner.dueIds, List.Nodup, List.pairwise_map]
  exact distinct.filter _

theorem scheduled_new : SchedulerInner.new.Scheduled [] := by
  intro id due found
  simp [SchedulerInner.new] at found

theorem register_scheduled {entry : CronEntry} {now : Nat} (scheduled : inner.Scheduled log)
    (fits : entry.Fits now) :
    Punctual log (inner.called checks (.register entry now)).1 ∧
      (inner.called checks (.register entry now)).2.Scheduled
        (log ++ [(.register entry now, (inner.called checks (.register entry now)).1)]) := by
  obtain ⟨result, parsed, exact⟩ := parses_of_safe fits.1 checks
  cases result with
  | error e =>
    simp only [SchedulerInner.called, SchedulerInner.register, parsed, Option.map_some]
    refine ⟨trivial, fun id due found => ?_⟩
    rw [lastStart_append]
    exact scheduled id due found
  | ok secs =>
    have interval := exact secs rfl
    simp only [SchedulerInner.called, SchedulerInner.register, parsed, dueAfter_of_fits (fits.2 secs interval),
      Option.map_some]
    refine ⟨trivial, fun id due found => ?_⟩
    simp only [Std.ExtTreeMap.getElem?_insert, compare_eq_iff_eq] at found ⊢
    rw [lastStart_append, lastStartStep]
    by_cases same : entry.id = id
    · rw [if_pos same, Option.some_inj] at found
      rw [if_pos same, if_pos same]
      exact ⟨entry, now, secs, rfl, rfl, interval, found.symm⟩
    · rw [if_neg same] at found
      rw [if_neg same, if_neg same]
      exact scheduled id due found

theorem remove_scheduled (id : String) (scheduled : inner.Scheduled log) :
    (inner.remove id).2.Scheduled (log ++ [(.remove id, some (.removed (inner.remove id).1))]) := by
  intro other due found
  simp only [SchedulerInner.remove, Std.ExtTreeMap.getElem?_erase, compare_eq_iff_eq] at found ⊢
  rw [lastStart_append, lastStartStep]
  by_cases same : id = other
  · rw [if_pos same] at found
    cases found
  · rw [if_neg same] at found
    rw [if_neg same, if_neg same]
    exact scheduled other due found

theorem fireDue_scheduled (checks : Bool) {now : Nat} (scheduled : inner.Scheduled log)
    (fits : (SchedulerOp.fireDue now).Fits inner) :
    ∃ fired after, inner.fireDue checks now = (some fired, after) ∧ Punctual log (some (.fired fired)) ∧
      after.Scheduled (log ++ [(.fireDue now, some (.fired fired))]) := by
  have startable : ∀ id ∈ inner.dueIds now, ∀ entry, inner.entries[id]? = some entry → entry.enabled →
      entry.Fits now ∧ ∃ secs, ExactInterval entry.expression secs := by
    intro id member entry found enabled
    obtain ⟨due, next, reached⟩ := mem_dueIds.mp member
    obtain ⟨scheduledEntry, -, secs, same, -, exact, -⟩ := scheduled id due next
    obtain rfl : scheduledEntry = entry := Option.some_inj.mp (same.symm.trans found)
    exact ⟨fits id due _ next reached found enabled, secs, exact⟩
  obtain ⟨fired, after, result, effect⟩ := fireEach_effect now (inner.dueIds now) [] inner (nodup_dueIds inner now)
    startable
  refine ⟨fired, after, result, ?_, ?_⟩
  · intro fire member
    obtain ⟨due, atNow⟩ := effect.source fire member
    obtain ⟨due, next, reached⟩ := mem_dueIds.mp due
    obtain ⟨entry, start, secs, -, last, exact, rfl⟩ := scheduled _ due next
    exact ⟨entry, start, secs, last, exact, atNow ▸ reached⟩
  · intro id due found
    rw [lastStart_append, lastStartStep, effect.entries]
    by_cases fires : id ∈ fired.map CronFireResult.cronId
    · obtain ⟨entry, secs, known, exact, moved⟩ := effect.moved id fires
      obtain ⟨fire, member, rfl⟩ := List.mem_map.mp fires
      obtain ⟨old, next, reached⟩ := mem_dueIds.mp (effect.source fire member).1
      obtain ⟨scheduledEntry, start, -, same, last, -, -⟩ := scheduled _ old next
      obtain rfl : scheduledEntry = entry := Option.some_inj.mp (same.symm.trans known)
      cases first : fired.find? fun other => other.cronId = fire.cronId with
      | none =>
        have different := List.find?_eq_none.mp first fire member
        simp at different
      | some other =>
        have atNow := (effect.source other (List.mem_of_find?_eq_some first)).2
        refine ⟨_, now, secs, known, ?_, exact, Option.some_inj.mp (found.symm.trans moved)⟩
        simp only [last, Option.map_some, atNow]
    · have missing : fired.find? (fun other => other.cronId = id) = none := by
        rw [List.find?_eq_none]
        intro other member same
        exact fires (List.mem_map.mpr ⟨other, member, by simpa using same⟩)
      rw [effect.kept id fires] at found
      simp only [missing]
      exact scheduled id due found

theorem called_scheduled (op : SchedulerOp) (scheduled : inner.Scheduled log) (fits : op.Fits inner) :
    Punctual log (inner.called checks op).1 ∧
      (inner.called checks op).2.Scheduled (log ++ [(op, (inner.called checks op).1)]) := by
  cases op with
  | register entry now => exact register_scheduled scheduled fits
  | remove id => exact ⟨trivial, remove_scheduled id scheduled⟩
  | fireDue now =>
    obtain ⟨fired, after, result, punctual, kept⟩ := fireDue_scheduled checks scheduled fits
    rw [SchedulerInner.called, result]
    exact ⟨punctual, kept⟩

def PunctualRun (checks : Bool) (ops : List SchedulerOp) : Prop :=
  ∀ front op back, ops = front ++ op :: back →
    Punctual (Operations.trace (SchedulerInner.called checks) .new front)
      ((Operations.final (SchedulerInner.called checks) .new front).called checks op).1

theorem scheduled_along (checks : Bool) (inner : SchedulerInner) (log : SchedulerLog) (ops : List SchedulerOp)
    (scheduled : inner.Scheduled log)
    (along : Operations.Along (SchedulerInner.called checks) (fun inner op => op.Fits inner) inner ops) :
    (Operations.final (SchedulerInner.called checks) inner ops).Scheduled
      (log ++ Operations.trace (SchedulerInner.called checks) inner ops) := by
  induction ops generalizing inner log with
  | nil =>
    rw [Operations.trace, List.append_nil]
    exact scheduled
  | cons op ops ih =>
    have next := ih _ _ (called_scheduled op scheduled along.1).2 along.2
    rw [List.append_assoc] at next
    exact next

/-- Parsing is total and exact exactly on the safe expressions, and a run whose intervals fit fires nothing early. -/
theorem intervals_honoured (expr : String) (checks : Bool) (ops : List SchedulerOp) :
    (ParsesExactly expr ↔ SafeExpression expr) ∧
      (Operations.Along (SchedulerInner.called checks) (fun inner op => op.Fits inner) .new ops →
        PunctualRun checks ops) := by
  refine ⟨parsesExactly_iff expr, ?_⟩
  rintro along front op back rfl
  obtain ⟨before, fits, -⟩ := (Operations.along_append _ _ _ _).mp along
  have scheduled := scheduled_along checks .new [] front scheduled_new before
  exact (called_scheduled op scheduled fits).1

theorem registered_entries {entry registered : CronEntry} {now : Nat} {id : String}
    (found : (inner.called checks (.register registered now)).2.entries[id]? = some entry) :
    entry = registered ∨ inner.entries[id]? = some entry := by
  simp only [SchedulerInner.called, SchedulerInner.register] at found
  split at found
  next => exact .inr found
  next => exact .inr found
  next =>
    split at found
    next => exact .inr found
    next =>
      rw [Std.ExtTreeMap.getElem?_insert] at found
      split at found
      next => exact .inl (Option.some_inj.mp found).symm
      next => exact .inr found

def everyFive : CronEntry where
  id := "job"
  expression := "every:5s"
  call := .null
  input := .null
  enabled := true

theorem everyFive_fits {now : Nat} (early : now < 2 ^ 63) : everyFive.Fits now := by
  have parsed : ∀ checks, parseExpression checks "every:5s" = some (.ok 5) := by
    intro checks
    cases checks <;> decide
  have exact : ExactInterval "every:5s" 5 := ⟨⟨"5", 's', 5, 1, rfl, by decide, rfl, rfl⟩, by decide⟩
  refine ⟨safe_of_parses fun checks => ⟨_, parsed checks, fun secs ok => ?_⟩, fun secs interval => ?_⟩
  · cases ok
    exact exact
  · rw [interval.eq_of_parses (parsed true)]
    omega

theorem five_honoured : PunctualRun true [.register everyFive 1000, .fireDue 6000] := by
  have fits : ∀ {now : Nat}, now < 2 ^ 63 → everyFive.Fits now := everyFive_fits
  refine (intervals_honoured everyFive.expression true _).2 ⟨fits (by decide), ?_, trivial⟩
  intro id due entry _ _ found _
  rcases registered_entries found with rfl | before
  · exact fits (by decide)
  · simp [SchedulerInner.new] at before

theorem parse_panics : ¬ ParsesExactly "every:" := by
  intro parses
  obtain ⟨result, returned, -⟩ := parses true
  rw [parseExpression_empty] at returned
  cases returned

end AtomrAgents
