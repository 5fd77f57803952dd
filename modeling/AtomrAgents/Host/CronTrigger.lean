import AtomrAgents.Shared.NextAfter
import Mathlib.Data.Finset.Basic

set_option autoImplicit false

/-! The next fire is the next occurrence of the schedule on a trading day. The clock and the schedule are what
the trigger sees of the `chrono` and the `cron` crates. -/

namespace AtomrAgents

open Shared

inductive Weekday where
  | mon
  | tue
  | wed
  | thu
  | fri
  | sat
  | sun
  deriving DecidableEq

def Weekday.index : Weekday → Fin 7
  | .mon => 0
  | .tue => 1
  | .wed => 2
  | .thu => 3
  | .fri => 4
  | .sat => 5
  | .sun => 6

-- `instant` says which milliseconds `timestamp_millis_opt` takes, `dayEnd` is 23:59:59 of a date at an offset.
structure Chrono (Offset Date : Type) where
  eastOpt : Int → Option Offset
  instant : Int → Bool
  dateNaive : Offset → Int → Date
  weekday : Date → Weekday
  dayEnd : Offset → Date → Option Int

structure TradingCalendar (Date : Type) where
  holidays : Finset Date
  businessDays : Fin 7 → Bool

-- `after` is the first of the occurrences after an instant.
structure CronExpr (Offset : Type) where
  after : Offset → Int → Option Int

structure CronTrigger (Offset Date : Type) where
  id : String
  schedule : CronExpr Offset
  calendar : Option (TradingCalendar Date)
  tzOffsetMinutes : Int32
  enabled : Bool

variable {Offset Date : Type} [LinearOrder Date] (chrono : Chrono Offset Date)

namespace TradingCalendar

def isTradingDay (calendar : TradingCalendar Date) (date : Date) : Bool :=
  calendar.businessDays (chrono.weekday date).index && date ∉ calendar.holidays

end TradingCalendar

def CronExpr.nextAfterMs (schedule : CronExpr Offset) (fromMs : Int) (offset : Offset) : Option Int :=
  if chrono.instant fromMs then schedule.after offset fromMs else none

namespace CronTrigger

variable (trigger : CronTrigger Offset Date) (offset : Offset)

def search : Nat → Int → Option Int
  | 0, _ => none
  | turns + 1, cursor =>
    match trigger.schedule.nextAfterMs chrono cursor offset with
    | none => none
    | some next =>
      match trigger.calendar with
      | none => some next
      | some calendar =>
        if ¬ chrono.instant next then none
        else if calendar.isTradingDay chrono (chrono.dateNaive offset next) then some next
        else
          match chrono.dayEnd offset (chrono.dateNaive offset next) with
          | none => none
          | some dayEnd => search turns (if dayEnd ≤ next then next + 1 else dayEnd)

-- The product is one of `i32`s and wraps around.
def nextFireAfter (fromUnixMs : Int) : Option Int :=
  if ¬ trigger.enabled then none
  else
    match chrono.eastOpt (trigger.tzOffsetMinutes * 60).toInt with
    | none => none
    | some offset => trigger.search chrono offset 4096 fromUnixMs

def TradesOn (ms : Int) : Prop :=
  ∀ calendar ∈ trigger.calendar, calendar.isTradingDay chrono (chrono.dateNaive offset ms)

def candidates (count : Nat) (ms : Int) : List Int := visited (trigger.schedule.after offset) count ms

-- Dates go on with the instants, and 23:59:59 is on its own date.
structure Keeps : Prop where
  convex : ∀ a b c, chrono.instant a → chrono.instant b → a ≤ c → c ≤ b → chrono.instant c
  monotone : ∀ a b, chrono.instant a → chrono.instant b → a ≤ b → chrono.dateNaive offset a ≤ chrono.dateNaive offset b
  ends : ∀ a e, chrono.instant a → chrono.dayEnd offset (chrono.dateNaive offset a) = some e →
    chrono.instant e ∧ chrono.dateNaive offset e = chrono.dateNaive offset a

-- `after` gives the occurrences in their order, from the first one after an instant. They are whole seconds.
structure Schedules (occurs : Int → Prop) : Prop where
  least : ∀ t, chrono.instant t → ∀ n, trigger.schedule.after offset t = some n ↔ Next occurs t n
  instants : ∀ n, occurs n → chrono.instant n
  seconds : ∀ n, occurs n → (1000 : Int) ∣ n
  ended : ∀ n, occurs n → (chrono.dayEnd offset (chrono.dateNaive offset n)).isSome

variable {chrono trigger offset} {occurs : Int → Prop} {cursor next dayEnd m : Int}

theorem skipped (keeps : Keeps chrono offset) (schedules : trigger.Schedules chrono offset occurs)
    (first : Next occurs cursor next) (closed : ¬ trigger.TradesOn chrono offset next)
    (ends : chrono.dayEnd offset (chrono.dateNaive offset next) = some dayEnd) :
    ∀ x, occurs x → cursor < x → x ≤ (if dayEnd ≤ next then next + 1 else dayEnd) →
      ¬ trigger.TradesOn chrono offset x := by
  intro x point after reach
  have here := schedules.instants next first.1.1
  have there := schedules.instants x point
  have onward := first.le point after
  have same : chrono.dateNaive offset x = chrono.dateNaive offset next := by
    by_cases late : dayEnd ≤ next
    · rw [if_pos late] at reach
      have whole := schedules.seconds x point
      have whole' := schedules.seconds next first.1.1
      have equal : x = next := by omega
      rw [equal]
    · rw [if_neg late] at reach
      have last := keeps.ends next dayEnd here ends
      apply le_antisymm
      · exact last.2 ▸ keeps.monotone x dayEnd there last.1 reach
      · exact keeps.monotone next x here there onward
  simpa [TradesOn, same] using closed

theorem search_sound (keeps : Keeps chrono offset) (schedules : trigger.Schedules chrono offset occurs) {turns : Nat}
    (found : trigger.search chrono offset turns cursor = some m) :
    Next (fun x => occurs x ∧ trigger.TradesOn chrono offset x) cursor m := by
  induction turns generalizing cursor with
  | zero => simp [search] at found
  | succ turns ih =>
    rw [search] at found
    split at found
    · cases found
    · next next asked =>
      have instant : chrono.instant cursor := by
        by_contra outside
        simp [CronExpr.nextAfterMs, outside] at asked
      have first : Next occurs cursor next := by
        rw [CronExpr.nextAfterMs, if_pos instant] at asked
        exact (schedules.least cursor instant next).mp asked
      have alone (trades : trigger.TradesOn chrono offset next) :
          Next (fun x => occurs x ∧ trigger.TradesOn chrono offset x) cursor next :=
        ⟨⟨⟨first.1.1, trades⟩, first.1.2⟩, fun _ member => first.le member.1.1 member.2⟩
      split at found
      · next none =>
        cases found
        exact alone (by simp [TradesOn, none])
      · next calendar set =>
        split at found
        · cases found
        · split at found
          · next open_ =>
            cases found
            exact alone (by simpa [TradesOn, set] using open_)
          · next closed =>
            split at found
            · cases found
            · next dayEnd ends =>
              have shut : ¬ trigger.TradesOn chrono offset next := by simpa [TradesOn, set] using closed
              have onward : cursor ≤ if dayEnd ≤ next then next + 1 else dayEnd := by
                have := first.1.2
                split <;> omega
              exact (ih found).of_skip onward (skipped keeps schedules first shut ends)

omit [LinearOrder Date] in
theorem mem_candidates (schedules : trigger.Schedules chrono offset occurs) {count : Nat}
    (starts : chrono.instant cursor) (member : m ∈ trigger.candidates offset count cursor) :
    occurs m ∧ cursor < m := by
  induction count generalizing cursor with
  | zero => simp [candidates, visited] at member
  | succ count ih =>
    cases found : trigger.schedule.after offset cursor with
    | none => simp [candidates, visited, found] at member
    | some next =>
      have first := ((schedules.least cursor starts next).mp found).1
      simp only [candidates, visited, found, List.mem_cons] at member
      cases member with
      | inl here => exact here ▸ first
      | inr later =>
        have rest := ih (schedules.instants next first.1) later
        exact ⟨rest.1, first.2.trans rest.2⟩

theorem search_finds (keeps : Keeps chrono offset) (schedules : trigger.Schedules chrono offset occurs) {turns : Nat}
    (starts : chrono.instant cursor) (member : m ∈ trigger.candidates offset turns cursor)
    (trades : trigger.TradesOn chrono offset m) : (trigger.search chrono offset turns cursor).isSome := by
  induction turns generalizing cursor with
  | zero => simp [candidates, visited] at member
  | succ turns ih =>
    cases found : trigger.schedule.after offset cursor with
    | none => simp [candidates, visited, found] at member
    | some next =>
      have first := (schedules.least cursor starts next).mp found
      have here := schedules.instants next first.1.1
      have asked : trigger.schedule.nextAfterMs chrono cursor offset = some next := by
        simp [CronExpr.nextAfterMs, starts, found]
      cases set : trigger.calendar with
      | none => simp [search, asked, set]
      | some calendar =>
        by_cases opened : calendar.isTradingDay chrono (chrono.dateNaive offset next)
        · simp [search, asked, set, here, opened]
        · have closed : ¬ trigger.TradesOn chrono offset next := by simpa [TradesOn, set] using opened
          cases ends : chrono.dayEnd offset (chrono.dateNaive offset next) with
          | none =>
            have ended := schedules.ended next first.1.1
            simp [ends] at ended
          | some dayEnd =>
            have skips := skipped keeps schedules first closed ends
            simp only [search, asked, set, here, opened, ends, not_true, if_false, Bool.false_eq_true]
            generalize cursor' : (if dayEnd ≤ next then next + 1 else dayEnd) = skip at skips ⊢
            have onward : next ≤ skip := by
              rw [← cursor']
              split <;> omega
            simp only [candidates, visited, found, List.mem_cons] at member
            cases member with
            | inl same => exact absurd (same ▸ trades) closed
            | inr later =>
              have point := mem_candidates schedules here later
              have before : skip < m := by
                by_contra reached
                exact skips m point.1 (first.1.2.trans point.2) (not_lt.mp reached) trades
              have there := keeps.convex next m skip here (schedules.instants m point.1) onward before.le
              exact ih there (mem_visited_of_later schedules.least schedules.instants here there later onward before)

structure Enumerates (chrono : Chrono Offset Date) (trigger : CronTrigger Offset Date) (offset : Offset)
    (occurs : Int → Prop) (fromUnixMs : Int) (count : Nat) (fires : List Int) : Prop where
  increasing : fires.Pairwise (· < ·)
  fired : ∀ ms ∈ fires, occurs ms ∧ trigger.TradesOn chrono offset ms ∧ fromUnixMs < ms
  complete : ∀ ms, occurs ms → trigger.TradesOn chrono offset ms → fromUnixMs < ms → (∃ fire ∈ fires, ms ≤ fire) →
    ms ∈ fires
  onward : fires.length < count → ∀ ms ∈ trigger.candidates offset 4096 (fires.getLast?.getD fromUnixMs),
    ¬ trigger.TradesOn chrono offset ms

/-- The next fire is the first occurrence on a trading day, and no such occurrence is skipped or fired twice. -/
theorem nextFireAfter_least (chrono : Chrono Offset Date) (trigger : CronTrigger Offset Date) (offset : Offset)
    (occurs : Int → Prop) (enabled : trigger.enabled)
    (zone : chrono.eastOpt (trigger.tzOffsetMinutes * 60).toInt = some offset) (keeps : Keeps chrono offset)
    (schedules : trigger.Schedules chrono offset occurs) (fromUnixMs : Int) (instant : chrono.instant fromUnixMs) :
    ((∃ ms ∈ trigger.candidates offset 4096 fromUnixMs, trigger.TradesOn chrono offset ms) →
      ∃ fire, trigger.nextFireAfter chrono fromUnixMs = some fire ∧
        Next (fun ms => occurs ms ∧ trigger.TradesOn chrono offset ms) fromUnixMs fire) ∧
    ∀ count, trigger.Enumerates chrono offset occurs fromUnixMs count
      (visited (trigger.nextFireAfter chrono) count fromUnixMs) := by
  have same : trigger.nextFireAfter chrono = trigger.search chrono offset 4096 := by
    funext ms
    rw [nextFireAfter, if_neg (not_not.mpr enabled), zone]
  have sound : ∀ t n, trigger.search chrono offset 4096 t = some n →
      Next (fun ms => occurs ms ∧ trigger.TradesOn chrono offset ms) t n := fun _ _ => search_sound keeps schedules
  rw [same]
  constructor
  · intro ⟨ms, member, trades⟩
    obtain ⟨fire, found⟩ := Option.isSome_iff_exists.mp (search_finds keeps schedules instant member trades)
    exact ⟨fire, found, sound fromUnixMs fire found⟩
  · intro count
    constructor
    · exact visited_increasing sound count fromUnixMs
    · intro ms member
      have point := mem_visited sound member
      exact ⟨point.1.1, point.1.2, point.2⟩
    · intro ms point trades after reached
      exact visited_complete sound ⟨point, trades⟩ after reached
    · intro short ms member trades
      have stopped := next_of_visited short
      have there : chrono.instant
          ((visited (trigger.search chrono offset 4096) count fromUnixMs).getLast?.getD fromUnixMs) := by
        cases last : (visited (trigger.search chrono offset 4096) count fromUnixMs).getLast? with
        | none => exact instant
        | some fire => exact schedules.instants fire (mem_visited sound (List.mem_of_getLast? last)).1.1
      have found := search_finds keeps schedules there member trades
      simp [stopped] at found

-- Dates as their days since 1970-01-01, a Thursday, and offsets as their seconds.
def days : Chrono Int Int where
  eastOpt seconds := if -86400 < seconds ∧ seconds < 86400 then some seconds else none
  instant ms := -8334601228800000 ≤ ms ∧ ms ≤ 8210266876799999
  dateNaive offset ms := (ms + offset * 1000) / 86400000
  weekday date :=
    match (date % 7).toNat with
    | 0 => .thu
    | 1 => .fri
    | 2 => .sat
    | 3 => .sun
    | 4 => .mon
    | 5 => .tue
    | _ => .wed
  dayEnd offset date :=
    let ms := date * 86400000 + 86399000 - offset * 1000
    if -8334601228800000 ≤ ms ∧ ms ≤ 8210266876799999 then some ms else none

-- Every day at midnight, up to the day before 2100.
def midnights : CronExpr Int where
  after _ ms :=
    let next := max 0 (ms / 86400000 + 1)
    if next < 47482 then some (next * 86400000) else none

def weekdays : CronTrigger Int Int where
  id := "weekdays"
  schedule := midnights
  calendar := some { holidays := ∅, businessDays := fun day => day.val < 5 }
  tzOffsetMinutes := 0
  enabled := true

def Midnight (ms : Int) : Prop := ∃ day : Int, 0 ≤ day ∧ day < 47482 ∧ ms = day * 86400000

theorem keeps_days : Keeps days 0 := by
  constructor
  · intro a b c
    simp only [days, decide_eq_true_eq]
    omega
  · intro a b _ _ le
    simp only [days]
    omega
  · intro a e _ ends
    simp only [days, Option.ite_none_right_eq_some, Option.some.injEq, decide_eq_true_eq] at ends ⊢
    omega

theorem schedules_midnights : weekdays.Schedules days 0 Midnight := by
  constructor
  · intro t _ n
    simp only [weekdays, midnights, Option.ite_none_right_eq_some, Option.some.injEq, Next, Midnight]
    constructor
    · intro ⟨limit, same⟩
      constructor
      · exact ⟨⟨_, by omega, limit, same.symm⟩, by omega⟩
      · intro x ⟨⟨day, start, _, at_⟩, after⟩
        omega
    · intro ⟨⟨⟨day, start, limit, at_⟩, after⟩, first⟩
      have least := first ⟨⟨max 0 (t / 86400000 + 1), by omega, by omega, rfl⟩, by omega⟩
      omega
  · intro n ⟨day, start, limit, at_⟩
    simp only [days, decide_eq_true_eq]
    omega
  · intro n ⟨day, start, limit, at_⟩
    omega
  · intro n ⟨day, start, limit, at_⟩
    have there : -8334601228800000 ≤ (n + 0 * 1000) / 86400000 * 86400000 + 86399000 - 0 * 1000 ∧
        (n + 0 * 1000) / 86400000 * 86400000 + 86399000 - 0 * 1000 ≤ 8210266876799999 := by omega
    simp only [days, if_pos there, Option.isSome_some]

-- After Friday noon comes Monday.
theorem nextFireAfter_least_friday :
    weekdays.nextFireAfter days 129600000 = some 345600000 ∧
      ∃ fire, weekdays.nextFireAfter days 129600000 = some fire ∧
        Next (fun ms => Midnight ms ∧ weekdays.TradesOn days 0 ms) 129600000 fire := by
  refine ⟨by decide,
    (nextFireAfter_least days weekdays 0 Midnight rfl rfl keeps_days schedules_midnights 129600000 rfl).1 ?_⟩
  refine ⟨345600000, ?_, ?_⟩
  · have saturday : weekdays.schedule.after 0 129600000 = some 172800000 := by decide
    have sunday : weekdays.schedule.after 0 172800000 = some 259200000 := by decide
    have monday : weekdays.schedule.after 0 259200000 = some 345600000 := by decide
    change _ ∈ visited _ (4093 + 1 + 1 + 1) _
    rw [visited_cons saturday, visited_cons sunday, visited_cons monday]
    exact List.mem_cons_of_mem _ (List.mem_cons_of_mem _ List.mem_cons_self)
  · intro calendar set
    cases set
    decide

end CronTrigger

end AtomrAgents
