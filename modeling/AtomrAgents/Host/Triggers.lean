import AtomrAgents.Core.Value
import Mathlib.Logic.Function.Basic

set_option autoImplicit false

namespace AtomrAgents

-- `std::time::Duration`, as its nanoseconds.
structure Duration where
  nanos : Nat
  fits : nanos < 2 ^ 64 * 10 ^ 9

namespace Duration

def zero : Duration := { nanos := 0, fits := by decide }

def ofMillis (millis : Nat) (fits : millis < 2 ^ 64) : Duration where
  nanos := millis * 10 ^ 6
  fits := by omega

def asMillis (duration : Duration) : Nat := duration.nanos / 10 ^ 6

end Duration

inductive OnExceed where
  | drop
  | queue
  | backpressure
  deriving DecidableEq

structure RateLimit where
  maxFires : Nat
  per : Duration
  onExceed : OnExceed
  window : List Int
  queued : List Int

inductive RateDecision where
  | allow
  | dropped
  | queued
  | backpressured
  deriving DecidableEq

namespace RateLimit

def new (maxFires : Nat) (per : Duration) (onExceed : OnExceed) : RateLimit where
  maxFires := maxFires
  per := per
  onExceed := onExceed
  window := []
  queued := []

def evictBefore (limit : RateLimit) (nowMs : Int) : RateLimit :=
  let horizon := subI64 nowMs (asI64 limit.per.asMillis)
  { limit with window := limit.window.dropWhile fun front => front ≤ horizon }

def checkAndRecord (limit : RateLimit) (nowMs : Int) : RateDecision × RateLimit :=
  let limit := limit.evictBefore nowMs
  if limit.window.length < limit.maxFires then
    (.allow, { limit with window := limit.window ++ [nowMs] })
  else
    match limit.onExceed with
    | .drop => (.dropped, limit)
    | .queue => (.queued, { limit with queued := limit.queued ++ [nowMs] })
    | .backpressure => (.backpressured, limit)

def queuedLen (limit : RateLimit) : Nat := limit.queued.length

variable {limit : RateLimit} {nowMs : Int}

theorem checkAndRecord_of_room (room : (limit.evictBefore nowMs).window.length < limit.maxFires) :
    limit.checkAndRecord nowMs = (.allow, { limit.evictBefore nowMs with
      window := (limit.evictBefore nowMs).window ++ [nowMs] }) :=
  if_pos room

theorem checkAndRecord_of_full (full : limit.maxFires ≤ (limit.evictBefore nowMs).window.length) :
    limit.checkAndRecord nowMs = match limit.onExceed with
      | .drop => (.dropped, limit.evictBefore nowMs)
      | .queue => (.queued, { limit.evictBefore nowMs with queued := limit.queued ++ [nowMs] })
      | .backpressure => (.backpressured, limit.evictBefore nowMs) :=
  if_neg (not_lt.mpr full)

end RateLimit

structure TriggerEntry where
  enabled : Bool
  cooldown : Duration
  fires : UInt64
  lastFireMs : Option Int
  rateLimit : Option RateLimit

inductive FireOutcome where
  | fired
  | paused
  | coolingDown
  | rateLimited (decision : RateDecision)
  deriving DecidableEq

namespace TriggerEntry

def new : TriggerEntry where
  enabled := true
  cooldown := .zero
  fires := 0
  lastFireMs := none
  rateLimit := none

def record (entry : TriggerEntry) (nowMs : Int) : TriggerEntry :=
  { entry with fires := entry.fires + 1, lastFireMs := some nowMs }

def applyRateThenRecord (entry : TriggerEntry) (nowMs : Int) : FireOutcome × TriggerEntry :=
  match entry.rateLimit with
  | none => (.fired, entry.record nowMs)
  | some limit =>
    match limit.checkAndRecord nowMs with
    | (.allow, limit) => (.fired, { entry with rateLimit := some limit }.record nowMs)
    | (other, limit) => (.rateLimited other, { entry with rateLimit := some limit })

-- Whether the last fire is too recent, in milliseconds.
def coolsDown (entry : TriggerEntry) (nowMs : Int) : Bool :=
  match entry.lastFireMs with
  | some last => subI64 nowMs last < asI64 entry.cooldown.asMillis
  | none => false

def tryFire (entry : TriggerEntry) (nowMs : Int) : FireOutcome × TriggerEntry :=
  if entry.enabled then
    if entry.coolsDown nowMs then (.coolingDown, entry) else entry.applyRateThenRecord nowMs
  else (.paused, entry)

end TriggerEntry

abbrev TriggerControl := String → Option TriggerEntry

inductive TriggerRequest where
  | setCooldown (cooldown : Duration)
  | setRateLimit (limit : RateLimit)
  | pause
  | resume
  | tryFire (nowMs : Int)

inductive TriggerReply where
  | existed (known : Bool)
  | outcome (outcome : FireOutcome)

namespace TriggerControl

variable (control : TriggerControl) (id : String)

def registerEvent : TriggerControl := Function.update control id (some .new)

-- A cron trigger comes with its own `enabled` flag.
def registerCron (enabled : Bool) : TriggerControl :=
  Function.update control id (some { TriggerEntry.new with enabled })

def change (change : TriggerEntry → TriggerEntry) : TriggerReply × TriggerControl :=
  match control id with
  | some entry => (.existed true, Function.update control id (some (change entry)))
  | none => (.existed false, control)

def setRateLimit (limit : RateLimit) : TriggerReply × TriggerControl :=
  control.change id fun entry => { entry with rateLimit := some limit }

def pause : TriggerReply × TriggerControl :=
  control.change id fun entry => { entry with enabled := false }

def resume : TriggerReply × TriggerControl :=
  control.change id fun entry => { entry with enabled := true }

def setCooldown (cooldown : Duration) : TriggerReply × TriggerControl :=
  control.change id fun entry => { entry with cooldown }

def tryFire (nowMs : Int) : TriggerReply × TriggerControl :=
  match control id with
  | none => (.outcome .paused, control)
  | some entry =>
    let (outcome, entry) := entry.tryFire nowMs
    (.outcome outcome, Function.update control id (some entry))

def request : TriggerRequest → TriggerReply × TriggerControl
  | .setCooldown cooldown => control.setCooldown id cooldown
  | .setRateLimit limit => control.setRateLimit id limit
  | .pause => control.pause id
  | .resume => control.resume id
  | .tryFire nowMs => control.tryFire id nowMs

end TriggerControl

end AtomrAgents
