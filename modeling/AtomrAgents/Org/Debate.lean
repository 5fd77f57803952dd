import AtomrAgents.Core.Text
import AtomrAgents.Shared.Joined
import AtomrAgents.State.MergedWrites
import AtomrAgents.Tool.Tool

set_option autoImplicit false

namespace AtomrAgents

open Shared

inductive Stance where
  | proponent
  | critic
  | judge
  deriving DecidableEq

namespace Stance

def name : Stance → String
  | .proponent => "proponent"
  | .critic => "critic"
  | .judge => "judge"

-- `{:?}`
def debug : Stance → String
  | .proponent => "Proponent"
  | .critic => "Critic"
  | .judge => "Judge"

def fromName : String → Option Stance
  | "proponent" => some .proponent
  | "critic" => some .critic
  | "judge" => some .judge
  | _ => none

def fromValue : Value → Option Stance
  | .string s => fromName s
  | .object [(s, .null)] => fromName s
  | _ => none

end Stance

-- The round is a `u32`.
structure DebateTurn where
  round : Nat
  author : String
  stance : Stance
  claim : String
  deriving DecidableEq

structure Dissent where
  round : Nat
  critic : String
  objection : String
  deriving DecidableEq

def Value.asU32 (value : Value) : Option Nat :=
  value.asU64.bind fun n => if n.toNat < 2 ^ 32 then some n.toNat else none

namespace DebateTurn

def read (round author stance claim : Value) : Option DebateTurn := do
  let round ← round.asU32
  let author ← author.asStr
  let stance ← Stance.fromValue stance
  let claim ← claim.asStr
  some { round, author, stance, claim }

-- `serde_json::from_value`: fields of other names are passed over.
def fromValue : Value → Option DebateTurn
  | .object fields => do
    read (← Value.field fields "round") (← Value.field fields "author") (← Value.field fields "stance")
      (← Value.field fields "claim")
  | .array [round, author, stance, claim] => read round author stance claim
  | _ => none

end DebateTurn

def critiqueChannel : String := "critique"

namespace CritiqueChannel

def schema : StateSchema := StateSchema.builder.add critiqueChannel AppendMessages.reduce

def newState : RunState := .new schema

def id (turn : DebateTurn) : String := toString turn.round ++ ":" ++ turn.stance.debug

def message (turn : DebateTurn) : Value :=
  .object [("author", .string turn.author), ("claim", .string turn.claim), ("id", .string (id turn)),
    ("round", .number (.posInt (UInt64.ofNat turn.round))), ("stance", .string turn.stance.name)]

def append (state : RunState) (turn : DebateTurn) : Except AgentError Unit × RunState :=
  state.write critiqueChannel (.array [message turn])

def transcript (state : RunState) : List DebateTurn :=
  match state.read critiqueChannel with
  | .array items => items.filterMap DebateTurn.fromValue
  | _ => []

def recorded (turns : List DebateTurn) : RunState := turns.foldl (fun state turn => (append state turn).2) newState

variable {turn : DebateTurn} {turns : List DebateTurn}

@[simp] theorem stance_roundTrip (stance : Stance) :
    Stance.fromName stance.name = some stance := by cases stance <;> rfl

theorem fromValue_message (fits : turn.round < 2 ^ 32) : DebateTurn.fromValue (message turn) = some turn := by
  have small : turn.round < 4294967296 := fits
  have stored : (UInt64.ofNat turn.round).toNat = turn.round := by
    apply UInt64.toNat_ofNat_of_lt
    exact fits.trans (by decide)
  simp [message, DebateTurn.fromValue, DebateTurn.read, Value.field, Value.asU32, Value.asU64, Value.asStr,
    Stance.fromValue, stored, small]

@[simp] theorem messageId_message (turn : DebateTurn) : messageId (message turn) = some (id turn) := by
  simp [message, messageId, Value.get, Value.field, Value.asStr]

theorem id_inj {turn' : DebateTurn} : id turn = id turn' ↔ (turn.round, turn.stance) = (turn'.round, turn'.stance) := by
  have stances : turn.stance.debug = turn'.stance.debug ↔ turn.stance = turn'.stance := by
    cases turn.stance <;> cases turn'.stance <;> decide
  have letters (t : DebateTurn) : (id t).toList = (toString t.round).toList ++ ':' :: t.stance.debug.toList := by
    simp [id, String.toList_append]
  rw [← String.toList_inj, letters, letters,
    joined_inj_of_not_mem (colon_not_mem_toString turn.round) (colon_not_mem_toString turn'.round), String.toList_inj,
    String.toList_inj, Nat.toString_eq_repr, Nat.toString_eq_repr, Nat.repr_inj, stances, Prod.mk.injEq]

theorem recorded_concat (turns : List DebateTurn) (turn : DebateTurn) :
    recorded (turns ++ [turn]) = (append (recorded turns) turn).2 := by
  simp [recorded]

theorem recorded_schema (turns : List DebateTurn) : (recorded turns).schema = schema := by
  induction turns using List.reverseRecOn with
  | nil => rfl
  | append_singleton turns turn ih => rw [recorded_concat, append, (RunState.write_frame _ _ _).1, ih]

theorem schema_channel : schema.channel critiqueChannel =
    some { reducer := AppendMessages.reduce, default := .null } := by
  simp [schema, StateSchema.add, StateSchema.addWithDefault, StateSchema.channel]

theorem append_recorded (turns : List DebateTurn) (turn : DebateTurn) :
    append (recorded turns) turn = (.ok (), recorded (turns ++ [turn])) := by
  rw [recorded_concat]
  simp [append, RunState.write, recorded_schema, schema_channel]

theorem read_recorded (turns : List DebateTurn) :
    (recorded turns).read critiqueChannel =
      if turns = [] then .null else .array (upserts messageId [] (turns.map message)) := by
  induction turns using List.reverseRecOn with
  | nil =>
    have fresh := new_values schema_channel
    simp [recorded, newState, RunState.read, fresh]
  | append_singleton turns turn ih =>
    have found : (recorded turns).schema.channel critiqueChannel =
        some { reducer := AppendMessages.reduce, default := .null } := by
      rw [recorded_schema, schema_channel]
    rw [RunState.read] at ih
    rw [recorded_concat, append, RunState.read, RunState.write_values found, ih]
    by_cases none : turns = []
    · simp [none, AppendMessages.reduce, Value.items]
    · simp [none, AppendMessages.reduce, upserts_append]

theorem transcript_recorded (distinct : (turns.map fun turn => (turn.round, turn.stance)).Nodup)
    (fits : ∀ turn ∈ turns, turn.round < 2 ^ 32) : transcript (recorded turns) = turns := by
  have ids : Distinct messageId (turns.map message) := by
    have own : (turns.map message).filterMap messageId = turns.map id := by
      rw [List.filterMap_map]
      simp
    rw [Distinct, own]
    exact List.pairwise_map.mpr ((List.pairwise_map.mp distinct).imp fun apart same => apart (id_inj.mp same))
  by_cases none : turns = []
  · simp [transcript, read_recorded, none]
  · have back : (turns.map message).filterMap DebateTurn.fromValue = turns := by
      calc (turns.map message).filterMap DebateTurn.fromValue
        _ = turns.filterMap (DebateTurn.fromValue ∘ message) := List.filterMap_map
        _ = turns.filterMap some := List.filterMap_congr fun turn member => fromValue_message (fits turn member)
        _ = turns := List.filterMap_some
    simp [transcript, read_recorded, none, upserts_of_distinct ids, back]

end CritiqueChannel

end AtomrAgents

namespace AtomrAgents

structure DebateState where
  round : Nat
  maxRounds : Nat
  unresolved : List Dissent
  transcript : List DebateTurn
  converged : Bool

inductive Termination where
  | continue
  | done (reason : String)
  deriving DecidableEq

-- `DissentTermination::should_terminate`
def shouldTerminate (state : DebateState) : Termination :=
  if state.converged ∧ state.unresolved = [] then .done "consensus"
  else if state.maxRounds ≤ state.round then .done "max_rounds"
  else .continue

structure DebateOutcome where
  converged : Bool
  unresolved : List Dissent
  transcript : List DebateTurn

section

variable (W : Type) {τ : Type} (Any : τ → Type)

structure Participant where
  call : CallableHandle W Any
  label : String

structure DebateRoles where
  proponent : Participant W Any
  critic : Participant W Any
  judge : Option (Participant W Any)

structure DebateStrategy where
  roles : DebateRoles W Any
  maxRounds : UInt32

end

-- `.get("claim").and_then(|v| v.as_str()).unwrap_or("")`, and so for an objection.
def textOf (key : String) (reply : Value) : String := ((reply.get key).bind Value.asStr).getD ""

def dissents (reply : Value) : Bool := ((reply.get "dissent").bind Value.asBool).getD false

-- The local variables of `run`.
structure DebateLoop where
  state : RunState
  debate : DebateState
  current : Value

namespace DebateStrategy

variable {W τ : Type} {Any : τ → Type} (strategy : DebateStrategy W Any) (ctx : CallCtx Any) (w : Nat → Stance → W)

def start (initial : Value) : DebateLoop where
  state := CritiqueChannel.newState
  debate := {
    round := 0
    maxRounds := strategy.maxRounds.toNat
    unresolved := []
    transcript := []
    converged := false }
  current := initial

def record (loop : DebateLoop) (turn : DebateTurn) : Except AgentError DebateLoop :=
  match CritiqueChannel.append loop.state turn with
  | (.error e, _) => .error e
  | (.ok _, state) =>
    .ok { loop with state, debate := { loop.debate with transcript := loop.debate.transcript ++ [turn] } }

def turn (round : Nat) (participant : Participant W Any) (stance : Stance) (claim : String) : DebateTurn :=
  { round, author := participant.label, stance, claim }

def settle (round : Nat) (reply : Value) (loop : DebateLoop) : DebateLoop :=
  let debate := loop.debate
  if dissents reply then
    let dissent := { round, critic := strategy.roles.critic.label, objection := textOf "objection" reply }
    { loop with debate := { debate with unresolved := [dissent] }, current := reply }
  else { loop with debate := { debate with unresolved := [], converged := true }, current := reply }

def exchange (round : Nat) (loop : DebateLoop) : Except AgentError DebateLoop := do
  let loop := { loop with debate := { loop.debate with round } }
  let claim ← strategy.roles.proponent.call (w round .proponent) loop.current ctx
  let loop ← record loop (turn round strategy.roles.proponent .proponent (textOf "claim" claim))
  let reply ← strategy.roles.critic.call (w round .critic) (.object [("claim", .string (textOf "claim" claim))]) ctx
  let loop ← record loop (turn round strategy.roles.critic .critic (textOf "objection" reply))
  return strategy.settle round reply loop

-- `for round in 1..=max_rounds`, of which `remaining` are left.
def rounds : Nat → Nat → DebateLoop → Except AgentError DebateLoop
  | 0, _, loop => .ok loop
  | remaining + 1, round, loop =>
    match strategy.exchange ctx w round loop with
    | .error e => .error e
    | .ok loop => if shouldTerminate loop.debate = .continue then rounds remaining (round + 1) loop else .ok loop

def close (loop : DebateLoop) : Except AgentError DebateLoop :=
  match strategy.roles.judge with
  | none => .ok loop
  | some judge => do
    let verdict ← judge.call (w loop.debate.round .judge) loop.current ctx
    record loop (turn loop.debate.round judge .judge (textOf "claim" verdict))

def run (initial : Value) : Except AgentError (DebateOutcome × RunState) := do
  let loop ← strategy.rounds ctx w strategy.maxRounds.toNat 1 (strategy.start initial)
  let loop ← strategy.close ctx w loop
  let debate := loop.debate
  return ({ converged := debate.converged, unresolved := debate.unresolved, transcript := debate.transcript },
    loop.state)

-- A completed round: what the proponent and the critic said.
abbrev Exchange := Value × Value

def turnsOf (round : Nat) (said : Exchange) : List DebateTurn :=
  [turn round strategy.roles.proponent .proponent (textOf "claim" said.1),
    turn round strategy.roles.critic .critic (textOf "objection" said.2)]

def turns : Nat → List Exchange → List DebateTurn
  | _, [] => []
  | round, said :: later => strategy.turnsOf round said ++ turns (round + 1) later

def objections (played : List Exchange) : List Dissent :=
  match played.getLast? with
  | none => []
  | some said =>
    if dissents said.2 then
      [{ round := played.length, critic := strategy.roles.critic.label, objection := textOf "objection" said.2 }]
    else []

def after (initial : Value) (played : List Exchange) : DebateLoop where
  state := CritiqueChannel.recorded (strategy.turns 1 played)
  debate :=
    { round := played.length
      maxRounds := strategy.maxRounds.toNat
      unresolved := strategy.objections played
      transcript := strategy.turns 1 played
      converged := played.any fun said => !dissents said.2 }
  current := (played.getLast?.map Prod.snd).getD initial

variable {strategy ctx w}

theorem turns_concat (round : Nat) (played : List Exchange) (said : Exchange) :
    strategy.turns round (played ++ [said]) =
      strategy.turns round played ++ strategy.turnsOf (round + played.length) said := by
  induction played generalizing round with
  | nil => simp [turns]
  | cons first played ih => simp [turns, ih, Nat.add_comm, Nat.add_left_comm]

@[simp] theorem record_recorded (turns : List DebateTurn) (debate : DebateState) (current : Value) (turn : DebateTurn) :
    record { state := CritiqueChannel.recorded turns, debate, current } turn =
      .ok
        { state := CritiqueChannel.recorded (turns ++ [turn])
          debate := { debate with transcript := debate.transcript ++ [turn] }
          current } := by
  simp [record, CritiqueChannel.append_recorded]

theorem exchange_after (initial : Value) (played : List Exchange) :
    strategy.exchange ctx w (played.length + 1) (strategy.after initial played) =
      match strategy.roles.proponent.call (w (played.length + 1) .proponent)
        (strategy.after initial played).current ctx with
      | .error e => .error e
      | .ok claim =>
        match strategy.roles.critic.call (w (played.length + 1) .critic)
            (.object [("claim", .string (textOf "claim" claim))]) ctx with
        | .error e => .error e
        | .ok reply => .ok (strategy.after initial (played ++ [(claim, reply)])) := by
  simp only [exchange, after, bind, Except.bind, record_recorded, turns_concat, Nat.add_comm played.length 1]
  cases strategy.roles.proponent.call (w (1 + played.length) .proponent)
    ((played.getLast?.map Prod.snd).getD initial) ctx with
  | error e => rfl
  | ok claim =>
    simp only
    cases strategy.roles.critic.call (w (1 + played.length) .critic)
      (.object [("claim", .string (textOf "claim" claim))])
        ctx with
    | error e => rfl
    | ok reply =>
      by_cases opposed : dissents reply <;>
        simp [settle, opposed, turnsOf, objections, pure, Except.pure, Nat.add_comm]

end DebateStrategy

end AtomrAgents
