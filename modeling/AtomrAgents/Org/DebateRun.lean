import AtomrAgents.Org.Debate

set_option autoImplicit false

namespace AtomrAgents

namespace DebateStrategy

variable {W τ : Type} {Any : τ → Type} (strategy : DebateStrategy W Any) (ctx : CallCtx Any) (w : Nat → Stance → W)

-- What was said in these rounds, each reply to what the debate had come to.
def Said : Nat → Value → List Exchange → Prop
  | _, _, [] => True
  | round, current, said :: later =>
    strategy.roles.proponent.call (w round .proponent) current ctx = .ok said.1 ∧
      strategy.roles.critic.call (w round .critic) (.object [("claim", .string (textOf "claim" said.1))]) ctx =
          .ok said.2 ∧
        Said (round + 1) said.2 later

-- The critic dissents in every round but the last, and in the last one too if the rounds are used up.
structure Course (limit : Nat) (played : List Exchange) : Prop where
  bounded : played.length ≤ limit
  opposed : ∀ said ∈ played.dropLast, dissents said.2
  settled : played.length < limit → ∃ said ∈ played.getLast?, dissents said.2 = false

def role : Stance → Option (Participant W Any)
  | .proponent => some strategy.roles.proponent
  | .critic => some strategy.roles.critic
  | .judge => strategy.roles.judge

def Fails (e : AgentError) : Prop :=
  ∃ round ≤ strategy.maxRounds.toNat, ∃ stance, ∃ participant ∈ strategy.role stance, ∃ input,
    participant.call (w round stance) input ctx = .error e

def closing (played : List Exchange) (verdict : Option Value) : List DebateTurn :=
  match strategy.roles.judge, verdict with
  | some judge, some verdict => [turn played.length judge .judge (textOf "claim" verdict)]
  | _, _ => []

structure Debated (initial : Value) (played : List Exchange) (verdict : Option Value) (outcome : DebateOutcome)
    (state : RunState) : Prop where
  said : strategy.Said ctx w 1 initial played
  course : Course strategy.maxRounds.toNat played
  judged : (strategy.roles.judge.map fun judge =>
    judge.call (w played.length .judge) (strategy.after initial played).current ctx) = verdict.map .ok
  transcript : outcome.transcript = strategy.turns 1 played ++ strategy.closing played verdict
  recorded : CritiqueChannel.transcript state = outcome.transcript
  converged : outcome.converged ↔
    (∃ said ∈ played.getLast?, dissents said.2 = false) ∧ outcome.unresolved = []
  unresolved : outcome.unresolved = strategy.objections played

def Outcome (initial : Value) : Except AgentError (DebateOutcome × RunState) → Prop
  | .ok (outcome, state) => ∃ played verdict, strategy.Debated ctx w initial played verdict outcome state
  | .error e => strategy.Fails ctx w e

variable {strategy ctx w} {played : List Exchange} {initial : Value}

theorem mem_turns {round : Nat} {turn : DebateTurn} (member : turn ∈ strategy.turns round played) :
    round ≤ turn.round ∧ turn.round < round + played.length ∧ turn.stance ≠ .judge := by
  induction played generalizing round with
  | nil => simp [turns] at member
  | cons said played ih =>
    simp only [turns, turnsOf, List.mem_append, List.mem_cons, List.not_mem_nil, or_false] at member
    cases member with
    | inl here => cases here <;> next same => simp [same, DebateStrategy.turn]
    | inr later =>
      have inside := ih later
      simp only [List.length_cons]
      exact ⟨by omega, by omega, inside.2.2⟩

def key (turn : DebateTurn) : Nat × Stance := (turn.round, turn.stance)

theorem turns_nodup (round : Nat) (played : List Exchange) : ((strategy.turns round played).map key).Nodup := by
  induction played generalizing round with
  | nil => simp [turns]
  | cons said played ih =>
    have later : ∀ stance, (round, stance) ∉ (strategy.turns (round + 1) played).map key := by
      intro stance member
      simp only [List.mem_map, key, Prod.mk.injEq] at member
      cases member with
      | intro turn found =>
        have := mem_turns found.1
        omega
    simpa [turns, turnsOf, key, turn, later] using ih (round + 1)

theorem closed_nodup (verdict : Option Value) :
    ((strategy.turns 1 played ++ strategy.closing played verdict).map key).Nodup := by
  have turns := @turns_nodup _ _ _ strategy 1 played
  simp only [closing]
  split
  · next judge verdict _ =>
    have before : (played.length, .judge) ∉ (strategy.turns 1 played).map key := by
      intro member
      simp only [List.mem_map, key, Prod.mk.injEq] at member
      cases member with
      | intro turn found => exact (mem_turns found.1).2.2 found.2.2
    simpa [turn, key, List.nodup_append, turns] using before
  · simpa using turns

theorem closed_fits (bounded : played.length ≤ strategy.maxRounds.toNat) (verdict : Option Value) :
    ∀ turn ∈ strategy.turns 1 played ++ strategy.closing played verdict, turn.round < 2 ^ 32 := by
  have small : strategy.maxRounds.toNat < 2 ^ 32 := strategy.maxRounds.toNat_lt
  intro turn member
  cases List.mem_append.mp member with
  | inl exchanged =>
    have := mem_turns exchanged
    omega
  | inr closed =>
    have last : turn.round = played.length := by
      simp only [closing] at closed
      split at closed
      · simp [List.mem_singleton.mp closed, DebateStrategy.turn]
      · simp at closed
    omega

theorem shouldTerminate_after (opposed : ∀ said ∈ played, dissents said.2) (said : Exchange) :
    shouldTerminate (strategy.after initial (played ++ [said])).debate = .continue ↔
      dissents said.2 ∧ played.length + 1 < strategy.maxRounds.toNat := by
  have before : (played.any fun said => !dissents said.2) = false := by simpa using opposed
  by_cases last : dissents said.2 <;> simp [shouldTerminate, after, objections, before, last]

theorem Course.cons {limit : Nat} {later : List Exchange} {said : Exchange} (course : Course limit later)
    (dissent : dissents said.2) : Course (limit + 1) (said :: later) := by
  cases later with
  | nil =>
    refine ⟨by simp, by simp, fun short => ?_⟩
    simpa using course.settled (by simpa using short)
  | cons next later =>
    refine ⟨by simpa using course.bounded, ?_, fun short => ?_⟩
    · simpa [dissent] using course.opposed
    · simpa using course.settled (by simpa using short)

theorem rounds_after (remaining : Nat) (budget : played.length + remaining = strategy.maxRounds.toNat)
    (opposed : ∀ said ∈ played, dissents said.2) :
    match strategy.rounds ctx w remaining (played.length + 1) (strategy.after initial played) with
    | .ok loop => ∃ later, loop = strategy.after initial (played ++ later) ∧
        strategy.Said ctx w (played.length + 1) (strategy.after initial played).current later ∧ Course remaining later
    | .error e => strategy.Fails ctx w e := by
  induction remaining generalizing played with
  | zero => exact ⟨[], by simp, trivial, by simp, by simp, by simp⟩
  | succ remaining ih =>
    rw [rounds, exchange_after]
    cases proposed : strategy.roles.proponent.call (w (played.length + 1) .proponent)
        (strategy.after initial played).current ctx with
    | error e => exact ⟨played.length + 1, by omega, .proponent, _, rfl, _, proposed⟩
    | ok claim =>
      simp only
      cases attacked : strategy.roles.critic.call (w (played.length + 1) .critic)
          (.object [("claim", .string (textOf "claim" claim))]) ctx with
      | error e => exact ⟨played.length + 1, by omega, .critic, _, rfl, _, attacked⟩
      | ok reply =>
        simp only [shouldTerminate_after opposed]
        have current : (strategy.after initial (played ++ [(claim, reply)])).current = reply := by simp [after]
        by_cases goes : dissents reply ∧ played.length + 1 < strategy.maxRounds.toNat
        · have still : ∀ said ∈ played ++ [(claim, reply)], dissents said.2 := by
            intro said member
            cases List.mem_append.mp member with
            | inl before => exact opposed said before
            | inr last => simpa [List.mem_singleton.mp last] using goes.1
          have more := @ih (played ++ [(claim, reply)]) (by simp; omega) still
          rw [if_pos goes]
          simp only [List.length_append, List.length_singleton, current] at more
          cases rest : strategy.rounds ctx w remaining (played.length + 1 + 1)
              (strategy.after initial (played ++ [(claim, reply)])) with
          | error e => simpa [rest] using more
          | ok loop =>
            simp only [rest] at more
            cases more with
            | intro later more =>
              exact ⟨(claim, reply) :: later, by simpa using more.1, ⟨proposed, attacked, more.2.1⟩,
                more.2.2.cons goes.1⟩
        · rw [if_neg goes]
          refine ⟨[(claim, reply)], rfl, ⟨proposed, attacked, trivial⟩, by simp, by simp, fun short => ?_⟩
          have last : ¬ dissents reply := fun dissent => goes ⟨dissent, by simp at short; omega⟩
          exact ⟨(claim, reply), rfl, by simpa using last⟩

theorem close_after (initial : Value) (played : List Exchange) :
    match strategy.close ctx w (strategy.after initial played) with
    | .ok loop => ∃ verdict,
        (strategy.roles.judge.map fun judge =>
          judge.call (w played.length .judge) (strategy.after initial played).current ctx) = verdict.map .ok ∧
        loop.state = CritiqueChannel.recorded (strategy.turns 1 played ++ strategy.closing played verdict) ∧
        loop.debate = { (strategy.after initial played).debate with
          transcript := strategy.turns 1 played ++ strategy.closing played verdict }
    | .error e => ∃ judge ∈ strategy.roles.judge, ∃ input,
      judge.call (w played.length .judge) input ctx = .error e := by
  cases present : strategy.roles.judge with
  | none =>
    simp only [close, present]
    exact ⟨none, rfl, by simp [after, closing], by simp [after, closing]⟩
  | some judge =>
    simp only [close, present, after, bind, Except.bind]
    cases answer : judge.call (w played.length .judge) ((played.getLast?.map Prod.snd).getD initial) ctx with
    | error e => exact ⟨judge, rfl, _, answer⟩
    | ok verdict =>
      simp only [record_recorded]
      exact ⟨some verdict, by simp [answer], by simp [closing, present], by simp [closing, present]⟩

theorem converged_iff (course : Course strategy.maxRounds.toNat played) :
    (strategy.after initial played).debate.converged ↔
      (∃ said ∈ played.getLast?, dissents said.2 = false) ∧ strategy.objections played = [] := by
  cases played using List.reverseRecOn with
  | nil => simp [after]
  | append_singleton before last =>
    have opposed := course.opposed
    simp only [List.dropLast_concat] at opposed
    have earlier : (before.any fun said => !dissents said.2) = false := by simpa using opposed
    cases dissent : dissents last.2 <;> simp [after, objections, earlier, dissent]

/-- A debate goes through at most the configured rounds, and its state and its outcome tell the same story of it. -/
theorem run_outcome (strategy : DebateStrategy W Any) (ctx : CallCtx Any) (w : Nat → Stance → W) (initial : Value) :
    strategy.Outcome ctx w initial (strategy.run ctx w initial) := by
  have loop := @rounds_after _ _ _ strategy ctx w [] initial strategy.maxRounds.toNat (by simp) (by simp)
  have begins : strategy.start initial = strategy.after initial [] := rfl
  simp only [run, begins, bind, Except.bind]
  simp only [List.length_nil, Nat.zero_add, List.nil_append] at loop
  cases played : strategy.rounds ctx w strategy.maxRounds.toNat 1 (strategy.after initial []) with
  | error e =>
    simp only [played] at loop
    exact loop
  | ok ended =>
    simp only [played] at loop
    cases loop with
    | intro exchanges story =>
      cases story.1
      have bounded := story.2.2.bounded
      have last := @close_after _ _ _ strategy ctx w initial exchanges
      cases closed : strategy.close ctx w (strategy.after initial exchanges) with
      | error e =>
        simp only [closed, Outcome] at last ⊢
        cases last with
        | intro judge failed => exact ⟨exchanges.length, bounded, .judge, judge, failed.1, failed.2⟩
      | ok final =>
        simp only [closed, Outcome, pure, Except.pure] at last ⊢
        cases last with
        | intro verdict told =>
          refine ⟨exchanges, verdict, story.2.1, story.2.2, told.1, ?_, ?_, ?_, ?_⟩
          · simp [told.2.2]
          · simp only [told.2.1, told.2.2]
            exact CritiqueChannel.transcript_recorded (closed_nodup verdict) (closed_fits bounded verdict)
          · simp only [told.2.2]
            exact converged_iff story.2.2
          · simp [told.2.2, after]

end DebateStrategy

end AtomrAgents
