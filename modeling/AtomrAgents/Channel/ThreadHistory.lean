import AtomrAgents.Channel.Inbound
import AtomrAgents.Shared.Operations
import Mathlib.Data.List.DropRight

set_option autoImplicit false

/-! A thread has its history in a cell, and a row in the store. What is said is pushed to the cell; the row is
written when the thread is opened, and never again. -/

namespace AtomrAgents

open Shared

structure InboundAnswers where
  recorded : HarnessAnswer
  dispatched : HarnessAnswer
  sent : HarnessAnswer

-- Calls that nothing disturbs.
inductive ChannelOp (H A : Type) where
  | openThread (channel : ChannelId) (peer : PeerId) (target : ThreadTarget H A) (answer : HarnessAnswer)
  | inbound (msg : InboundMessage) (answers : InboundAnswers)

section

variable {H A : Type}

def ChannelOp.task : ChannelOp H A → HarnessTask H A
  | .openThread channel peer target _ => .openThread channel peer target .checking
  | .inbound msg _ => .inbound [msg] .idle

def ChannelOp.answer : ChannelOp H A → HarnessTask H A → HarnessAnswer
  | .openThread _ _ _ answer, _ => answer
  | .inbound _ answers, .inbound _ (.recorded ..) => answers.dispatched
  | .inbound _ answers, .inbound _ (.sending ..) => answers.sent
  | .inbound _ answers, _ => answers.recorded

variable (serde : InboundSerde A) (config : HarnessConfig (ThreadTarget H A))

def HarnessTask.turns (answer : HarnessTask H A → HarnessAnswer) :
    Nat → HarnessTask H A → HarnessWorld H A → HarnessTask H A × HarnessWorld H A
  | 0, task, world => (task, world)
  | n + 1, task, world =>
    match task.turn serde config (answer task) world with
    | none => (task, world)
    | some (task, world) => turns answer n task world

def InboundPhase.turnsLeft : InboundPhase H A → Nat
  | .idle => 0
  | .looking _ => 8
  | .opening .. => 7
  | .storing .. => 6
  | .found .. => 5
  | .pushed .. => 4
  | .recorded .. => 3
  | .replying .. => 2
  | .sending .. => 1

def HarnessTask.turnsLeft : HarnessTask H A → Nat
  | .inbound queue phase => 9 * queue.length + phase.turnsLeft
  | .openThread _ _ _ .checking => 4
  | .openThread _ _ _ .binding => 3
  | .openThread _ _ _ .inserting | .closeThread _ .removing => 2
  | .openThread _ _ _ .storing | .closeThread _ .deleting => 1
  | .openThread _ _ _ (.returned _) | .closeThread _ .returned => 0

def HarnessWorld.receiver (world : HarnessWorld H A) (msg : InboundMessage) : Option (Thread (ThreadTarget H A)) :=
  if world.store.hasInbound msg.channelId msg.providerMsgId then none
  else
    match world.threads (ThreadId.forPeer msg.channelId msg.peer) with
    | some cell => world.cells[cell]?
    | none => config.autoOpenTarget.map (HarnessTask.newThread config msg.channelId msg.peer)

def replyTo (thread : Thread (ThreadTarget H A)) (msg : InboundMessage) (answer : HarnessAnswer) :
    Option MessageContent :=
  (dispatch serde thread.target msg (buildEnvelope serde msg (thread.pushUser msg.content)) answer).2

def exchange (thread : Thread (ThreadTarget H A)) (msg : InboundMessage) (answer : HarnessAnswer) : List Message :=
  { role := .user, content := msg.content.asText } ::
    (replyTo serde thread msg answer).toList.map fun content => { role := .assistant, content := content.asText }

def HarnessWorld.said (world : HarnessWorld H A) : ChannelOp H A → List (ThreadId × Message)
  | .openThread .. => []
  | .inbound msg answers =>
    match world.receiver config msg with
    | none => []
    | some thread =>
      (exchange serde thread msg answers.dispatched).map fun text => (ThreadId.forPeer msg.channelId msg.peer, text)

-- A message takes nine turns at most, and the opening of a thread takes four.
def HarnessWorld.performed (world : HarnessWorld H A) (op : ChannelOp H A) :
    List (ThreadId × Message) × HarnessWorld H A :=
  (world.said serde config op, (HarnessTask.turns serde config op.answer 9 op.task world).2)

def ChannelOp.Reaches (id : ThreadId) (world : HarnessWorld H A) : ChannelOp H A → Prop
  | .openThread .. => False
  | .inbound msg _ => ThreadId.forPeer msg.channelId msg.peer = id ∧ (world.receiver config msg).isSome

def textsOf (id : ThreadId) (said : List (ThreadId × Message)) : List Message :=
  (said.filter fun s => s.1 = id).map Prod.snd

def lastOf {α : Type} (cap : Nat) (l : List α) : List α := if cap = 0 then l else l.rtake cap

def HarnessWorld.cached (world : HarnessWorld H A) (id : ThreadId) : Option (Thread (ThreadTarget H A)) :=
  (world.threads id).bind fun cell => world.cells[cell]?

structure ThreadTable (H A : Type) where
  threads : ThreadId → Option Nat
  cells : List (Thread (ThreadTarget H A))
  rows : ThreadId → Option (Thread (ThreadTarget H A))

def HarnessWorld.table (world : HarnessWorld H A) : ThreadTable H A where
  threads := world.threads
  cells := world.cells
  rows := world.store.threads

namespace ThreadTable

variable (table : ThreadTable H A)

def tell (cell : Nat) (texts : List Message) : ThreadTable H A :=
  { table with cells := table.cells.modify cell fun thread =>
      texts.foldl (fun thread text => thread.push text.role text.content) thread }

def opened (thread : Thread (ThreadTarget H A)) : ThreadTable H A where
  threads := Function.update table.threads thread.id (some table.cells.length)
  cells := table.cells ++ [thread]
  rows := Function.update table.rows thread.id (some thread)

def bound (cell : Nat) (thread : Thread (ThreadTarget H A)) : ThreadTable H A :=
  { table with
    cells := table.cells.modify cell fun existing => { existing with target := thread.target }
    rows := Function.update table.rows thread.id (some thread) }

@[simp] theorem tell_nil (cell : Nat) : table.tell cell [] = table := by
  have same : (fun thread : Thread (ThreadTarget H A) => thread) = id := rfl
  simp [tell, same]

theorem tell_append (cell : Nat) (front back : List Message) :
    table.tell cell (front ++ back) = (table.tell cell front).tell cell back := by
  simp [tell, List.modify_modify_eq, Function.comp_def]

end ThreadTable

-- What a call says and does to the threads, a constructor for each outcome.
inductive TableStep (table : ThreadTable H A) : List (ThreadId × Message) → ThreadTable H A → Prop where
  | same : TableStep table [] table
  | told (id : ThreadId) (cell : Nat) (found : table.threads id = some cell) (texts : List Message) :
    TableStep table (texts.map (id, ·)) (table.tell cell texts)
  | opened (thread : Thread (ThreadTarget H A)) (missing : table.threads thread.id = none)
    (empty : thread.history = []) (policy : thread.policy = config.defaultPolicy) (texts : List Message) :
    TableStep table (texts.map (thread.id, ·)) ((table.opened thread).tell table.cells.length texts)
  | bound (thread : Thread (ThreadTarget H A)) (cell : Nat) (found : table.threads thread.id = some cell)
    (empty : thread.history = []) : TableStep table [] (table.bound cell thread)

section Calls

variable {serde config}

theorem turns_of_turn {answer : HarnessTask H A → HarnessAnswer} {task task' : HarnessTask H A}
    {world world' : HarnessWorld H A} (turned : task.turn serde config (answer task) world = some (task', world'))
    (n : Nat) :
    HarnessTask.turns serde config answer (n + 1) task world =
      HarnessTask.turns serde config answer n task' world' := by
  rw [HarnessTask.turns, turned]

theorem turns_of_end {answer : HarnessTask H A → HarnessAnswer} {task : HarnessTask H A} {world : HarnessWorld H A}
    (ended : task.turn serde config (answer task) world = none) (n : Nat) :
    HarnessTask.turns serde config answer n task world = (task, world) := by
  cases n with
  | zero => rfl
  | succ n => rw [HarnessTask.turns, ended]

theorem turnsLeft_lt {answer : HarnessAnswer} {task task' : HarnessTask H A} {world world' : HarnessWorld H A}
    (turned : task.turn serde config answer world = some (task', world')) : task'.turnsLeft < task.turnsLeft := by
  cases task with
  | inbound queue phase =>
    cases HarnessTask.inboundStep_of_turn serde config turned <;>
      simp only [HarnessTask.turnsLeft, InboundPhase.turnsLeft, List.length_cons] <;> omega
  | openThread channel peer target phase =>
    obtain ⟨phase', rfl, opened⟩ := HarnessTask.openStep_of_turn config turned
    cases opened <;> simp [HarnessTask.turnsLeft]
  | closeThread id phase =>
    cases phase with
    | removing | deleting =>
      cases turned
      simp [HarnessTask.turnsLeft]
    | returned => cases turned

theorem turns_ended (answer : HarnessTask H A → HarnessAnswer) (n : Nat) (task : HarnessTask H A)
    (world : HarnessWorld H A) (enough : task.turnsLeft ≤ n) :
    let result := HarnessTask.turns serde config answer n task world
    result.1.turn serde config (answer result.1) result.2 = none := by
  induction n generalizing task world with
  | zero =>
    cases turned : task.turn serde config (answer task) world with
    | none => exact turned
    | some next => exact absurd (turnsLeft_lt turned) (by omega)
  | succ n ih =>
    cases turned : task.turn serde config (answer task) world with
    | none =>
      rw [turns_of_end turned]
      exact turned
    | some next =>
      have less := turnsLeft_lt turned
      rw [turns_of_turn turned]
      exact ih next.1 next.2 (by omega)

theorem performed_ended (world : HarnessWorld H A) (op : ChannelOp H A) :
    ∃ task, HarnessTask.turns serde config op.answer 9 op.task world = (task, (world.performed serde config op).2) ∧
      task.turn serde config (op.answer task) (world.performed serde config op).2 = none := by
  refine ⟨_, rfl, turns_ended op.answer 9 op.task world ?_⟩
  cases op with
  | openThread => exact Nat.le_add_left 4 5
  | inbound => exact Nat.le_refl 9

variable {answers : InboundAnswers} {msg : InboundMessage} {cell : Nat} {world : HarnessWorld H A}
  {thread : Thread (ThreadTarget H A)}

theorem turns_recorded (found : world.cells[cell]? = some (thread.pushUser msg.content)) (recordId : String)
    (n : Nat) :
    ∃ world', HarnessTask.turns serde config (ChannelOp.inbound msg answers).answer (n + 3)
        (.inbound [] (.recorded msg cell recordId)) world = (.inbound [] .idle, world') ∧
      world'.table = world.table.tell cell ((replyTo serde thread msg answers.dispatched).toList.map fun content =>
        { role := .assistant, content := content.asText }) := by
  rcases dispatched : dispatch serde thread.target msg
    (buildEnvelope serde msg (thread.pushUser msg.content)) answers.dispatched with ⟨invocations, reply⟩
  have replied : replyTo serde thread msg answers.dispatched = reply := by
    rw [replyTo, dispatched]
  let heard := world.log (.dispatched msg (thread.pushUser msg.content) invocations)
  have heardTable : heard.table = world.table := rfl
  have kept : (thread.pushUser msg.content).target = thread.target := rfl
  cases reply with
  | none =>
    have turned : HarnessTask.turn serde config answers.dispatched (.inbound [] (.recorded msg cell recordId)) world =
        some (.inbound [] .idle, heard) := by
      simp only [HarnessTask.turn, HarnessTask.inboundTurn, found, kept, dispatched, heard]
    refine ⟨heard, (turns_of_turn turned _).trans (turns_of_end rfl _), ?_⟩
    rw [replied, heardTable]
    exact (ThreadTable.tell_nil _ _).symm
  | some content =>
    have turned : HarnessTask.turn serde config answers.dispatched (.inbound [] (.recorded msg cell recordId)) world =
        some (.inbound [] (.replying msg cell recordId content), heard) := by
      simp only [HarnessTask.turn, HarnessTask.inboundTurn, found, kept, dispatched, heard]
    let told := heard.modifyCell cell fun thread => thread.pushAssistant content
    have toldTurn : HarnessTask.turn serde config answers.recorded
        (.inbound [] (.replying msg cell recordId content)) heard =
        some (.inbound [] (.sending msg cell recordId content), told) := rfl
    have inside : told.cells[cell]? = some ((thread.pushUser msg.content).pushAssistant content) := by
      simp [told, heard, HarnessWorld.modifyCell, HarnessWorld.log, found]
    obtain ⟨world', sent, table⟩ : ∃ world', HarnessTask.turn serde config answers.sent
        (.inbound [] (.sending msg cell recordId content)) told = some (.inbound [] .idle, world') ∧
        world'.table = told.table := by
      simp only [HarnessTask.turn, HarnessTask.inboundTurn, inside]
      split
      · exact ⟨_, rfl, rfl⟩
      · exact ⟨_, rfl, rfl⟩
    refine ⟨world', ?_, ?_⟩
    · rw [turns_of_turn turned, turns_of_turn toldTurn]
      exact (turns_of_turn sent _).trans (turns_of_end rfl _)
    · rw [table, replied]
      rfl

theorem turns_found (found : world.cells[cell]? = some thread) (n : Nat) :
    ∃ world', HarnessTask.turns serde config (ChannelOp.inbound msg answers).answer (n + 5)
        (.inbound [] (.found msg cell)) world = (.inbound [] .idle, world') ∧
      world'.table = world.table.tell cell (exchange serde thread msg answers.dispatched) := by
  let heard := (world.modifyCell cell fun thread => thread.pushUser msg.content).log (.pushed msg thread)
  have heardTurn : HarnessTask.turn serde config answers.recorded (.inbound [] (.found msg cell)) world =
      some (.inbound [] (.pushed msg cell), heard) := by
    simp only [HarnessTask.turn, HarnessTask.inboundTurn, found, heard]
  let record := recordFor (ThreadId.forPeer msg.channelId msg.peer) .inbound msg.content
    (some msg.providerMsgId) none answers.recorded.uuid answers.recorded.now
  let recorded : HarnessWorld H A := { heard with store := heard.store.appendMessage record }
  have recordedTurn : HarnessTask.turn serde config answers.recorded (.inbound [] (.pushed msg cell)) heard =
      some (.inbound [] (.recorded msg cell record.id), recorded) := rfl
  have inside : recorded.cells[cell]? = some (thread.pushUser msg.content) := by
    simp [recorded, heard, HarnessWorld.log, HarnessWorld.modifyCell, found]
  rw [turns_of_turn heardTurn, turns_of_turn recordedTurn]
  obtain ⟨world', turns, table⟩ := turns_recorded inside record.id n
  refine ⟨world', turns, ?_⟩
  rw [table, exchange, ← List.singleton_append, ThreadTable.tell_append]
  rfl

theorem turns_opening (target : ThreadTarget H A) (n : Nat) :
    ∃ opened : HarnessWorld H A,
      HarnessTask.turns serde config (ChannelOp.inbound msg answers).answer (n + 2)
          (.inbound [] (.opening msg (HarnessTask.newThread config msg.channelId msg.peer target))) world =
        HarnessTask.turns serde config (ChannelOp.inbound msg answers).answer n
          (.inbound [] (.found msg world.cells.length)) opened ∧
      opened.table = world.table.opened (HarnessTask.newThread config msg.channelId msg.peer target) := by
  let thread := HarnessTask.newThread config msg.channelId msg.peer target
  let inserted := world.insertThread thread
  refine ⟨{ inserted with store := inserted.store.upsertThread thread }, ?_, rfl⟩
  rw [HarnessTask.turns]
  rfl

theorem performed_inbound : TableStep config world.table (world.performed serde config (.inbound msg answers)).1
    (world.performed serde config (.inbound msg answers)).2.table := by
  simp only [HarnessWorld.performed, HarnessWorld.said, HarnessWorld.receiver, ChannelOp.task]
  by_cases seen : world.store.hasInbound msg.channelId msg.providerMsgId = true
  · have turned : HarnessTask.turn serde config answers.recorded (.inbound [msg] .idle) world =
        some (.inbound [] .idle, world.log (.duplicate msg)) := by
      simp only [HarnessTask.turn, HarnessTask.inboundTurn, seen, if_true]
    rw [if_pos seen, turns_of_turn turned, turns_of_end rfl]
    exact .same
  have fresh : HarnessTask.turn serde config answers.recorded (.inbound [msg] .idle) world =
      some (.inbound [] (.looking msg), world) := by
    simp only [HarnessTask.turn, HarnessTask.inboundTurn, if_neg seen]
  rw [if_neg seen, turns_of_turn fresh]
  cases lookup : world.threads (ThreadId.forPeer msg.channelId msg.peer) with
  | some cell =>
    have turned : HarnessTask.turn serde config answers.recorded (.inbound [] (.looking msg)) world =
        some (.inbound [] (.found msg cell), world) := by
      simp only [HarnessTask.turn, HarnessTask.inboundTurn, lookup]
    rw [turns_of_turn turned]
    dsimp only
    cases found : world.cells[cell]? with
    | none =>
      rw [turns_of_end (by simp only [HarnessTask.turn, HarnessTask.inboundTurn, found])]
      exact .same
    | some thread =>
      obtain ⟨world', turns, table⟩ := turns_found found 2
      rw [turns, table]
      exact .told (ThreadId.forPeer msg.channelId msg.peer) cell lookup _
  | none =>
    cases autoOpen : config.autoOpenTarget with
    | none =>
      have turned : HarnessTask.turn serde config answers.recorded (.inbound [] (.looking msg)) world =
          some (.inbound [] .idle,
            world.log (.failed msg (.unknownThread (ThreadId.forPeer msg.channelId msg.peer)))) := by
        simp only [HarnessTask.turn, HarnessTask.inboundTurn, lookup, autoOpen]
      rw [turns_of_turn turned, turns_of_end rfl]
      exact .same
    | some target =>
      have turned : HarnessTask.turn serde config answers.recorded (.inbound [] (.looking msg)) world =
          some (.inbound [] (.opening msg (HarnessTask.newThread config msg.channelId msg.peer target)), world) := by
        simp only [HarnessTask.turn, HarnessTask.inboundTurn, lookup, autoOpen]
      obtain ⟨opened, opening, openedTable⟩ := turns_opening target 5
      rw [turns_of_turn turned, opening]
      have inside : opened.cells[world.cells.length]? =
          some (HarnessTask.newThread config msg.channelId msg.peer target) := by
        have cells := congrArg ThreadTable.cells openedTable
        rw [show opened.cells = _ from cells]
        simp [ThreadTable.opened, HarnessWorld.table]
      obtain ⟨world', turns, table⟩ := turns_found inside 0
      rw [turns, table, openedTable]
      exact .opened (HarnessTask.newThread config msg.channelId msg.peer target) lookup rfl rfl _

theorem performed_openThread {channel : ChannelId} {peer : PeerId} {target : ThreadTarget H A}
    {answer : HarnessAnswer} :
    TableStep config world.table (world.performed serde config (.openThread channel peer target answer)).1
      (world.performed serde config (.openThread channel peer target answer)).2.table := by
  let thread := HarnessTask.newThread config channel peer target
  let task : OpenPhase → HarnessTask H A := .openThread channel peer target
  simp only [HarnessWorld.performed, HarnessWorld.said]
  cases attached : answer.attached with
  | false =>
    have turned : HarnessTask.turn serde config answer (task .checking) world =
        some (task (.returned (.error (.unknownChannel channel))), world) := by
      simp only [task, HarnessTask.turn, HarnessTask.openTurn, attached, Bool.false_eq_true, if_false]
    rw [ChannelOp.task, turns_of_turn turned, turns_of_end rfl]
    exact .same
  | true =>
    have turned : HarnessTask.turn serde config answer (task .checking) world = some (task .binding, world) := by
      simp only [task, HarnessTask.turn, HarnessTask.openTurn, attached, if_true]
    rw [ChannelOp.task, turns_of_turn turned]
    cases lookup : world.threads (ThreadId.forPeer channel peer) with
    | none =>
      have missing : HarnessTask.turn serde config answer (task .binding) world = some (task .inserting, world) := by
        simp only [task, HarnessTask.turn, HarnessTask.openTurn, lookup]
      rw [turns_of_turn missing]
      have step : TableStep config world.table _ _ := .opened thread lookup rfl rfl []
      rw [ThreadTable.tell_nil] at step
      exact step
    | some cell =>
      cases found : world.cells[cell]? with
      | none =>
        rw [turns_of_end (by simp only [task, HarnessTask.turn, HarnessTask.openTurn, lookup, found])]
        exact .same
      | some existing =>
        let rebound := (world.modifyCell cell fun existing => { existing with target := thread.target }).log
          (.bound channel peer existing)
        have bound : HarnessTask.turn serde config answer (task .binding) world = some (task .storing, rebound) := by
          simp only [task, HarnessTask.turn, HarnessTask.openTurn, lookup, found, rebound, thread]
        rw [turns_of_turn bound]
        exact .bound thread cell lookup rfl

variable (serde config) in
theorem performed_step (world : HarnessWorld H A) (op : ChannelOp H A) :
    TableStep config world.table (world.performed serde config op).1 (world.performed serde config op).2.table := by
  cases op with
  | openThread channel peer target answer => exact performed_openThread
  | inbound msg answers => exact performed_inbound

end Calls

section History

variable {serde config}

theorem lastOf_append (cap : Nat) (l : List Message) (text : Message) :
    lastOf cap (lastOf cap l ++ [text]) = lastOf cap (l ++ [text]) := by
  cases cap with
  | zero => rfl
  | succ cap => simp [lastOf, List.rtake_eq_reverse_take_reverse, List.take_take]

theorem history_push (thread : Thread (ThreadTarget H A)) (role : MessageRole) (text : String) :
    (thread.push role text).history =
      lastOf thread.policy.historyCap (thread.history ++ [{ role, content := text }]) := by
  unfold Thread.push lastOf
  rcases Nat.eq_zero_or_pos thread.policy.historyCap with zero | positive
  · simp [zero]
  · simp [positive, Nat.ne_of_gt positive, List.rtake]

theorem history_told (texts : List Message) (thread : Thread (ThreadTarget H A)) (before : List Message)
    (window : thread.history = lastOf thread.policy.historyCap before) :
    let told := texts.foldl (fun thread text => thread.push text.role text.content) thread
    told.policy = thread.policy ∧ told.history = lastOf thread.policy.historyCap (before ++ texts) := by
  induction texts generalizing thread before with
  | nil => exact ⟨rfl, by simpa using window⟩
  | cons text texts ih =>
    have pushed : (thread.push text.role text.content).history =
        lastOf thread.policy.historyCap (before ++ [text]) := by
      rw [history_push, window, lastOf_append]
    obtain ⟨policy, history⟩ := ih (thread.push text.role text.content) (before ++ [text]) pushed
    rw [List.append_assoc] at history
    exact ⟨policy, history⟩

theorem textsOf_append (id : ThreadId) (front back : List (ThreadId × Message)) :
    textsOf id (front ++ back) = textsOf id front ++ textsOf id back := by
  simp [textsOf]

theorem textsOf_self (id : ThreadId) (texts : List Message) : textsOf id (texts.map (id, ·)) = texts := by
  simp [textsOf, List.filter_map, Function.comp_def]

theorem textsOf_other {id other : ThreadId} (different : other ≠ id) (texts : List Message) :
    textsOf id (texts.map (other, ·)) = [] := by
  simp [textsOf, List.filter_map, Function.comp_def, different]

-- Every thread has one cell, with the end of what was said on it, and an empty row.
structure ThreadTable.Kept (cap : Nat) (said : List (ThreadId × Message)) (table : ThreadTable H A) : Prop where
  cells : ∀ id cell, table.threads id = some cell → ∃ thread, table.cells[cell]? = some thread ∧
    thread.policy.historyCap = cap ∧ thread.history = lastOf cap (textsOf id said)
  own : ∀ id other cell, table.threads id = some cell → table.threads other = some cell → id = other
  silent : ∀ id, table.threads id = none → textsOf id said = []
  rows : ∀ id row, table.rows id = some row → row.id = id ∧ row.history = []
  stored : ∀ id cell, table.threads id = some cell → (table.rows id).isSome

variable {cap : Nat} {said : List (ThreadId × Message)} {table table' : ThreadTable H A}

theorem ThreadTable.Kept.tell (kept : table.Kept cap said) {id : ThreadId} {cell : Nat}
    (found : table.threads id = some cell) (texts : List Message) :
    (table.tell cell texts).Kept cap (said ++ texts.map (id, ·)) where
  cells other at_ looked := by
    obtain ⟨thread, inside, policy, window⟩ := kept.cells other at_ looked
    rw [textsOf_append]
    by_cases same : id = other
    · subst same
      obtain rfl : cell = at_ := Option.some_inj.mp (found.symm.trans looked)
      obtain ⟨kept, told⟩ := history_told texts thread (textsOf id said) (policy ▸ window)
      refine ⟨_, by rw [ThreadTable.tell, List.getElem?_modify_eq, inside]; rfl, ?_, ?_⟩
      · rw [kept, policy]
      · rw [told, policy, textsOf_self]
    · have apart : cell ≠ at_ := fun equal => same (kept.own id other at_ (equal ▸ found) looked)
      refine ⟨thread, ?_, policy, ?_⟩
      · rw [ThreadTable.tell, List.getElem?_modify_ne _ _ apart, inside]
      · rw [window, textsOf_other same, List.append_nil]
  own := kept.own
  silent other missing := by
    have different : id ≠ other := by
      rintro rfl
      exact absurd (found.symm.trans missing) (by simp)
    rw [textsOf_append, kept.silent other missing, textsOf_other different, List.append_nil]
  rows := kept.rows
  stored := kept.stored

theorem ThreadTable.Kept.rows_update (kept : table.Kept cap said) {thread : Thread (ThreadTarget H A)}
    (empty : thread.history = []) (id : ThreadId) (row : Thread (ThreadTarget H A))
    (looked : Function.update table.rows thread.id (some thread) id = some row) :
    row.id = id ∧ row.history = [] := by
  by_cases same : id = thread.id
  · rw [same, Function.update_self] at looked
    obtain rfl : thread = row := Option.some_inj.mp looked
    exact ⟨same.symm, empty⟩
  · rw [Function.update_of_ne same] at looked
    exact kept.rows id row looked

theorem isSome_update (rows : ThreadId → Option (Thread (ThreadTarget H A))) (thread : Thread (ThreadTarget H A))
    {id : ThreadId} (stored : id ≠ thread.id → (rows id).isSome) :
    (Function.update rows thread.id (some thread) id).isSome := by
  by_cases same : id = thread.id
  · rw [same, Function.update_self, Option.isSome_some]
  · rw [Function.update_of_ne same]
    exact stored same

theorem ThreadTable.Kept.opened (kept : table.Kept cap said) {thread : Thread (ThreadTarget H A)}
    (missing : table.threads thread.id = none) (empty : thread.history = [])
    (policy : thread.policy.historyCap = cap) : (table.opened thread).Kept cap said := by
  have fresh : ∀ id cell, table.threads id = some cell → cell < table.cells.length := fun id cell found => by
    obtain ⟨_, inside, -⟩ := kept.cells id cell found
    exact (List.getElem?_eq_some_iff.mp inside).1
  have other : ∀ {id}, id ≠ thread.id → (table.opened thread).threads id = table.threads id := fun different =>
    Function.update_of_ne different _ _
  have here : (table.opened thread).threads thread.id = some table.cells.length := Function.update_self _ _ _
  constructor
  case cells =>
    intro id cell found
    by_cases same : id = thread.id
    · subst same
      obtain rfl : table.cells.length = cell := Option.some_inj.mp (here.symm.trans found)
      refine ⟨thread, by simp [ThreadTable.opened], policy, ?_⟩
      rw [empty, kept.silent _ missing]
      simp [lastOf]
    · rw [other same] at found
      obtain ⟨old, inside, ofOld⟩ := kept.cells id cell found
      exact ⟨old, (List.getElem?_append_left (fresh id cell found)).trans inside, ofOld⟩
  case own =>
    intro id id' cell found found'
    by_cases same : id = thread.id <;> by_cases same' : id' = thread.id
    · rw [same, same']
    · rw [same, here] at found
      rw [other same'] at found'
      exact absurd (fresh id' cell found') (by simp_all)
    · rw [same', here] at found'
      rw [other same] at found
      exact absurd (fresh id cell found) (by simp_all)
    · rw [other same] at found
      rw [other same'] at found'
      exact kept.own id id' cell found found'
  case silent =>
    intro id none
    by_cases same : id = thread.id
    · rw [same, here] at none
      cases none
    · exact kept.silent id ((other same).symm.trans none)
  case rows => exact kept.rows_update empty
  case stored =>
    intro id cell found
    exact isSome_update table.rows thread fun different =>
      kept.stored id cell ((other different).symm.trans found)

theorem ThreadTable.Kept.bound (kept : table.Kept cap said) {thread : Thread (ThreadTarget H A)} {cell : Nat}
    (empty : thread.history = []) : (table.bound cell thread).Kept cap said where
  cells id other looked := by
    obtain ⟨existing, inside, policy, window⟩ := kept.cells id other looked
    by_cases same : cell = other
    · subst same
      refine ⟨{ existing with target := thread.target }, ?_, policy, window⟩
      rw [ThreadTable.bound, List.getElem?_modify_eq, inside]
      rfl
    · exact ⟨existing, (List.getElem?_modify_ne _ _ same).trans inside, policy, window⟩
  own := kept.own
  silent := kept.silent
  rows := kept.rows_update empty
  stored id other looked := isSome_update table.rows thread fun _ => kept.stored id other looked

theorem TableStep.kept {now : List (ThreadId × Message)} (step : TableStep config table now table')
    (kept : table.Kept config.defaultPolicy.historyCap said) :
    table'.Kept config.defaultPolicy.historyCap (said ++ now) := by
  cases step with
  | same =>
    rw [List.append_nil]
    exact kept
  | told id cell found texts => exact kept.tell found texts
  | opened thread missing empty policy texts =>
    exact (kept.opened missing empty (congrArg ThreadPolicy.historyCap policy)).tell (Function.update_self _ _ _) texts
  | bound thread cell _ empty =>
    rw [List.append_nil]
    exact kept.bound empty

variable (serde config)

def conversation (world : HarnessWorld H A) (ops : List (ChannelOp H A)) : List (ThreadId × Message) :=
  (Operations.trace (HarnessWorld.performed serde config) world ops).flatMap Prod.snd

def HarnessWorld.Keeps (world : HarnessWorld H A) (said : List (ThreadId × Message)) : Prop :=
  ∀ id thread, world.cached id = some thread →
    thread.history = lastOf config.defaultPolicy.historyCap (textsOf id said)

-- What `list_threads` reports for a cached thread is the length of its history.
def HarnessWorld.Reports (world : HarnessWorld H A) (id : ThreadId) : Prop :=
  ∀ thread, world.cached id = some thread → ∃ channel summary,
    world.store.listThreads channel id = some summary ∧ summary.id = id ∧
      summary.historyLen = thread.history.length

variable {serde config}

theorem kept_new : (HarnessWorld.new : HarnessWorld H A).table.Kept cap [] where
  cells _ _ found := by cases found
  own _ _ _ found := by cases found
  silent _ _ := rfl
  rows _ _ found := by cases found
  stored _ _ found := by cases found

variable (serde config) in
theorem kept_run (world : HarnessWorld H A) (said : List (ThreadId × Message)) (ops : List (ChannelOp H A))
    (kept : world.table.Kept config.defaultPolicy.historyCap said) :
    (Operations.final (HarnessWorld.performed serde config) world ops).table.Kept config.defaultPolicy.historyCap
      (said ++ conversation serde config world ops) := by
  induction ops generalizing world said with
  | nil =>
    rw [conversation, Operations.trace, List.flatMap_nil, List.append_nil]
    exact kept
  | cons op ops ih =>
    have next := ih _ _ ((performed_step serde config world op).kept kept)
    rw [conversation, Operations.trace, List.flatMap_cons, ← List.append_assoc]
    exact next

theorem silent_iff (id : ThreadId) (world : HarnessWorld H A) (op : ChannelOp H A) :
    textsOf id (world.said serde config op) = [] ↔ ¬ op.Reaches config id world := by
  cases op with
  | openThread => simp [HarnessWorld.said, ChannelOp.Reaches, textsOf]
  | inbound msg answers =>
    rw [HarnessWorld.said, ChannelOp.Reaches]
    cases world.receiver config msg with
    | none => simp [textsOf]
    | some thread =>
      by_cases same : ThreadId.forPeer msg.channelId msg.peer = id
      · subst same
        dsimp only
        rw [textsOf_self]
        simp [exchange]
      · dsimp only
        rw [textsOf_other same]
        simp [same]

theorem conversation_silent_iff (id : ThreadId) (world : HarnessWorld H A) (ops : List (ChannelOp H A)) :
    textsOf id (conversation serde config world ops) = [] ↔
      Operations.Along (HarnessWorld.performed serde config) (fun world op => ¬ op.Reaches config id world) world
        ops := by
  induction ops generalizing world with
  | nil => simp [conversation, Operations.trace, Operations.Along, textsOf]
  | cons op ops ih =>
    rw [conversation, Operations.trace, List.flatMap_cons, textsOf_append, List.append_eq_nil_iff, Operations.Along]
    exact and_congr (silent_iff id world op) (ih _)

theorem lastOf_eq_nil_iff (cap : Nat) (l : List Message) : lastOf cap l = [] ↔ l = [] := by
  unfold lastOf
  split
  next => rfl
  next capped => simp [List.rtake_eq_reverse_take_reverse, capped]

theorem ThreadTable.Kept.cached {world : HarnessWorld H A} (kept : world.table.Kept cap said) {id : ThreadId}
    {thread : Thread (ThreadTarget H A)} (cached : world.cached id = some thread) :
    thread.history = lastOf cap (textsOf id said) := by
  obtain ⟨cell, found, inside⟩ := Option.bind_eq_some_iff.mp cached
  obtain ⟨kept, here, -, window⟩ := kept.cells id cell found
  obtain rfl : kept = thread := Option.some_inj.mp (here.symm.trans inside)
  exact window

theorem reports_iff {world : HarnessWorld H A} (kept : world.table.Kept cap said) (id : ThreadId) :
    world.Reports id ↔ textsOf id said = [] := by
  constructor
  · intro reports
    cases found : world.threads id with
    | none => exact kept.silent id found
    | some cell =>
      obtain ⟨thread, inside, -, window⟩ := kept.cells id cell found
      have cached : world.cached id = some thread := by
        rw [HarnessWorld.cached, found]
        exact inside
      obtain ⟨channel, summary, listed, -, agrees⟩ := reports thread cached
      obtain ⟨row, looked, rfl⟩ := Option.map_eq_some_iff.mp listed
      have empty := (kept.rows id row (Option.eq_some_of_filter_eq_some looked)).2
      rw [ThreadSummary.of, empty, List.length_nil, eq_comm, List.length_eq_zero_iff, window,
        lastOf_eq_nil_iff] at agrees
      exact agrees
  · intro silent thread cached
    have window := kept.cached cached
    rw [silent, (lastOf_eq_nil_iff cap []).mpr rfl] at window
    obtain ⟨cell, found, -⟩ := Option.bind_eq_some_iff.mp cached
    obtain ⟨row, looked⟩ := Option.isSome_iff_exists.mp (kept.stored id cell found)
    obtain ⟨same, empty⟩ := kept.rows id row looked
    refine ⟨row.channel, .of row, ?_, same, ?_⟩
    · rw [InMemoryChannelStore.listThreads, show world.store.threads id = some row from looked]
      simp
    · rw [ThreadSummary.of, empty, window]

/-- The histories are what was told, and `list_threads` agrees with a history as long as nothing was. -/
theorem history_summary_iff (serde : InboundSerde A) (config : HarnessConfig (ThreadTarget H A))
    (ops : List (ChannelOp H A)) :
    let world := Operations.final (HarnessWorld.performed serde config) HarnessWorld.new ops
    world.Keeps config (conversation serde config HarnessWorld.new ops) ∧
      ∀ id, world.Reports id ↔
        Operations.Along (HarnessWorld.performed serde config) (fun world op => ¬ op.Reaches config id world)
          HarnessWorld.new ops := by
  have kept := kept_run serde config HarnessWorld.new [] ops kept_new
  rw [List.nil_append] at kept
  refine ⟨fun id thread cached => kept.cached cached, fun id => ?_⟩
  exact (reports_iff kept id).trans (conversation_silent_iff id _ ops)

def greeted : List (ChannelOp Unit Unit) := [
  .openThread "sms" "ann" (.callable ()) plainAnswer,
  .inbound (hello "sms" "ann") { recorded := plainAnswer, dispatched := plainAnswer, sent := plainAnswer }]

theorem greeting_unreported :
    ¬ (Operations.final (HarnessWorld.performed quietSerde manualConfig) HarnessWorld.new greeted).Reports
      "sms#ann" := by
  have kept := kept_run quietSerde manualConfig HarnessWorld.new [] greeted kept_new
  rw [reports_iff kept]
  decide

end History

end

end AtomrAgents
