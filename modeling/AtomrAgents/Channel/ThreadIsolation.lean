import AtomrAgents.Channel.Inbound
import AtomrAgents.Shared.Joined
import AtomrAgents.Shared.Operations

set_option autoImplicit false

/-! A thread is found under the text that is made of its channel and its peer. Two pairs have the same text
when a `#` of the one is the separator of the other, and then they have one thread. -/

namespace AtomrAgents

open Shared

def InboundMessage.pair (msg : InboundMessage) : ChannelId × PeerId := (msg.channelId, msg.peer)

def Thread.pair {T : Type} (thread : Thread T) : ChannelId × PeerId := (thread.channel, thread.peer)

-- No pair is another one with the separator at another place.
def SeparatedPairs (pairs : ChannelId × PeerId → Prop) : Prop :=
  ∀ p q, pairs p → pairs q → ¬Shifted '#' p.1.toList p.2.toList q.1.toList q.2.toList

theorem toList_forPeer (channel : ChannelId) (peer : PeerId) :
    (ThreadId.forPeer channel peer).toList = channel.toList ++ '#' :: peer.toList := by
  simp [ThreadId.forPeer, String.toList_append]

theorem forPeer_eq_iff {p q : ChannelId × PeerId} :
    ThreadId.forPeer p.1 p.2 = ThreadId.forPeer q.1 q.2 ↔
      p = q ∨ Shifted '#' p.1.toList p.2.toList q.1.toList q.2.toList ∨
        Shifted '#' q.1.toList q.2.toList p.1.toList p.2.toList := by
  rw [← String.toList_inj, toList_forPeer, toList_forPeer, joined_eq_iff, String.toList_inj,
    String.toList_inj, Prod.ext_iff]

theorem SeparatedPairs.forPeer_inj {pairs : ChannelId × PeerId → Prop} (separated : SeparatedPairs pairs)
    {p q : ChannelId × PeerId} (used : pairs p) (used' : pairs q)
    (same : ThreadId.forPeer p.1 p.2 = ThreadId.forPeer q.1 q.2) : p = q := by
  rcases forPeer_eq_iff.mp same with same | shifted | shifted
  · exact same
  · exact absurd shifted (separated p q used used')
  · exact absurd shifted (separated q p used' used)

section

variable {H A : Type}

def InboundPhase.pair : InboundPhase H A → Option (ChannelId × PeerId)
  | .idle => none
  | .looking msg | .opening msg _ | .storing msg _ _ | .found msg _ | .pushed msg _ | .recorded msg _ _
  | .replying msg _ _ _ | .sending msg _ _ _ => some msg.pair

def HarnessTask.pair : HarnessTask H A → Option (ChannelId × PeerId)
  | .inbound _ phase => phase.pair
  | .openThread channel peer _ _ => some (channel, peer)
  | .closeThread _ _ => none

structure OnlyOf (pair : Option (ChannelId × PeerId)) (cells cells' : List (Thread (ThreadTarget H A))) : Prop where
  kept : ∀ (cell : Nat) thread, cells[cell]? = some thread → pair ≠ some thread.pair → cells'[cell]? = some thread
  opened : ∀ (cell : Nat) thread, cells[cell]? = none → cells'[cell]? = some thread → pair = some thread.pair

-- What is invoked for a message is the target of a thread of its own pair, and a reply is one on such a thread.
def HarnessEvent.Within (serde : InboundSerde A) (answer : HarnessAnswer) (pair : Option (ChannelId × PeerId))
    (cells : List (Thread (ThreadTarget H A))) : HarnessEvent H A → Prop
  | .dispatched msg _ invocations => pair = some msg.pair ∧ ∃ thread ∈ cells, thread.pair = msg.pair ∧
    invocations = (dispatch serde thread.target msg (buildEnvelope serde msg thread) answer).1
  | .answered msg _ outbound => pair = some msg.pair ∧ (outbound.channelId, outbound.peer) = msg.pair ∧
    ∃ thread ∈ cells, thread.pair = msg.pair ∧ outbound.threadId = thread.id
  | _ => True

structure IsolatedTurn (serde : InboundSerde A) (answer : HarnessAnswer) (task : HarnessTask H A)
    (world world' : HarnessWorld H A) : Prop where
  cells : OnlyOf task.pair world.cells world'.cells
  stored : ∀ id, world'.store.messages id ≠ world.store.messages id →
    (∃ phase, task = .closeThread id phase) ∨ ∃ pair, task.pair = some pair ∧ id = ThreadId.forPeer pair.1 pair.2
  alone : ∀ pair, task.pair = some pair → ∀ thread ∈ world.cells,
    thread.id = ThreadId.forPeer pair.1 pair.2 → thread.pair = pair
  events : ∃ logged, world'.events = world.events ++ logged ∧
    ∀ event ∈ logged, event.Within serde answer task.pair world.cells

def IsolatedAt (serde : InboundSerde A) (config : HarnessConfig (ThreadTarget H A))
    (threads : Threads (HarnessWorld H A) (HarnessTask H A)) (event : Nat × HarnessAnswer) : Prop :=
  ∀ task, threads.locals[event.1]? = some task → IsolatedTurn serde event.2 task threads.shared
    (Threads.heard (HarnessTask.turn serde config) threads event).2.shared

def HarnessCall.Uses (pairs : ChannelId × PeerId → Prop) : HarnessCall H A → Prop
  | .openThread channel peer _ => pairs (channel, peer)
  | .closeThread _ => True

def HoldsPair (cells : List (Thread (ThreadTarget H A))) (cell : Nat) (pair : ChannelId × PeerId) : Prop :=
  ∃ thread, cells[cell]? = some thread ∧ thread.pair = pair ∧ thread.id = ThreadId.forPeer pair.1 pair.2

def InboundPhase.Sound (pairs : ChannelId × PeerId → Prop) (cells : List (Thread (ThreadTarget H A))) :
    InboundPhase H A → Prop
  | .idle => True
  | .looking msg => pairs msg.pair
  | .opening msg thread =>
    pairs msg.pair ∧ thread.pair = msg.pair ∧ thread.id = ThreadId.forPeer msg.channelId msg.peer
  | .storing msg _ cell | .found msg cell | .pushed msg cell | .recorded msg cell _
  | .replying msg cell _ _ | .sending msg cell _ _ => HoldsPair cells cell msg.pair

def HarnessTask.Sound (pairs : ChannelId × PeerId → Prop) (cells : List (Thread (ThreadTarget H A))) :
    HarnessTask H A → Prop
  | .inbound queue phase => (∀ msg ∈ queue, pairs msg.pair) ∧ phase.Sound pairs cells
  | .openThread channel peer _ _ => pairs (channel, peer)
  | .closeThread _ _ => True

structure HarnessWorld.Sound (pairs : ChannelId × PeerId → Prop) (world : HarnessWorld H A) : Prop where
  cells : ∀ (cell : Nat) thread, world.cells[cell]? = some thread →
    pairs thread.pair ∧ thread.id = ThreadId.forPeer thread.channel thread.peer
  threads : ∀ id cell, world.threads id = some cell →
    ∃ pair, ThreadId.forPeer pair.1 pair.2 = id ∧ HoldsPair world.cells cell pair

def Keeps (cells cells' : List (Thread (ThreadTarget H A))) : Prop :=
  ∀ cell pair, HoldsPair cells cell pair → HoldsPair cells' cell pair

variable {pairs : ChannelId × PeerId → Prop} {world world' : HarnessWorld H A}
  {cells cells' : List (Thread (ThreadTarget H A))}

theorem HoldsPair.getElem {cell : Nat} {pair : ChannelId × PeerId} (holds : HoldsPair cells cell pair)
    {thread : Thread (ThreadTarget H A)} (found : cells[cell]? = some thread) :
    thread.pair = pair ∧ thread.id = ThreadId.forPeer pair.1 pair.2 := by
  obtain ⟨thread', found', same⟩ := holds
  rw [found, Option.some_inj] at found'
  rw [found']
  exact same

theorem InboundPhase.Sound.keeps {phase : InboundPhase H A} (sound : phase.Sound pairs cells)
    (keeps : Keeps cells cells') : phase.Sound pairs cells' := by
  cases phase with
  | idle | looking | opening => exact sound
  | storing | found | pushed | recorded | replying | sending => exact keeps _ _ sound

theorem HarnessTask.Sound.keeps {task : HarnessTask H A} (sound : task.Sound pairs cells)
    (keeps : Keeps cells cells') : task.Sound pairs cells' := by
  cases task with
  | inbound queue phase => exact ⟨sound.1, sound.2.keeps keeps⟩
  | openThread | closeThread => exact sound

theorem keeps_modify (cells : List (Thread (ThreadTarget H A))) (cell : Nat)
    (change : Thread (ThreadTarget H A) → Thread (ThreadTarget H A))
    (same : ∀ thread, (change thread).pair = thread.pair ∧ (change thread).id = thread.id) :
    Keeps cells (cells.modify cell change) := by
  rintro other pair ⟨thread, found, samePair, sameId⟩
  rw [HoldsPair, List.getElem?_modify, found, Option.map_eq_map, Option.map_some]
  by_cases mine : cell = other
  · rw [if_pos mine]
    exact ⟨_, rfl, (same thread).1.trans samePair, (same thread).2.trans sameId⟩
  · rw [if_neg mine]
    exact ⟨_, rfl, samePair, sameId⟩

theorem keeps_append (cells more : List (Thread (ThreadTarget H A))) : Keeps cells (cells ++ more) := by
  rintro cell pair ⟨thread, found, same⟩
  have inside := (List.getElem?_eq_some_iff.mp found).1
  exact ⟨thread, (List.getElem?_append_left inside).trans found, same⟩

theorem HarnessWorld.Sound.log (sound : world.Sound pairs) (event : HarnessEvent H A) :
    (world.log event).Sound pairs := ⟨sound.cells, sound.threads⟩

theorem HarnessWorld.Sound.modifyCell (sound : world.Sound pairs) (cell : Nat)
    (change : Thread (ThreadTarget H A) → Thread (ThreadTarget H A))
    (same : ∀ thread, (change thread).pair = thread.pair ∧ (change thread).id = thread.id) :
    (world.modifyCell cell change).Sound pairs where
  cells other thread found := by
    rw [HarnessWorld.modifyCell, List.getElem?_modify, Option.map_eq_map, Option.map_eq_some_iff] at found
    obtain ⟨before, found, changed⟩ := found
    obtain ⟨used, id⟩ := sound.cells other before found
    split at changed
    · have pair := (same before).1
      rw [← changed, (same before).2, pair]
      refine ⟨used, id.trans ?_⟩
      rw [show (change before).channel = before.channel from congrArg Prod.fst pair,
        show (change before).peer = before.peer from congrArg Prod.snd pair]
    · rw [← changed]
      exact ⟨used, id⟩
  threads id other found := by
    obtain ⟨pair, sameId, holds⟩ := sound.threads id other found
    exact ⟨pair, sameId, keeps_modify world.cells cell change same other pair holds⟩

theorem HarnessWorld.Sound.insertThread (sound : world.Sound pairs) {thread : Thread (ThreadTarget H A)}
    (used : pairs thread.pair) (id : thread.id = ThreadId.forPeer thread.channel thread.peer) :
    (world.insertThread thread).Sound pairs where
  cells cell other found := by
    rcases Nat.lt_or_ge cell world.cells.length with less | above
    · rw [HarnessWorld.insertThread, List.getElem?_append_left less] at found
      exact sound.cells cell other found
    · rw [HarnessWorld.insertThread, List.getElem?_append_right above] at found
      rw [List.mem_singleton.mp (List.mem_of_getElem? found)]
      exact ⟨used, id⟩
  threads other cell found := by
    simp only [HarnessWorld.insertThread] at found
    by_cases same : other = thread.id
    · rw [same, Function.update_self, Option.some_inj] at found
      exact ⟨thread.pair, by rw [same, id]; rfl, thread, by simp [HarnessWorld.insertThread, ← found], rfl, id⟩
    · rw [Function.update_of_ne same] at found
      obtain ⟨pair, sameId, holds⟩ := sound.threads other cell found
      exact ⟨pair, sameId, keeps_append world.cells [thread] cell pair holds⟩

theorem HarnessWorld.Sound.removeThread (sound : world.Sound pairs) (id : ThreadId) :
    (world.removeThread id).Sound pairs where
  cells := sound.cells
  threads other cell found := by
    simp only [HarnessWorld.removeThread] at found
    by_cases same : other = id
    · rw [same, Function.update_self] at found
      cases found
    · rw [Function.update_of_ne same] at found
      exact sound.threads other cell found

theorem HarnessWorld.Sound.lookup (sound : world.Sound pairs) (separated : SeparatedPairs pairs)
    {pair : ChannelId × PeerId} (used : pairs pair) {cell : Nat}
    (found : world.threads (ThreadId.forPeer pair.1 pair.2) = some cell) : HoldsPair world.cells cell pair := by
  obtain ⟨other, sameId, thread, atCell, ofOther, id⟩ := sound.threads _ cell found
  have usedOther : pairs other := ofOther ▸ (sound.cells cell thread atCell).1
  rw [separated.forPeer_inj used usedOther sameId.symm]
  exact ⟨thread, atCell, ofOther, id⟩

theorem holds_insertThread (world : HarnessWorld H A) {thread : Thread (ThreadTarget H A)}
    (id : thread.id = ThreadId.forPeer thread.channel thread.peer) :
    HoldsPair (world.insertThread thread).cells world.cells.length thread.pair :=
  ⟨thread, by simp [HarnessWorld.insertThread], rfl, id⟩

structure SoundTurn (pairs : ChannelId × PeerId → Prop) (world : HarnessWorld H A) (task' : HarnessTask H A)
    (world' : HarnessWorld H A) : Prop where
  after : world'.Sound pairs
  own : task'.Sound pairs world'.cells
  keeps : Keeps world.cells world'.cells

variable {serde : InboundSerde A} {config : HarnessConfig (ThreadTarget H A)} {answer : HarnessAnswer}
  {task' : HarnessTask H A}

theorem keeps_refl (cells : List (Thread (ThreadTarget H A))) : Keeps cells cells := fun _ _ holds => holds

theorem inboundTurn_sound (sound : world.Sound pairs) (separated : SeparatedPairs pairs)
    {queue : List InboundMessage} {phase : InboundPhase H A}
    (own : (HarnessTask.inbound queue phase).Sound pairs world.cells)
    (turned : HarnessTask.inboundTurn serde config answer queue phase world = some (task', world')) :
    SoundTurn pairs world task' world' := by
  obtain ⟨rest, own⟩ := own
  cases HarnessTask.inboundStep_of_turn serde config turned with
  | duplicate msg queue =>
    exact ⟨sound.log _, ⟨fun other member => rest other (List.mem_cons_of_mem msg member), trivial⟩, keeps_refl _⟩
  | fresh msg queue =>
    exact ⟨sound, ⟨fun other member => rest other (List.mem_cons_of_mem msg member),
      rest msg List.mem_cons_self⟩, keeps_refl _⟩
  | found msg queue cell found =>
    exact ⟨sound, ⟨rest, sound.lookup separated own found⟩, keeps_refl _⟩
  | unknownThread | detached | silent | send => exact ⟨sound.log _, ⟨rest, trivial⟩, keeps_refl _⟩
  | autoOpen => exact ⟨sound, ⟨rest, own, rfl, rfl⟩, keeps_refl _⟩
  | insert msg queue thread =>
    obtain ⟨used, same, id⟩ := own
    have ofPair : thread.id = ThreadId.forPeer thread.pair.1 thread.pair.2 := by
      rw [same]
      exact id
    have holds := holds_insertThread world ofPair
    rw [same] at holds
    exact ⟨sound.insertThread (same ▸ used) ofPair, ⟨rest, holds⟩, keeps_append _ _⟩
  | store | record => exact ⟨⟨sound.cells, sound.threads⟩, ⟨rest, own⟩, keeps_refl _⟩
  | push msg queue cell =>
    have keeps := keeps_modify world.cells cell (fun thread => thread.pushUser msg.content) fun _ => ⟨rfl, rfl⟩
    have changed := sound.modifyCell cell (fun thread => thread.pushUser msg.content) fun _ => ⟨rfl, rfl⟩
    exact ⟨changed.log _, ⟨rest, keeps cell msg.pair own⟩, keeps⟩
  | reply => exact ⟨sound.log _, ⟨rest, own⟩, keeps_refl _⟩
  | pushReply msg queue cell recordId content =>
    have keeps := keeps_modify world.cells cell (fun thread => thread.pushAssistant content) fun _ => ⟨rfl, rfl⟩
    exact ⟨sound.modifyCell cell _ fun _ => ⟨rfl, rfl⟩, ⟨rest, keeps cell msg.pair own⟩, keeps⟩

theorem openTurn_sound (sound : world.Sound pairs) {channel : ChannelId} {peer : PeerId} {target : ThreadTarget H A}
    {phase : OpenPhase} (used : pairs (channel, peer))
    (turned : HarnessTask.openTurn config answer channel peer target phase world = some (task', world')) :
    SoundTurn pairs world task' world' := by
  obtain ⟨phase', rfl, opened⟩ := HarnessTask.openStep_of_turn config turned
  cases opened with
  | attached | detached | absent => exact ⟨sound, used, keeps_refl _⟩
  | rebind cell =>
    have bound := sound.modifyCell cell (fun existing => { existing with target }) fun _ => ⟨rfl, rfl⟩
    exact ⟨bound.log _, used, keeps_modify world.cells cell _ fun _ => ⟨rfl, rfl⟩⟩
  | insert =>
    have inserted : (world.insertThread (HarnessTask.newThread config channel peer target)).Sound pairs :=
      sound.insertThread used rfl
    exact ⟨inserted.log _, used, keeps_append _ _⟩
  | store => exact ⟨⟨sound.cells, sound.threads⟩, used, keeps_refl _⟩

theorem closeTurn_sound (sound : world.Sound pairs) {id : ThreadId} {phase : ClosePhase}
    (turned : HarnessTask.closeTurn id phase world = some (task', world')) :
    SoundTurn pairs world task' world' := by
  cases phase with
  | removing =>
    cases turned
    exact ⟨sound.removeThread id, trivial, keeps_refl _⟩
  | deleting =>
    cases turned
    exact ⟨⟨sound.cells, sound.threads⟩, trivial, keeps_refl _⟩
  | returned => cases turned

theorem turn_sound (sound : world.Sound pairs) (separated : SeparatedPairs pairs) {task : HarnessTask H A}
    (own : task.Sound pairs world.cells)
    (turned : task.turn serde config answer world = some (task', world')) :
    SoundTurn pairs world task' world' := by
  cases task with
  | inbound queue phase => exact inboundTurn_sound sound separated own turned
  | openThread channel peer target phase => exact openTurn_sound sound own turned
  | closeThread id phase => exact closeTurn_sound sound turned

theorem HarnessTask.Sound.used {task : HarnessTask H A} (own : task.Sound pairs world.cells)
    (sound : world.Sound pairs) {pair : ChannelId × PeerId} (acts : task.pair = some pair) : pairs pair := by
  have held {cell : Nat} (holds : HoldsPair world.cells cell pair) : pairs pair := by
    obtain ⟨thread, found, same, -⟩ := holds
    exact same ▸ (sound.cells cell thread found).1
  cases task with
  | inbound queue phase =>
    cases phase with
    | idle => cases acts
    | looking msg =>
      cases acts
      exact own.2
    | opening msg thread =>
      cases acts
      exact own.2.1
    | storing | found | pushed | recorded | replying | sending =>
      cases acts
      exact held own.2
  | openThread =>
    cases acts
    exact own
  | closeThread => cases acts

theorem HarnessWorld.Sound.alone (sound : world.Sound pairs) (separated : SeparatedPairs pairs)
    {pair : ChannelId × PeerId} (used : pairs pair) :
    ∀ thread ∈ world.cells, thread.id = ThreadId.forPeer pair.1 pair.2 → thread.pair = pair := by
  intro thread member id
  obtain ⟨cell, found⟩ := List.getElem?_of_mem member
  obtain ⟨used', own⟩ := sound.cells cell thread found
  exact separated.forPeer_inj used' used (own.symm.trans id)

theorem onlyOf_refl (pair : Option (ChannelId × PeerId)) (cells : List (Thread (ThreadTarget H A))) :
    OnlyOf pair cells cells where
  kept _ _ found _ := found
  opened _ _ absent found := by
    rw [absent] at found
    cases found

theorem onlyOf_modify {cell : Nat} {pair : ChannelId × PeerId} (holds : HoldsPair cells cell pair)
    (change : Thread (ThreadTarget H A) → Thread (ThreadTarget H A)) :
    OnlyOf (some pair) cells (cells.modify cell change) where
  kept other thread found apart := by
    have other : cell ≠ other := by
      rintro rfl
      exact apart (congrArg some (holds.getElem found).1.symm)
    simp [found, other]
  opened other thread absent found := by
    rw [List.getElem?_modify, absent] at found
    cases found

theorem onlyOf_append (cells : List (Thread (ThreadTarget H A))) (thread : Thread (ThreadTarget H A)) :
    OnlyOf (some thread.pair) cells (cells ++ [thread]) where
  kept cell other found _ := by
    rw [List.getElem?_append_left (List.getElem?_eq_some_iff.mp found).1]
    exact found
  opened cell other absent found := by
    rw [List.getElem?_append_right (List.getElem?_eq_none_iff.mp absent)] at found
    rw [List.mem_singleton.mp (List.mem_of_getElem? found)]

section Turns

variable {task : HarnessTask H A}

def Alone (world : HarnessWorld H A) (task : HarnessTask H A) : Prop :=
  ∀ pair, task.pair = some pair → ∀ thread ∈ world.cells,
    thread.id = ThreadId.forPeer pair.1 pair.2 → thread.pair = pair

theorem IsolatedTurn.silent (alone : Alone world task) (cells : OnlyOf task.pair world.cells world'.cells)
    (messages : world'.store.messages = world.store.messages) (events : world'.events = world.events) :
    IsolatedTurn serde answer task world world' where
  cells := cells
  stored id changed := absurd (congrFun messages id) changed
  alone := alone
  events := ⟨[], by rw [events, List.append_nil], by simp⟩

theorem IsolatedTurn.logged (alone : Alone world task) {event : HarnessEvent H A}
    (cells : OnlyOf task.pair world.cells world'.cells) (messages : world'.store.messages = world.store.messages)
    (events : world'.events = world.events ++ [event]) (within : event.Within serde answer task.pair world.cells) :
    IsolatedTurn serde answer task world world' where
  cells := cells
  stored id changed := absurd (congrFun messages id) changed
  alone := alone
  events := ⟨[event], events, by simpa using within⟩

theorem inboundTurn_isolated {queue : List InboundMessage} {phase : InboundPhase H A}
    (own : phase.Sound pairs world.cells) (alone : Alone world (.inbound queue phase))
    (turned : HarnessTask.inboundTurn serde config answer queue phase world = some (task', world')) :
    IsolatedTurn serde answer (.inbound queue phase) world world' := by
  cases HarnessTask.inboundStep_of_turn serde config turned with
  | duplicate msg | unknownThread msg | detached msg =>
    exact .logged alone (onlyOf_refl _ _) rfl rfl trivial
  | fresh | found | autoOpen | store => exact .silent alone (onlyOf_refl _ _) rfl rfl
  | insert msg queue thread =>
    have added := onlyOf_append world.cells thread
    rw [own.2.1] at added
    exact .silent alone added rfl rfl
  | push msg queue cell => exact .logged alone (onlyOf_modify own _) rfl rfl trivial
  | record msg queue cell =>
    refine ⟨onlyOf_refl _ _, fun id changed => .inr ⟨msg.pair, rfl, ?_⟩, alone, [], by simp, by simp⟩
    by_contra other
    exact changed (Function.update_of_ne other _ _)
  | silent msg queue cell recordId thread found | reply msg queue cell recordId thread found =>
    have member := List.mem_of_getElem? found
    exact .logged alone (onlyOf_refl _ _) rfl rfl ⟨rfl, thread, member, (own.getElem found).1, rfl⟩
  | pushReply msg queue cell recordId content => exact .silent alone (onlyOf_modify own _) rfl rfl
  | send msg queue cell recordId content thread found =>
    obtain ⟨same, id⟩ := own.getElem found
    have member := List.mem_of_getElem? found
    exact .logged alone (onlyOf_refl _ _) rfl rfl ⟨rfl, rfl, thread, member, same, id.symm⟩

theorem openTurn_isolated (sound : world.Sound pairs) (separated : SeparatedPairs pairs) {channel : ChannelId}
    {peer : PeerId} {target : ThreadTarget H A} {phase : OpenPhase} (used : pairs (channel, peer))
    (alone : Alone world (.openThread channel peer target phase))
    (turned : HarnessTask.openTurn config answer channel peer target phase world = some (task', world')) :
    IsolatedTurn serde answer (.openThread channel peer target phase) world world' := by
  obtain ⟨phase', rfl, opened⟩ := HarnessTask.openStep_of_turn config turned
  cases opened with
  | attached | detached | absent | store => exact .silent alone (onlyOf_refl _ _) rfl rfl
  | rebind cell existing found =>
    have holds := sound.lookup separated used found
    exact .logged alone (onlyOf_modify holds _) rfl rfl trivial
  | insert =>
    exact .logged alone (onlyOf_append world.cells (HarnessTask.newThread config channel peer target)) rfl rfl trivial

theorem closeTurn_isolated {id : ThreadId} {phase : ClosePhase}
    (turned : HarnessTask.closeTurn id phase world = some (task', world')) :
    IsolatedTurn serde answer (.closeThread id phase) world world' := by
  have none : Alone world (.closeThread id phase) := by
    rintro _ ⟨⟩
  cases phase with
  | removing =>
    cases turned
    exact .silent none (onlyOf_refl _ _) rfl rfl
  | deleting =>
    cases turned
    refine ⟨onlyOf_refl _ _, fun other changed => .inl ⟨.deleting, ?_⟩, none, [], by simp, by simp⟩
    by_contra differ
    have kept : other ≠ id := by
      rintro rfl
      exact differ rfl
    exact changed (Function.update_of_ne kept _ _)
  | returned => cases turned

theorem turn_isolated (sound : world.Sound pairs) (separated : SeparatedPairs pairs) {task : HarnessTask H A}
    (own : task.Sound pairs world.cells)
    (turned : task.turn serde config answer world = some (task', world')) :
    IsolatedTurn serde answer task world world' := by
  have alone : Alone world task := fun pair acts => sound.alone separated (own.used sound acts)
  cases task with
  | inbound queue phase => exact inboundTurn_isolated own.2 alone turned
  | openThread channel peer target phase => exact openTurn_isolated sound separated own alone turned
  | closeThread id phase => exact closeTurn_isolated turned

end Turns

def SoundThreads (pairs : ChannelId × PeerId → Prop)
    (threads : Threads (HarnessWorld H A) (HarnessTask H A)) : Prop :=
  threads.shared.Sound pairs ∧
    ∀ (j : Nat) task, threads.locals[j]? = some task → task.Sound pairs threads.shared.cells

theorem soundThreads_start {queue : List InboundMessage} {calls : List (HarnessCall H A)}
    (received : ∀ msg ∈ queue, pairs msg.pair) (called : ∀ call ∈ calls, call.Uses pairs) :
    SoundThreads pairs (startHarness queue calls) := by
  refine ⟨⟨?_, ?_⟩, ?_⟩
  · rintro _ _ ⟨⟩
  · rintro _ _ ⟨⟩
  · intro j task found
    cases j with
    | zero =>
      cases found
      exact ⟨received, trivial⟩
    | succ j =>
      rw [startHarness, List.getElem?_cons_succ, List.getElem?_map, Option.map_eq_some_iff] at found
      obtain ⟨call, atCall, rfl⟩ := found
      have uses := called call (List.mem_of_getElem? atCall)
      cases call with
      | openThread => exact uses
      | closeThread => trivial

theorem SoundThreads.turn {threads : Threads (HarnessWorld H A) (HarnessTask H A)}
    (sound : SoundThreads pairs threads) (separated : SeparatedPairs pairs) (event : Nat × HarnessAnswer) :
    SoundThreads pairs (Threads.heard (HarnessTask.turn serde config) threads event).2 := by
  obtain ⟨i, answer⟩ := event
  rcases Threads.heard_cases threads i answer with
    ⟨-, same⟩ | ⟨own, own', turned⟩
  · rw [same]
    exact sound
  · have step := turn_sound sound.1 separated (sound.2 i own turned.before) turned.takes
    exact ⟨step.after, turned.each (P := fun world _ task => task.Sound pairs world.cells) step.own
      fun j other _ found => (sound.2 j other found).keeps step.keeps⟩

theorem SoundThreads.isolatedAt {threads : Threads (HarnessWorld H A) (HarnessTask H A)}
    (sound : SoundThreads pairs threads) (separated : SeparatedPairs pairs) (event : Nat × HarnessAnswer) :
    IsolatedAt serde config threads event := by
  obtain ⟨i, answer⟩ := event
  intro task found
  have own := sound.2 i task found
  rcases Threads.heard_cases threads i answer with ⟨-, same⟩ | ⟨own', next, turned⟩
  · rw [same]
    exact .silent (fun pair acts => sound.1.alone separated (own.used sound.1 acts)) (onlyOf_refl _ _) rfl rfl
  · rw [turned.before, Option.some_inj] at found
    subst found
    exact turn_isolated sound.1 separated own turned.takes

theorem pushUser_ne {thread : Thread (ThreadTarget H A)} (empty : thread.history = []) (content : MessageContent) :
    thread.pushUser content ≠ thread := by
  intro same
  have history := congrArg (List.length ∘ Thread.history) same
  simp only [Thread.pushUser, Thread.push, empty, Function.comp_apply, List.nil_append, List.length_drop,
    List.length_singleton, List.length_nil] at history
  split at history
  · omega
  · omega

variable (serde config) in
-- A thread is opened for the first pair, and then a message of the second one is at the thread of that id.
theorem found_of_same_id (target : ThreadTarget H A) {p : ChannelId × PeerId} (msg : InboundMessage)
    (same : ThreadId.forPeer p.1 p.2 = ThreadId.forPeer msg.channelId msg.peer) :
    let opened := HarnessTask.newThread config p.1 p.2 target
    let threads := Operations.final (Threads.heard (HarnessTask.turn serde config))
      (startHarness [msg] [.openThread p.1 p.2 target]) (turnsOf [1, 1, 1, 0, 0])
    threads.locals[0]? = some (.inbound [] (.found msg 0)) ∧ threads.shared.cells = [opened] ∧
      (Threads.heard (HarnessTask.turn serde config) threads (0, plainAnswer)).2.shared.cells =
        [opened.pushUser msg.content] := by
  simp [Operations.final, Threads.heard, Threads.step, startHarness, HarnessCall.task, HarnessTask.turn,
    HarnessTask.openTurn, HarnessTask.inboundTurn, HarnessWorld.new, HarnessWorld.insertThread,
    HarnessWorld.log, HarnessWorld.modifyCell, InMemoryChannelStore.hasInbound, InMemoryChannelStore.new,
    HarnessTask.newThread, Thread.new, turnsOf, plainAnswer, ← same]

variable (serde config) in
/-- A message concerns no thread but that of its own channel and peer in all runs of the given pairs, if and only if
none of the pairs is another one with the separator at another place. -/
theorem threads_isolated_iff (target : ThreadTarget H A) (pairs : ChannelId × PeerId → Prop) :
    (∀ (queue : List InboundMessage) (calls : List (HarnessCall H A)) (schedule : List (Nat × HarnessAnswer)),
      (∀ msg ∈ queue, pairs msg.pair) → (∀ call ∈ calls, call.Uses pairs) →
      Operations.Along (Threads.heard (HarnessTask.turn serde config)) (IsolatedAt serde config)
        (startHarness queue calls) schedule) ↔ SeparatedPairs pairs := by
  constructor
  · intro isolated p q used used' shifted
    have same := forPeer_eq_iff.mpr (.inr (.inl shifted))
    have along := isolated [hello q.1 q.2] [.openThread p.1 p.2 target]
      (turnsOf [1, 1, 1, 0, 0] ++ [(0, plainAnswer)])
      (by simpa [hello, InboundMessage.pair] using used') (by simpa [HarnessCall.Uses] using used)
    obtain ⟨waits, cells, pushed⟩ := found_of_same_id serde config target (hello q.1 q.2) same
    have turn := ((Operations.along_append _ _ _ _).mp along).2.1 _ waits
    have apart : some q ≠ some p := by
      intro equal
      rw [Option.some_inj] at equal
      exact shifted.ne (congrArg (fun pair => pair.1.toList) equal).symm
    have kept := turn.cells.kept 0 (HarnessTask.newThread config p.1 p.2 target) (by rw [cells]; rfl) apart
    rw [pushed] at kept
    exact pushUser_ne rfl _ (Option.some_inj.mp kept)
  · intro separated queue calls schedule received called
    exact Operations.along_of_invariant (SoundThreads pairs) (fun _ event sound => sound.isolatedAt separated event)
      (fun _ event sound => sound.turn separated event) _ schedule (soundThreads_start received called)

end

-- The only thread is the one of `(a#b, c)`, and the message of `(a, b#c)` comes into its history and to its target.
theorem dispatched_to_other_peer :
    let run := Operations.final (Threads.heard (HarnessTask.turn quietSerde manualConfig))
      (startHarness [hello "a" "b#c"] [.openThread "a#b" "c" (.callable ())])
      (turnsOf [1, 1, 1, 1, 0, 0, 0, 0, 0])
    (run.shared.cells.map fun thread => (thread.pair, thread.history)) =
        [(("a#b", "c"), [{ role := .user, content := "hello" }])] ∧
      (run.shared.events.flatMap (HarnessEvent.invocationsOf ("a", "m"))).map TargetInvocation.isCall = [true] := by
  decide

end AtomrAgents
