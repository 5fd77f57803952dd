import AtomrAgents.Channel.DiscordGateway

set_option autoImplicit false

namespace AtomrAgents.Discord

theorem Client.send_cases {client next : Client} {frame : Outgoing} (sent : client.send frame = some next) :
    (client.sink = .ended ∧ next = client) ∨
      (client.sink ≠ .ended ∧ client.queue.length < sinkCapacity ∧
        next = { client with queue := client.queue ++ [frame] }) := by
  rw [send] at sent
  split at sent
  · next gone =>
    cases sent
    exact .inl ⟨gone, rfl⟩
  · next there =>
    split at sent
    · next room =>
      cases sent
      exact .inr ⟨there, room, rfl⟩
    · cases sent

def Client.Flying (client : Client) (frame : Value) : Prop :=
  .text frame ∈ client.queue ∨ client.main = .beating frame ∨ client.heartbeats = .sending frame

namespace Gateway

variable (gateway : Gateway)

def lastSeq (items : List Incoming) : Option Int := (items.filterMap gateway.sequence).getLast?

def Timely (handled : List Incoming) (frame : Value) : Prop :=
  ∃ seen, seen <+: handled ∧ frame = heartbeat (gateway.lastSeq seen)

structure Sent (client : Client) : Prop where
  seq : client.seq = gateway.lastSeq client.handled
  flying : ∀ frame, client.Flying frame → gateway.Timely client.handled frame
  wire : ∃ (beats : List Value) (ending : List Outgoing), client.wire =
      .text (identify gateway.config gateway.os) :: (beats.map Outgoing.text ++ ending) ∧
    (∀ frame ∈ beats, gateway.Timely client.handled frame) ∧
      (ending = [] ∨ ending = [.close] ∧ client.sink = .ended)

variable {gateway} {client : Client}

theorem lastSeq_append (items : List Incoming) (item : Incoming) :
    gateway.lastSeq (items ++ [item]) = (gateway.sequence item).or (gateway.lastSeq items) := by
  rw [lastSeq, List.filterMap_append]
  cases found : gateway.sequence item with
  | none => simp [found, lastSeq]
  | some seq => simp [found]

theorem Timely.mono {handled later : List Incoming} {frame : Value} (timely : gateway.Timely handled frame) :
    gateway.Timely (handled ++ later) frame := by
  obtain ⟨seen, front, rfl⟩ := timely
  exact ⟨seen, front.trans (List.prefix_append _ _), rfl⟩

theorem Sent.now (sent : gateway.Sent client) : gateway.Timely client.handled (heartbeat client.seq) :=
  ⟨client.handled, List.prefix_refl _, by rw [sent.seq]⟩

theorem Sent.moves {next : Client} (sent : gateway.Sent client) (handled : next.handled = client.handled)
    (seq : next.seq = client.seq)
    (flying : ∀ frame, next.Flying frame → client.Flying frame ∨ frame = heartbeat client.seq)
    (wire : (next.wire = client.wire ∧ (client.sink = .ended → next.sink = .ended)) ∨
      client.sink ≠ .ended ∧ ((∃ frame, .text frame ∈ client.queue ∧ next.wire = client.wire ++ [.text frame]) ∨
        next.wire = client.wire ++ [.close] ∧ next.sink = .ended)) : gateway.Sent next := by
  refine ⟨by rw [seq, handled, sent.seq], ?_, ?_⟩
  · intro frame member
    rw [handled]
    rcases flying frame member with before | now
    · exact sent.flying frame before
    · exact now ▸ sent.now
  · obtain ⟨beats, ending, same, timely, ends⟩ := sent.wire
    rw [handled]
    rcases wire with ⟨kept, over_⟩ | ⟨running, added⟩
    · refine ⟨beats, ending, kept.trans same, timely, ends.imp id ?_⟩
      exact fun closed => ⟨closed.1, over_ closed.2⟩
    · have open_ : ending = [] := ends.resolve_right fun closed => running closed.2
      subst open_
      rcases added with ⟨frame, queued, more⟩ | ⟨more, over_⟩
      · refine ⟨beats ++ [frame], [], ?_, ?_, .inl rfl⟩
        · rw [more, same]
          simp
        · intro other member
          rw [List.mem_append, List.mem_singleton] at member
          rcases member with before | rfl
          · exact timely other before
          · exact sent.flying other (.inl queued)
      · exact ⟨beats, [.close], by rw [more, same]; simp, timely, .inr ⟨rfl, over_⟩⟩

theorem Sent.push (sent : gateway.Sent client) : gateway.Sent client.push := by
  rw [Client.push]
  split
  · next frame phase =>
    cases able : client.send (.text frame) with
    | none => exact sent
    | some next =>
      rcases Client.send_cases able with ⟨gone, rfl⟩ | ⟨running, room, rfl⟩
      · refine sent.moves rfl rfl ?_ (.inl ⟨rfl, id⟩)
        rintro other (queued | main | beat)
        · exact .inl (.inl queued)
        · cases main
        · exact .inl (.inr (.inr beat))
      · refine sent.moves rfl rfl ?_ (.inl ⟨rfl, id⟩)
        rintro other (queued | main | beat)
        · rcases List.mem_append.mp queued with queued | new
          · exact .inl (.inl queued)
          · cases List.mem_singleton.mp new
            exact .inl (.inr (.inl phase))
        · cases main
        · exact .inl (.inr (.inr beat))
  · next result phase =>
    cases able : client.send .close with
    | none => exact sent
    | some next =>
      rcases Client.send_cases able with ⟨gone, rfl⟩ | ⟨running, room, rfl⟩
      · refine sent.moves rfl rfl ?_ (.inl ⟨rfl, id⟩)
        rintro other (queued | main | beat)
        · exact .inl (.inl queued)
        · cases main
        · exact .inl (.inr (.inr beat))
      · refine sent.moves rfl rfl ?_ (.inl ⟨rfl, id⟩)
        rintro other (queued | main | beat)
        · rcases List.mem_append.mp queued with queued | new
          · exact .inl (.inl queued)
          · cases List.mem_singleton.mp new
        · cases main
        · exact .inl (.inr (.inr beat))
  · exact sent

theorem Sent.turnTo (sent : gateway.Sent client) {main : MainTask} (other : ∀ frame, main ≠ .beating frame)
    (inbound : List InboundMessage) : gateway.Sent { client with main, inbound } := by
  refine sent.moves rfl rfl ?_ (.inl ⟨rfl, id⟩)
  rintro frame (queued | now | beat)
  · exact .inl (.inl queued)
  · exact absurd now (other frame)
  · exact .inl (.inr (.inr beat))

theorem Sent.forward (sent : gateway.Sent client) : gateway.Sent client.forward := by
  rw [Client.forward]
  split
  · split
    · exact sent.turnTo (by simp) client.inbound
    · exact sent.turnTo (by simp) _
  · exact sent

theorem Sent.join (sent : gateway.Sent client) : gateway.Sent client.join := by
  rw [Client.join]
  split
  · refine sent.moves rfl rfl ?_ (.inl ⟨rfl, id⟩)
    rintro frame (queued | main | beat)
    · exact .inl (.inl queued)
    · cases main
    · cases beat
  · exact sent

theorem Sent.look (sent : gateway.Sent client) : gateway.Sent client.look := by
  rw [Client.look]
  split
  · refine sent.turnTo ?_ client.inbound
    intro frame
    split <;> simp
  · exact sent

theorem Sent.idle (sent : gateway.Sent client) : gateway.Sent client.idle := by
  rw [Client.idle]
  split
  · exact sent.turnTo (by simp) client.inbound
  · exact sent

theorem Sent.sinkLook (sent : gateway.Sent client) : gateway.Sent client.sinkLook := by
  rw [Client.sinkLook]
  split
  · next phase =>
    have running : client.sink ≠ .ended := by simp [phase]
    split
    · refine sent.moves rfl rfl ?_ (.inr ⟨running, .inr ⟨rfl, rfl⟩⟩)
      rintro frame (queued | main)
      · cases queued
      · exact .inl (.inr main)
    · exact sent.moves rfl rfl (fun _ => .inl) (.inl ⟨rfl, fun gone => absurd gone running⟩)
  · exact sent

theorem Sent.sinkIdle (sent : gateway.Sent client) : gateway.Sent client.sinkIdle := by
  rw [Client.sinkIdle]
  split
  · next phase =>
    have running : client.sink ≠ .ended := by simp [phase]
    exact sent.moves rfl rfl (fun _ => .inl) (.inl ⟨rfl, fun gone => absurd gone running⟩)
  · exact sent

theorem Sent.flush (sent : gateway.Sent client) (taken : Bool) : gateway.Sent (client.flush taken) := by
  rw [Client.flush]
  split
  · next frame rest phase queue =>
    have running : client.sink ≠ .ended := by simp [phase]
    have front : .text frame ∈ client.queue := by simp [queue]
    split
    · refine sent.moves rfl rfl ?_ (.inr ⟨running, .inl ⟨frame, front, rfl⟩⟩)
      rintro other (queued | main)
      · exact .inl (.inl (by rw [queue]; exact List.mem_cons_of_mem _ queued))
      · exact .inl (.inr main)
    · refine sent.moves rfl rfl ?_ (.inl ⟨rfl, fun gone => absurd gone running⟩)
      rintro other (queued | main)
      · cases queued
      · exact .inl (.inr main)
  · next phase queue =>
    have running : client.sink ≠ .ended := by simp [phase]
    refine sent.moves rfl rfl ?_ (.inr ⟨running, .inr ⟨rfl, rfl⟩⟩)
    rintro other (queued | main)
    · cases queued
    · exact .inl (.inr main)
  · next phase queue =>
    have running : client.sink ≠ .ended := by simp [phase]
    split
    · exact sent
    · exact sent.moves rfl rfl (fun _ => .inl) (.inr ⟨running, .inr ⟨rfl, rfl⟩⟩)
  · exact sent

theorem Sent.tick (sent : gateway.Sent client) : gateway.Sent client.tick := by
  rw [Client.tick]
  split
  · refine sent.moves rfl rfl ?_ (.inl ⟨rfl, id⟩)
    rintro other (queued | main | beat)
    · exact .inl (.inl queued)
    · exact .inl (.inr (.inl main))
    · simp only at beat
      split at beat
      · cases beat
      · cases beat
        exact .inr rfl
  · exact sent

theorem Sent.beat (sent : gateway.Sent client) : gateway.Sent client.beat := by
  rw [Client.beat]
  split
  · next frame phase =>
    split
    · refine sent.moves rfl rfl ?_ (.inl ⟨rfl, id⟩)
      rintro other (queued | main | beat)
      · exact .inl (.inl queued)
      · exact .inl (.inr (.inl main))
      · cases beat
    · exact sent
    · next able running =>
      rcases Client.send_cases able with ⟨gone, -⟩ | ⟨-, room, rfl⟩
      · exact absurd gone running
      · refine sent.moves rfl rfl ?_ (.inl ⟨rfl, id⟩)
        rintro other (queued | main | beat)
        · rcases List.mem_append.mp queued with queued | new
          · exact .inl (.inl queued)
          · cases List.mem_singleton.mp new
            exact .inl (.inr (.inr phase))
        · exact .inl (.inr (.inl main))
        · cases beat
  · exact sent

theorem Sent.receive (sent : gateway.Sent client) (item : Incoming) :
    gateway.Sent (gateway.receive client item) := by
  rw [Gateway.receive]
  split
  · have seq : (gateway.sequence item).or client.seq = gateway.lastSeq (client.handled ++ [item]) := by
      rw [lastSeq_append, sent.seq]
    refine ⟨seq, ?_, ?_⟩
    · rintro frame (queued | main | beat)
      · exact (sent.flying frame (.inl queued)).mono
      · simp only at main
        split at main
        · cases main
        · cases main
          exact ⟨_, List.prefix_refl _, by rw [seq]⟩
        · cases main
        · cases main
      · exact (sent.flying frame (.inr (.inr beat))).mono
    · obtain ⟨beats, ending, same, timely, ends⟩ := sent.wire
      exact ⟨beats, ending, same, fun frame member => (timely frame member).mono, ends⟩
  · exact sent

theorem Sent.initial : gateway.Sent gateway.initial := by
  refine ⟨rfl, ?_, ⟨[], [], rfl, by simp, .inl rfl⟩⟩
  rintro frame (queued | main | beat)
  · cases queued
  · cases main
  · cases beat

theorem Sent.next (sent : gateway.Sent client) (event : Event) : gateway.Sent (gateway.next client event) := by
  cases event with
  | stop => exact sent.moves rfl rfl (fun _ => .inl) (.inl ⟨rfl, id⟩)
  | hangUp => exact sent.moves rfl rfl (fun _ => .inl) (.inl ⟨rfl, id⟩)
  | look => exact sent.look
  | idle => exact sent.idle
  | receive item => exact sent.receive item
  | push => exact sent.push
  | forward => exact sent.forward
  | join => exact sent.join
  | sinkLook => exact sent.sinkLook
  | sinkIdle => exact sent.sinkIdle
  | flush taken => exact sent.flush taken
  | tick => exact sent.tick
  | beat => exact sent.beat

end Gateway

def MainTask.result : MainTask → Option (Except DiscordError Unit)
  | .closing result | .joining result | .ended result => some result
  | _ => none

def MainTask.held : MainTask → List InboundMessage
  | .forwarding msg => [msg]
  | _ => []

namespace Gateway

variable (gateway : Gateway)

def forwarded (item : Incoming) : Option InboundMessage :=
  match gateway.verdict item with
  | .forward msg => some msg
  | _ => none

def leaves (item : Incoming) : Option (Except DiscordError Unit) :=
  match gateway.verdict item with
  | .leave result => some result
  | _ => none

-- The loop ends with the first frame that ends it, when it sees the stop flag, or with a message that nobody
-- takes any more.
inductive Left (client : Client) : Except DiscordError Unit → Prop where
  | item {result : Except DiscordError Unit} (front : List Incoming) (last : Incoming)
    (handled : client.handled = front ++ [last]) (first : ∀ item ∈ front, gateway.leaves item = none)
    (ends : gateway.leaves last = some result)
    (inbound : client.inbound = client.handled.filterMap gateway.forwarded) : Left client result
  | stop (set : client.stop = true) (none_ : ∀ item ∈ client.handled, gateway.leaves item = none)
    (inbound : client.inbound = client.handled.filterMap gateway.forwarded) : Left client (.ok ())
  | hungUp (set : client.inboundClosed = true) (none_ : ∀ item ∈ client.handled, gateway.leaves item = none)
    (lost : InboundMessage) (inbound : client.inbound ++ [lost] = client.handled.filterMap gateway.forwarded) :
    Left client (.ok ())

structure Passed (client : Client) : Prop where
  reading : client.main.result = none → (∀ item ∈ client.handled, gateway.leaves item = none) ∧
    client.inbound ++ client.main.held = client.handled.filterMap gateway.forwarded
  left : ∀ result, client.main.result = some result → gateway.Left client result

variable {gateway} {client later : Client}

theorem Passed.same (passed : gateway.Passed client) (result : later.main.result = client.main.result)
    (held : later.main.held = client.main.held) (handled : later.handled = client.handled)
    (inbound : later.inbound = client.inbound) (stop : client.stop = true → later.stop = true)
    (hungUp : client.inboundClosed = true → later.inboundClosed = true) : gateway.Passed later := by
  constructor
  · intro none_
    rw [handled, inbound, held]
    exact passed.reading (result ▸ none_)
  · intro outcome found
    rw [result] at found
    cases passed.left outcome found with
    | item front last same first ends passedOn =>
      exact .item front last (handled.trans same) first ends (by rw [inbound, handled, passedOn])
    | stop set none_ passedOn =>
      exact .stop (stop set) (by rwa [handled]) (by rw [inbound, handled, passedOn])
    | hungUp set none_ lost passedOn =>
      exact .hungUp (hungUp set) (by rwa [handled]) lost (by rw [inbound, handled, passedOn])

theorem Passed.push (passed : gateway.Passed client) : gateway.Passed client.push := by
  rw [Client.push]
  split
  · next frame phase =>
    cases able : client.send (.text frame) with
    | none => exact passed
    | some next =>
      rcases Client.send_cases able with ⟨gone, rfl⟩ | ⟨running, room, rfl⟩
      · exact passed.same (by rw [phase]; rfl) (by rw [phase]; rfl) rfl rfl id id
      · exact passed.same (by rw [phase]; rfl) (by rw [phase]; rfl) rfl rfl id id
  · next result phase =>
    cases able : client.send .close with
    | none => exact passed
    | some next =>
      rcases Client.send_cases able with ⟨gone, rfl⟩ | ⟨running, room, rfl⟩
      · exact passed.same (by rw [phase]; rfl) (by rw [phase]; rfl) rfl rfl id id
      · exact passed.same (by rw [phase]; rfl) (by rw [phase]; rfl) rfl rfl id id
  · exact passed

theorem Passed.forward (passed : gateway.Passed client) : gateway.Passed client.forward := by
  rw [Client.forward]
  split
  · next msg phase =>
    obtain ⟨none_, inbound⟩ := passed.reading (by rw [phase]; rfl)
    rw [phase] at inbound
    split
    · next closed =>
      refine ⟨fun reading => (by cases reading), ?_⟩
      rintro _ ⟨⟩
      exact .hungUp closed none_ msg inbound
    · refine ⟨fun _ => ⟨none_, ?_⟩, fun _ found => (by cases found)⟩
      rw [← inbound]
      exact List.append_nil _
  · exact passed

theorem Passed.look (passed : gateway.Passed client) : gateway.Passed client.look := by
  rw [Client.look]
  split
  · next phase =>
    obtain ⟨none_, inbound⟩ := passed.reading (by rw [phase]; rfl)
    rw [phase, show MainTask.held .looking = [] from rfl, List.append_nil] at inbound
    split
    · next set =>
      refine ⟨fun reading => (by cases reading), ?_⟩
      rintro _ ⟨⟩
      exact .stop set none_ inbound
    · exact passed.same (by rw [phase]; rfl) (by rw [phase]; rfl) rfl rfl id id
  · exact passed

theorem Passed.receive (passed : gateway.Passed client) (item : Incoming) :
    gateway.Passed (gateway.receive client item) := by
  rw [Gateway.receive]
  split
  · next phase =>
    obtain ⟨none_, inbound⟩ := passed.reading (by rw [phase]; rfl)
    rw [phase, show MainTask.held .waiting = [] from rfl, List.append_nil] at inbound
    have all (kept : gateway.leaves item = none) : ∀ other ∈ client.handled ++ [item], gateway.leaves other = none := by
      intro other member
      rcases List.mem_append.mp member with before | new
      · exact none_ other before
      · cases List.mem_singleton.mp new
        exact kept
    have passedOn : (client.handled ++ [item]).filterMap gateway.forwarded =
        client.inbound ++ (gateway.forwarded item).toList := by
      rw [List.filterMap_append, inbound]
      cases found : gateway.forwarded item <;> simp [found]
    cases decided : gateway.verdict item with
    | readOn =>
      refine ⟨fun _ => ⟨all (by rw [leaves, decided]), ?_⟩, fun _ found => (by cases found)⟩
      rw [passedOn, forwarded, decided]
      rfl
    | beat =>
      refine ⟨fun _ => ⟨all (by rw [leaves, decided]), ?_⟩, fun _ found => (by cases found)⟩
      rw [passedOn, forwarded, decided]
      rfl
    | forward msg =>
      refine ⟨fun _ => ⟨all (by rw [leaves, decided]), ?_⟩, fun _ found => (by cases found)⟩
      rw [passedOn, forwarded, decided]
      rfl
    | leave result =>
      refine ⟨fun reading => (by cases reading), ?_⟩
      rintro _ ⟨⟩
      refine .item client.handled item rfl none_ (by rw [leaves, decided]) ?_
      rw [passedOn, forwarded, decided]
      exact (List.append_nil _).symm
  · exact passed

theorem Passed.next (passed : gateway.Passed client) (event : Event) :
    gateway.Passed (gateway.next client event) := by
  cases event with
  | stop => exact passed.same rfl rfl rfl rfl (fun _ => rfl) id
  | hangUp => exact passed.same rfl rfl rfl rfl id fun _ => rfl
  | look => exact passed.look
  | idle =>
    rw [Gateway.next, Client.idle]
    split
    · next phase => exact passed.same (by rw [phase]; rfl) (by rw [phase]; rfl) rfl rfl id id
    · exact passed
  | receive item => exact passed.receive item
  | push => exact passed.push
  | forward => exact passed.forward
  | join =>
    rw [Gateway.next, Client.join]
    split
    · next phase _ => exact passed.same (by rw [phase]; rfl) (by rw [phase]; rfl) rfl rfl id id
    · exact passed
  | sinkLook =>
    rw [Gateway.next, Client.sinkLook]
    repeat' split
    all_goals exact passed.same rfl rfl rfl rfl id id
  | sinkIdle =>
    rw [Gateway.next, Client.sinkIdle]
    split <;> exact passed.same rfl rfl rfl rfl id id
  | flush taken =>
    rw [Gateway.next, Client.flush]
    repeat' split
    all_goals exact passed.same rfl rfl rfl rfl id id
  | tick =>
    rw [Gateway.next, Client.tick]
    split <;> exact passed.same rfl rfl rfl rfl id id
  | beat =>
    rw [Gateway.next, Client.beat]
    split
    · split
      · exact passed.same rfl rfl rfl rfl id id
      · exact passed
      · next able running =>
        rcases Client.send_cases able with ⟨gone, -⟩ | ⟨-, room, rfl⟩
        · exact absurd gone running
        · exact passed.same rfl rfl rfl rfl id id
    · exact passed

theorem Passed.initial : gateway.Passed gateway.initial :=
  ⟨fun _ => ⟨by simp [Gateway.initial], rfl⟩, fun _ found => (by cases found)⟩

end Gateway

namespace Gateway

structure Closing (client : Client) : Prop where
  room : client.queue.length ≤ sinkCapacity
  joining : ∀ result, client.main = .joining result → client.sink = .ended ∨ .close ∈ client.queue
  ended : ∀ result, client.main = .ended result → client.sink = .ended ∧ client.heartbeats = .ended

variable {gateway : Gateway} {client : Client}

theorem closing_of_open {client : Client} (room : client.queue.length ≤ sinkCapacity)
    (notJoining : ∀ result, client.main ≠ .joining result) (notEnded : ∀ result, client.main ≠ .ended result) :
    Closing client :=
  ⟨room, fun result phase => absurd phase (notJoining result), fun result phase => absurd phase (notEnded result)⟩

theorem Closing.push (closing : Closing client) : Closing client.push := by
  rw [Client.push]
  split
  · cases able : client.send (.text _) with
    | none => exact closing
    | some next =>
      rcases Client.send_cases able with ⟨gone, rfl⟩ | ⟨running, room, rfl⟩
      · exact closing_of_open closing.room (by simp) (by simp)
      · refine closing_of_open ?_ (by simp) (by simp)
        simp only [List.length_append, List.length_singleton]
        omega
  · cases able : client.send .close with
    | none => exact closing
    | some next =>
      rcases Client.send_cases able with ⟨gone, rfl⟩ | ⟨running, room, rfl⟩
      · exact ⟨closing.room, fun _ _ => .inl gone, fun _ phase => (by cases phase)⟩
      · refine ⟨?_, fun _ _ => .inr (by simp), fun _ phase => (by cases phase)⟩
        simp only [List.length_append, List.length_singleton]
        omega
  · exact closing

theorem Closing.join (closing : Closing client) : Closing client.join := by
  rw [Client.join]
  split
  · next result phase gone =>
    exact ⟨closing.room, fun _ phase => (by cases phase), fun _ _ => ⟨gone, rfl⟩⟩
  · exact closing

theorem Closing.sunk (closing : Closing client) {sink : SinkTask} {queue : List Outgoing} (wire : List Outgoing)
    (there : client.sink ≠ .ended) (short : queue.length ≤ client.queue.length)
    (kept : sink = .ended ∨ (.close ∈ client.queue → .close ∈ queue)) :
    Closing { client with sink, queue, wire } := by
  refine ⟨short.trans closing.room, ?_, ?_⟩
  · intro result phase
    rcases closing.joining result phase with gone | last
    · exact absurd gone there
    · exact kept.imp id fun still => still last
  · intro result phase
    exact absurd (closing.ended result phase).1 there

theorem Closing.sinkLook (closing : Closing client) : Closing client.sinkLook := by
  rw [Client.sinkLook]
  split
  · next phase =>
    split
    · exact closing.sunk _ (by simp [phase]) (Nat.zero_le _) (.inl rfl)
    · exact closing.sunk client.wire (by simp [phase]) le_rfl (.inr id)
  · exact closing

theorem Closing.flush (closing : Closing client) (taken : Bool) : Closing (client.flush taken) := by
  rw [Client.flush]
  split
  · next frame rest phase queue =>
    split
    · refine closing.sunk _ (by simp [phase]) (by simp [queue]) (.inr fun last => ?_)
      rw [queue] at last
      simpa using last
    · exact closing.sunk client.wire (by simp [phase]) (Nat.zero_le _) (.inl rfl)
  · next phase queue => exact closing.sunk _ (by simp [phase]) (Nat.zero_le _) (.inl rfl)
  · next phase queue =>
    split
    · exact closing
    · exact closing.sunk _ (by simp [phase]) le_rfl (.inl rfl)
  · exact closing

theorem Closing.beat (closing : Closing client) : Closing client.beat := by
  rw [Client.beat]
  split
  · next frame phase =>
    have awake (result : Except DiscordError Unit) : client.main ≠ .ended result := by
      intro over_
      have gone := (closing.ended result over_).2
      rw [phase] at gone
      cases gone
    split
    · exact ⟨closing.room, closing.joining, fun result over_ => absurd over_ (awake result)⟩
    · exact closing
    · next able running =>
      rcases Client.send_cases able with ⟨gone, -⟩ | ⟨-, room, rfl⟩
      · exact absurd gone running
      · refine ⟨?_, ?_, fun result over_ => absurd over_ (awake result)⟩
        · simp only [List.length_append, List.length_singleton]
          omega
        · exact fun result over_ => (closing.joining result over_).imp id (List.mem_append_left _)
  · exact closing

theorem Closing.next (closing : Closing client) (event : Event) : Closing (gateway.next client event) := by
  cases event with
  | stop => exact ⟨closing.room, closing.joining, closing.ended⟩
  | hangUp => exact ⟨closing.room, closing.joining, closing.ended⟩
  | look =>
    rw [Gateway.next, Client.look]
    split
    · refine closing_of_open closing.room ?_ ?_ <;>
        · intro result
          split <;> simp
    · exact closing
  | idle =>
    rw [Gateway.next, Client.idle]
    split
    · exact closing_of_open closing.room (by simp) (by simp)
    · exact closing
  | receive item =>
    rw [Gateway.next, Gateway.receive]
    split
    · refine closing_of_open closing.room ?_ ?_ <;>
        · intro result
          cases gateway.verdict item <;> simp
    · exact closing
  | push => exact closing.push
  | forward =>
    rw [Gateway.next, Client.forward]
    split
    · split <;> exact closing_of_open closing.room (by simp) (by simp)
    · exact closing
  | join => exact closing.join
  | sinkLook => exact closing.sinkLook
  | sinkIdle =>
    rw [Gateway.next, Client.sinkIdle]
    split
    · next phase => exact closing.sunk client.wire (by simp [phase]) le_rfl (.inr id)
    · exact closing
  | flush taken => exact closing.flush taken
  | tick =>
    rw [Gateway.next, Client.tick]
    split
    · next phase =>
      refine ⟨closing.room, closing.joining, fun result over_ => ?_⟩
      have gone := (closing.ended result over_).2
      rw [phase] at gone
      cases gone
    · exact closing
  | beat => exact closing.beat

theorem Closing.initial : Closing gateway.initial :=
  closing_of_open (Nat.zero_le _) (by simp [Gateway.initial]) (by simp [Gateway.initial])

-- So many turns of the main task and of the sink task lead from one state to the other.
def Within (gateway : Gateway) (n : Nat) (client later : Client) : Prop :=
  ∃ turns : List Event, turns.length ≤ n ∧ (∀ turn ∈ turns, turn.own = true) ∧ gateway.after client turns = later

variable {m n : Nat} {later last : Client} {frame : Outgoing} {rest : List Outgoing}
  {result : Except DiscordError Unit}

theorem Within.none_ (client : Client) : Within gateway 0 client client :=
  ⟨[], le_rfl, fun _ member => absurd member List.not_mem_nil, rfl⟩

theorem Within.turn (event : Event) (own : event.own = true) (moved : gateway.next client event = later) :
    Within gateway 1 client later := by
  refine ⟨[event], le_rfl, ?_, moved⟩
  intro turn member
  rw [List.mem_singleton.mp member, own]

theorem Within.trans (first : Within gateway m client later) (second : Within gateway n later last) :
    Within gateway (m + n) client last := by
  obtain ⟨turns, few, own, reached⟩ := first
  obtain ⟨more, few', own', reached'⟩ := second
  refine ⟨turns ++ more, ?_, ?_, ?_⟩
  · rw [List.length_append]
    omega
  · intro turn member
    exact (List.mem_append.mp member).elim (own turn) (own' turn)
  · rw [after, Shared.Operations.final_append]
    rw [after] at reached reached'
    rw [reached, reached']

theorem Within.mono (within : Within gateway m client later) (le : m ≤ n) : Within gateway n client later := by
  obtain ⟨turns, few, own, reached⟩ := within
  exact ⟨turns, few.trans le, own, reached⟩

theorem takes_frame (running : client.sink ≠ .ended) (queue : client.queue = frame :: rest) :
    ∃ later, Within gateway 2 client later ∧ later.main = client.main ∧ later.stop = client.stop ∧
      (later.sink = .ended ∨ frame ≠ .close ∧ later.sink ≠ .ended ∧ later.queue = rest) := by
  have flushed (client : Client) (waiting : client.sink = .waiting) (queue : client.queue = frame :: rest) :
      ∃ later, Within gateway 1 client later ∧ later.main = client.main ∧ later.stop = client.stop ∧
        (later.sink = .ended ∨ frame ≠ .close ∧ later.sink ≠ .ended ∧ later.queue = rest) := by
    refine ⟨client.flush true, .turn (.flush true) rfl rfl, ?_⟩
    cases frame with
    | text value => simp [Client.flush, waiting, queue]
    | close => simp [Client.flush, waiting, queue]
  cases phase : client.sink with
  | ended => exact absurd phase running
  | waiting =>
    obtain ⟨later, within, same⟩ := flushed client phase queue
    exact ⟨later, within.mono (by decide), same⟩
  | looking =>
    have looked : Within gateway 1 client client.sinkLook := .turn .sinkLook rfl rfl
    cases set : client.stop with
    | true =>
      refine ⟨client.sinkLook, looked.mono (by decide), ?_⟩
      simp [Client.sinkLook, phase, set]
    | false =>
      have waits : client.sinkLook = { client with sink := .waiting } := by
        simp [Client.sinkLook, phase, set]
      rw [waits] at looked
      obtain ⟨later, within, main, stop, taken⟩ := flushed { client with sink := .waiting } rfl queue
      exact ⟨later, looked.trans within, main, stop.trans set, taken⟩

theorem drains (running : client.sink ≠ .ended) (closes : .close ∈ client.queue) :
    ∃ later, Within gateway (2 * client.queue.length) client later ∧ later.main = client.main ∧
      later.sink = .ended := by
  induction queue : client.queue generalizing client with
  | nil =>
    rw [queue] at closes
    cases closes
  | cons frame rest ih =>
    obtain ⟨later, within, main, -, taken⟩ := takes_frame running queue
    rcases taken with gone | ⟨other, running', left⟩
    · exact ⟨later, within.mono (by rw [List.length_cons]; omega), main, gone⟩
    · have still : .close ∈ later.queue := by
        rw [queue, List.mem_cons] at closes
        rw [left]
        exact closes.resolve_left (Ne.symm other)
      obtain ⟨last, more, main', gone⟩ := ih running' still left
      refine ⟨last, (within.trans more).mono ?_, main'.trans main, gone⟩
      rw [List.length_cons]
      omega

theorem Closing.within (closing : Closing client) (within : Within gateway n client later) : Closing later := by
  obtain ⟨turns, -, -, rfl⟩ := within
  exact Shared.Operations.final_keeps Closing (fun client event closing => Closing.next closing event) client
    turns closing

theorem joins (gateway : Gateway) (closing : Closing client) (phase : client.main = .joining result) :
    ∃ later, Within gateway 17 client later ∧ later.main = .ended result := by
  have joined (client : Client) (phase : client.main = .joining result) (gone : client.sink = .ended) :
      ∃ later, Within gateway 1 client later ∧ later.main = .ended result := by
    refine ⟨client.join, .turn .join rfl rfl, ?_⟩
    simp [Client.join, phase, gone]
  by_cases gone : client.sink = .ended
  · obtain ⟨later, within, over_⟩ := joined client phase gone
    exact ⟨later, within.mono (by decide), over_⟩
  · have last := (closing.joining result phase).resolve_left gone
    obtain ⟨later, within, main, gone⟩ := drains gone last
    obtain ⟨last, more, over_⟩ := joined later (main.trans phase) gone
    have room := closing.room
    refine ⟨last, (within.trans more).mono ?_, over_⟩
    rw [sinkCapacity] at room
    omega

def Ready (client : Client) : Prop := client.sink = .ended ∨ client.queue.length < sinkCapacity

theorem makes_room (gateway : Gateway) (room : client.queue.length ≤ sinkCapacity) :
    ∃ later, Within gateway 2 client later ∧ later.main = client.main ∧ later.stop = client.stop ∧ Ready later := by
  by_cases ready : Ready client
  · exact ⟨client, (Within.none_ client).mono (by decide), rfl, rfl, ready⟩
  · have running : client.sink ≠ .ended := fun gone => ready (.inl gone)
    have full : ¬client.queue.length < sinkCapacity := fun less => ready (.inr less)
    cases queue : client.queue with
    | nil =>
      rw [queue] at full
      exact absurd (by decide) full
    | cons frame rest =>
      obtain ⟨later, within, main, stop, taken⟩ := takes_frame running queue
      refine ⟨later, within, main, stop, taken.imp id ?_⟩
      rintro ⟨-, -, left⟩
      rw [queue, List.length_cons] at room
      rw [left]
      omega

theorem send_of_ready (ready : Ready client) (frame : Outgoing) : ∃ next, client.send frame = some next := by
  rw [Client.send]
  split
  · exact ⟨client, rfl⟩
  · next running =>
    rw [if_pos (ready.resolve_left running)]
    exact ⟨_, rfl⟩

theorem pushes (gateway : Gateway) (closing : Closing client) (frame : Outgoing) {main : MainTask}
    (push : ∀ ready next : Client, ready.main = client.main → ready.send frame = some next →
      ready.push = { next with main }) :
    ∃ later, Within gateway 3 client later ∧ later.main = main ∧ later.stop = client.stop := by
  obtain ⟨ready, within, same, stop, able⟩ := makes_room gateway closing.room
  obtain ⟨next, sent⟩ := send_of_ready able frame
  have step : Within gateway 1 ready { next with main } := .turn .push rfl (push ready next same sent)
  refine ⟨_, within.trans step, rfl, ?_⟩
  rcases Client.send_cases sent with ⟨-, rfl⟩ | ⟨-, -, rfl⟩ <;> exact stop

theorem closes (gateway : Gateway) (closing : Closing client) (phase : client.main = .closing result) :
    ∃ later, Within gateway 20 client later ∧ later.main = .ended result := by
  have pushed : ∃ later, Within gateway 3 client later ∧ later.main = .joining result ∧
      later.stop = client.stop := by
    refine pushes gateway closing .close ?_
    intro ready next same sent
    simp [Client.push, same, phase, sent]
  obtain ⟨later, within, joining, -⟩ := pushed
  obtain ⟨last, more, over_⟩ := joins gateway (closing.within within) joining
  exact ⟨last, within.trans more, over_⟩

theorem stops (gateway : Gateway) (closing : Closing client) (set : client.stop = true)
    (reading : client.main.result = none) (taken : client.main.held = [] ∨ client.inboundClosed = true) :
    ∃ later, Within gateway 4 client later ∧ ∃ result, later.main = .closing result := by
  have looks (client : Client) (phase : client.main = .looking) (set : client.stop = true) :
      ∃ later, Within gateway 1 client later ∧ ∃ result, later.main = .closing result := by
    refine ⟨client.look, .turn .look rfl rfl, .ok (), ?_⟩
    simp [Client.look, phase, set]
  cases phase : client.main with
  | looking =>
    obtain ⟨later, within, left⟩ := looks client phase set
    exact ⟨later, within.mono (by decide), left⟩
  | waiting =>
    have idle : client.idle = { client with main := .looking } := by simp [Client.idle, phase]
    have first : Within gateway 1 client { client with main := .looking } := .turn .idle rfl idle
    obtain ⟨later, within, left⟩ := looks { client with main := .looking } rfl set
    exact ⟨later, (first.trans within).mono (by decide), left⟩
  | beating frame =>
    have pushed : ∃ later, Within gateway 3 client later ∧ later.main = .looking ∧ later.stop = client.stop := by
      refine pushes gateway closing (.text frame) ?_
      intro ready next same sent
      simp [Client.push, same, phase, sent]
    obtain ⟨later, within, looking, stop⟩ := pushed
    obtain ⟨last, more, left⟩ := looks later looking (stop.trans set)
    exact ⟨last, within.trans more, left⟩
  | forwarding msg =>
    rw [phase] at taken
    have closed := taken.resolve_left (List.cons_ne_nil _ _)
    refine ⟨client.forward, (Within.turn .forward rfl rfl).mono (by decide), .ok (), ?_⟩
    simp [Client.forward, phase, closed]
  | closing result =>
    rw [phase] at reading
    cases reading
  | joining result =>
    rw [phase] at reading
    cases reading
  | ended result =>
    rw [phase] at reading
    cases reading

def Greets (gateway : Gateway) (first : Incoming) : Prop :=
  ∃ body v ms, first = .text body ∧ gateway.json body = .ok v ∧ (v.get "op").bind Value.asU64 = some 10 ∧
    ((v.get "d").bind (Value.get "heartbeat_interval")).bind Value.asU64 = some ms

theorem hello_cases (gateway : Gateway) (first : Incoming) :
    (gateway.Greets first ∧ ∃ ms, gateway.hello first = .ok ms) ∨
      ¬gateway.Greets first ∧ ∃ message, gateway.hello first = .error (.transport message) := by
  cases first with
  | text body =>
    cases parsed : gateway.json body with
    | error e =>
      refine .inr ⟨?_, "gateway HELLO not JSON: " ++ e, by simp only [hello, parsed]⟩
      rintro ⟨_, v, ms, ⟨⟩, read, -⟩
      cases parsed.symm.trans read
    | ok v =>
      by_cases op : (v.get "op").bind Value.asU64 = some 10
      · cases interval : ((v.get "d").bind (Value.get "heartbeat_interval")).bind Value.asU64 with
        | none =>
          refine .inr ⟨?_, "gateway HELLO missing heartbeat_interval", ?_⟩
          · rintro ⟨_, v', ms, ⟨⟩, read, -, some⟩
            cases parsed.symm.trans read
            cases interval.symm.trans some
          · simp only [hello, parsed, op, interval, ne_eq, not_true, if_false]
        | some ms =>
          exact .inl ⟨⟨body, v, ms, rfl, parsed, op, interval⟩, ms,
            by simp only [hello, parsed, op, interval, ne_eq, not_true, if_false]⟩
      · refine .inr ⟨?_, "gateway: expected HELLO op 10, got " ++ gateway.show_ v, ?_⟩
        · rintro ⟨_, v', ms, ⟨⟩, read, ten, -⟩
          cases parsed.symm.trans read
          exact op ten
        · simp only [hello, parsed, op, ne_eq, not_false_eq_true, if_true]
  | control | close | failed | ended => exact .inr ⟨by rintro ⟨_, _, _, ⟨⟩, -⟩, _, rfl⟩

def Starts (gateway : Gateway) (connected : Except String Unit) (first : Incoming) (identified : Except String Unit) :
    Prop :=
  connected = .ok () ∧ gateway.Greets first ∧ identified = .ok ()

theorem run_cases (gateway : Gateway) (connected : Except String Unit) (first : Incoming)
    (identified : Except String Unit) (events : List Event) :
    (gateway.Starts connected first identified ∧
        gateway.run connected first identified events = .ok (gateway.after gateway.initial events)) ∨
      ¬gateway.Starts connected first identified ∧
        ∃ message, gateway.run connected first identified events = .error (.transport message) := by
  cases connected with
  | error e => exact .inr ⟨by rintro ⟨⟨⟩, -⟩, _, rfl⟩
  | ok _ =>
    rcases gateway.hello_cases first with ⟨greets, ms, said⟩ | ⟨silent, message, said⟩
    · cases identified with
      | error e => exact .inr ⟨by rintro ⟨-, -, ⟨⟩⟩, _, by simp only [run, start, said, Except.map]; rfl⟩
      | ok _ => exact .inl ⟨⟨rfl, greets, rfl⟩, by simp only [run, start, said, Except.map]⟩
    · exact .inr ⟨fun starts => silent starts.2.1, message, by simp only [run, start, said, Except.map]⟩

variable {gateway : Gateway} {connected identified : Except String Unit} {first : Incoming} {events : List Event}
  {client : Client}

theorem after_of_run (ran : gateway.run connected first identified events = .ok client) :
    gateway.Starts connected first identified ∧ client = gateway.after gateway.initial events := by
  rcases gateway.run_cases connected first identified events with ⟨starts, same⟩ | ⟨-, message, failed⟩
  · exact ⟨starts, Except.ok.inj (ran.symm.trans same)⟩
  · cases ran.symm.trans failed

theorem not_starts_of_run {e : DiscordError} (ran : gateway.run connected first identified events = .error e) :
    ¬gateway.Starts connected first identified ∧ ∃ message, e = .transport message := by
  rcases gateway.run_cases connected first identified events with ⟨-, same⟩ | ⟨silent, message, failed⟩
  · cases ran.symm.trans same
  · exact ⟨silent, message, Except.error.inj (ran.symm.trans failed)⟩

theorem Sent.run (ran : gateway.run connected first identified events = .ok client) : gateway.Sent client := by
  rw [(after_of_run ran).2]
  exact Shared.Operations.final_keeps gateway.Sent (fun _ event sent => sent.next event) _ events .initial

theorem Closing.run (ran : gateway.run connected first identified events = .ok client) : Closing client := by
  rw [(after_of_run ran).2]
  exact Shared.Operations.final_keeps Closing (fun client event closing => Closing.next closing event) _ events .initial

theorem Passed.run (ran : gateway.run connected first identified events = .ok client) : gateway.Passed client := by
  rw [(after_of_run ran).2]
  exact Shared.Operations.final_keeps gateway.Passed (fun _ event passed => passed.next event) _ events .initial

/-- The tasks start exactly if the gateway greets and the identification is sent, and else nothing more comes of it
than a transport error. In whichever order the tasks then take their turns: the gateway is sent the identification,
then heartbeats, each with the last sequence number that had been read at some time before, and at most one `Close`,
behind which nothing comes. Once the provider is done, no task of it is left. -/
theorem gateway_sends (gateway : Gateway) (connected : Except String Unit) (first : Incoming)
    (identified : Except String Unit) (events : List Event) :
    (∀ e, gateway.run connected first identified events = .error e →
      ¬gateway.Starts connected first identified ∧ ∃ message, e = .transport message) ∧
    ∀ client, gateway.run connected first identified events = .ok client →
      gateway.Starts connected first identified ∧
      (∃ (beats : List Value) (ending : List Outgoing), client.wire =
          .text (identify gateway.config gateway.os) :: (beats.map Outgoing.text ++ ending) ∧
        (∀ frame ∈ beats, gateway.Timely client.handled frame) ∧
          (ending = [] ∨ ending = [.close] ∧ client.sink = .ended)) ∧
        client.queue.length ≤ sinkCapacity ∧
        ∀ result, client.main = .ended result → client.sink = .ended ∧ client.heartbeats = .ended := by
  refine ⟨fun e ran => not_starts_of_run ran, fun client ran => ?_⟩
  have closing := Closing.run ran
  exact ⟨(after_of_run ran).1, (Sent.run ran).wire, closing.room, closing.ended⟩

/-- In whichever order the tasks take their turns after the greeting: the messages passed on are those of the
`MESSAGE_CREATE` events that were read, each once and in their order, up to one that the harness has not taken. The
loop ends with the first frame that ends it, and otherwise only for the stop flag or for a harness that takes no more
messages. -/
theorem gateway_forwards (gateway : Gateway) (connected : Except String Unit) (first : Incoming)
    (identified : Except String Unit) (events : List Event) :
    (gateway.Starts connected first identified ↔
      ∃ client, gateway.run connected first identified events = .ok client) ∧
    ∀ client, gateway.run connected first identified events = .ok client →
      (client.main.result = none → (∀ item ∈ client.handled, gateway.leaves item = none) ∧
          client.inbound ++ client.main.held = client.handled.filterMap gateway.forwarded) ∧
        ∀ result, client.main.result = some result → gateway.Left client result := by
  refine ⟨⟨fun starts => ?_, fun ⟨client, ran⟩ => (after_of_run ran).1⟩, fun client ran => ?_⟩
  · rcases gateway.run_cases connected first identified events with ⟨-, same⟩ | ⟨silent, -⟩
    · exact ⟨_, same⟩
    · exact absurd starts silent
  · have passed := Passed.run ran
    exact ⟨passed.reading, passed.left⟩

-- The connection is done with, or is to be stopped without a message waiting for the harness.
def Over (client : Client) : Prop :=
  client.main.result ≠ none ∨
    client.stop = true ∧ (client.main.held = [] ∨ client.inboundClosed = true)

theorem Over.ends (gateway : Gateway) (closing : Closing client) (over_ : Over client) :
    ∃ later result, Within gateway 24 client later ∧ later.main = .ended result := by
  cases phase : client.main.result with
  | none =>
    obtain ⟨set, taken⟩ := over_.resolve_left fun some => some phase
    obtain ⟨later, within, result, left⟩ := stops gateway closing set phase taken
    obtain ⟨last, more, ended⟩ := closes gateway (closing.within within) left
    exact ⟨last, result, within.trans more, ended⟩
  | some result =>
    cases main : client.main with
    | closing outcome =>
      obtain ⟨later, within, ended⟩ := closes gateway closing main
      exact ⟨later, outcome, within.mono (by decide), ended⟩
    | joining outcome =>
      obtain ⟨later, within, ended⟩ := joins gateway closing main
      exact ⟨later, outcome, within.mono (by decide), ended⟩
    | ended outcome => exact ⟨client, outcome, (Within.none_ client).mono (by decide), main⟩
    | looking =>
      rw [main] at phase
      cases phase
    | waiting =>
      rw [main] at phase
      cases phase
    | beating frame =>
      rw [main] at phase
      cases phase
    | forwarding msg =>
      rw [main] at phase
      cases phase

/-- A connection that is done with, or is to be stopped, never gets stuck: a few turns of its own tasks bring the
provider to its end, unless the harness leaves a message waiting. One that is not greeted has ended with its error. -/
theorem gateway_ends (gateway : Gateway) (connected : Except String Unit) (first : Incoming)
    (identified : Except String Unit) (events : List Event)
    (over_ : ∀ client, gateway.run connected first identified events = .ok client → Over client) :
    (∃ message, gateway.run connected first identified events = .error (.transport message)) ∨
      ∃ client later result, gateway.run connected first identified events = .ok client ∧
        Within gateway 24 client later ∧ later.main = .ended result ∧ later.sink = .ended ∧
          later.heartbeats = .ended ∧ gateway.Left later result := by
  rcases gateway.run_cases connected first identified events with ⟨-, ran⟩ | ⟨-, failed⟩
  · right
    have closing := Closing.run ran
    have passed := Passed.run ran
    have over_ := over_ _ ran
    generalize gateway.after gateway.initial events = client at ran over_ closing passed
    obtain ⟨later, result, within, ended⟩ := Over.ends gateway closing over_
    have passed' : gateway.Passed later := by
      obtain ⟨turns, -, -, rfl⟩ := within
      exact Shared.Operations.final_keeps gateway.Passed (fun _ event passed => passed.next event) _ turns passed
    obtain ⟨sink, heartbeats⟩ := (closing.within within).ended result ended
    exact ⟨client, later, result, ran, within, ended, sink, heartbeats,
      passed'.left result (by rw [ended]; rfl)⟩
  · exact .inl failed

def helloText : String := "\x7b\"op\":10,\"d\":\x7b\"heartbeat_interval\":41250\x7d\x7d"

-- A reader of JSON that knows the one text.
def greetedGateway : Gateway where
  config := { botToken := "abc", defaultChannelId := "channel-discord-demo", discordChannelId := none, intents := none }
  json text :=
    if text = helloText then
      .ok (.object [("d", .object [("heartbeat_interval", number 41250)]), ("op", number 10)])
    else .error "expected value at line 1 column 1"
  show_ _ := ""
  rfc3339 _ := .error "input contains invalid characters"
  os := "linux"

-- A heartbeat is queued when the gateway hangs up.
theorem gateway_ends_hung_up : ∃ client later result,
    greetedGateway.run (.ok ()) (.text helloText) (.ok ()) [.tick, .beat, .look, .receive .ended] = .ok client ∧
      Within greetedGateway 24 client later ∧ later.main = .ended result ∧ later.sink = .ended ∧
        later.heartbeats = .ended ∧ greetedGateway.Left later result := by
  have started : greetedGateway.run (.ok ()) (.text helloText) (.ok ()) [.tick, .beat, .look, .receive .ended] =
      .ok (greetedGateway.after greetedGateway.initial [.tick, .beat, .look, .receive .ended]) := rfl
  have ends := gateway_ends greetedGateway (.ok ()) (.text helloText) (.ok ()) [.tick, .beat, .look, .receive .ended]
    fun client ran => ?_
  · rcases ends with ⟨message, failed⟩ | ends
    · cases started.symm.trans failed
    · exact ends
  · cases started.symm.trans ran
    exact .inl (by simp [Gateway.after, Shared.Operations.final, Gateway.step, Gateway.next, Client.tick, Client.beat,
      Client.send, Client.look, Gateway.receive, Gateway.initial, Gateway.verdict, MainTask.result, sinkCapacity])

end Gateway

end AtomrAgents.Discord
