import Mathlib.Data.List.Infix
import ShredTools.Library.Channel
import ShredTools.Library.Run
import ShredTools.Postpack.Feed

/-!
# Streams of the mocks

Every subscriber of a mock has a task of its own, which takes the batches of the feed from a
broadcast channel, makes messages of them and sends these one after the other.  It goes on when the
message before was taken or refused, so a slow subscriber falls behind.  A mock ends the stream of a
subscriber that fell behind too far, or goes on with the batches that are left (`Mock.lagged`).

`streams_exact` says what a subscriber gets: the messages of the batches since it subscribed, in
order, without gaps unless the mock goes on after one, and all of them as long as it stays within
the capacity of the channel.
-/

namespace ShredTools.Postpack.Feed

/-! ### The tasks -/

/-- `Feed::CAPACITY` -/
def capacity : ℕ := 1024

/-- What a mock makes of the feed. -/
structure Mock (Message : Type*) where
  /-- The messages of a batch. -/
  messages : Batch → List Message
  /-- The message of every second, if there is one. -/
  heartbeat : Option Message
  /-- The message that ends the stream of a subscriber that lags.  Without it the stream goes on. -/
  lagged : Option Message

/-- A message, and what it was made of. -/
inductive Item (Message : Type*)
  /-- The batch of a tick. -/
  | batch (tick : ℕ) (message : Message)
  /-- A heartbeat. -/
  | heartbeat (message : Message)
  /-- The end of a stream that lags. -/
  | lagged (message : Message)

/-- The message of a batch. -/
def Item.ofBatch? {Message : Type*} : Item Message → Option (ℕ × Message)
  | .batch tick message => some (tick, message)
  | _ => none

/-- The message that ends a stream. -/
def Item.ofLagged? {Message : Type*} : Item Message → Option Message
  | .lagged message => some message
  | _ => none

/-- How far a task is. -/
inductive Phase
  /-- In its loop. -/
  | running
  /-- The task sends its last message. -/
  | closing
  /-- The task is over. -/
  | ended
  deriving DecidableEq

/-- The task of a subscriber, with what became of the batches. -/
structure Stream (Message : Type*) where
  /-- The mock. -/
  mock : Mock Message
  /-- The first batch after subscribing. -/
  start : ℕ
  /-- The next batch. -/
  next : ℕ
  /-- The messages to send. -/
  pending : List (Item Message)
  /-- The messages sent. -/
  sent : List (Item Message)
  /-- The messages that were refused, and those to send after them. -/
  dropped : List (Item Message)
  /-- The batches received. -/
  received : List ℕ
  /-- The number of batches missed. -/
  skipped : ℕ
  /-- How far it is. -/
  phase : Phase

/-- One step of a task. -/
inductive Act
  /-- A second is over. -/
  | beat
  /-- A batch is there, or the task lags. -/
  | receive
  /-- The next message is taken. -/
  | send
  /-- The next message is refused: the other side is gone. -/
  | refuse

section Tasks

variable {Message : Type*} (feed : ℕ → Batch)

/-- A new subscriber. -/
def Stream.new (mock : Mock Message) (ticks : ℕ) : Stream Message :=
  ⟨mock, ticks, ticks, [], [], [], [], 0, .running⟩

/-- The loop of a task, after so many ticks. -/
def Stream.step (ticks : ℕ) (s : Stream Message) : Act → Stream Message
  | .beat =>
    if s.phase = .running ∧ s.pending = [] then
      match s.mock.heartbeat with
      | none => s
      | some message => { s with pending := [.heartbeat message] }
    else s
  | .receive =>
    if s.phase = .running ∧ s.pending = [] then
      match Broadcast.recv capacity ticks s.next with
      | none => s
      | some (.value tick) =>
        { s with
          next := tick + 1
          pending := (s.mock.messages (feed tick)).map (.batch tick)
          received := s.received ++ [tick] }
      | some (.lagged missed) =>
        let s := { s with next := s.next + missed, skipped := s.skipped + missed }
        match s.mock.lagged with
        | none => s
        | some message => { s with pending := [.lagged message], phase := .closing }
    else s
  | .send =>
    match s.pending with
    | [] => s
    | item :: rest =>
      { s with
        sent := s.sent ++ [item]
        pending := rest
        phase := if s.phase = .closing then .ended else s.phase }
  | .refuse =>
    match s.pending with
    | [] => s
    | pending => { s with pending := [], dropped := pending, phase := .ended }

/-- The feed and its subscribers. -/
structure Server (Message : Type*) where
  /-- The number of batches made. -/
  ticks : ℕ
  /-- The tasks, in the order of subscribing. -/
  streams : List (Stream Message)

/-- What happens to a server. -/
inductive Event (Message : Type*)
  /-- A tick of the feed. -/
  | tick
  /-- Someone subscribes. -/
  | subscribe (mock : Mock Message)
  /-- The task with this number makes a step. -/
  | act (i : ℕ) (act : Act)

/-- One step of a server. -/
def Server.step (server : Server Message) : Event Message → Server Message
  | .tick => { server with ticks := server.ticks + 1 }
  | .subscribe mock =>
    { server with streams := server.streams ++ [Stream.new mock server.ticks] }
  | .act i act =>
    { server with streams := server.streams.modify i (Stream.step feed server.ticks · act) }

/-- The server after some events. -/
def Server.after (events : List (Event Message)) : Server Message :=
  events.foldl (Server.step feed) ⟨0, []⟩

end Tasks

/-! ### What a task keeps -/

section Exact

variable {Message : Type*} {feed : ℕ → Batch}

/-- All messages that were to be sent. -/
def Stream.items (s : Stream Message) : List (Item Message) := s.sent ++ (s.pending ++ s.dropped)

/-- How a stream ends that lags. -/
structure Stream.Closed (s : Stream Message) (message : Message) : Prop where
  /-- The task is over, or about to be. -/
  phase : s.phase ≠ .running
  /-- The task missed batches. -/
  skipped : 0 < s.skipped
  /-- The last message says so, and none before. -/
  items : ∃ rest, s.items = rest ++ [.lagged message] ∧ rest.filterMap Item.ofLagged? = []

/-- A stream is not closed for lagging. -/
structure Stream.Open (s : Stream Message) : Prop where
  /-- The task does not send its last message. -/
  phase : s.phase ≠ .closing
  /-- No message says that it lagged. -/
  items : s.items.filterMap Item.ofLagged? = []

/-- What became of the batches since subscribing. -/
structure Stream.Exact (feed : ℕ → Batch) (ticks : ℕ) (s : Stream Message) : Prop where
  start_le : s.start ≤ s.next
  next_le : s.next ≤ ticks
  /-- The batches received come in order, each once. -/
  received : s.received.Sublist (List.range' s.start (s.next - s.start))
  /-- The others were missed. -/
  skipped : s.received.length + s.skipped = s.next - s.start
  /-- The messages are those of the batches received. -/
  batches : s.items.filterMap Item.ofBatch? = s.received.flatMap fun tick =>
    (s.mock.messages (feed tick)).map fun message => (tick, message)
  /-- A mock that goes on says nothing of lagging. -/
  goesOn : s.mock.lagged = none → s.Open
  /-- A mock that does not go on leaves no gaps. -/
  closes : ∀ message, s.mock.lagged = some message →
    s.received = List.range' s.start s.received.length ∧
      (s.Open ∧ s.skipped = 0 ∨ s.Closed message)
  /-- Nothing is to be sent after the end, and nothing refused before. -/
  ended : (s.phase = .ended → s.pending = []) ∧ (s.phase ≠ .ended → s.dropped = [])
  /-- The last message is the only one. -/
  closing : s.phase = .closing → s.pending.length = 1

lemma Stream.exact_new (mock : Mock Message) (ticks : ℕ) :
    (Stream.new mock ticks).Exact feed ticks where
  start_le := le_rfl
  next_le := le_rfl
  received := List.nil_sublist _
  skipped := (Nat.sub_self _).symm
  batches := rfl
  goesOn _ := ⟨nofun, rfl⟩
  closes _ _ := ⟨rfl, .inl ⟨⟨nofun, rfl⟩, rfl⟩⟩
  ended := ⟨nofun, fun _ => rfl⟩
  closing := nofun

variable {ticks : ℕ} {s : Stream Message}

/-- A task that waits for a batch has sent all its messages, and what it is to send next comes after
them. -/
lemma Stream.Exact.items_waiting (h : s.Exact feed ticks) (hphase : s.phase = .running)
    (hpending : s.pending = []) (items : List (Item Message)) :
    s.sent ++ (items ++ s.dropped) = s.items ++ items := by
  have hdropped : s.dropped = [] := h.ended.2 (by rw [hphase]; nofun)
  unfold Stream.items
  rw [hpending, hdropped, List.append_nil, List.append_nil, List.append_nil]

/-- A task in its loop did not lag, if lagging ends its stream. -/
lemma Stream.Exact.open_of_running (h : s.Exact feed ticks) (hphase : s.phase = .running) :
    s.Open ∧ ∀ message, s.mock.lagged = some message → s.skipped = 0 := by
  cases hlagged : s.mock.lagged with
  | none => exact ⟨h.goesOn hlagged, nofun⟩
  | some message =>
    rcases (h.closes message hlagged).2 with ⟨hopen, hskipped⟩ | hclosed
    · exact ⟨hopen, fun _ _ => hskipped⟩
    · exact absurd hphase hclosed.phase

/-- More messages to send, which are no batches and say nothing of lagging. -/
lemma Stream.Exact.beat (h : s.Exact feed ticks) :
    (s.step feed ticks .beat).Exact feed ticks := by
  unfold Stream.step
  dsimp only
  split_ifs with hwaiting
  · obtain ⟨hphase, hpending⟩ := hwaiting
    cases hbeat : s.mock.heartbeat with
    | none => exact h
    | some message =>
      dsimp only
      have hitems := h.items_waiting hphase hpending [.heartbeat message]
      obtain ⟨hopen, hskipped⟩ := h.open_of_running hphase
      have hopen' : ({ s with pending := [.heartbeat message] } : Stream Message).Open := by
        refine ⟨hopen.phase, ?_⟩
        unfold Stream.items
        rw [hitems, List.filterMap_append, hopen.items]
        rfl
      exact
        { h with
          batches := by
            unfold Stream.items
            rw [hitems, List.filterMap_append, h.batches]
            exact List.append_nil _
          goesOn := fun _ => hopen'
          closes := fun message hmessage =>
            ⟨(h.closes message hmessage).1, .inl ⟨hopen', hskipped message hmessage⟩⟩
          ended := ⟨fun hended => absurd (hphase.symm.trans hended) nofun, h.ended.2⟩
          closing := fun _ => rfl }
  · exact h

/-- Messages that are sent or refused. -/
theorem Stream.Exact.settle (h : s.Exact feed ticks) {sent pending dropped : List (Item Message)}
    {phase : Phase} (hitems : sent ++ (pending ++ dropped) = s.items)
    (hphase : phase = s.phase ∨ phase = .ended) (hclosing : phase ≠ .closing)
    (hended : (phase = .ended → pending = []) ∧ (phase ≠ .ended → dropped = [])) :
    ({ s with sent, pending, dropped, phase } : Stream Message).Exact feed ticks := by
  have hopen : s.Open → ({ s with sent, pending, dropped, phase } : Stream Message).Open := by
    refine fun hopen => ⟨hclosing, ?_⟩
    unfold Stream.items
    rw [hitems]
    exact hopen.items
  exact
    { h with
      batches := by
        unfold Stream.items
        rw [hitems]
        exact h.batches
      goesOn := fun hlagged => hopen (h.goesOn hlagged)
      closes := by
        intro message hmessage
        obtain ⟨hreceived, hcase⟩ := h.closes message hmessage
        refine ⟨hreceived, hcase.imp (And.imp_left hopen) fun hclosed => ⟨?_, hclosed.skipped, ?_⟩⟩
        · rcases hphase with rfl | rfl
          · exact hclosed.phase
          · nofun
        · unfold Stream.items
          rw [hitems]
          exact hclosed.items
      ended := hended
      closing := fun hphase => absurd hphase hclosing }

theorem Stream.Exact.send (h : s.Exact feed ticks) :
    (s.step feed ticks .send).Exact feed ticks := by
  unfold Stream.step
  cases hpending : s.pending with
  | nil => exact h
  | cons item rest =>
    have hrunning : s.phase ≠ .ended := fun hended => by
      have := h.ended.1 hended
      rw [hpending] at this
      cases this
    refine h.settle ?_ ?_ ?_ ?_
    · unfold Stream.items
      rw [hpending, List.append_assoc]
      rfl
    · split_ifs
      · exact .inr rfl
      · exact .inl rfl
    · split_ifs with hclosing
      · nofun
      · exact hclosing
    · split_ifs with hclosing
      · have hlast := h.closing hclosing
        rw [hpending, List.length_cons, Nat.add_eq_right, List.length_eq_zero_iff] at hlast
        exact ⟨fun _ => hlast, fun hended => absurd rfl hended⟩
      · exact ⟨fun hended => absurd hended hrunning, h.ended.2⟩

theorem Stream.Exact.refuse (h : s.Exact feed ticks) :
    (s.step feed ticks .refuse).Exact feed ticks := by
  unfold Stream.step
  cases hpending : s.pending with
  | nil => exact h
  | cons item rest =>
    have hdropped : s.dropped = [] := h.ended.2 fun hended => by
      have := h.ended.1 hended
      rw [hpending] at this
      cases this
    refine h.settle ?_ (.inr rfl) nofun ⟨fun _ => rfl, fun hended => absurd rfl hended⟩
    unfold Stream.items
    rw [hpending, hdropped, List.nil_append, List.append_nil]

/-- The next batch is received. -/
theorem Stream.Exact.value (h : s.Exact feed ticks) (hphase : s.phase = .running)
    (hpending : s.pending = []) (hnext : s.next < ticks) :
    ({ s with
      next := s.next + 1
      pending := (s.mock.messages (feed s.next)).map (.batch s.next)
      received := s.received ++ [s.next] } : Stream Message).Exact feed ticks := by
  have hitems := h.items_waiting hphase hpending
    ((s.mock.messages (feed s.next)).map (.batch s.next))
  obtain ⟨hopen, hskipped⟩ := h.open_of_running hphase
  have hstart := h.start_le
  have hlength := h.skipped
  have hrange : List.range' s.start (s.next + 1 - s.start) =
      List.range' s.start (s.next - s.start) ++ [s.next] := by
    rw [show s.next + 1 - s.start = s.next - s.start + 1 by omega, List.range'_1_concat,
      Nat.add_sub_of_le hstart]
  have hbatches : ∀ messages : List Message,
      (messages.map (Item.batch s.next)).filterMap Item.ofBatch? =
        messages.map fun message => (s.next, message) := by
    intro messages
    rw [List.filterMap_map, ← List.filterMap_eq_map]
    rfl
  have hlagged : ∀ messages : List Message,
      (messages.map (Item.batch s.next)).filterMap Item.ofLagged? = [] := by
    intro messages
    rw [List.filterMap_map, List.filterMap_eq_nil_iff]
    exact fun _ _ => rfl
  -- a batch is no lag, so the stream stays open
  have hopen' : ({ s with
      next := s.next + 1
      pending := (s.mock.messages (feed s.next)).map (.batch s.next)
      received := s.received ++ [s.next] } : Stream Message).Open := by
    refine ⟨hopen.phase, ?_⟩
    unfold Stream.items
    rw [hitems, List.filterMap_append, hopen.items, hlagged]
    rfl
  constructor
  · exact hstart.trans s.next.le_succ
  · exact hnext
  · dsimp only
    rw [hrange]
    exact h.received.append (List.Sublist.refl _)
  · dsimp only
    rw [List.length_append, List.length_singleton]
    omega
  · unfold Stream.items
    rw [hitems, List.filterMap_append, h.batches, hbatches, List.flatMap_append,
      List.flatMap_singleton]
  · exact fun _ => hopen'
  · intro message hmessage
    refine ⟨?_, .inl ⟨hopen', hskipped message hmessage⟩⟩
    have hgaps := hskipped message hmessage
    dsimp only
    rw [List.length_append, List.length_singleton, List.range'_1_concat,
      ← (h.closes message hmessage).1, show s.start + s.received.length = s.next by omega]
  · exact ⟨fun hended => absurd (hphase.symm.trans hended) nofun, h.ended.2⟩
  · exact fun hclosing => absurd (hphase.symm.trans hclosing) nofun

/-- Some batches are missed. -/
theorem Stream.Exact.miss (h : s.Exact feed ticks) (missed : ℕ) :
    s.start ≤ s.next + missed ∧
      s.received.Sublist (List.range' s.start (s.next + missed - s.start)) ∧
      s.received.length + (s.skipped + missed) = s.next + missed - s.start := by
  have hstart := h.start_le
  have hlength := h.skipped
  refine ⟨by omega, h.received.trans ?_, by omega⟩
  exact List.range'_sublist_right.mpr (by omega)

theorem Stream.Exact.receive (h : s.Exact feed ticks) :
    (s.step feed ticks .receive).Exact feed ticks := by
  unfold Stream.step
  dsimp only
  split_ifs with hwaiting
  · obtain ⟨hphase, hpending⟩ := hwaiting
    cases hrecv : Broadcast.recv capacity ticks s.next with
    | none => exact h
    | some reception =>
      cases reception with
      | value tick =>
        obtain ⟨hnext, -, rfl⟩ := Broadcast.recv_eq_value_iff.mp hrecv
        exact h.value hphase hpending hnext
      | lagged missed =>
        obtain ⟨hlag, hmissed⟩ := Broadcast.recv_eq_lagged_iff.mp hrecv
        obtain ⟨hstart, hreceived, hlength⟩ := h.miss missed
        obtain ⟨hopen, hskipped⟩ := h.open_of_running hphase
        -- a lag is passed over by the mocks that go on, and is the last item of the one that ends
        cases hlagged : s.mock.lagged with
        | none =>
          exact
            { h with
              start_le := hstart
              next_le := by dsimp only; omega
              received := hreceived
              skipped := hlength
              goesOn := fun _ => ⟨hopen.phase, hopen.items⟩
              closes := fun message hmessage => absurd (hlagged.symm.trans hmessage) nofun }
        | some message =>
          have hitems := h.items_waiting hphase hpending [.lagged message]
          constructor
          · exact hstart
          · dsimp only
            omega
          · exact hreceived
          · exact hlength
          · unfold Stream.items
            rw [hitems, List.filterMap_append, h.batches]
            exact List.append_nil _
          · exact fun hnone => absurd (hlagged.symm.trans hnone) nofun
          · intro message' hmessage'
            cases hlagged.symm.trans hmessage'
            refine ⟨(h.closes message hlagged).1, .inr ⟨nofun, ?_, ?_⟩⟩
            · dsimp only
              omega
            · unfold Stream.items
              exact ⟨s.items, hitems, hopen.items⟩
          · exact ⟨nofun, fun _ => h.ended.2 (by rw [hphase]; nofun)⟩
          · exact fun _ => rfl
  · exact h

/-- Every step of a task. -/
theorem Stream.Exact.step (h : s.Exact feed ticks) (act : Act) :
    (s.step feed ticks act).Exact feed ticks := by
  cases act with
  | beat => exact h.beat
  | receive => exact h.receive
  | send => exact h.send
  | refuse => exact h.refuse

/-- A task that is within the capacity misses nothing. -/
lemma Stream.skipped_step (hnear : ticks - s.next ≤ capacity) (act : Act) :
    (s.step feed ticks act).skipped = s.skipped := by
  unfold Stream.step
  cases act with
  | beat =>
    dsimp only
    split_ifs
    · cases s.mock.heartbeat <;> rfl
    · rfl
  | receive =>
    dsimp only
    split_ifs
    · cases hrecv : Broadcast.recv capacity ticks s.next with
      | none => rfl
      | some reception =>
        cases reception with
        | value tick => rfl
        | lagged missed => exact absurd (Broadcast.recv_eq_lagged_iff.mp hrecv).1 (by omega)
    · rfl
  | send => cases hpending : s.pending <;> rfl
  | refuse => cases hpending : s.pending <;> rfl

end Exact

/-! ### What the subscribers get -/

section Run

variable {Message : Type*} (feed : ℕ → Batch)

theorem Server.after_concat (events : List (Event Message)) (event : Event Message) :
    Server.after feed (events ++ [event]) = (Server.after feed events).step feed event := by
  unfold Server.after
  rw [List.foldl_append, List.foldl_cons, List.foldl_nil]

/-- A stream after one more event: the same stream, or one step on, or it is new. -/
lemma Server.streams_step {server : Server Message} {event : Event Message} {i : ℕ}
    {s : Stream Message} (hs : (server.step feed event).streams[i]? = some s) :
    (server.streams[i]? = some s ∧ server.ticks ≤ (server.step feed event).ticks) ∨
      (∃ s' act, server.streams[i]? = some s' ∧ s = s'.step feed server.ticks act ∧
        (server.step feed event).ticks = server.ticks) ∨
      ∃ mock, s = Stream.new mock server.ticks ∧
        (server.step feed event).ticks = server.ticks := by
  cases event with
  | tick => exact .inl ⟨hs, server.ticks.le_succ⟩
  | subscribe mock =>
    change (server.streams ++ [Stream.new mock server.ticks])[i]? = some s at hs
    rw [List.getElem?_append] at hs
    split_ifs at hs with hold
    · exact .inl ⟨hs, le_rfl⟩
    · refine .inr (.inr ⟨mock, ?_, rfl⟩)
      have := List.mem_of_getElem? hs
      exact List.mem_singleton.mp this
  | act j act =>
    change (server.streams.modify j (Stream.step feed server.ticks · act))[i]? = some s at hs
    rw [List.getElem?_modify] at hs
    cases hold : server.streams[i]? with
    | none =>
      rw [hold] at hs
      cases hs
    | some s' =>
      rw [hold] at hs
      have hs := Option.some.inj hs
      dsimp only at hs
      split_ifs at hs with hown
      · exact .inr (.inl ⟨s', act, rfl, hs.symm, rfl⟩)
      · rw [← hs]
        exact .inl ⟨rfl, le_rfl⟩

/-- All streams are exact, always. -/
theorem Server.exact_after (events : List (Event Message)) {i : ℕ} {s : Stream Message}
    (hs : (Server.after feed events).streams[i]? = some s) :
    s.Exact feed (Server.after feed events).ticks := by
  induction events using List.reverseRecOn generalizing s with
  | nil => cases hs
  | append_singleton events event ih =>
    rw [Server.after_concat] at hs ⊢
    rcases Server.streams_step feed hs with ⟨hold, hle⟩ | ⟨s', act, hold, rfl, hticks⟩ |
      ⟨mock, rfl, hticks⟩
    · exact { ih hold with next_le := (ih hold).next_le.trans hle }
    · rw [hticks]
      exact (ih hold).step act
    · rw [hticks]
      exact Stream.exact_new mock _

/-- A subscriber that stays within the capacity misses nothing. -/
lemma Server.skipped_after {events : List (Event Message)} {i : ℕ}
    (hnear : ∀ before, before <+: events → ∀ s, (Server.after feed before).streams[i]? = some s →
      (Server.after feed before).ticks - s.next ≤ capacity)
    {s : Stream Message} (hs : (Server.after feed events).streams[i]? = some s) :
    s.skipped = 0 := by
  induction events using List.reverseRecOn generalizing s with
  | nil => cases hs
  | append_singleton events event ih =>
    have ih := @ih fun before hbefore => hnear before (hbefore.trans (List.prefix_append _ _))
    rw [Server.after_concat] at hs
    rcases Server.streams_step feed hs with ⟨hold, -⟩ | ⟨s', act, hold, rfl, -⟩ | ⟨mock, rfl, -⟩
    · exact ih hold
    · rw [Stream.skipped_step (hnear events (List.prefix_append _ _) s' hold) act]
      exact ih hold
    · rfl

/-- **What a subscriber gets.**  However ticks, subscriptions and steps of the tasks interleave, the
messages of a stream are those of the batches that it received, in order; these are batches since it
subscribed, and those between that it did not receive are counted as missed.  If the mock ends a
stream that lags, there are no gaps, and a stream that lagged has ended with a message that says so.
A stream that stays within the capacity of the channel receives every batch. -/
theorem streams_exact {events : List (Event Message)} {i : ℕ} {s : Stream Message}
    (hs : (Server.after feed events).streams[i]? = some s) :
    s.Exact feed (Server.after feed events).ticks ∧
      ((∀ before, before <+: events → ∀ s, (Server.after feed before).streams[i]? = some s →
          (Server.after feed before).ticks - s.next ≤ capacity) →
        s.received = List.range' s.start (s.next - s.start)) := by
  have hexact := Server.exact_after feed events hs
  refine ⟨hexact, fun hnear => hexact.received.eq_of_length ?_⟩
  rw [List.length_range', ← hexact.skipped, Server.skipped_after feed hnear hs, Nat.add_zero]

end Run

/-- Someone subscribes after the first batch and reads the next two. -/
def twoReads : List (Event (List UInt8)) :=
  [.tick, .subscribe ⟨Batch.transactions, none, none⟩, .tick, .act 0 .receive, .act 0 .send, .tick,
    .act 0 .receive]

/-- The stream has these two. -/
theorem streams_exact_two :
    ∃ s, (Server.after (fun tick => ⟨UInt64.ofNat tick, [[UInt8.ofNat tick]]⟩)
        twoReads).streams[0]? = some s ∧
      s.items.filterMap Item.ofBatch? = [(1, [1]), (2, [2])] := by
  refine ⟨_, rfl, ?_⟩
  exact (@streams_exact _ _ twoReads 0 _ rfl).1.batches

end ShredTools.Postpack.Feed
