import Mathlib.Algebra.BigOperators.Fin
import ShredTools.Audit.ProviderStreams
import ShredTools.Audit.Receive
import ShredTools.Audit.VerifyChunks
import ShredTools.Audit.VerifyStats

/-!
# From datagrams to transactions

Receiving threads, one for each port, send batches of packets to the main thread.  It verifies each
batch, hands the shreds to the aggregator and feeds the authentic ones to the thread that
reconstructs transactions.  Both channels are bounded; what does not fit is dropped and counted.

The threads take their steps in any order.  Every datagram is accounted for (`accounted`), the
kernel's drops add up to the true number (`kernelDropped_exact`), and the addresses known of a
provider are those that its packets came from (`observed_exact`).
-/

namespace ShredTools.Audit

/-- `TxnCompare`, as far as it feeds shreds to the deshredding thread. -/
structure TxnCompare (p : ℕ) where
  /-- The channel `feed`. -/
  queue : Channel ShredInput 131072
  /-- The deshredding thread, and its counters. -/
  deshredder : Deshredder p

/-- `TxnCompare::start` -/
def TxnCompare.start (p : ℕ) : TxnCompare p := ⟨Channel.empty _ _, Deshredder.new p⟩

/-- `TxnCompare::feed` -/
def TxnCompare.feed {p : ℕ} (tc : TxnCompare p) (input : ShredInput) : TxnCompare p :=
  match tc.queue.trySend input with
  | some queue => { tc with queue := queue }
  | none => { tc with deshredder := tc.deshredder.recordDropped input.provider }

/-- What the receiving threads work on. -/
structure Receivers (k : ℕ) where
  /-- The variables of each thread. -/
  threads : Fin k → Receiver
  /-- The counters. -/
  stats : RxStats
  /-- The addresses seen. -/
  netmon : NetMon

/-- What `main` sets up. -/
structure FrontEndSetup (k : ℕ) where
  /-- The providers. -/
  registry : Registry
  /-- The ports, one for each receiving thread. -/
  ports : Fin k → Port
  /-- The version that shreds have to have, if any. -/
  shredVersion : Option ℕ
  /-- Whether there is a transaction comparison. -/
  compares : Bool

/-- The threads and the channels between them, with `k` ports and `p` providers. -/
structure FrontEnd (k p : ℕ) where
  /-- The receiving threads. -/
  receivers : Receivers k
  /-- The channel to the main thread. -/
  tx : Channel (List Packet) 16384
  /-- The counters of the verification. -/
  vstats : VerifyStats
  /-- The feed of the transaction comparison. -/
  compare : TxnCompare p

/-- Before anything is received. -/
def FrontEnd.start (k p : ℕ) : FrontEnd k p where
  receivers := ⟨fun _ => Receiver.new, RxStats.default, ⟨∅⟩⟩
  tx := Channel.empty _ _
  vstats := VerifyStats.default
  compare := TxnCompare.start p

/-- A step of one of the threads. -/
inductive FrontEndEvent (k : ℕ)
  /-- A receiving thread gets a batch of datagrams. -/
  | receive (socket : Fin k) (msgs : {l : List Datagram // l.length ≤ batchSize})
  /-- The main thread takes a batch of packets, knowing some leaders. -/
  | verify (schedule : LeaderSchedule)
  /-- The deshredding thread takes a shred. -/
  | reconstruct

/-- What a step passes on. -/
inductive FrontEndOutput (n : ℕ)
  /-- Nothing. -/
  | none
  /-- The main thread verified a batch; the aggregator gets the shreds. -/
  | verified (packets : List Packet) (shreds : List VerifiedShred)
  /-- The deshredding thread took a shred; the registry gets the calls. -/
  | reconstructed (input : ShredInput) (calls : List (Delivery n))

/-- What is fed for the packet of a shred. -/
def Packet.input (packet : Packet) : ShredInput := ⟨packet.rxUnixNs, packet.provider, packet.data⟩

/-- What `ingest` feeds to the transaction comparison.  The index of a shred is that of a packet of
the batch. -/
def fedInputs (packets : List Packet) (shreds : List VerifiedShred) : List ShredInput :=
  (shreds.filter VerifiedShred.isAuthentic).filterMap fun shred =>
    packets[shred.packetIndex]?.map Packet.input

namespace FrontEnd

variable {k p : ℕ} (vlib : VerifyLibrary) (lib : ShredLibrary) (g : ℕ) (setup : FrontEndSetup k)

/-- A round of `rx_loop`. -/
def receive (st : FrontEnd k p) (socket : Fin k) (msgs : List Datagram) : FrontEnd k p :=
  let round : Round :=
    ⟨st.receivers.threads socket, st.receivers.stats, st.receivers.netmon, []⟩
  let round := msgs.foldl (Round.message setup.registry (setup.ports socket)) round
  let (stats, tx) := round.send st.tx
  { st with
    receivers :=
      { threads := Function.update st.receivers.threads socket round.receiver
        stats := stats
        netmon := round.netmon }
    tx := tx }

/-- `ingest` of the main thread, with the shreds that go to the aggregator. -/
def ingest (st : FrontEnd k p) (schedule : LeaderSchedule) (packets : List Packet) :
    FrontEnd k p × List VerifiedShred :=
  let (vstats, verified) := verifyChunk vlib packets schedule setup.shredVersion st.vstats
  let compare :=
    if setup.compares then (fedInputs packets verified).foldl TxnCompare.feed st.compare
    else st.compare
  ({ st with vstats := vstats, compare := compare }, verified)

/-- One step of one thread. -/
def step (st : FrontEnd k p) : FrontEndEvent k → FrontEnd k p × FrontEndOutput (p + g)
  | .receive socket msgs => (st.receive setup socket msgs, .none)
  | .verify schedule =>
    match st.tx.recv with
    | some (packets, tx) =>
      let (st, shreds) := ingest vlib setup { st with tx := tx } schedule packets
      (st, .verified packets shreds)
    | none => (st, .none)
  | .reconstruct =>
    match st.compare.queue.recv with
    | some (input, queue) =>
      let (deshredder, calls) := st.compare.deshredder.ingest lib g input
      ({ st with compare := ⟨queue, deshredder⟩ }, .reconstructed input calls)
    | none => (st, .none)

end FrontEnd

/-! ### What happened in a run -/

section History

variable {k n : ℕ}

/-- The datagrams of a port that a step receives. -/
def FrontEndEvent.datagrams (socket : Fin k) : FrontEndEvent k → List Datagram
  | .receive socket' msgs => if socket' = socket then msgs.1 else []
  | _ => []

/-- The datagrams that a step receives. -/
def FrontEndEvent.allDatagrams : FrontEndEvent k → List Datagram
  | .receive _ msgs => msgs.1
  | _ => []

/-- The batch that a step sends to the main thread, if it is not empty. -/
def FrontEndEvent.batches (setup : FrontEndSetup k) : FrontEndEvent k → List (List Packet)
  | .receive socket msgs =>
    let batch := msgs.1.filterMap (Datagram.packet setup.registry (setup.ports socket))
    if batch.isEmpty then [] else [batch]
  | _ => []

/-- The batches that a step takes. -/
def FrontEndOutput.batches : FrontEndOutput n → List (List Packet)
  | .verified packets _ => [packets]
  | _ => []

/-- The shreds that a step verifies. -/
def FrontEndOutput.shreds : FrontEndOutput n → List VerifiedShred
  | .verified _ shreds => shreds
  | _ => []

/-- What a step feeds, given that there is a transaction comparison. -/
def FrontEndOutput.fed : FrontEndOutput n → List ShredInput
  | .verified packets shreds => fedInputs packets shreds
  | _ => []

/-- What a step takes of the feed. -/
def FrontEndOutput.inputs : FrontEndOutput n → List ShredInput
  | .reconstructed input _ => [input]
  | _ => []

end History

/-! ### Verified shreds and their packets -/

/-- A shred that verification makes of a packet has the packet's provider and stamp, and its place
in the batch. -/
lemma inspect_eq_ok {lib : VerifyLibrary} {schedule : LeaderSchedule} {shredVersion : Option ℕ}
    {i : ℕ} {packet : Packet} {parsed : Parsed}
    (h : inspect lib schedule shredVersion i packet = .ok parsed) :
    parsed.shred.packetIndex = i ∧ parsed.shred.provider = packet.provider ∧
      parsed.shred.rxUnixNs = packet.rxUnixNs := by
  unfold inspect at h
  dsimp only at h
  split at h
  · cases h
  · split at h
    · cases h
    · split at h
      · cases h
      · split at h
        · cases h
        · split at h
          · split at h
            · cases h
            · cases h
              exact ⟨rfl, rfl, rfl⟩
            · cases h
              exact ⟨rfl, rfl, rfl⟩
          · cases h

/-- Every shred of a batch is one of its packets. -/
lemma packet_of_mem_verifyChunk {lib : VerifyLibrary} {packets : List Packet}
    {schedule : LeaderSchedule} {shredVersion : Option ℕ} {stats : VerifyStats}
    {shred : VerifiedShred} (h : shred ∈ (verifyChunk lib packets schedule shredVersion stats).2) :
    ∃ packet, packets[shred.packetIndex]? = some packet ∧ shred.provider = packet.provider ∧
      shred.rxUnixNs = packet.rxUnixNs := by
  unfold verifyChunk at h
  dsimp only at h
  rw [settle_shreds, List.mem_map] at h
  obtain ⟨entry, hentry, rfl⟩ := h
  have hloop := loopInvariant_foldl lib schedule shredVersion stats packets.zipIdx
  have hmem : entry.1 ∈ (parsedAll lib schedule shredVersion packets.zipIdx).map Parsed.shred := by
    have hshreds := congrArg (List.map Prod.fst) hloop.pending
    rw [List.map_map, List.map_map] at hshreds
    have := List.mem_map_of_mem (f := Prod.fst) hentry
    rw [show List.map Prod.fst _ = _ from hshreds] at this
    exact this
  obtain ⟨parsed, hparsed, hshred⟩ := List.mem_map.mp hmem
  obtain ⟨⟨packet, i⟩, hpacket, hinspect⟩ := List.mem_filterMap.mp hparsed
  cases hok : inspect lib schedule shredVersion i packet with
  | error reject =>
    rw [hok] at hinspect
    cases hinspect
  | ok parsed' =>
    rw [hok] at hinspect
    cases hinspect
    obtain ⟨hindex, hprovider, hns⟩ := inspect_eq_ok hok
    refine ⟨packet, ?_, ?_, ?_⟩
    · rw [← hshred]
      exact hindex ▸ List.mem_zipIdx_iff_getElem?.mp hpacket
    · rw [← hshred]
      exact hprovider
    · rw [← hshred]
      exact hns

/-- Each authentic shred of a batch is fed. -/
lemma countP_fedInputs {packets : List Packet} {shreds : List VerifiedShred}
    (h : ∀ shred ∈ shreds, ∃ packet, packets[shred.packetIndex]? = some packet ∧
      shred.provider = packet.provider ∧ shred.rxUnixNs = packet.rxUnixNs) (provider : ℕ) :
    (fedInputs packets shreds).countP (fun input => input.provider = provider) =
      shreds.countP fun shred => shred.isAuthentic ∧ shred.provider = provider := by
  unfold fedInputs
  induction shreds with
  | nil => rfl
  | cons shred shreds ih =>
    have ih' := ih fun other hmem => h other (List.mem_cons_of_mem _ hmem)
    obtain ⟨packet, hpacket, hprovider, -⟩ := h shred List.mem_cons_self
    have hinput : packets[shred.packetIndex]?.map Packet.input = some packet.input := by
      rw [hpacket, Option.map_some]
    rw [List.countP_cons, ← ih']
    cases hauthentic : shred.isAuthentic with
    | false =>
      rw [List.filter_cons_of_neg (by simp [hauthentic])]
      simp
    | true =>
      rw [List.filter_cons_of_pos hauthentic, List.filterMap_cons, hinput]
      dsimp only
      rw [List.countP_cons]
      congr 1
      by_cases hp : packet.provider = provider <;> simp [Packet.input, hprovider, hp]

/-! ### The receiving threads -/

section Receiving

variable {k p : ℕ} {setup : FrontEndSetup k}

/-- What the receiving threads have to say of the datagrams so far. -/
structure Heard (setup : FrontEndSetup k) (events : List (FrontEndEvent k)) (st : Receivers k) :
    Prop where
  /-- The datagrams that were cut. -/
  truncated : st.stats.truncated =
    (events.flatMap FrontEndEvent.allDatagrams).countP Datagram.truncated
  /-- The datagrams without a stamp. -/
  noTimestamp : st.stats.noTimestamp = (events.flatMap FrontEndEvent.allDatagrams).countP
    fun msg => msg.readable && msg.tsNs.isNone
  /-- The datagrams with one. -/
  received : st.stats.received =
    (events.flatMap FrontEndEvent.allDatagrams).countP Datagram.stamped
  /-- Of these, the ones of no provider; the others are packets. -/
  unmatched : st.stats.unmatched + (events.flatMap (FrontEndEvent.batches setup)).flatten.length =
    st.stats.received
  /-- The kernel's drops. -/
  kernelDropped : st.stats.kernelDropped = ∑ socket, ovflSum 0
    ((events.flatMap (FrontEndEvent.datagrams socket)).filterMap Datagram.rxqOvfl)
  /-- The kernel's last counts. -/
  lastOvfl : ∀ socket, (st.threads socket).lastOvfl =
    ((events.flatMap (FrontEndEvent.datagrams socket)).filterMap Datagram.rxqOvfl).getLastD 0
  /-- The addresses seen. -/
  observes : ∀ sender, st.netmon.Observes sender ↔ ∃ socket, sender ∈
    (events.flatMap (FrontEndEvent.datagrams socket)).filterMap
      (Datagram.sender setup.registry (setup.ports socket))
  /-- The addresses reported are seen. -/
  reported : ∀ socket, ∀ sender ∈ (st.threads socket).reportedIps, st.netmon.Observes sender

theorem Heard.start : Heard setup [] (FrontEnd.start k p).receivers where
  truncated := rfl
  noTimestamp := rfl
  received := rfl
  unmatched := rfl
  kernelDropped := (Finset.sum_const_zero).symm
  lastOvfl _ := rfl
  observes sender := by simp [NetMon.Observes, FrontEnd.start]
  reported socket sender h := absurd h (Finset.notMem_empty sender)

/-- Steps of the other threads do not touch it. -/
theorem Heard.other {events : List (FrontEndEvent k)} {st : Receivers k} (h : Heard setup events st)
    {event : FrontEndEvent k} (hall : event.allDatagrams = [])
    (hnone : ∀ socket, event.datagrams socket = []) (hbatches : event.batches setup = []) :
    Heard setup (events ++ [event]) st := by
  have hall' : (events ++ [event]).flatMap FrontEndEvent.allDatagrams =
      events.flatMap FrontEndEvent.allDatagrams := by
    rw [List.flatMap_append, List.flatMap_singleton, hall, List.append_nil]
  have hnone' : ∀ socket, (events ++ [event]).flatMap (FrontEndEvent.datagrams socket) =
      events.flatMap (FrontEndEvent.datagrams socket) := by
    intro socket
    rw [List.flatMap_append, List.flatMap_singleton, hnone, List.append_nil]
  have hbatches' : (events ++ [event]).flatMap (FrontEndEvent.batches setup) =
      events.flatMap (FrontEndEvent.batches setup) := by
    rw [List.flatMap_append, List.flatMap_singleton, hbatches, List.append_nil]
  exact
    { truncated := by
        rw [hall']
        exact h.truncated
      noTimestamp := by
        rw [hall']
        exact h.noTimestamp
      received := by
        rw [hall']
        exact h.received
      unmatched := by
        rw [hbatches']
        exact h.unmatched
      kernelDropped := by
        simp only [hnone']
        exact h.kernelDropped
      lastOvfl := by
        simp only [hnone']
        exact h.lastOvfl
      observes := by
        simp only [hnone']
        exact h.observes
      reported := h.reported }

/-- The end of a round counts a batch that finds the channel full. -/
lemma Round.send_eq {cap : ℕ} (st : Round) (tx : Channel (List Packet) cap) :
    (st.send tx).1 =
      { st.stats with
        channelFull := st.stats.channelFull +
          (!st.batch.isEmpty && (tx.trySend st.batch).isNone).toNat } := by
  unfold Round.send
  cases hbatch : st.batch.isEmpty with
  | true => rfl
  | false =>
    cases tx.trySend st.batch <;> rfl

/-- A round of a receiving thread keeps the account. -/
theorem Heard.receive {events : List (FrontEndEvent k)} {st : FrontEnd k p}
    (h : Heard setup events st.receivers) (socket : Fin k)
    (msgs : {l : List Datagram // l.length ≤ batchSize}) :
    Heard setup (events ++ [.receive socket msgs])
      (st.receive setup socket msgs.1).receivers := by
  have hgains : Round.Gains setup.registry (setup.ports socket) msgs.1
      ⟨st.receivers.threads socket, st.receivers.stats, st.receivers.netmon, []⟩ _ :=
    Round.gains_foldl msgs.1 (h.reported socket)
  unfold FrontEnd.receive
  dsimp only
  generalize msgs.1.foldl (Round.message setup.registry (setup.ports socket))
    ⟨st.receivers.threads socket, st.receivers.stats, st.receivers.netmon, []⟩ = round at hgains ⊢
  -- the datagrams of the round are new to its own socket, and to no other
  have hall : (events ++ [FrontEndEvent.receive socket msgs]).flatMap FrontEndEvent.allDatagrams =
      events.flatMap FrontEndEvent.allDatagrams ++ msgs.1 := by
    rw [List.flatMap_append, List.flatMap_singleton]
    rfl
  have hown : (events ++ [FrontEndEvent.receive socket msgs]).flatMap
      (FrontEndEvent.datagrams socket) =
      events.flatMap (FrontEndEvent.datagrams socket) ++ msgs.1 := by
    rw [List.flatMap_append, List.flatMap_singleton, FrontEndEvent.datagrams, if_pos rfl]
  have hother : ∀ socket', socket' ≠ socket →
      (events ++ [FrontEndEvent.receive socket msgs]).flatMap (FrontEndEvent.datagrams socket') =
        events.flatMap (FrontEndEvent.datagrams socket') := by
    intro socket' hne
    rw [List.flatMap_append, List.flatMap_singleton, FrontEndEvent.datagrams, if_neg hne.symm,
      List.append_nil]
  have hbatches :
      ((events ++ [FrontEndEvent.receive socket msgs]).flatMap
          (FrontEndEvent.batches setup)).flatten.length =
        (events.flatMap (FrontEndEvent.batches setup)).flatten.length +
          (msgs.1.filterMap (Datagram.packet setup.registry (setup.ports socket))).length := by
    rw [List.flatMap_append, List.flatMap_singleton, List.flatten_append, List.length_append]
    unfold FrontEndEvent.batches
    dsimp only
    split_ifs with hempty
    · rw [List.isEmpty_iff.mp hempty]
      rfl
    · rw [List.flatten_singleton]
  have hthread : ∀ socket', socket' ≠ socket →
      Function.update st.receivers.threads socket round.receiver socket' =
        st.receivers.threads socket' := fun socket' hne => Function.update_of_ne hne _ _
  have hstats := Round.send_eq round st.tx
  exact
    { truncated := by
        rw [hall, List.countP_append, ← h.truncated, ← hgains.truncated, hstats]
      noTimestamp := by
        rw [hall, List.countP_append, ← h.noTimestamp, ← hgains.noTimestamp, hstats]
      received := by
        rw [hall, List.countP_append, ← h.received, ← hgains.received, hstats]
      unmatched := by
        have hunmatched := hgains.unmatched
        have hreceived := hgains.received
        have hbefore := h.unmatched
        rw [hbatches, hstats]
        dsimp only at hunmatched hreceived ⊢
        omega
      -- the round adds to the sum of its own socket, from the count that its thread has kept
      kernelDropped := by
        rw [hstats]
        dsimp only
        rw [hgains.kernelDropped, h.kernelDropped]
        have hsum : ∀ socket', ovflSum 0 (((events ++ [FrontEndEvent.receive socket msgs]).flatMap
            (FrontEndEvent.datagrams socket')).filterMap Datagram.rxqOvfl) =
            ovflSum 0 ((events.flatMap (FrontEndEvent.datagrams socket')).filterMap
              Datagram.rxqOvfl) +
            if socket' = socket then ovflSum (st.receivers.threads socket).lastOvfl
              (msgs.1.filterMap Datagram.rxqOvfl) else 0 := by
          intro socket'
          by_cases hs : socket' = socket
          · subst hs
            rw [if_pos rfl, hown, List.filterMap_append, ovflSum_append, ← h.lastOvfl]
          · rw [if_neg hs, hother socket' hs, Nat.add_zero]
        rw [Finset.sum_congr rfl fun socket' _ => hsum socket', Finset.sum_add_distrib,
          Finset.sum_ite_eq', if_pos (Finset.mem_univ _)]
      lastOvfl := by
        intro socket'
        by_cases hs : socket' = socket
        · subst hs
          dsimp only
          rw [Function.update_self, hgains.lastOvfl, hown, List.filterMap_append, h.lastOvfl]
          generalize msgs.1.filterMap Datagram.rxqOvfl = ovfls
          -- a round without counts leaves the last one as it is
          rcases List.eq_nil_or_concat' ovfls with rfl | ⟨init, last, rfl⟩
          · simp
          · rw [← List.append_assoc, List.getLastD_concat, List.getLastD_concat]
        · dsimp only
          rw [hthread socket' hs, hother socket' hs, h.lastOvfl]
      -- an address is seen by all threads, whichever has heard it
      observes := by
        intro sender
        rw [hgains.observes, h.observes]
        constructor
        · rintro (⟨socket', hmem⟩ | hmem)
          · refine ⟨socket', ?_⟩
            rw [List.flatMap_append, List.filterMap_append]
            exact List.mem_append_left _ hmem
          · refine ⟨socket, ?_⟩
            rw [hown, List.filterMap_append]
            exact List.mem_append_right _ hmem
        · rintro ⟨socket', hmem⟩
          by_cases hs : socket' = socket
          · subst hs
            rw [hown, List.filterMap_append, List.mem_append] at hmem
            exact hmem.imp (fun hold => ⟨socket', hold⟩) id
          · rw [hother socket' hs] at hmem
            exact Or.inl ⟨socket', hmem⟩
      reported := by
        intro socket' sender hsender
        dsimp only at hsender ⊢
        by_cases hs : socket' = socket
        · subst hs
          rw [Function.update_self] at hsender
          exact hgains.reported sender hsender
        · rw [hthread socket' hs] at hsender
          exact (hgains.observes sender).mpr (Or.inl (h.reported socket' sender hsender)) }

variable (vlib : VerifyLibrary) (lib : ShredLibrary) (g : ℕ)

/-- Every step keeps the account. -/
theorem Heard.step {events : List (FrontEndEvent k)} {st : FrontEnd k p}
    (h : Heard setup events st.receivers) (event : FrontEndEvent k) :
    Heard setup (events ++ [event]) (st.step vlib lib g setup event).1.receivers := by
  cases event with
  | receive socket msgs => exact h.receive socket msgs
  | verify schedule =>
    have h' : Heard setup (events ++ [.verify schedule]) st.receivers :=
      h.other rfl (fun _ => rfl) rfl
    unfold FrontEnd.step
    dsimp only
    split <;> exact h'
  | reconstruct =>
    have h' : Heard setup (events ++ [.reconstruct]) st.receivers :=
      h.other rfl (fun _ => rfl) rfl
    unfold FrontEnd.step
    dsimp only
    split <;> exact h'

/-- The account holds along every run. -/
lemma heard_run (events : List (FrontEndEvent k)) :
    Heard setup events
      (Machine.finalState (FrontEnd.step vlib lib g setup) (FrontEnd.start k p)
        events).receivers := by
  refine Machine.run_induction (FrontEnd.step vlib lib g setup)
    (P := fun events st _ => Heard setup events st.receivers) (Heard.start (p := p)) ?_ events
  intro events event st _ h
  exact h.step vlib lib g event

/-- **The kernel's drops are counted exactly**, although only the last 32 bits of its count arrive.
The true numbers of a port are those when its datagrams came in; they ascend, by less than `2 ^ 32`
from one to the next. -/
theorem kernelDropped_exact (events : List (FrontEndEvent k)) (drops : Fin k → List ℕ)
    (hreports : ∀ socket, (events.flatMap (FrontEndEvent.datagrams socket)).filterMap
      Datagram.rxqOvfl = (drops socket).map UInt32.ofNat)
    (hascend : ∀ socket, (0 :: drops socket).IsChain fun a b => a ≤ b ∧ b < a + 2 ^ 32) :
    (Machine.finalState (FrontEnd.step vlib lib g setup) (FrontEnd.start k p)
      events).receivers.stats.kernelDropped = ∑ socket, (drops socket).getLastD 0 := by
  rw [(heard_run vlib lib g events).kernelDropped]
  refine Finset.sum_congr rfl fun socket _ => ?_
  have hsum := ovflSum_eq (hascend socket)
  rw [Nat.zero_add] at hsum
  rw [hreports]
  exact hsum

/-- The count of a port may wrap: after 5 drops, a datagram that says 1 stands for `2 ^ 32 - 4`
more. -/
theorem kernelDropped_exact_wrapped :
    let msg (ovfl : UInt32) : Datagram := ⟨0, [0], false, some 0, some ovfl⟩
    let setup : FrontEndSetup 1 := ⟨Registry.empty, fun _ => 8001, none, false⟩
    (Machine.finalState (FrontEnd.step concatenationLibrary pairLibrary 0 setup)
      (FrontEnd.start 1 1) [.receive 0 ⟨[msg 5, msg 1], by decide⟩]).receivers.stats.kernelDropped =
        2 ^ 32 + 1 := by
  intro msg setup
  have h := @kernelDropped_exact 1 1 setup concatenationLibrary pairLibrary 0
    [.receive 0 ⟨[msg 5, msg 1], by decide⟩] (fun _ => [5, 2 ^ 32 + 1])
    (by decide)
    (by
      intro socket
      simp)
  rw [h]
  rfl

/-- A datagram of a provider came from an address. -/
def SentFrom (setup : FrontEndSetup k) (events : List (FrontEndEvent k)) (id : ProviderId)
    (ip : Ipv4Addr) : Prop :=
  ∃ socket, ∃ msg ∈ events.flatMap (FrontEndEvent.datagrams socket), msg.stamped = true ∧
    msg.srcIp = ip ∧ setup.registry.resolve ip (setup.ports socket) = some id

/-- A provider mixes senders: it has no addresses configured, and datagrams of it came from two. -/
def Mixes (setup : FrontEndSetup k) (events : List (FrontEndEvent k)) (p : ProviderCfg)
    (id : ProviderId) : Prop :=
  p.ips = [] ∧ ∃ ip ip', ip ≠ ip' ∧ SentFrom setup events id ip ∧ SentFrom setup events id ip'

/-- The addresses that are found for a provider, if any are, are those of its datagrams. -/
lemma mixed_iff_mixes (events : List (FrontEndEvent k)) (p' : ProviderCfg) (id : ProviderId) :
    let netmon := (Machine.finalState (FrontEnd.step vlib lib g setup) (FrontEnd.start k p)
      events).receivers.netmon
    ((netmon.mixed p' id).isSome = true ↔ Mixes setup events p' id) ∧
    ∀ ips, netmon.mixed p' id = some ips →
      ips.Nodup ∧ ∀ ip, ip ∈ ips ↔ SentFrom setup events id ip := by
  intro netmon
  have hsent : ∀ ip, netmon.Observes (id, ip) ↔ SentFrom setup events id ip := by
    intro ip
    rw [(heard_run vlib lib g events).observes]
    refine exists_congr fun socket => ?_
    rw [List.mem_filterMap]
    refine exists_congr fun msg => and_congr_right fun _ => ?_
    unfold Datagram.sender
    split_ifs with hstamped
    · rw [Option.map_eq_some_iff]
      constructor
      · rintro ⟨provider, hresolve, heq⟩
        cases heq
        exact ⟨hstamped, rfl, hresolve⟩
      · rintro ⟨-, rfl, hresolve⟩
        exact ⟨id, hresolve, rfl⟩
    · exact ⟨fun h => h.elim, fun h => absurd h.1 hstamped⟩
  have hmixed := netmon.mixed_iff p' id
  simp only [hsent] at hmixed
  exact hmixed

/-- **Mixed senders are found exactly.**  Although each thread reports an address once only, the
warnings are about the providers that mix senders, on any ports, each once and in the order of the
configuration, and each names the addresses that datagrams of its provider came from, each once. -/
theorem mixed_exact (events : List (FrontEndEvent k)) (cfg : Config) :
    let netmon := (Machine.finalState (FrontEnd.step vlib lib g setup) (FrontEnd.start k p)
      events).receivers.netmon
    ∃ mixed : List ((ProviderCfg × ℕ) × List Ipv4Addr),
      netmon.mixedSenders cfg setup.registry =
        mixed.map (fun m => mixedWarning setup.registry m.1 m.2) ∧
      (mixed.map Prod.fst).Sublist cfg.providers.zipIdx ∧
      (∀ entry ∈ cfg.providers.zipIdx,
        entry ∈ mixed.map Prod.fst ↔ Mixes setup events entry.1 (providerId entry.2)) ∧
      ∀ m ∈ mixed, m.2.Nodup ∧ ∀ ip, ip ∈ m.2 ↔ SentFrom setup events (providerId m.1.2) ip := by
  intro netmon
  have hmixed := @mixed_iff_mixes k p setup vlib lib g events
  refine ⟨netmon.mixedProviders cfg, netmon.mixedSenders_eq cfg setup.registry, ?_,
    fun entry hentry => ?_, fun m hm => ?_⟩
  · rw [NetMon.map_fst_mixedProviders]
    exact List.filter_sublist
  · rw [NetMon.map_fst_mixedProviders, List.mem_filter]
    exact (and_iff_right hentry).trans (hmixed entry.1 (providerId entry.2)).1
  · obtain ⟨entry, -, hfind⟩ := List.mem_filterMap.mp hm
    obtain ⟨ips, hips, rfl⟩ := Option.map_eq_some_iff.mp hfind
    exact (hmixed entry.1 (providerId entry.2)).2 ips hips

end Receiving

/-! ### The channels -/

section Channels

variable {k p : ℕ} (vlib : VerifyLibrary) (lib : ShredLibrary) (g : ℕ) (setup : FrontEndSetup k)

/-- The deshredding side of the comparison: what was fed was taken, waits or was dropped, and the
counters of every provider say so. -/
structure Feeds (sent taken : List ShredInput) (tc : TxnCompare p) : Prop where
  /-- The account of the channel and of the drops. -/
  account : ∃ lost, Channel.Traffic sent taken lost tc.queue ∧
    ∀ q : Fin p, Follows lib q taken (lost.countP fun input => input.provider = q.val) tc.deshredder

theorem Feeds.start : Feeds lib [] [] (TxnCompare.start p) :=
  ⟨[], Channel.Traffic.start, fun q => Follows.new lib q⟩

/-- A shred that is fed is queued, or dropped and counted. -/
theorem Feeds.feed {sent taken : List ShredInput} {tc : TxnCompare p} (h : Feeds lib sent taken tc)
    (input : ShredInput) : Feeds lib (sent ++ [input]) taken (tc.feed input) := by
  obtain ⟨lost, htraffic, hfollows⟩ := h.account
  unfold TxnCompare.feed
  cases hsend : tc.queue.trySend input with
  | some queue => exact ⟨lost, htraffic.accept hsend, hfollows⟩
  | none =>
    refine ⟨lost ++ [input], htraffic.lose input, fun q => ?_⟩
    have hdrop := (hfollows q).recordDropped lib input.provider
    rw [List.countP_append, List.countP_singleton]
    by_cases hq : input.provider = q
    · rw [if_pos hq] at hdrop
      rw [if_pos (by simpa using hq)]
      exact hdrop
    · rw [if_neg hq] at hdrop
      rw [if_neg (by simpa using hq)]
      exact hdrop

/-- Each shred of a batch is queued, or dropped and counted. -/
theorem Feeds.foldl {sent taken : List ShredInput} {tc : TxnCompare p} (h : Feeds lib sent taken tc)
    (inputs : List ShredInput) :
    Feeds lib (sent ++ inputs) taken (inputs.foldl TxnCompare.feed tc) := by
  induction inputs generalizing sent tc with
  | nil =>
    rw [List.append_nil]
    exact h
  | cons input inputs ih =>
    have hrest := ih (h.feed lib input)
    rw [List.append_assoc] at hrest
    exact hrest

/-- The account of the channels. -/
structure Balanced (events : List (FrontEndEvent k)) (outs : List (FrontEndOutput (p + g)))
    (st : FrontEnd k p) : Prop where
  /-- The batches. -/
  batches : ∃ lost, lost.length = st.receivers.stats.channelFull ∧
    Channel.Traffic (events.flatMap (FrontEndEvent.batches setup))
      (outs.flatMap FrontEndOutput.batches) lost st.tx
  /-- The packets verified. -/
  verified : Conserved (outs.flatMap FrontEndOutput.batches).flatten.length
    (outs.flatMap FrontEndOutput.shreds) st.vstats
  /-- The shreds fed are the authentic ones. -/
  authentic : ∀ provider : ℕ,
    (outs.flatMap FrontEndOutput.fed).countP (fun input => input.provider = provider) =
      (outs.flatMap FrontEndOutput.shreds).countP
        fun shred => shred.isAuthentic ∧ shred.provider = provider
  /-- The feed. -/
  feeds : Feeds lib (if setup.compares then outs.flatMap FrontEndOutput.fed else [])
    (outs.flatMap FrontEndOutput.inputs) st.compare

theorem Balanced.start : Balanced lib g setup [] [] (FrontEnd.start k p) where
  batches := ⟨[], rfl, Channel.Traffic.start⟩
  verified := Conserved.start
  authentic _ := rfl
  feeds := by
    rw [List.flatMap_nil, ite_self]
    exact Feeds.start lib

variable {lib g setup}

/-- A round of a receiving thread sends a batch, or loses it and counts it. -/
theorem Balanced.receive {events : List (FrontEndEvent k)} {outs : List (FrontEndOutput (p + g))}
    {st : FrontEnd k p} (h : Balanced lib g setup events outs st) (socket : Fin k)
    (msgs : {l : List Datagram // l.length ≤ batchSize})
    (hreported : ∀ sender ∈ (st.receivers.threads socket).reportedIps,
      st.receivers.netmon.Observes sender) :
    Balanced lib g setup (events ++ [.receive socket msgs]) (outs ++ [.none])
      (st.receive setup socket msgs.1) := by
  have hgains : Round.Gains setup.registry (setup.ports socket) msgs.1
      ⟨st.receivers.threads socket, st.receivers.stats, st.receivers.netmon, []⟩ _ :=
    Round.gains_foldl msgs.1 hreported
  obtain ⟨lost, hlost, htraffic⟩ := h.batches
  have houts : ∀ {α : Type} (f : FrontEndOutput (p + g) → List α), f .none = [] →
      (outs ++ [FrontEndOutput.none]).flatMap f = outs.flatMap f := by
    intro α f hf
    rw [List.flatMap_append, List.flatMap_singleton, hf, List.append_nil]
  unfold FrontEnd.receive
  dsimp only
  generalize msgs.1.foldl (Round.message setup.registry (setup.ports socket))
    ⟨st.receivers.threads socket, st.receivers.stats, st.receivers.netmon, []⟩ = round at hgains ⊢
  have hbatch : round.batch =
      msgs.1.filterMap (Datagram.packet setup.registry (setup.ports socket)) := by
    rw [hgains.batch, List.nil_append]
  have hfull := hgains.channelFull
  have hevent : FrontEndEvent.batches setup (.receive socket msgs) =
      if round.batch.isEmpty then [] else [round.batch] := by
    rw [hbatch]
    rfl
  refine ⟨?_, ?_, ?_, ?_⟩
  · rw [houts FrontEndOutput.batches rfl, List.flatMap_append, List.flatMap_singleton, hevent]
    unfold Round.send
    cases hempty : round.batch.isEmpty with
    | true =>
      rw [if_pos rfl, if_pos rfl, List.append_nil]
      exact ⟨lost, hlost.trans hfull.symm, htraffic⟩
    | false =>
      rw [if_neg Bool.false_ne_true, if_neg Bool.false_ne_true]
      cases hsend : st.tx.trySend round.batch with
      | some tx => exact ⟨lost, hlost.trans hfull.symm, htraffic.accept hsend⟩
      | none =>
        refine ⟨lost ++ [round.batch], ?_, htraffic.lose round.batch⟩
        rw [List.length_append, hlost]
        dsimp only at hfull ⊢
        rw [hfull]
        rfl
  · rw [houts FrontEndOutput.batches rfl, houts FrontEndOutput.shreds rfl]
    exact h.verified
  · intro provider
    rw [houts FrontEndOutput.fed rfl, houts FrontEndOutput.shreds rfl]
    exact h.authentic provider
  · rw [houts FrontEndOutput.fed rfl, houts FrontEndOutput.inputs rfl]
    exact h.feeds

/-- Steps of the other threads bring no batch. -/
lemma flatMap_batches_other {events : List (FrontEndEvent k)} {event : FrontEndEvent k}
    (h : event.batches setup = []) :
    (events ++ [event]).flatMap (FrontEndEvent.batches setup) =
      events.flatMap (FrontEndEvent.batches setup) := by
  rw [List.flatMap_append, List.flatMap_singleton, h, List.append_nil]

/-- Nothing changes where a thread finds nothing to take. -/
theorem Balanced.idle {events : List (FrontEndEvent k)} {outs : List (FrontEndOutput (p + g))}
    {st : FrontEnd k p} (h : Balanced lib g setup events outs st) {event : FrontEndEvent k}
    (hevent : event.batches setup = []) :
    Balanced lib g setup (events ++ [event]) (outs ++ [.none]) st := by
  have houts : ∀ {α : Type} (f : FrontEndOutput (p + g) → List α), f .none = [] →
      (outs ++ [FrontEndOutput.none]).flatMap f = outs.flatMap f := by
    intro α f hf
    rw [List.flatMap_append, List.flatMap_singleton, hf, List.append_nil]
  constructor
  · rw [flatMap_batches_other hevent, houts FrontEndOutput.batches rfl]
    exact h.batches
  · rw [houts FrontEndOutput.batches rfl, houts FrontEndOutput.shreds rfl]
    exact h.verified
  · intro provider
    rw [houts FrontEndOutput.fed rfl, houts FrontEndOutput.shreds rfl]
    exact h.authentic provider
  · rw [houts FrontEndOutput.fed rfl, houts FrontEndOutput.inputs rfl]
    exact h.feeds

/-- The main thread counts the packets of a batch and feeds the authentic shreds. -/
theorem Balanced.verify {events : List (FrontEndEvent k)} {outs : List (FrontEndOutput (p + g))}
    {st : FrontEnd k p} (h : Balanced lib g setup events outs st) (schedule : LeaderSchedule) :
    Balanced lib g setup (events ++ [.verify schedule])
      (outs ++ [(st.step vlib lib g setup (.verify schedule)).2])
      (st.step vlib lib g setup (.verify schedule)).1 := by
  have hevent : FrontEndEvent.batches setup (.verify schedule) = [] := rfl
  unfold FrontEnd.step
  dsimp only
  cases hrecv : st.tx.recv with
  | none => exact h.idle hevent
  | some taken =>
    obtain ⟨packets, tx⟩ := taken
    obtain ⟨lost, hlost, htraffic⟩ := h.batches
    dsimp only
    unfold FrontEnd.ingest
    dsimp only
    have hshreds : ∀ shred ∈ (verifyChunk vlib packets schedule setup.shredVersion st.vstats).2,
        ∃ packet, packets[shred.packetIndex]? = some packet ∧ shred.provider = packet.provider ∧
          shred.rxUnixNs = packet.rxUnixNs := fun shred hmem => packet_of_mem_verifyChunk hmem
    have hverified := h.verified.verifyChunk vlib schedule setup.shredVersion packets
    -- from here on only what is known of the chunk matters
    generalize verifyChunk vlib packets schedule setup.shredVersion st.vstats = result
      at hshreds hverified ⊢
    obtain ⟨vstats, shreds⟩ := result
    constructor
    · rw [flatMap_batches_other hevent, List.flatMap_append, List.flatMap_singleton]
      exact ⟨lost, hlost, htraffic.take hrecv⟩
    · rw [List.flatMap_append, List.flatMap_singleton, List.flatMap_append,
        List.flatMap_singleton, List.flatten_append, List.length_append]
      unfold FrontEndOutput.batches FrontEndOutput.shreds at *
      dsimp only
      rw [List.flatten_singleton]
      exact hverified
    · intro provider
      rw [List.flatMap_append, List.flatMap_singleton, List.flatMap_append,
        List.flatMap_singleton, List.countP_append, List.countP_append, h.authentic provider]
      exact congrArg _ (countP_fedInputs hshreds provider)
    · rw [List.flatMap_append, List.flatMap_singleton, List.flatMap_append,
        List.flatMap_singleton]
      have hfeeds := h.feeds
      dsimp only [FrontEndOutput.fed, FrontEndOutput.inputs]
      rw [List.append_nil]
      split_ifs at hfeeds ⊢ with hcompares
      · exact hfeeds.foldl lib _
      · exact hfeeds

/-- The deshredding thread takes a shred. -/
lemma Balanced.reconstruct {events : List (FrontEndEvent k)}
    {outs : List (FrontEndOutput (p + g))} {st : FrontEnd k p}
    (h : Balanced lib g setup events outs st) :
    Balanced lib g setup (events ++ [.reconstruct])
      (outs ++ [(st.step vlib lib g setup .reconstruct).2])
      (st.step vlib lib g setup .reconstruct).1 := by
  have hevent : FrontEndEvent.batches setup (.reconstruct : FrontEndEvent k) = [] := rfl
  unfold FrontEnd.step
  dsimp only
  cases hrecv : st.compare.queue.recv with
  | none => exact h.idle hevent
  | some taken =>
    obtain ⟨input, queue⟩ := taken
    obtain ⟨lost, htraffic, hfollows⟩ := h.feeds.account
    dsimp only
    have houts : ∀ {α : Type} (f : FrontEndOutput (p + g) → List α),
        f (.reconstructed input (st.compare.deshredder.ingest lib g input).2) = [] →
        (outs ++ [FrontEndOutput.reconstructed input
          (st.compare.deshredder.ingest lib g input).2]).flatMap f = outs.flatMap f := by
      intro α f hf
      rw [List.flatMap_append, List.flatMap_singleton, hf, List.append_nil]
    constructor
    · rw [flatMap_batches_other hevent, houts FrontEndOutput.batches rfl]
      exact h.batches
    · rw [houts FrontEndOutput.batches rfl, houts FrontEndOutput.shreds rfl]
      exact h.verified
    · intro provider
      rw [houts FrontEndOutput.fed rfl, houts FrontEndOutput.shreds rfl]
      exact h.authentic provider
    · rw [houts FrontEndOutput.fed rfl, List.flatMap_append, List.flatMap_singleton]
      exact ⟨lost, htraffic.take hrecv, fun q => (hfollows q).ingest lib g input⟩

/-- The account of the channels holds along every run. -/
lemma balanced_run (events : List (FrontEndEvent k)) :
    Balanced lib g setup events
      (Machine.outputs (FrontEnd.step vlib lib g setup) (FrontEnd.start k p) events)
      (Machine.finalState (FrontEnd.step vlib lib g setup) (FrontEnd.start k p) events) := by
  refine (Machine.run_induction (FrontEnd.step vlib lib g setup)
    (P := fun events st outs => Heard setup events st.receivers ∧
      Balanced lib g setup events outs st)
    ⟨Heard.start (p := p), Balanced.start lib g setup⟩ ?_ events).2
  rintro events event st outs ⟨hheard, h⟩
  refine ⟨hheard.step vlib lib g event, ?_⟩
  cases event with
  | receive socket msgs => exact h.receive socket msgs (hheard.reported socket)
  | verify schedule => exact h.verify vlib schedule
  | reconstruct => exact h.reconstruct vlib

/-! ### The account -/

/-- Every datagram is accounted for, from the socket to the reconstruction. -/
structure FrontEnd.Accounts (setup : FrontEndSetup k) (events : List (FrontEndEvent k))
    (outs : List (FrontEndOutput (p + g))) (st : FrontEnd k p) : Prop where
  /-- A datagram is cut, empty, without a stamp or received. -/
  datagrams : (events.flatMap FrontEndEvent.allDatagrams).length =
    st.receivers.stats.truncated +
      (events.flatMap FrontEndEvent.allDatagrams).countP (fun msg =>
        !msg.truncated && msg.data.length = 0) +
      st.receivers.stats.noTimestamp + st.receivers.stats.received
  /-- One that is received is of no provider, or a packet. -/
  received : st.receivers.stats.received = st.receivers.stats.unmatched +
    (events.flatMap (FrontEndEvent.batches setup)).flatten.length
  /-- A packet was verified, waits, or was lost with its batch; each lost batch is counted. -/
  packets : ∃ lost : List (List Packet), lost.length = st.receivers.stats.channelFull ∧
    (∀ batch ∈ lost, batch ≠ [] ∧ batch.length ≤ batchSize) ∧
    (events.flatMap (FrontEndEvent.batches setup)).flatten.Perm
      ((outs.flatMap FrontEndOutput.batches).flatten ++ st.tx.queued.flatten ++ lost.flatten)
  /-- Batches are verified in the order in which they were sent. -/
  order : (outs.flatMap FrontEndOutput.batches).Sublist
    (events.flatMap (FrontEndEvent.batches setup))
  /-- A packet verified is counted in one way, or is a shred. -/
  verified : Conserved (outs.flatMap FrontEndOutput.batches).flatten.length
    (outs.flatMap FrontEndOutput.shreds) st.vstats
  /-- An authentic shred of a provider was fed to its deshredder, waits, or was dropped. -/
  fed : setup.compares = true → ∀ q : Fin p,
    (outs.flatMap FrontEndOutput.shreds).countP
        (fun shred => shred.isAuthentic ∧ shred.provider = q.val) =
      (st.compare.deshredder.metrics q).fed + (st.compare.deshredder.metrics q).dropped +
        st.compare.queue.queued.countP fun input => input.provider = q.val

/-- A batch that is sent is not empty, and no longer than a receive call allows. -/
lemma length_of_mem_batches {events : List (FrontEndEvent k)} {batch : List Packet}
    (h : batch ∈ events.flatMap (FrontEndEvent.batches setup)) :
    batch ≠ [] ∧ batch.length ≤ batchSize := by
  obtain ⟨event, -, hmem⟩ := List.mem_flatMap.mp h
  cases event with
  | receive socket msgs =>
    unfold FrontEndEvent.batches at hmem
    dsimp only at hmem
    split_ifs at hmem with hempty
    · exact absurd hmem List.not_mem_nil
    · rw [List.mem_singleton.mp hmem]
      refine ⟨fun hnil => ?_, (List.length_filterMap_le _ _).trans msgs.2⟩
      rw [hnil] at hempty
      exact hempty rfl
  | verify schedule => exact absurd hmem List.not_mem_nil
  | reconstruct => exact absurd hmem List.not_mem_nil

/-- A datagram is cut, empty, without a stamp or received. -/
lemma length_datagrams (msgs : List Datagram) :
    msgs.length = msgs.countP Datagram.truncated +
      msgs.countP (fun msg => !msg.truncated && msg.data.length = 0) +
      msgs.countP (fun msg => msg.readable && msg.tsNs.isNone) + msgs.countP Datagram.stamped := by
  induction msgs with
  | nil => rfl
  | cons msg msgs ih =>
    have hone : 1 = msg.truncated.toNat + (!msg.truncated && msg.data.length = 0).toNat +
        (msg.readable && msg.tsNs.isNone).toNat + msg.stamped.toNat := by
      unfold Datagram.stamped Datagram.readable
      cases msg.truncated <;> cases msg.tsNs <;> by_cases hempty : msg.data.length = 0 <;>
        simp [hempty]
    simp only [List.countP_cons, List.length_cons, Bool.toNat] at hone ih ⊢
    simp only [Bool.cond_eq_ite] at hone
    omega

/-- **Every datagram is accounted for.**  However the threads interleave, and whatever is received:
each datagram is counted where it goes astray, or is a packet; each packet is verified once, waits
or is lost with a batch that counts; and each authentic shred is fed to the deshredder of its
provider, waits or is dropped and counted. -/
theorem accounted (events : List (FrontEndEvent k)) :
    FrontEnd.Accounts setup events
      (Machine.outputs (FrontEnd.step vlib lib g setup) (FrontEnd.start k p) events)
      (Machine.finalState (FrontEnd.step vlib lib g setup) (FrontEnd.start k p) events) := by
  have hheard := @heard_run k p setup vlib lib g events
  have hbalanced := @balanced_run k p vlib lib g setup events
  obtain ⟨lost, hlost, htraffic⟩ := hbalanced.batches
  refine ⟨?_, hheard.unmatched.symm, ⟨lost, hlost, ?_, ?_⟩, ?_, hbalanced.verified, ?_⟩
  · rw [hheard.truncated, hheard.noTimestamp, hheard.received]
    exact length_datagrams _
  · intro batch hbatch
    have hmem : batch ∈ events.flatMap (FrontEndEvent.batches setup) :=
      htraffic.account.mem_iff.mpr (List.mem_append_right _ hbatch)
    exact length_of_mem_batches hmem
  · rw [← List.flatten_append, ← List.flatten_append]
    exact htraffic.account.flatten
  · exact (List.sublist_append_left _ _).trans htraffic.fifo
  · intro hcompares q
    obtain ⟨lost, htraffic, hfollows⟩ := hbalanced.feeds.account
    rw [if_pos hcompares] at htraffic
    rw [← hbalanced.authentic, htraffic.countP, (hfollows q).metrics]
    have hfed : (countersOf lib q.val (List.flatMap FrontEndOutput.inputs
        (Machine.outputs (FrontEnd.step vlib lib g setup) (FrontEnd.start k p) events))).fed =
        (List.flatMap FrontEndOutput.inputs (Machine.outputs (FrontEnd.step vlib lib g setup)
          (FrontEnd.start k p) events)).countP fun input => input.provider = q.val := by
      unfold countersOf ofProvider
      rw [List.countP_eq_length_filter]
    rw [hfed]
    dsimp only
    omega

end Channels

end ShredTools.Audit
