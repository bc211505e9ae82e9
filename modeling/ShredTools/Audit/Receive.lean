import Mathlib.Data.Finset.Sort
import Mathlib.Data.List.Chain
import ShredTools.Audit.Registry
import ShredTools.Audit.Verify
import ShredTools.Library.Channel

/-!
# Receiving packets

A thread for each port fetches datagrams in batches of up to 64, finds the provider of each, and
sends what is left of the batch to the verifying thread.  `message` is the body of its loop over a
batch, `receive` the rest of a round.  Every datagram is counted in one way (`counted_receive`).

The kernel says with a datagram how many were dropped before it, in a counter of 32 bits that wraps.
The thread adds up differences, so its sum is the true number as long as no difference reaches
`2 ^ 32` (`ovflSum_eq`).
-/

namespace ShredTools.Audit

/-- `BATCH` -/
def batchSize : ℕ := 64

/-- A datagram, as `recvmmsg` and `parse_cmsgs` tell of it. -/
structure Datagram where
  /-- The address that it came from. -/
  srcIp : Ipv4Addr
  /-- The bytes received. -/
  data : List UInt8
  /-- Whether it was longer, `MSG_TRUNC`. -/
  truncated : Bool
  /-- The kernel's receive stamp, if it gave one. -/
  tsNs : Option ℤ
  /-- The kernel's count of datagrams dropped before, if it gave one. -/
  rxqOvfl : Option UInt32
  deriving DecidableEq

/-- `RxStats` -/
structure RxStats where
  /-- Datagrams with a stamp. -/
  received : ℕ
  /-- Of these, the ones of no provider. -/
  unmatched : ℕ
  /-- Datagrams without a stamp. -/
  noTimestamp : ℕ
  /-- Batches that found the channel full. -/
  channelFull : ℕ
  /-- Datagrams that the kernel dropped. -/
  kernelDropped : ℕ
  /-- Datagrams that the kernel cut. -/
  truncated : ℕ
  deriving DecidableEq

/-- `RxStats::default` -/
def RxStats.default : RxStats := ⟨0, 0, 0, 0, 0, 0⟩

/-- `NetMon`, the addresses seen of each provider. -/
structure NetMon where
  /-- The addresses. -/
  observed : AList fun _ : ProviderId => Finset Ipv4Addr

/-- `NetMon::observe` -/
def NetMon.observe (netmon : NetMon) (provider : ProviderId) (ip : Ipv4Addr) : NetMon :=
  ⟨netmon.observed.upsert provider ∅ (insert ip)⟩

/-- `Registry::name` -/
def Registry.name (registry : Registry) (id : ProviderId) : String :=
  registry.names.getD id.toNat ""

/-- `Ipv4Addr::to_string` -/
def Ipv4Addr.toText (ip : Ipv4Addr) : String :=
  ".".intercalate ([24, 16, 8, 0].map fun shift => toString (ip.toNat / 2 ^ shift % 256))

/-- The body of the loop of `NetMon::mixed_senders`: the addresses seen of a provider in order, if
it has none configured and there are several. -/
def NetMon.mixed (netmon : NetMon) (p : ProviderCfg) (id : ProviderId) : Option (List Ipv4Addr) :=
  (netmon.observed.lookup id).bind fun ips =>
    if !p.ips.isEmpty || ips.card < 2 then none else some (ips.sort (· ≤ ·))

/-- The warning of `NetMon::mixed_senders` about the provider in some place, with the addresses. -/
def mixedWarning (registry : Registry) (entry : ProviderCfg × ℕ) (ips : List Ipv4Addr) : String :=
  "provider `" ++ registry.name (providerId entry.2) ++ "`" ++
    entry.1.port.elim "" (fun port => " (port " ++ toString port.toNat ++ ")") ++
    " receives shreds from " ++ toString ips.length ++ " source IPs (" ++
    ", ".intercalate (ips.map Ipv4Addr.toText) ++ "); its numbers mix all of them and it " ++
    "wins whenever any of them is first. Add `ips:` to the provider to keep only its own " ++
    "sender, and list the others as providers of their own"

/-- `NetMon::mixed_senders` -/
def NetMon.mixedSenders (netmon : NetMon) (cfg : Config) (registry : Registry) : List String :=
  cfg.providers.zipIdx.filterMap fun entry =>
    (netmon.mixed entry.1 (providerId entry.2)).map (mixedWarning registry entry)

/-- The variables of `rx_loop` that outlive a round. -/
structure Receiver where
  /-- The addresses reported. -/
  reportedIps : Finset (ProviderId × Ipv4Addr)
  /-- The kernel's count at the last difference. -/
  lastOvfl : UInt32

/-- The variables as the loop starts. -/
def Receiver.new : Receiver := ⟨∅, 0⟩

/-- The variables of a round of `rx_loop`: those of the thread, what the threads share, and the
batch so far. -/
structure Round where
  /-- The variables of the thread. -/
  receiver : Receiver
  /-- The counters of all threads. -/
  stats : RxStats
  /-- The addresses seen. -/
  netmon : NetMon
  /-- The packets of the batch. -/
  batch : List Packet

/-- The part of the loop that accounts for the kernel's count. -/
def Round.countDrops (st : Round) : Option UInt32 → Round
  | some ovfl =>
    let delta := ovfl - st.receiver.lastOvfl
    if delta > 0 then
      { st with
        stats := { st.stats with kernelDropped := st.stats.kernelDropped + delta.toNat }
        receiver := { st.receiver with lastOvfl := ovfl } }
    else st
  | none => st

/-- The part of the loop for a datagram with a stamp. -/
def Round.accept (registry : Registry) (port : Port) (st : Round) (msg : Datagram)
    (rxUnixNs : ℤ) : Round :=
  let st := { st with stats := { st.stats with received := st.stats.received + 1 } }
  match registry.resolve msg.srcIp port with
  | none => { st with stats := { st.stats with unmatched := st.stats.unmatched + 1 } }
  | some provider =>
    let st :=
      if (provider, msg.srcIp) ∈ st.receiver.reportedIps then st
      else
        { st with
          receiver :=
            { st.receiver with
              reportedIps := insert (provider, msg.srcIp) st.receiver.reportedIps }
          netmon := st.netmon.observe provider msg.srcIp }
    { st with batch := st.batch ++ [⟨provider.toNat, rxUnixNs, msg.data⟩] }

/-- The body of the loop of `rx_loop` over the datagrams of a batch. -/
def Round.message (registry : Registry) (port : Port) (st : Round) (msg : Datagram) : Round :=
  let st := st.countDrops msg.rxqOvfl
  if msg.truncated then
    { st with stats := { st.stats with truncated := st.stats.truncated + 1 } }
  else if msg.data.length = 0 then st
  else
    match msg.tsNs with
    | none => { st with stats := { st.stats with noTimestamp := st.stats.noTimestamp + 1 } }
    | some rxUnixNs => st.accept registry port msg rxUnixNs

/-- The end of a round: the batch goes to the channel, unless it is empty. -/
def Round.send {cap : ℕ} (st : Round) (tx : Channel (List Packet) cap) :
    RxStats × Channel (List Packet) cap :=
  if st.batch.isEmpty then (st.stats, tx)
  else
    match tx.trySend st.batch with
    | some tx => (st.stats, tx)
    | none => ({ st.stats with channelFull := st.stats.channelFull + 1 }, tx)

/-! ### What a batch amounts to -/

/-- Whether a datagram gets as far as its stamp. -/
def Datagram.readable (msg : Datagram) : Bool := !msg.truncated && msg.data.length ≠ 0

/-- Whether a datagram counts as received. -/
def Datagram.stamped (msg : Datagram) : Bool := msg.readable && msg.tsNs.isSome

/-- The packet that a datagram becomes. -/
def Datagram.packet (registry : Registry) (port : Port) (msg : Datagram) : Option Packet :=
  if msg.readable then
    msg.tsNs.bind fun rxUnixNs => (registry.resolve msg.srcIp port).map fun provider =>
      ⟨provider.toNat, rxUnixNs, msg.data⟩
  else none

/-- The provider and the address of a datagram that becomes a packet. -/
def Datagram.sender (registry : Registry) (port : Port) (msg : Datagram) :
    Option (ProviderId × Ipv4Addr) :=
  if msg.stamped then
    (registry.resolve msg.srcIp port).map fun provider => (provider, msg.srcIp)
  else none

/-- An address was seen of a provider. -/
def NetMon.Observes (netmon : NetMon) (sender : ProviderId × Ipv4Addr) : Prop :=
  sender.2 ∈ (netmon.observed.lookup sender.1).getD ∅

lemma NetMon.observes_observe (netmon : NetMon) (sender other : ProviderId × Ipv4Addr) :
    (netmon.observe sender.1 sender.2).Observes other ↔ other = sender ∨ netmon.Observes other := by
  obtain ⟨provider, ip⟩ := sender
  obtain ⟨provider', ip'⟩ := other
  unfold Observes observe
  rw [AList.lookup_upsert, Prod.mk.injEq]
  by_cases h : provider' = provider
  · subst h
    simp
  · simp [h]

/-- A provider is mixed if it has no addresses configured and two of it were seen; the warning names
those that were. -/
theorem NetMon.mixed_iff (netmon : NetMon) (p : ProviderCfg) (id : ProviderId) :
    ((netmon.mixed p id).isSome = true ↔ p.ips = [] ∧
      ∃ ip ip', ip ≠ ip' ∧ netmon.Observes (id, ip) ∧ netmon.Observes (id, ip')) ∧
    ∀ ips, netmon.mixed p id = some ips →
      ips.Nodup ∧ ∀ ip, ip ∈ ips ↔ netmon.Observes (id, ip) := by
  unfold mixed Observes
  dsimp only
  cases netmon.observed.lookup id with
  | none => simp
  | some seen =>
    rw [Option.bind_some, Option.getD_some]
    have hcard : seen.card < 2 ↔ ¬ ∃ ip ip', ip ≠ ip' ∧ ip ∈ seen ∧ ip' ∈ seen := by
      rw [← not_le, not_iff_not, Nat.succ_le_iff, Finset.one_lt_card_iff]
      constructor
      · rintro ⟨ip, ip', h, h', hne⟩
        exact ⟨ip, ip', hne, h, h'⟩
      · rintro ⟨ip, ip', hne, h, h'⟩
        exact ⟨ip, ip', h, h', hne⟩
    cases hips : p.ips with
    | cons ip ips => simp
    | nil =>
      by_cases hfew : seen.card < 2
      · simpa [hfew] using hcard.mp hfew
      · have htwo := not_not.mp (mt hcard.mpr hfew)
        simpa [hfew, Finset.sort_nodup] using htwo

/-- The providers that are warned about, with the addresses that the warnings name. -/
def NetMon.mixedProviders (netmon : NetMon) (cfg : Config) :
    List ((ProviderCfg × ℕ) × List Ipv4Addr) :=
  cfg.providers.zipIdx.filterMap fun entry =>
    (netmon.mixed entry.1 (providerId entry.2)).map fun ips => (entry, ips)

theorem NetMon.mixedSenders_eq (netmon : NetMon) (cfg : Config) (registry : Registry) :
    netmon.mixedSenders cfg registry =
      (netmon.mixedProviders cfg).map fun m => mixedWarning registry m.1 m.2 := by
  unfold mixedSenders mixedProviders
  rw [List.map_filterMap]
  apply List.filterMap_congr
  intro entry _
  rw [Option.map_map]
  rfl

/-- Each provider is warned about once, and in its turn. -/
theorem NetMon.map_fst_mixedProviders (netmon : NetMon) (cfg : Config) :
    (netmon.mixedProviders cfg).map Prod.fst =
      cfg.providers.zipIdx.filter fun entry =>
        (netmon.mixed entry.1 (providerId entry.2)).isSome := by
  unfold mixedProviders
  rw [List.map_filterMap, ← List.filterMap_eq_filter]
  apply List.filterMap_congr
  intro entry _
  cases hentry : netmon.mixed entry.1 (providerId entry.2) <;> simp [Option.guard, hentry]

/-- What the kernel's counts add up to, from a count on. -/
def ovflSum : UInt32 → List UInt32 → ℕ
  | _, [] => 0
  | last, ovfl :: ovfls => (ovfl - last).toNat + ovflSum ovfl ovfls

/-- **The kernel's drops.**  If the true numbers ascend, by less than `2 ^ 32` each time, then the
differences of their last 32 bits add up to the last of them. -/
theorem ovflSum_eq {start : ℕ} {drops : List ℕ}
    (h : (start :: drops).IsChain fun a b => a ≤ b ∧ b < a + 2 ^ 32) :
    start + ovflSum (UInt32.ofNat start) (drops.map UInt32.ofNat) = drops.getLastD start := by
  induction drops generalizing start with
  | nil => rfl
  | cons next drops ih =>
    rw [List.isChain_cons_cons] at h
    obtain ⟨⟨hle, hlt⟩, hrest⟩ := h
    have hdelta : (UInt32.ofNat next - UInt32.ofNat start).toNat = next - start := by
      rw [UInt32.toNat_sub, UInt32.toNat_ofNat', UInt32.toNat_ofNat']
      omega
    have ih' := ih hrest
    rw [List.map_cons, ovflSum, hdelta, List.getLastD_cons]
    omega

theorem ovflSum_append (last : UInt32) (ovfls ovfls' : List UInt32) :
    ovflSum last (ovfls ++ ovfls') =
      ovflSum last ovfls + ovflSum (ovfls.getLastD last) ovfls' := by
  induction ovfls generalizing last with
  | nil => simp [ovflSum]
  | cons ovfl ovfls ih =>
    rw [List.cons_append, ovflSum, ovflSum, ih, List.getLastD_cons, Nat.add_assoc]

/-! ### A round -/

variable {registry : Registry} {port : Port}

/-- What some datagrams change: each is counted once, those of a provider become packets, and their
addresses are seen. -/
structure Round.Gains (registry : Registry) (port : Port) (msgs : List Datagram) (st st' : Round) :
    Prop where
  /-- The datagrams that were cut. -/
  truncated : st'.stats.truncated = st.stats.truncated + msgs.countP Datagram.truncated
  /-- The datagrams without a stamp. -/
  noTimestamp : st'.stats.noTimestamp = st.stats.noTimestamp +
    msgs.countP fun msg => msg.readable && msg.tsNs.isNone
  /-- The datagrams with one. -/
  received : st'.stats.received = st.stats.received + msgs.countP Datagram.stamped
  /-- Of these, the ones that become no packet. -/
  unmatched : st'.stats.unmatched + (msgs.filterMap (Datagram.packet registry port)).length =
    st.stats.unmatched + msgs.countP Datagram.stamped
  /-- Full channels. -/
  channelFull : st'.stats.channelFull = st.stats.channelFull
  /-- The kernel's drops. -/
  kernelDropped : st'.stats.kernelDropped = st.stats.kernelDropped +
    ovflSum st.receiver.lastOvfl (msgs.filterMap Datagram.rxqOvfl)
  /-- The kernel's last count. -/
  lastOvfl : st'.receiver.lastOvfl =
    (msgs.filterMap Datagram.rxqOvfl).getLastD st.receiver.lastOvfl
  /-- The batch. -/
  batch : st'.batch = st.batch ++ msgs.filterMap (Datagram.packet registry port)
  /-- The addresses seen. -/
  observes : ∀ sender, st'.netmon.Observes sender ↔
    st.netmon.Observes sender ∨ sender ∈ msgs.filterMap (Datagram.sender registry port)
  /-- The addresses reported are seen. -/
  reported : ∀ sender ∈ st'.receiver.reportedIps, st'.netmon.Observes sender

theorem Round.Gains.trans {msgs msgs' : List Datagram} {st st' st'' : Round}
    (h : Round.Gains registry port msgs st st') (h' : Round.Gains registry port msgs' st' st'') :
    Round.Gains registry port (msgs ++ msgs') st st'' where
  truncated := by rw [h'.truncated, h.truncated, List.countP_append, Nat.add_assoc]
  noTimestamp := by rw [h'.noTimestamp, h.noTimestamp, List.countP_append, Nat.add_assoc]
  received := by rw [h'.received, h.received, List.countP_append, Nat.add_assoc]
  unmatched := by
    have h1 := h.unmatched
    have h2 := h'.unmatched
    rw [List.filterMap_append, List.length_append, List.countP_append]
    omega
  channelFull := h'.channelFull.trans h.channelFull
  kernelDropped := by
    rw [h'.kernelDropped, h.kernelDropped, h.lastOvfl, List.filterMap_append, ovflSum_append,
      Nat.add_assoc]
  lastOvfl := by
    rw [h'.lastOvfl, h.lastOvfl, List.filterMap_append]
    generalize msgs'.filterMap Datagram.rxqOvfl = ovfls
    rcases List.eq_nil_or_concat' ovfls with rfl | ⟨init, last, rfl⟩
    · simp
    · rw [← List.append_assoc, List.getLastD_concat, List.getLastD_concat]
  batch := by rw [h'.batch, h.batch, List.filterMap_append, List.append_assoc]
  observes sender := by
    rw [h'.observes, h.observes, List.filterMap_append, List.mem_append, or_assoc]
  reported := h'.reported

/-- The kernel's count is accounted for whatever becomes of the datagram. -/
lemma Round.countDrops_eq (st : Round) (rxqOvfl : Option UInt32) :
    st.countDrops rxqOvfl =
      { st with
        stats :=
          { st.stats with
            kernelDropped := st.stats.kernelDropped +
              ovflSum st.receiver.lastOvfl rxqOvfl.toList }
        receiver :=
          { st.receiver with lastOvfl := rxqOvfl.toList.getLastD st.receiver.lastOvfl } } := by
  cases rxqOvfl with
  | none => rfl
  | some ovfl =>
    unfold Round.countDrops
    dsimp only
    split_ifs with hdelta
    · rfl
    · have hzero : (ovfl - st.receiver.lastOvfl).toNat = 0 := by
        rw [gt_iff_lt, UInt32.lt_iff_toNat_lt, UInt32.toNat_zero] at hdelta
        omega
      have hsame : ovfl = st.receiver.lastOvfl := by
        have := ovfl.toNat_lt
        have := st.receiver.lastOvfl.toNat_lt
        rw [UInt32.toNat_sub] at hzero
        exact UInt32.toNat_inj.mp (by omega)
      rw [Option.toList_some, ovflSum, ovflSum, hzero, List.getLastD_cons, List.getLastD_nil,
        hsame]
      rfl

lemma filterMap_rxqOvfl_singleton (msg : Datagram) :
    [msg].filterMap Datagram.rxqOvfl = msg.rxqOvfl.toList := by
  cases h : msg.rxqOvfl <;> simp [h]

/-- A datagram that becomes no packet is counted. -/
lemma Round.gains_of_unpacked {msg : Datagram} {st : Round}
    (hreported : ∀ sender ∈ st.receiver.reportedIps, st.netmon.Observes sender) {stats : RxStats}
    (htruncated : stats.truncated = st.stats.truncated + msg.truncated.toNat)
    (hnoTimestamp : stats.noTimestamp =
      st.stats.noTimestamp + (msg.readable && msg.tsNs.isNone).toNat)
    (hreceived : stats.received = st.stats.received + msg.stamped.toNat)
    (hunmatched : stats.unmatched = st.stats.unmatched + msg.stamped.toNat)
    (hchannelFull : stats.channelFull = st.stats.channelFull)
    (hkernelDropped : stats.kernelDropped = st.stats.kernelDropped +
      ovflSum st.receiver.lastOvfl msg.rxqOvfl.toList)
    (hpacket : msg.packet registry port = none) (hsender : msg.sender registry port = none) :
    Round.Gains registry port [msg] st
      { st with
        stats := stats
        receiver :=
          { st.receiver with
            lastOvfl := msg.rxqOvfl.toList.getLastD st.receiver.lastOvfl } } where
  truncated := by
    rw [htruncated, List.countP_singleton]
    cases msg.truncated <;> rfl
  noTimestamp := by
    rw [hnoTimestamp, List.countP_singleton]
    cases msg.readable && msg.tsNs.isNone <;> rfl
  received := by
    rw [hreceived, List.countP_singleton]
    cases msg.stamped <;> rfl
  unmatched := by
    rw [hunmatched, List.countP_singleton, List.filterMap_cons_none hpacket]
    cases msg.stamped <;> rfl
  channelFull := hchannelFull
  kernelDropped := by rw [hkernelDropped, filterMap_rxqOvfl_singleton]
  lastOvfl := by rw [filterMap_rxqOvfl_singleton]
  batch := by rw [List.filterMap_cons_none hpacket, List.filterMap_nil, List.append_nil]
  observes sender := by
    rw [List.filterMap_cons_none hsender, List.filterMap_nil]
    simp
  reported := hreported

/-- A datagram of a provider becomes a packet, and its address is seen. -/
lemma Round.gains_of_packed {msg : Datagram} {st : Round}
    (hreported : ∀ sender ∈ st.receiver.reportedIps, st.netmon.Observes sender)
    {provider : ProviderId} {rxUnixNs : ℤ} (hreadable : msg.readable = true)
    (hts : msg.tsNs = some rxUnixNs) (hresolve : registry.resolve msg.srcIp port = some provider) :
    Round.Gains registry port [msg] st
      ((st.countDrops msg.rxqOvfl).accept registry port msg rxUnixNs) := by
  have hstamped : msg.stamped = true := by simp [Datagram.stamped, hreadable, hts]
  have htruncated : msg.truncated = false := by
    unfold Datagram.readable at hreadable
    cases h : msg.truncated
    · rfl
    · simp [h] at hreadable
  have hpacket : msg.packet registry port = some ⟨provider.toNat, rxUnixNs, msg.data⟩ := by
    unfold Datagram.packet
    rw [if_pos hreadable, hts, Option.bind_some, hresolve]
    rfl
  have hsender : msg.sender registry port = some (provider, msg.srcIp) := by
    unfold Datagram.sender
    rw [if_pos hstamped, hresolve]
    rfl
  have hovfl := filterMap_rxqOvfl_singleton msg
  have hsenders : [msg].filterMap (Datagram.sender registry port) = [(provider, msg.srcIp)] := by
    rw [List.filterMap_cons_some hsender, List.filterMap_nil]
  have hpackets : [msg].filterMap (Datagram.packet registry port) =
      [⟨provider.toNat, rxUnixNs, msg.data⟩] := by
    rw [List.filterMap_cons_some hpacket, List.filterMap_nil]
  rw [Round.countDrops_eq]
  unfold Round.accept
  rw [hresolve]
  dsimp only
  -- the sender is noted once for each thread, which does not matter as it is noted already
  split_ifs with hknown
  · exact
      { truncated := by simp [htruncated]
        noTimestamp := by simp [hts]
        received := by simp [hstamped]
        unmatched := by simp [hstamped, hpackets]
        channelFull := rfl
        kernelDropped := by rw [hovfl]
        lastOvfl := by rw [hovfl]
        batch := by rw [hpackets]
        observes := fun sender => by
          rw [hsenders, List.mem_singleton]
          refine ⟨Or.inl, fun h => h.elim id ?_⟩
          rintro rfl
          exact hreported _ hknown
        reported := hreported }
  · exact
      { truncated := by simp [htruncated]
        noTimestamp := by simp [hts]
        received := by simp [hstamped]
        unmatched := by simp [hstamped, hpackets]
        channelFull := rfl
        kernelDropped := by rw [hovfl]
        lastOvfl := by rw [hovfl]
        batch := by rw [hpackets]
        observes := fun sender => by
          rw [hsenders, List.mem_singleton]
          exact (st.netmon.observes_observe (provider, msg.srcIp) sender).trans or_comm
        reported := fun sender hsender => by
          refine (st.netmon.observes_observe (provider, msg.srcIp) sender).mpr ?_
          exact (Finset.mem_insert.mp hsender).imp id (hreported sender) }

/-- **Step.**  A datagram is counted once. -/
theorem Round.gains_message (msg : Datagram) {st : Round}
    (hreported : ∀ sender ∈ st.receiver.reportedIps, st.netmon.Observes sender) :
    Round.Gains registry port [msg] st (st.message registry port msg) := by
  unfold Round.message
  dsimp only
  split_ifs with htruncated hempty
  · have hreadable : msg.readable = false := by simp [Datagram.readable, htruncated]
    rw [Round.countDrops_eq]
    refine Round.gains_of_unpacked hreported ?_ ?_ ?_ ?_ rfl rfl ?_ ?_ <;>
      simp [htruncated, Datagram.stamped, Datagram.packet, Datagram.sender, hreadable]
  · have hreadable : msg.readable = false := by simp [Datagram.readable, hempty]
    rw [Round.countDrops_eq]
    refine Round.gains_of_unpacked hreported ?_ ?_ ?_ ?_ rfl rfl ?_ ?_ <;>
      simp [htruncated, Datagram.stamped, Datagram.packet, Datagram.sender, hreadable]
  · have hreadable : msg.readable = true := by simp [Datagram.readable, htruncated, hempty]
    cases hts : msg.tsNs with
    | none =>
      rw [Round.countDrops_eq]
      refine Round.gains_of_unpacked hreported ?_ ?_ ?_ ?_ rfl rfl ?_ ?_ <;>
        simp [htruncated, Datagram.stamped, Datagram.packet, Datagram.sender, hreadable, hts]
    | some rxUnixNs =>
      dsimp only
      cases hresolve : registry.resolve msg.srcIp port with
      | none =>
        rw [Round.countDrops_eq]
        unfold Round.accept
        rw [hresolve]
        refine Round.gains_of_unpacked hreported ?_ ?_ ?_ ?_ rfl rfl ?_ ?_ <;>
          simp [htruncated, Datagram.stamped, Datagram.packet, Datagram.sender, hreadable, hts,
            hresolve]
      | some provider => exact Round.gains_of_packed hreported hreadable hts hresolve

/-- A batch is counted datagram by datagram. -/
theorem Round.gains_foldl (msgs : List Datagram) {st : Round}
    (hreported : ∀ sender ∈ st.receiver.reportedIps, st.netmon.Observes sender) :
    Round.Gains registry port msgs st (msgs.foldl (Round.message registry port) st) := by
  induction msgs generalizing st with
  | nil =>
    exact
      { truncated := rfl
        noTimestamp := rfl
        received := rfl
        unmatched := rfl
        channelFull := rfl
        kernelDropped := rfl
        lastOvfl := rfl
        batch := (List.append_nil _).symm
        observes := fun sender => by simp
        reported := hreported }
  | cons msg msgs ih =>
    have hmsg : Round.Gains registry port [msg] st (Round.message registry port st msg) :=
      Round.gains_message msg hreported
    exact hmsg.trans (ih hmsg.reported)

end ShredTools.Audit
