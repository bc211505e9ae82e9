import ShredTools.Postpack.Sessions
import ShredTools.Postpack.Streams

/-!
# The mocks of the providers

A Gravity relay streams every batch as a notification of pending transactions and as a bundle with
its signatures zeroed, a BAM engine as one update for each transaction, and a Rakurai validator
pushes it to two services of the relay.

`carried_once` says which transactions of the feed a stream carries: those of the batches that it
received, in order, each at most once, or at most twice if the feed repeats its batches.  It holds
of any mock whose messages carry the transactions of their batch (`View`).  All of them do: the
notifications, the updates and the pushes as they are, and the bundles without their signatures
(`mempool_carried_once`, `bam_carried_once`, `rakurai_carried_once`, `bundles_carried_once`).
-/

namespace ShredTools.Postpack.Feed

open Gravity (Status StatusCode)
open TipTool (TipTools Instruction)

/-! ### The messages -/

/-- `Packet`, with the size of its `Meta`. -/
structure Packet where
  /-- The bytes. -/
  data : List UInt8
  /-- Their number. -/
  size : ℕ

/-- `packet` -/
def packet (data : List UInt8) : Packet := ⟨data, data.length⟩

/-- The messages of a Gravity relay. -/
inductive GravityMessage
  /-- `PendingTxNotification` -/
  | pendingTx (transactions : List Packet) (identityAddress : List UInt8)
  /-- `JitoBundle`, without its time. -/
  | bundle (packets : List Packet) (identityAddress bundleId : List UInt8)

/-- `PreconfUpdate` -/
structure PreconfUpdate where
  /-- The slot. -/
  slot : UInt64
  /-- The number of the batch. -/
  sequenceId : UInt32
  /-- The place in it. -/
  bundlePosition : UInt32
  /-- Whether it is reverted on an error. -/
  isRevertOnError : Bool
  /-- The transaction. -/
  transaction : List UInt8

/-- What a Rakurai validator pushes, without times. -/
inductive RakuraiMessage
  /-- `RelayUpdate`, to the first service. -/
  | bundles (uuid : String) (packets : List Packet)
  /-- `PacketBatchUpdate`, to the second. -/
  | batches (packets : List Packet)

/-- The end of a stream that lags. -/
def subscriberLagged : Status := ⟨.resourceExhausted, "subscriber lagged"⟩

/-- `subscribe_mempool` -/
def mempool (identity : List UInt8) : Mock (Except Status GravityMessage) where
  messages batch := [.ok (.pendingTx (batch.transactions.map packet) identity)]
  heartbeat := some (.ok (.pendingTx [] []))
  lagged := some (.error subscriberLagged)

/-- `subscribe_bundles` -/
def bundles (identity : List UInt8) (seed : UInt64) : Mock (Except Status GravityMessage) where
  messages batch :=
    [.ok (.bundle (batch.transactions.map fun transaction => packet (redactSignatures transaction))
      identity (tag bundleDomain seed batch.index).toList)]
  heartbeat := some (.ok (.bundle [] [] []))
  lagged := some (.error subscriberLagged)

/-- `subscribe` of a BAM engine. -/
def bam (slot : UInt64) : Mock (Except Status PreconfUpdate) where
  messages batch := batch.transactions.mapIdx fun position transaction =>
    .ok
      { slot := slot
        sequenceId := batch.index.toUInt32
        bundlePosition := UInt32.ofNat position
        isRevertOnError := false
        transaction := transaction }
  heartbeat := none
  lagged := some (.error subscriberLagged)

/-- `send_batch` of a Rakurai validator. -/
def rakurai : Mock RakuraiMessage where
  messages batch :=
    [.bundles ("mock-" ++ toString batch.index) (batch.transactions.map packet),
      .batches (batch.transactions.map packet)]
  heartbeat := none
  lagged := none

/-! ### What the messages carry -/

/-- A way to look at the messages of a mock: the transactions that they carry, as they are shown. -/
structure View {Message : Type*} (mock : Mock Message) (shown : List UInt8 → List UInt8) where
  /-- The transactions of a message. -/
  carried : Message → List (List UInt8)
  /-- The messages of a batch carry its transactions. -/
  carries : ∀ batch, (mock.messages batch).flatMap carried = batch.transactions.map shown

/-- The packets of a Gravity message. -/
def GravityMessage.packets : GravityMessage → List Packet
  | .pendingTx packets _ => packets
  | .bundle packets _ _ => packets

/-- The transactions that a Gravity relay sends. -/
def GravityMessage.carried (message : Except Status GravityMessage) : List (List UInt8) :=
  message.toOption.elim [] fun message => message.packets.map Packet.data

/-- The transactions that a BAM engine sends. -/
def PreconfUpdate.carried (message : Except Status PreconfUpdate) : List (List UInt8) :=
  message.toOption.elim [] fun update => [update.transaction]

/-- The transactions that a Rakurai validator pushes to the first service. -/
def RakuraiMessage.relayed : RakuraiMessage → List (List UInt8)
  | .bundles _ packets => packets.map Packet.data
  | .batches _ => []

/-- The transactions that it pushes to the second service. -/
def RakuraiMessage.forwarded : RakuraiMessage → List (List UInt8)
  | .bundles _ _ => []
  | .batches packets => packets.map Packet.data

/-- The notifications of a Gravity relay. -/
def mempoolView (identity : List UInt8) : View (mempool identity) id where
  carried := GravityMessage.carried
  carries batch := by
    change [batch.transactions.map packet].flatMap (List.map Packet.data) = _
    rw [List.flatMap_singleton, List.map_map]
    rfl

/-- The bundles of a Gravity relay. -/
def bundlesView (identity : List UInt8) (seed : UInt64) :
    View (bundles identity seed) redactSignatures where
  carried := GravityMessage.carried
  carries batch := by
    change [batch.transactions.map fun transaction => packet (redactSignatures transaction)].flatMap
      (List.map Packet.data) = _
    rw [List.flatMap_singleton, List.map_map]
    rfl

/-- The updates of a BAM engine. -/
def bamView (slot : UInt64) : View (bam slot) id where
  carried := PreconfUpdate.carried
  carries batch := by
    change (batch.transactions.mapIdx _).flatMap _ = _
    rw [List.mapIdx_eq_zipIdx_map, List.flatMap_map, List.map_id]
    exact List.map_eq_flatMap.symm.trans (List.zipIdx_map_fst 0 _)

/-- What the first service of the relay gets of a Rakurai validator. -/
def relayView : View rakurai id where
  carried := RakuraiMessage.relayed
  carries batch := by
    change (batch.transactions.map packet).map Packet.data ++ ([] ++ []) = _
    rw [List.append_nil, List.append_nil, List.map_map]
    rfl

/-- What the second service gets. -/
def blockEngineView : View rakurai id where
  carried := RakuraiMessage.forwarded
  carries batch := by
    change [] ++ ((batch.transactions.map packet).map Packet.data ++ []) = _
    rw [List.nil_append, List.append_nil, List.map_map]
    rfl

/-! ### What the streams carry -/

section Carried

variable {Keypair : Type*} {tools : TipTools Keypair (Vector UInt8 32)}
  {newFromArray : Vector UInt8 32 → Keypair} {args : FeedArgs}

/-- What the Solana library writes. -/
structure WritesWire (tools : TipTools Keypair (Vector UInt8 32)) : Prop where
  /-- A signature and a message, which has the block hash in it. -/
  wire : ∃ message : List Instruction → Keypair → Vector UInt8 32 → List UInt8,
    (∀ instructions payer hash, ∃ signature,
      tools.newSignedWithPayer instructions payer hash =
        wire [signature] (message instructions payer hash)) ∧
    ∀ instructions instructions' payer payer' hash hash',
      message instructions payer hash = message instructions' payer' hash' → hash = hash'

/-- Two transactions show the same without their signatures only if their messages are the same. -/
lemma WritesWire.tellsHash (h : WritesWire tools) : TellsHash tools id ∧
    TellsHash tools redactSignatures := by
  obtain ⟨message, hwire, hhash⟩ := h.wire
  have hredacted : TellsHash tools redactSignatures := by
    intro instructions instructions' payer payer' hash hash' heq
    obtain ⟨signature, hone⟩ := hwire instructions payer hash
    obtain ⟨signature', htwo⟩ := hwire instructions' payer' hash'
    have hfew : ∀ signature : Vector UInt8 64, [signature].length < 2 ^ 16 := fun _ => by
      rw [List.length_singleton]
      decide
    rw [hone, htwo, redactSignatures_wire_inj (hfew _) (hfew _)] at heq
    exact hhash _ _ _ _ _ _ heq.2
  refine ⟨fun instructions instructions' payer payer' hash hash' heq => ?_, hredacted⟩
  exact hredacted _ _ _ _ _ _ (congrArg redactSignatures heq)

/-- All that a stream carries or is to carry, if `carried` says what its messages do. -/
def Stream.carries {Message : Type*} (s : Stream Message)
    (carried : Message → List (List UInt8)) : List (List UInt8) :=
  (s.items.filterMap Item.ofBatch?).flatMap fun item => carried item.2

variable {Message : Type*} {shown : List UInt8 → List UInt8} {events : List (Event Message)}
  {ticks i : ℕ} {s : Stream Message} {mock : Mock Message}

/-- A stream carries what its batches show. -/
theorem Stream.Exact.carries (h : s.Exact (args.feed tools newFromArray) ticks)
    (hmock : s.mock = mock) (view : View mock shown) :
    s.carries view.carried = s.received.flatMap (args.shows tools newFromArray shown) := by
  subst hmock
  unfold Stream.carries
  rw [h.batches, List.flatMap_assoc]
  refine List.flatMap_congr fun tick _ => ?_
  rw [List.flatMap_map]
  exact view.carries _

/-- What is carried is exactly the transactions of the batches received, in order, and as `shown`
shows them.  Each is carried at most once, or twice if the feed repeats its batches, and so often if
all batches of its range were received. -/
def FeedArgs.CarriedOnce (tools : TipTools Keypair (Vector UInt8 32))
    (newFromArray : Vector UInt8 32 → Keypair) (args : FeedArgs) (ticks : ℕ)
    (shown : List UInt8 → List UInt8) (received : List ℕ) (carried : List (List UInt8)) : Prop :=
  carried = received.flatMap (args.shows tools newFromArray shown) ∧
    ∀ tick < ticks, ∀ n < args.batchSize.toNat,
      let times := carried.count (shown (args.transaction tools newFromArray (args.number tick n)))
      times ≤ (if args.repeats then 2 else 1) ∧
        ((∀ k, args.rangeOf k = args.rangeOf tick → k ∈ received) →
          times = if args.repeats then 2 else 1)

/-- **What a stream carries.**  If the feed does not run out of numbers, a stream carries exactly
the transactions of the batches that it received, in order, as they are or without their signatures.
Each of them is carried at most once, or twice if the feed repeats its batches, and so often if the
stream received all batches of its range. -/
theorem carried_once (hwire : WritesWire tools)
    (hshown : shown = id ∨ shown = redactSignatures)
    (hticks : (Server.after (args.feed tools newFromArray) events).ticks = ticks)
    (hfits : args.Fits ticks)
    (hs : (Server.after (args.feed tools newFromArray) events).streams[i]? = some s)
    (hmock : s.mock = mock) (view : View mock shown) :
    args.CarriedOnce tools newFromArray ticks shown s.received (s.carries view.carried) := by
  have hexact := Server.exact_after _ events hs
  rw [hticks] at hexact
  have htells : TellsHash tools shown := by
    rcases hshown with rfl | rfl
    · exact hwire.tellsHash.1
    · exact hwire.tellsHash.2
  refine ⟨hexact.carries hmock view, fun tick htick n hn => ?_⟩
  have hreceived : ∀ k ∈ s.received, k < ticks := by
    intro k hk
    have hrange := List.mem_range'_1.mp (hexact.received.subset hk)
    have hle := hexact.next_le
    omega
  dsimp only
  rw [hexact.carries hmock view, count_transactions htells hfits htick hn hreceived]
  exact FeedArgs.countP_rangeOf (hexact.received.nodup List.nodup_range') tick

end Carried

/-! ### What each mock sends -/

section Mocks

variable {Keypair : Type*} {tools : TipTools Keypair (Vector UInt8 32)}
  {newFromArray : Vector UInt8 32 → Keypair} {args : FeedArgs} {ticks i : ℕ}

/-- **Notifications** carry the transactions as they are. -/
theorem mempool_carried_once (hwire : WritesWire tools)
    {events : List (Event (Except Status GravityMessage))}
    (hticks : (Server.after (args.feed tools newFromArray) events).ticks = ticks)
    (hfits : args.Fits ticks) {s : Stream (Except Status GravityMessage)}
    (hs : (Server.after (args.feed tools newFromArray) events).streams[i]? = some s)
    {identity : List UInt8} (hmock : s.mock = mempool identity) :
    args.CarriedOnce tools newFromArray ticks id s.received
      (s.carries GravityMessage.carried) :=
  carried_once hwire (.inl rfl) hticks hfits hs hmock (mempoolView identity)

/-- **Bundles** carry them without their signatures. -/
theorem bundles_carried_once (hwire : WritesWire tools)
    {events : List (Event (Except Status GravityMessage))}
    (hticks : (Server.after (args.feed tools newFromArray) events).ticks = ticks)
    (hfits : args.Fits ticks) {s : Stream (Except Status GravityMessage)}
    (hs : (Server.after (args.feed tools newFromArray) events).streams[i]? = some s)
    {identity : List UInt8} {seed : UInt64} (hmock : s.mock = bundles identity seed) :
    args.CarriedOnce tools newFromArray ticks redactSignatures s.received
      (s.carries GravityMessage.carried) :=
  carried_once hwire (.inr rfl) hticks hfits hs hmock (bundlesView identity seed)

/-- **A BAM engine** sends an update for each of them. -/
theorem bam_carried_once (hwire : WritesWire tools)
    {events : List (Event (Except Status PreconfUpdate))}
    (hticks : (Server.after (args.feed tools newFromArray) events).ticks = ticks)
    (hfits : args.Fits ticks) {s : Stream (Except Status PreconfUpdate)}
    (hs : (Server.after (args.feed tools newFromArray) events).streams[i]? = some s)
    {slot : UInt64} (hmock : s.mock = bam slot) :
    args.CarriedOnce tools newFromArray ticks id s.received
      (s.carries PreconfUpdate.carried) :=
  carried_once hwire (.inl rfl) hticks hfits hs hmock (bamView slot)

/-- **A Rakurai validator** pushes all of them to both services. -/
theorem rakurai_carried_once (hwire : WritesWire tools) {events : List (Event RakuraiMessage)}
    (hticks : (Server.after (args.feed tools newFromArray) events).ticks = ticks)
    (hfits : args.Fits ticks) {s : Stream RakuraiMessage}
    (hs : (Server.after (args.feed tools newFromArray) events).streams[i]? = some s)
    (hmock : s.mock = rakurai) :
    args.CarriedOnce tools newFromArray ticks id s.received (s.carries RakuraiMessage.relayed) ∧
      args.CarriedOnce tools newFromArray ticks id s.received
        (s.carries RakuraiMessage.forwarded) :=
  ⟨carried_once hwire (.inl rfl) hticks hfits hs hmock relayView,
    carried_once hwire (.inl rfl) hticks hfits hs hmock blockEngineView⟩

end Mocks

/-! ### Two batches of two transfers -/

/-- The key of the payer with the default seed. -/
def defaultPayer : Audit.Pubkey where
  toArray := List.toArray
    [44, 161, 80, 184, 149, 9, 104, 170, 193, 141, 10, 32, 14, 186, 200, 184, 23, 114, 253, 213,
      114, 211, 139, 237, 69, 207, 118, 225, 59, 249, 24, 128]
  size_toArray := rfl

/-- The signature of the first transfer. -/
def firstSignature : Vector UInt8 64 where
  toArray := List.toArray
    [149, 11, 45, 236, 17, 181, 152, 248, 5, 148, 143, 67, 225, 18, 123, 58, 163, 182, 74, 252,
      114, 60, 74, 10, 202, 145, 202, 167, 82, 105, 119, 238, 41, 121, 172, 224, 208, 180, 194,
      104, 176, 43, 176, 40, 156, 0, 97, 36, 203, 125, 27, 142, 112, 95, 175, 130, 20, 36, 150,
      178, 35, 56, 93, 12]
  size_toArray := rfl

/-- The signature of the second transfer. -/
def secondSignature : Vector UInt8 64 where
  toArray := List.toArray
    [78, 231, 18, 111, 52, 8, 163, 215, 21, 97, 170, 156, 201, 101, 39, 108, 105, 138, 236, 48, 6,
      187, 204, 148, 59, 134, 28, 254, 158, 82, 96, 23, 25, 127, 236, 62, 119, 6, 247, 154, 58, 213,
      79, 134, 105, 98, 246, 171, 56, 55, 82, 40, 204, 187, 67, 133, 69, 191, 18, 202, 188, 171,
      120, 3]
  size_toArray := rfl

/-- The legacy message of a transfer, which says where it goes, and when. -/
def transferMessage (instructions : List Instruction) (hash : Vector UInt8 32) : List UInt8 :=
  let accounts := instructions.flatMap Instruction.accounts
  let recipient := (accounts.map TipTool.AccountMeta.pubkey).getD 1 (Vector.replicate 32 0)
  [1, 0, 1, 3] ++ defaultPayer.toList ++ recipient.toList ++ systemProgram.toList ++
    (hash.toList ++ ([1, 2, 2, 0, 1, 12] ++ instructions.flatMap Instruction.data))

/-- What the libraries do with the transfers. -/
def transferTools : TipTools Unit (Vector UInt8 32) where
  pubkey _ := defaultPayer
  setComputeUnitLimit units := ⟨TipTool.computeBudgetProgram, [], 2 :: toLeBytes 4 units⟩
  setComputeUnitPrice price := ⟨TipTool.computeBudgetProgram, [], 3 :: toLeBytes 8 price⟩
  transfer source target lamports :=
    ⟨systemProgram, [⟨source, true, true⟩, ⟨target, false, true⟩],
      systemTransfer ++ toLeBytes 8 lamports⟩
  newSignedWithPayer instructions _ hash :=
    wire [if hash = tag blockhashDomain 0 0 then firstSignature else secondSignature]
      (transferMessage instructions hash)
  encodeBase64 _ := ""
  parsePubkey _ := none

/-- One of the two transfers. -/
def pairTransfer (signature : Vector UInt8 64) (index : UInt64) : List UInt8 :=
  wire [signature] (transferMessage
    [transferTools.transfer defaultPayer (tag recipientDomain 0 index) 1]
    (tag blockhashDomain 0 index))

/-- Batches of two transactions, each sent twice. -/
def pairArgs : FeedArgs := ⟨2, true, 0⟩

/-- Someone subscribes to the notifications and reads the first two batches. -/
def pairRead : List (Event (Except Status GravityMessage)) :=
  [.subscribe (mempool defaultPayer.toList), .tick, .tick, .act 0 .receive, .act 0 .send,
    .act 0 .receive, .act 0 .send]

/-- The notifications carry both transactions twice. -/
theorem carried_once_repeat :
    ∃ s, (Server.after (pairArgs.feed transferTools fun _ => ()) pairRead).streams[0]? = some s ∧
      s.carries GravityMessage.carried =
        [pairTransfer firstSignature 0, pairTransfer secondSignature 1,
          pairTransfer firstSignature 0, pairTransfer secondSignature 1] ∧
      (s.carries GravityMessage.carried).count (pairTransfer secondSignature 1) = 2 := by
  have hwire : WritesWire transferTools := by
    refine ⟨fun instructions _ hash => transferMessage instructions hash,
      fun _ _ _ => ⟨_, rfl⟩, fun _ _ _ _ hash hash' heq => ?_⟩
    unfold transferMessage at heq
    obtain ⟨-, htail⟩ := List.append_inj heq (by simp)
    exact Vector.toList_inj.mp (List.append_inj htail (by simp)).1
  have hfits : pairArgs.Fits 2 := ⟨by decide, by decide⟩
  refine ⟨_, rfl, ?_⟩
  obtain ⟨hcarried, htimes⟩ := @carried_once _ _ _ _ _ _ pairRead _ 0 _ _ hwire (.inl rfl) rfl hfits
    rfl rfl (mempoolView defaultPayer.toList)
  refine ⟨hcarried.trans (by decide +kernel), ?_⟩
  refine (htimes 0 (by decide) 1 (by decide)).2 fun k hk => ?_
  -- both batches of the range were received
  have hlt : k < 2 := Nat.lt_of_div_eq_zero (by decide) hk
  have hmem : ∀ k < 2, k ∈ [0, 1] := by decide
  exact hmem k hlt

end ShredTools.Postpack.Feed
