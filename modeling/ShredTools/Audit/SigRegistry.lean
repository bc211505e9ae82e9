import Mathlib.Data.List.FinRange
import ShredTools.Audit.FilterWindow
import ShredTools.Audit.SlotSigIndex
import ShredTools.Audit.VerifiedShred
import ShredTools.Library.KeyedTable
import ShredTools.Library.Run

/-!
# The registry of delivered signatures

`SigRegistry` holds a row for every signature in flight, with the first delivery of each source and
the number of its repeats.  `recordFirst` takes a delivery.  `finalize` retires the rows whose slot
fell behind the tip, or all of them: a retired row is written out for the transaction table and
folded into the race counters, where the sources that delivered it compete for the first place.

`finalize` walks over a hash map, whose order is arbitrary, so every call of it comes with an order.
Histograms belong to another crate; a histogram stands here for the values recorded in it.  Stamps
are 64-bit numbers whose differences wrap.
-/

namespace ShredTools.Audit

/-- `TxVersion` -/
inductive TxVersion where
  | vote
  | legacy
  | v0
  | v1
  deriving DecidableEq

/-- `TxVersionCounts` -/
structure TxVersionCounts where
  /-- Simple votes. -/
  vote : ℕ
  /-- Other legacy transactions. -/
  legacy : ℕ
  /-- Transactions of version 0. -/
  v0 : ℕ
  /-- Transactions of version 1. -/
  v1 : ℕ
  deriving DecidableEq

namespace TxVersionCounts

/-- `TxVersionCounts::default` -/
def default : TxVersionCounts := ⟨0, 0, 0, 0⟩

/-- `TxVersionCounts::add` -/
def add (counts : TxVersionCounts) : TxVersion → TxVersionCounts
  | .vote => { counts with vote := counts.vote + 1 }
  | .legacy => { counts with legacy := counts.legacy + 1 }
  | .v0 => { counts with v0 := counts.v0 + 1 }
  | .v1 => { counts with v1 := counts.v1 + 1 }

end TxVersionCounts

/-- `TxnMeta` -/
structure TxnMeta where
  /-- The version of the transaction, if known. -/
  version : Option TxVersion
  /-- The stamp of the server. -/
  serverCreatedAtNs : Option ℤ
  /-- Whether it is a vote, if known. -/
  isVote : Option Bool
  /-- The size of the message. -/
  messageSize : Option ℕ
  /-- The number of the connection that delivered it. -/
  connectionId : Option ℕ
  deriving DecidableEq

/-- `TxnMeta::default` -/
def TxnMeta.default : TxnMeta := ⟨none, none, none, none, none⟩

/-- `TxnRow`: the deliveries of a transaction by one source. -/
structure TxnRow where
  /-- The signature. -/
  sig : Signature
  /-- The slot, 0 if unknown. -/
  slot : ℕ
  /-- The source, as a 16-bit number. -/
  sid : ℕ
  /-- The stamp of the first delivery. -/
  firstRxUnixNs : ℤ
  /-- How many deliveries came after it. -/
  duplicateCount : ℕ
  /-- What the first delivery said of the transaction. -/
  txnMeta : TxnMeta
  deriving DecidableEq

/-- `EVICT_MARGIN_SLOTS` -/
def evictMarginSlots : ℕ := 64

/-- `WINDOW_RESERVOIR` -/
def windowReservoir : ℕ := 50000

/-- The value of an `i64` sum or difference. -/
def i64Wrap (x : ℤ) : ℤ := x.bmod u64Size

/-- The order in which a hash map yields its keys, which is any order. -/
structure HashOrder where
  /-- The keys, rearranged. -/
  arrange : List Signature → List Signature
  /-- Every key is yielded once. -/
  perm : ∀ keys, (arrange keys).Perm keys

/-- The order of the table that stands for the map. -/
def HashOrder.asStored : HashOrder := ⟨id, fun _ => List.Perm.refl _⟩

/-! ### Rows -/

/-- `Seen`: the deliveries of a signature by one source. -/
structure Seen where
  /-- The stamp of the first one. -/
  ns : ℤ
  /-- The number of repeats, as a 32-bit number. -/
  dups : ℕ
  /-- What the first one said of the transaction. -/
  txnMeta : TxnMeta
  deriving DecidableEq

/-- `SigRow`, of `n` sources. -/
structure SigRow (n : ℕ) where
  /-- The slot of the transaction, 0 if unknown. -/
  slot : ℕ
  /-- Whether the version of the transaction is counted. -/
  versionCounted : Bool
  /-- The deliveries by each source. -/
  ts : Fin n → Option Seen

/-- The arguments of `record_first`. -/
structure Delivery (n : ℕ) where
  /-- The source. -/
  sid : Fin n
  /-- The signature. -/
  sig : Signature
  /-- The stamp. -/
  ns : ℤ
  /-- The slot, 0 if unknown. -/
  slot : ℕ
  /-- What the source said of the transaction. -/
  txnMeta : TxnMeta
  deriving DecidableEq

namespace SigRow

variable {n : ℕ}

/-- The row that `record_first` inserts for a new signature. -/
def new (slot : ℕ) : SigRow n := ⟨slot, false, fun _ => none⟩

/-- The deliveries of a source after one more. -/
def seenAfter (ns : ℤ) (txnMeta : TxnMeta) : Option Seen → Seen
  | some seen => { seen with dups := (seen.dups + 1) % u32Size }
  | none => ⟨ns, 0, txnMeta⟩

/-- What `record_first` does to the row of the signature. -/
def deliver (row : SigRow n) (d : Delivery n) : SigRow n where
  slot := if row.slot = 0 then d.slot else row.slot
  versionCounted := row.versionCounted || d.txnMeta.version.isSome
  ts := Function.update row.ts d.sid (some (seenAfter d.ns d.txnMeta (row.ts d.sid)))

/-- The sources that delivered the signature. -/
def present (row : SigRow n) : List (Fin n × Seen) :=
  (List.finRange n).filterMap fun i => (row.ts i).map fun seen => (i, seen)

/-- The condition of `finalize` for a row to be retired. -/
def Retires (force : Bool) (floor : ℕ) (row : SigRow n) : Prop :=
  force = true ∨ (row.slot ≠ 0 ∧ row.slot < floor)

instance (force : Bool) (floor : ℕ) (row : SigRow n) : Decidable (row.Retires force floor) :=
  inferInstanceAs (Decidable (_ ∨ _))

/-- The row of the transaction table for one source. -/
def txnRow (sig : Signature) (row : SigRow n) (p : Fin n × Seen) : TxnRow where
  sig := sig
  slot := row.slot
  sid := p.1.val % u16Size
  firstRxUnixNs := p.2.ns
  duplicateCount := p.2.dups
  txnMeta := p.2.txnMeta

/-- The rows that `emit_rows` pushes. -/
def emitted (sig : Signature) (row : SigRow n) : List TxnRow := row.present.map (row.txnRow sig)

end SigRow

/-! ### The latency of a window -/

/-- `Reservoir` -/
structure Reservoir where
  /-- How many values are kept. -/
  cap : ℕ
  /-- How many were pushed. -/
  seen : ℕ
  /-- The values kept. -/
  values : List ℤ
  /-- The state of the random number generator. -/
  rng : UInt64
  /-- No more values are kept than there is room for. -/
  bounded : values.length ≤ cap

namespace Reservoir

/-- `Reservoir::new` -/
def new (cap : ℕ) : Reservoir := ⟨cap, 0, [], 0x9E3779B97F4A7C15, Nat.zero_le cap⟩

/-- The next state of the random number generator. -/
def nextRng (rng : UInt64) : UInt64 :=
  let rng := rng ^^^ (rng <<< 13)
  let rng := rng ^^^ (rng >>> 7)
  rng ^^^ (rng <<< 17)

/-- `Reservoir::push` -/
def push (r : Reservoir) (v : ℤ) : Reservoir :=
  if hroom : r.values.length < r.cap then
    { r with
      seen := r.seen + 1
      values := r.values ++ [v]
      bounded := by rwa [List.length_append, List.length_singleton] }
  else
    let rng := nextRng r.rng
    let j := rng.toNat % (r.seen + 1)
    { r with
      seen := r.seen + 1
      rng := rng
      values := if j < r.cap then r.values.set j v else r.values
      bounded := by
        split
        · rw [List.length_set]
          exact r.bounded
        · exact r.bounded }

end Reservoir

/-- `WindowLatency` -/
structure WindowLatency where
  /-- The contested signatures first delivered in the window. -/
  contested : ℕ
  /-- The races that the source won. -/
  wins : ℕ
  /-- How far behind the winner the source was, in microseconds. -/
  behindUs : List ℕ
  /-- How far behind the first shred source it was, in microseconds. -/
  vsShredUs : Reservoir

namespace WindowLatency

/-- `WindowLatency::new` -/
def new : WindowLatency := ⟨0, 0, [], Reservoir.new windowReservoir⟩

/-- What `fold` does to the latency of a window. -/
def add (w : WindowLatency) (isWin : Bool) (behindUs : ℕ) (vsShred : Option ℤ) :
    WindowLatency where
  contested := w.contested + 1
  wins := w.wins + isWin.toNat
  behindUs := w.behindUs ++ [behindUs]
  vsShredUs := vsShred.elim w.vsShredUs w.vsShredUs.push

end WindowLatency

/-! ### The registry -/

/-- `SigRegistry`, of `n` sources. -/
structure SigRegistry (n : ℕ) where
  /-- The names of the sources. -/
  names : Fin n → String
  /-- Their kinds. -/
  kinds : Fin n → SourceKind
  /-- The rows in flight, by signature. -/
  events : AList fun _ : Signature => SigRow n
  /-- The highest slot reported. -/
  highSlot : ℕ
  /-- The number of rows ever inserted. -/
  distinctTotal : ℕ
  /-- The versions of their transactions. -/
  txVersions : TxVersionCounts
  /-- The retired rows that two sources or more delivered. -/
  contestedTotal : ℕ
  /-- The rows that each source delivered. -/
  seen : Fin n → ℕ
  /-- The highest slot that each source reported. -/
  latestSlot : Fin n → ℕ
  /-- The contested rows that each source delivered. -/
  contested : Fin n → ℕ
  /-- The races that each source won. -/
  wins : Fin n → ℕ
  /-- How far behind the winner it was, summed over them. -/
  behindSumNs : Fin n → ℤ
  /-- The number of summands. -/
  behindN : Fin n → ℕ
  /-- How far behind it was each time, in microseconds. -/
  behindHistogram : Fin n → List ℕ
  /-- The index that the audit of on-chain signatures reads, if there is such an audit. -/
  onchain : Option (SlotSigIndex n)
  /-- Whether the blocks of that audit come without votes. -/
  onchainOmitsVotes : Bool
  /-- The rows of the transaction table not yet drained. -/
  rows : List TxnRow
  /-- Whether there is a transaction table. -/
  collectRows : Bool
  /-- Whether a source changes its filters from window to window. -/
  rotating : Fin n → Bool
  /-- The latencies of the windows of rotating sources. -/
  windowLatency : AList fun _ : WindowKey => WindowLatency
  /-- The floor of the last `finalize`. -/
  finalizedFloor : ℕ

namespace SigRegistry

variable {n : ℕ}

/-- `SigRegistry::new` -/
def new (names : Fin n → String) (kinds : Fin n → SourceKind) : SigRegistry n where
  names := names
  kinds := kinds
  events := ∅
  highSlot := 0
  distinctTotal := 0
  txVersions := TxVersionCounts.default
  contestedTotal := 0
  seen _ := 0
  latestSlot _ := 0
  contested _ := 0
  wins _ := 0
  behindSumNs _ := 0
  behindN _ := 0
  behindHistogram _ := []
  onchain := none
  onchainOmitsVotes := false
  rows := []
  collectRows := false
  rotating _ := false
  windowLatency := ∅
  finalizedFloor := 0

/-- `SigRegistry::set_rotating` -/
def setRotating (sid : Fin n) (reg : SigRegistry n) : SigRegistry n :=
  { reg with rotating := Function.update reg.rotating sid true }

/-- `SigRegistry::enable_txn_rows` -/
def enableTxnRows (reg : SigRegistry n) : SigRegistry n := { reg with collectRows := true }

/-- `SigRegistry::enable_onchain_index` -/
def enableOnchainIndex (retainSlots : ℕ) (omitsVotes : Bool) (reg : SigRegistry n) :
    SigRegistry n :=
  { reg with onchain := some (SlotSigIndex.new n retainSlots), onchainOmitsVotes := omitsVotes }

/-- The registry of a run: some sources rotate their filters, and there is an index of on-chain
signatures if there is an audit of them. -/
def setUp (names : Fin n → String) (kinds : Fin n → SourceKind) (rotating : List (Fin n))
    (onchain : Option (ℕ × Bool)) : SigRegistry n :=
  let reg := rotating.foldl (fun reg sid => reg.setRotating sid) (new names kinds)
  onchain.elim reg fun o => reg.enableOnchainIndex o.1 o.2

/-- The row of a signature as `record_first` finds it, or inserts it. -/
def rowFor (reg : SigRegistry n) (sig : Signature) (slot : ℕ) : SigRow n :=
  (reg.events.lookup sig).getD (SigRow.new slot)

/-- Whether the on-chain audit wants to see a delivery. -/
def indexes (reg : SigRegistry n) (d : Delivery n) : Bool :=
  !reg.rotating d.sid && !(reg.onchainOmitsVotes && d.txnMeta.isVote == some true)

/-- `SigRegistry::record_first` -/
def recordFirst (reg : SigRegistry n) (d : Delivery n) : SigRegistry n :=
  let row := reg.rowFor d.sig d.slot
  { reg with
    highSlot := max reg.highSlot d.slot
    latestSlot := Function.update reg.latestSlot d.sid (max (reg.latestSlot d.sid) d.slot)
    onchain := reg.onchain.map fun index =>
      if reg.indexes d then index.record d.sid d.slot d.sig else index
    distinctTotal := reg.distinctTotal + (reg.events.lookup d.sig).isNone.toNat
    txVersions := match row.versionCounted, d.txnMeta.version with
      | false, some version => reg.txVersions.add version
      | _, _ => reg.txVersions
    events := reg.events.insert d.sig (row.deliver d)
    seen := Function.update reg.seen d.sid (reg.seen d.sid + (row.ts d.sid).isNone.toNat) }

/-- `SigRegistry::drain_rows` -/
def drainRows (reg : SigRegistry n) : SigRegistry n × List TxnRow :=
  ({ reg with rows := [] }, reg.rows)

/-- `SigRegistry::take_window_latency` -/
def takeWindowLatency (key : WindowKey) (reg : SigRegistry n) :
    SigRegistry n × Option WindowLatency :=
  ({ reg with windowLatency := reg.windowLatency.erase key }, reg.windowLatency.lookup key)

/-- `SigRegistry::emit_rows` -/
def emitRows (sig : Signature) (row : SigRow n) (reg : SigRegistry n) : SigRegistry n :=
  { reg with rows := reg.rows ++ row.emitted sig }

/-- `behind` of `fold`: how far a stamp is behind the first one. -/
def behind (min ns : ℤ) : ℤ := i64Wrap (ns - min)

/-- `behind_us` of `fold`: the same in microseconds, cast to an unsigned number. -/
def behindUs (min ns : ℤ) : ℕ := ((behind min ns).tdiv 1000 % u64Size).toNat

/-- The body of the loop of `fold` over the sources that delivered the signature. -/
def foldSource (min : ℤ) (minShred : Option ℤ) (reg : SigRegistry n) (p : Fin n × Seen) :
    SigRegistry n :=
  let i := p.1
  let seen := p.2
  let isWin := decide (seen.ns = min)
  { reg with
    contested := Function.update reg.contested i (reg.contested i + 1)
    behindSumNs := Function.update reg.behindSumNs i (reg.behindSumNs i + behind min seen.ns)
    behindN := Function.update reg.behindN i (reg.behindN i + 1)
    behindHistogram :=
      Function.update reg.behindHistogram i (reg.behindHistogram i ++ [behindUs min seen.ns])
    wins := Function.update reg.wins i (reg.wins i + isWin.toNat)
    windowLatency :=
      if reg.rotating i then
        reg.windowLatency.upsert (i.val, seen.txnMeta.connectionId.getD 0) WindowLatency.new
          fun w => w.add isWin (behindUs min seen.ns)
            (minShred.map fun shred => (i64Wrap (seen.ns - shred)).tdiv 1000)
      else reg.windowLatency }

/-- The first stamp of some sources. -/
def minNs (present : List (Fin n × Seen)) : Option ℤ := (present.map fun p => p.2.ns).min?

/-- `SigRegistry::fold` -/
def fold (row : SigRow n) (reg : SigRegistry n) : SigRegistry n :=
  let present := row.present
  if present.length < 2 then reg
  else match minNs present with
    | some min =>
      let minShred := minNs (present.filter fun p => reg.kinds p.1 == .shred)
      present.foldl (foldSource min minShred) { reg with contestedTotal := reg.contestedTotal + 1 }
    | none => reg

/-- The body of the loop of `finalize` over the signatures to retire. -/
def retireRow (reg : SigRegistry n) (sig : Signature) : SigRegistry n :=
  match reg.events.lookup sig with
  | some row =>
    let reg := { reg with events := reg.events.erase sig }
    let reg := if reg.collectRows then reg.emitRows sig row else reg
    reg.fold row
  | none => reg

/-- The slot below which `finalize` retires rows. -/
def evictFloor (reg : SigRegistry n) : ℕ := reg.highSlot - evictMarginSlots

/-- `retire` of `finalize`: the signatures of the rows to retire. -/
def retire (order : HashOrder) (force : Bool) (reg : SigRegistry n) : List Signature :=
  order.arrange (reg.events.retain fun _ row => row.Retires force reg.evictFloor).keys

/-- `SigRegistry::finalize` -/
def finalize (order : HashOrder) (force : Bool) (reg : SigRegistry n) : SigRegistry n :=
  (reg.retire order force).foldl retireRow
    { reg with finalizedFloor := if force then u64Max else reg.evictFloor }

/-- A call of the registry. -/
inductive Op (n : ℕ) where
  | recordFirst (d : Delivery n)
  | finalize (order : HashOrder) (force : Bool)
  | drainRows

/-- The effect of a call, and the rows that it hands over. -/
def step (reg : SigRegistry n) : Op n → SigRegistry n × List TxnRow
  | .recordFirst d => (reg.recordFirst d, [])
  | .finalize order force => (reg.finalize order force, [])
  | .drainRows => reg.drainRows

end SigRegistry

end ShredTools.Audit
