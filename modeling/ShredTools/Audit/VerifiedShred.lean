import Mathlib.Data.Int.Notation
import Mathlib.Data.Nat.Notation

/-!
# Verified shreds

The record that verification makes of a shred, and that aggregation and reconstruction read.

Whether the leader signed a shred is judged by the leader schedule, which holds the leaders of one
epoch.  A slot far outside of the epoch is no slot at all, and the packet no shred; one near it but
not in it has an unknown leader, and so has every slot as long as there is no schedule.

Numbers of 16, 32 and 64 bits are natural numbers here, and wrap where the source lets them
(`u16Size`, `u32Size`, `u64Size`).  `VerifiedShred.isAuthentic` is the test that decides in all
later modules whether a shred counts: its merkle proof holds and its signature verified.
-/

namespace ShredTools.Audit

/-- The number of 16-bit numbers. -/
def u16Size : ℕ := 0x10000

/-- The number of 32-bit numbers. -/
def u32Size : ℕ := 0x100000000

/-- The number of 64-bit numbers. -/
def u64Size : ℕ := 0x10000000000000000

/-- The bytes of a public key. -/
abbrev Pubkey := Vector UInt8 32

/-- The bytes of a SHA-256 hash. -/
abbrev Hash := Vector UInt8 32

/-- `VerifiedShred` -/
structure VerifiedShred where
  /-- The place of the packet in its chunk. -/
  packetIndex : ℕ
  /-- The provider that sent the packet. -/
  provider : ℕ
  /-- The kernel's receive stamp. -/
  rxUnixNs : ℤ
  /-- The slot that the shred claims. -/
  slot : ℕ
  /-- The first data index of its set. -/
  fecSetIndex : ℕ
  /-- The index of the shred among the shreds of its kind. -/
  shredIndex : ℕ
  /-- Whether it is a coding shred. -/
  isCode : Bool
  /-- The place of the shred in its set, among the shreds of its kind. -/
  position : ℕ
  /-- Whether it is flagged as the last data shred of the slot. -/
  lastInSlot : Bool
  /-- Whether it is flagged as the last data shred of the set. -/
  dataComplete : Bool
  /-- The number of data shreds of the set, which coding shreds know. -/
  numData : Option ℕ
  /-- The number of coding shreds of the set, which coding shreds know. -/
  numCoding : Option ℕ
  /-- The leader of the slot, if known. -/
  leader : Option Pubkey
  /-- Whether the leader signed the merkle root, if a verdict is possible. -/
  sigOk : Option Bool
  /-- Whether the shred has a merkle root. -/
  merkleOk : Bool
  /-- Whether the bytes of the merkle proof are all zero. -/
  proofStripped : Bool
  /-- FNV-1a of the payload. -/
  payloadHash : ℕ
  /-- SHA-256 of the block data, if the shred has any. -/
  dataHash : Option Hash
  deriving DecidableEq

/-- `is_authentic`: proven leader-signed; an unknown leader proves nothing. -/
def VerifiedShred.isAuthentic (s : VerifiedShred) : Bool :=
  s.merkleOk && s.sigOk == some true

/-! ### The leader schedule -/

/-- The largest 64-bit number. -/
def u64Max : ℕ := u64Size - 1

/-- `SLOTS_PER_EPOCH` -/
def slotsPerEpoch : ℕ := 432000

/-- `SlotVerdict` -/
inductive SlotVerdict where
  /-- `Implausible`: so far outside the epoch that the packet is no shred. -/
  | notPlausible
  /-- `Leader` -/
  | leader (pubkey : Pubkey)
  /-- `Unknown`: plausible, but not in the schedule. -/
  | unknown
  deriving DecidableEq

/-- `Epoch` -/
structure Epoch where
  /-- The number of the epoch. -/
  epoch : ℕ
  /-- The first slot of the epoch. -/
  firstSlot : ℕ
  /-- The leader of each slot, from the first on. -/
  leaders : List (Option Pubkey)

/-- `LeaderSchedule`: the epoch held, if any. -/
abbrev LeaderSchedule := Option Epoch

/-- `LeaderSchedule::classify` -/
def LeaderSchedule.classify (schedule : LeaderSchedule) (slot : ℕ) : SlotVerdict :=
  match schedule with
  | none => .unknown
  | some e =>
    let span := max e.leaders.length slotsPerEpoch
    let lo := e.firstSlot - span
    let hi := min (e.firstSlot + min (span * 2) u64Max) u64Max
    if slot < lo ∨ slot ≥ hi then .notPlausible
    else if slot < e.firstSlot then .unknown
    else
      match e.leaders[slot - e.firstSlot]? with
      | some (some pubkey) => .leader pubkey
      | _ => .unknown

end ShredTools.Audit
