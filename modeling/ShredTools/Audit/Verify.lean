import Mathlib.Data.List.Basic
import ShredTools.Audit.VerifiedShred
import ShredTools.Library.Interner

/-!
# Verification of a chunk of packets

`verify_chunk` parses the packets of a chunk and checks their signatures.  Since the shreds of one
FEC set share signature and merkle root, each distinct pair of these is checked once a chunk, for
the leader of the first packet that has it, and the answer is shared.

Every read of a packet carries the proof that it lies inside.  The main result compares a chunk with
its packets verified alone: the two agree exactly when every packet has the same answer under the
leader of the first packet of its chunk with its signature and root as under its own.
-/

namespace ShredTools.Audit

/-! ### Bytes -/

/-- `VARIANT_OFFSET` -/
def variantOffset : ℕ := 64

/-- `VERSION_OFFSET` -/
def versionOffset : ℕ := 77

/-- `CODING_NUM_DATA_OFFSET` -/
def codingNumDataOffset : ℕ := 83

/-- `CODING_NUM_CODING_OFFSET` -/
def codingNumCodingOffset : ℕ := 85

/-- `CODING_POSITION_OFFSET` -/
def codingPositionOffset : ℕ := 87

/-- `DATA_FLAGS_OFFSET` -/
def dataFlagsOffset : ℕ := 85

/-- `CODING_HEADER_LEN` -/
def codingHeaderLen : ℕ := 89

/-- `SIZE_OF_SIGNATURE` -/
def sizeOfSignature : ℕ := 64

/-- `LAST_IN_SLOT_FLAGS` -/
def lastInSlotFlags : UInt8 := 0b11000000

/-- `DATA_COMPLETE_FLAG` -/
def dataCompleteFlag : UInt8 := 0b01000000

/-- `BATCH_MIN` -/
def batchMin : ℕ := 8

/-- A range of the bytes of a packet. -/
structure ByteRange (s : List UInt8) where
  /-- The first byte. -/
  start : ℕ
  /-- The byte after the last. -/
  stop : ℕ
  /-- The range is not backward. -/
  le : start ≤ stop
  /-- The range lies inside the packet. -/
  bound : stop ≤ s.length

/-- The bytes of a range. -/
def ByteRange.bytes {s : List UInt8} (r : ByteRange s) : List UInt8 :=
  (s.drop r.start).take (r.stop - r.start)

/-- `read_u16` -/
def readU16 (s : List UInt8) (off : ℕ) (h : off + 1 < s.length) : ℕ :=
  (s.get ⟨off, Nat.lt_of_succ_lt h⟩).toNat + 256 * (s.get ⟨off + 1, h⟩).toNat

/-- `decode_variant`: whether it is a coding shred, the size of the proof, whether the shred is
chained and whether it is resigned. -/
def decodeVariant (variant : UInt8) : Option (Bool × ℕ × Bool × Bool) :=
  let proofSize := (variant &&& 0x0f).toNat
  match (variant &&& 0xf0).toNat with
  | 0x40 => some (true, proofSize, false, false)
  | 0x60 => some (true, proofSize, true, false)
  | 0x70 => some (true, proofSize, true, true)
  | 0x80 => some (false, proofSize, false, false)
  | 0x90 => some (false, proofSize, true, false)
  | 0xb0 => some (false, proofSize, true, true)
  | _ => none

/-- `checked_sub` -/
def checkedSub (a b : ℕ) : Option ℕ := if b ≤ a then some (a - b) else none

/-- `SIZE_OF_DATA_PAYLOAD` -/
def sizeOfDataPayload : ℕ := 1203

/-- `SIZE_OF_CODE_PAYLOAD` -/
def sizeOfCodePayload : ℕ := 1228

/-- `SIZE_OF_MERKLE_ROOT` -/
def sizeOfMerkleRoot : ℕ := 32

/-- `SIZE_OF_PROOF_ENTRY` -/
def sizeOfProofEntry : ℕ := 20

/-- `proof_range`: where the merkle proof stands. -/
def proofRange (s : List UInt8) : Option (ByteRange s) := do
  let variant ← s[variantOffset]?
  let (isCode, proofSize, chained, resigned) ← decodeVariant variant
  let payload := if isCode then sizeOfCodePayload else sizeOfDataPayload
  let proofEnd ← checkedSub payload (sizeOfSignature * resigned.toNat)
  let proofStart ←
    checkedSub proofEnd (sizeOfMerkleRoot * chained.toNat + sizeOfProofEntry * proofSize)
  if h : proofStart > sizeOfSignature ∧ proofStart < proofEnd ∧ s.length ≥ proofEnd then
    some ⟨proofStart, proofEnd, Nat.le_of_lt h.2.1, h.2.2⟩
  else none

/-- `data_range`: the block data, between the signature and the proof. -/
def dataRange (s : List UInt8) : Option (ByteRange s) :=
  match proofRange s with
  | some proof =>
    if h : proof.start > sizeOfSignature then
      some ⟨sizeOfSignature, proof.start, Nat.le_of_lt h, Nat.le_trans proof.le proof.bound⟩
    else none
  | none => none

/-- `fnv1a` -/
def fnv1a (s : List UInt8) : ℕ :=
  (s.foldl (fun h b => (h ^^^ b.toUInt64) * 0x00000100000001b3) 0xcbf29ce484222325 : UInt64).toNat

/-! ### Signatures -/

/-- A signature, the merkle root it should be over, and the leader it should be of. -/
structure Triple where
  /-- The first 64 bytes of the shred. -/
  sig : List UInt8
  /-- The merkle root of the shred. -/
  root : Hash
  /-- The leader of its slot. -/
  leader : Pubkey
  deriving DecidableEq

/-- The functions of the shred, hash and signature libraries that verification calls. -/
structure VerifyLibrary where
  /-- `layout::get_slot` -/
  getSlot : List UInt8 → Option ℕ
  /-- `layout::get_fec_set_index` -/
  getFecSetIndex : List UInt8 → Option ℕ
  /-- `layout::get_index` -/
  getIndex : List UInt8 → Option ℕ
  /-- `layout::get_merkle_root` -/
  getMerkleRoot : List UInt8 → Option Hash
  /-- `solana_sdk::hash::hash` -/
  hash : List UInt8 → Hash
  /-- `VerifyingKey::from_bytes`, whether it succeeds. -/
  validKey : List UInt8 → Bool
  /-- `VerifyingKey::verify_strict`, of a key, a message and a signature. -/
  verifyStrict : List UInt8 → List UInt8 → List UInt8 → Bool
  /-- `ed25519_dalek::verify_batch`, whether it succeeds. -/
  verifyBatch : List Triple → Bool

/-- `PING_LEN` -/
def pingLen : ℕ := 132

/-- `PING_DISCRIMINANT` -/
def pingDiscriminant : ℕ := 4

namespace VerifyLibrary

variable (lib : VerifyLibrary)

/-- `is_ping`: a ping with a signature that verifies. -/
def isPing (s : List UInt8) : Bool :=
  if h : s.length = pingLen then
    have hlength : s.length = 132 := h
    let from' : ByteRange s := ⟨4, 36, by decide, by omega⟩
    let token : ByteRange s := ⟨36, 68, by decide, by omega⟩
    let sig : ByteRange s := ⟨68, 132, by decide, by omega⟩
    let discriminant := readU16 s 0 (by omega) + 65536 * readU16 s 2 (by omega)
    discriminant == pingDiscriminant && lib.validKey from'.bytes &&
      lib.verifyStrict from'.bytes token.bytes sig.bytes
  else false

/-- `verify_one` -/
def verifyOne (t : Triple) : Bool :=
  lib.validKey t.leader.toList && lib.verifyStrict t.leader.toList t.root.toList t.sig

end VerifyLibrary

/-! ### Counters -/

/-- `ProviderVerifyStats` -/
structure ProviderVerifyStats where
  /-- Packets that parsed. -/
  parsed : ℕ
  /-- Packets that are no shreds. -/
  malformed : ℕ
  /-- Packets of an unknown variant. -/
  unsupportedVariant : ℕ
  /-- Packets of another shred version. -/
  wrongVersion : ℕ
  /-- Shreds without a merkle root. -/
  noMerkleRoot : ℕ
  /-- Shreds of an unknown leader. -/
  noLeader : ℕ
  /-- Shreds that the leader did not sign. -/
  sigBad : ℕ
  /-- Of these, the ones with a zeroed proof, which are counted here instead. -/
  proofStripped : ℕ
  deriving DecidableEq

/-- `ProviderVerifyStats::default` -/
def ProviderVerifyStats.default : ProviderVerifyStats := ⟨0, 0, 0, 0, 0, 0, 0, 0⟩

/-- `VerifyStats`: the counters of all providers together, those of each, and a few more. -/
structure VerifyStats extends ProviderVerifyStats where
  /-- Pings. -/
  nonShredPing : ℕ
  /-- Signatures checked. -/
  ed25519Verifies : ℕ
  /-- Batches that failed. -/
  batchFallbacks : ℕ
  /-- The counters of each provider. -/
  providers : List ProviderVerifyStats
  deriving DecidableEq

namespace VerifyStats

/-- `VerifyStats::default` -/
def default : VerifyStats where
  toProviderVerifyStats := ProviderVerifyStats.default
  nonShredPing := 0
  ed25519Verifies := 0
  batchFallbacks := 0
  providers := []

/-- Count something for a provider and for all together; `VerifyStats::provider` grows the list
where the provider is new. -/
def count (stats : VerifyStats) (provider : ℕ)
    (f : ProviderVerifyStats → ProviderVerifyStats) : VerifyStats :=
  let providers := stats.providers ++
    List.replicate (provider + 1 - stats.providers.length) ProviderVerifyStats.default
  { stats with
    toProviderVerifyStats := f stats.toProviderVerifyStats
    providers := providers.modify provider f }

end VerifyStats

/-! ### One packet -/

/-- `Packet` -/
structure Packet where
  /-- The provider that sent it. -/
  provider : ℕ
  /-- The kernel's receive stamp. -/
  rxUnixNs : ℤ
  /-- The bytes of the packet. -/
  data : List UInt8
  deriving DecidableEq

/-- Why a packet is no shred to verify. -/
inductive Reject where
  | malformed
  | nonShredPing
  | wrongVersion
  | unsupportedVariant
  deriving DecidableEq

/-- A packet that parsed: the shred without its signature verdict, the signature and the root. -/
structure Parsed where
  /-- The shred. -/
  shred : VerifiedShred
  /-- The first 64 bytes. -/
  sig : List UInt8
  /-- The merkle root, if there is one. -/
  root : Option Hash

/-- What there is to check for a parsed packet: its signature, if it has a root and a leader. -/
def Parsed.triple (parsed : Parsed) : Option Triple :=
  match parsed.root, parsed.shred.leader with
  | some root, some leader => some ⟨parsed.sig, root, leader⟩
  | _, _ => none

/-- What coding headers tell: the numbers of data and coding shreds, and the position. -/
def codingHeader (s : List UInt8) (h : codingHeaderLen + 1 ≤ s.length) : ℕ × ℕ × ℕ :=
  have hlen : 90 ≤ s.length := h
  (readU16 s codingNumDataOffset (Nat.lt_of_lt_of_le (by decide) hlen),
    readU16 s codingNumCodingOffset (Nat.lt_of_lt_of_le (by decide) hlen),
    readU16 s codingPositionOffset (Nat.lt_of_lt_of_le (by decide) hlen))

/-- The part of the loop that fills in a shred, for a slot with the leader given. -/
def parseShred (lib : VerifyLibrary) (packetIndex : ℕ) (p : Packet)
    (h : codingHeaderLen + 1 ≤ p.data.length) (isCode : Bool) (slot fecSetIndex shredIndex : ℕ)
    (leader : Option Pubkey) : Parsed :=
  let s := p.data
  have hlen : 90 ≤ s.length := h
  let (numData, numCoding, codingPosition) := codingHeader s h
  let flags := s.get ⟨dataFlagsOffset, Nat.lt_of_lt_of_le (by decide) hlen⟩
  let sig : ByteRange s := ⟨0, sizeOfSignature, by decide, Nat.le_trans (by decide) hlen⟩
  let root := lib.getMerkleRoot s
  { shred :=
      { packetIndex := packetIndex
        provider := p.provider
        rxUnixNs := p.rxUnixNs
        slot := slot
        fecSetIndex := fecSetIndex
        shredIndex := shredIndex
        isCode := isCode
        position := if isCode then codingPosition else shredIndex - fecSetIndex
        lastInSlot := !isCode && flags &&& lastInSlotFlags == lastInSlotFlags
        dataComplete := !isCode && flags &&& dataCompleteFlag != 0
        numData := if isCode then some numData else none
        numCoding := if isCode then some numCoding else none
        leader := leader
        sigOk := none
        merkleOk := root.isSome
        proofStripped := (proofRange s).any fun r => r.bytes.all fun b => b == 0
        payloadHash := fnv1a s
        dataHash := (dataRange s).map fun r => lib.hash r.bytes }
    sig := sig.bytes
    root := root }

/-- The loop of `verify_chunk`, for one packet. -/
def inspect (lib : VerifyLibrary) (schedule : LeaderSchedule) (shredVersion : Option ℕ)
    (packetIndex : ℕ) (p : Packet) : Except Reject Parsed :=
  if h : p.data.length < codingHeaderLen + 1 then .error .malformed
  else if lib.isPing p.data then .error .nonShredPing
  else
    have hlen : codingHeaderLen + 1 ≤ p.data.length := not_lt.mp h
    have hlen' : 90 ≤ p.data.length := hlen
    let version := readU16 p.data versionOffset (Nat.lt_of_lt_of_le (by decide) hlen')
    if shredVersion.any fun want => version != want then .error .wrongVersion
    else
      match decodeVariant (p.data.get ⟨variantOffset, Nat.lt_of_lt_of_le (by decide) hlen'⟩) with
      | none => .error .unsupportedVariant
      | some (isCode, _, _, _) =>
        match lib.getSlot p.data, lib.getFecSetIndex p.data, lib.getIndex p.data with
        | some slot, some fecSetIndex, some shredIndex =>
          match schedule.classify slot with
          | .notPlausible => .error .malformed
          | .leader pubkey =>
            .ok (parseShred lib packetIndex p hlen isCode slot fecSetIndex shredIndex (some pubkey))
          | .unknown =>
            .ok (parseShred lib packetIndex p hlen isCode slot fecSetIndex shredIndex none)
        | _, _, _ => .error .malformed

/-- The counters after a packet. -/
def VerifyStats.countPacket (stats : VerifyStats) (provider : ℕ) :
    Except Reject Parsed → VerifyStats
  | .error .malformed => stats.count provider fun c => { c with malformed := c.malformed + 1 }
  | .error .nonShredPing => { stats with nonShredPing := stats.nonShredPing + 1 }
  | .error .wrongVersion =>
    stats.count provider fun c => { c with wrongVersion := c.wrongVersion + 1 }
  | .error .unsupportedVariant =>
    stats.count provider fun c => { c with unsupportedVariant := c.unsupportedVariant + 1 }
  | .ok parsed =>
    stats.count provider fun c =>
      { c with
        noLeader := if parsed.shred.leader.isNone then c.noLeader + 1 else c.noLeader
        parsed := c.parsed + 1
        noMerkleRoot := if parsed.root.isNone then c.noMerkleRoot + 1 else c.noMerkleRoot }

/-! ### A chunk -/

/-- The variables of the loop of `verify_chunk`. -/
structure ChunkState where
  /-- The counters. -/
  stats : VerifyStats
  /-- Each shred with the index of its triple, if a verdict is possible. -/
  pending : List (VerifiedShred × Option ℕ)
  /-- `dedup` and `triples`: an index for each signature and root, and the triples. -/
  triples : Interner (List UInt8 × Hash) Triple

/-- The index of the triple of a parsed packet, if a verdict is possible. -/
def ChunkState.internTriple (triples : Interner (List UInt8 × Hash) Triple) :
    Option Triple → Interner (List UInt8 × Hash) Triple × Option ℕ
  | some t =>
    let (triples, i) := triples.intern (t.sig, t.root) t
    (triples, some i)
  | none => (triples, none)

/-- One round of the loop. -/
def ChunkState.push (lib : VerifyLibrary) (schedule : LeaderSchedule) (shredVersion : Option ℕ)
    (st : ChunkState) (packet : Packet × ℕ) : ChunkState :=
  let inspected := inspect lib schedule shredVersion packet.2 packet.1
  let stats := st.stats.countPacket packet.1.provider inspected
  match inspected with
  | .error _ => { st with stats := stats }
  | .ok parsed =>
    let (triples, key) := internTriple st.triples parsed.triple
    { stats := stats
      pending := st.pending ++ [(parsed.shred, key)]
      triples := triples }

/-- `verify_triples` -/
def verifyTriples (lib : VerifyLibrary) (triples : List Triple) (stats : VerifyStats) :
    VerifyStats × List Bool :=
  let stats := { stats with ed25519Verifies := stats.ed25519Verifies + triples.length }
  if triples.length < batchMin then (stats, triples.map lib.verifyOne)
  else if triples.any fun t => !lib.validKey t.leader.toList then
    (stats, triples.map lib.verifyOne)
  else if lib.verifyBatch triples then (stats, List.replicate triples.length true)
  else
    ({ stats with batchFallbacks := stats.batchFallbacks + 1 }, triples.map lib.verifyOne)

/-- The counters after a verdict. -/
def VerifyStats.countVerdict (stats : VerifyStats) (shred : VerifiedShred) : VerifyStats :=
  if shred.sigOk = some false then
    if shred.proofStripped then
      stats.count shred.provider fun c => { c with proofStripped := c.proofStripped + 1 }
    else stats.count shred.provider fun c => { c with sigBad := c.sigBad + 1 }
  else stats

/-- A shred with its signature verdict. -/
def VerifiedShred.withVerdict (s : VerifiedShred) (verdict : Option Bool) : VerifiedShred :=
  { s with sigOk := verdict }

/-- The end of `verify_chunk`: give every shred the verdict of its triple. -/
def settle (verdicts : List Bool) : VerifyStats → List (VerifiedShred × Option ℕ) →
    VerifyStats × List VerifiedShred
  | stats, [] => (stats, [])
  | stats, (shred, key) :: pending =>
    let shred := shred.withVerdict (key.map fun i => verdicts.getD i false)
    let (stats, shreds) := settle verdicts (stats.countVerdict shred) pending
    (stats, shred :: shreds)

/-- `verify_chunk` -/
def verifyChunk (lib : VerifyLibrary) (packets : List Packet) (schedule : LeaderSchedule)
    (shredVersion : Option ℕ) (stats : VerifyStats) : VerifyStats × List VerifiedShred :=
  let st := packets.zipIdx.foldl (ChunkState.push lib schedule shredVersion)
    ⟨stats, [], Interner.empty⟩
  let (stats, verdicts) := verifyTriples lib st.triples.values st.stats
  settle verdicts stats st.pending

end ShredTools.Audit
