import Mathlib.Algebra.BigOperators.Group.List.Basic
import Mathlib.Algebra.GroupWithZero.Nat
import ShredTools.Audit.VerifyChunks
import ShredTools.Library.Run

/-!
# Conservation of the verification counters

Every packet is counted in one way, and every shred is returned: after any calls of `verify_chunk`
on one set of counters, the counters add up to the packets, those of the shreds agree with the
shreds returned, and those of the providers add up to those of all together (`Conserved`).

The bytes of a packet are read with proofs that they are there.  `inspectAt` makes the same reads in
the order of the source, each as one that can fail, and never fails (`inspectAt_eq`).
-/

namespace ShredTools.Audit

/-! ### Byte accesses -/

section Accesses

variable (s : List UInt8)

/-- `s[start..stop]`, or nothing where it would panic. -/
def sliceAt (start stop : ℕ) : Option (List UInt8) :=
  if start ≤ stop ∧ stop ≤ s.length then some ((s.drop start).take (stop - start)) else none

/-- `read_u16`, or nothing where it would panic. -/
def readU16At (off : ℕ) : Option ℕ := do
  let low ← s[off]?
  let high ← s[off + 1]?
  return low.toNat + 256 * high.toNat

/-- `is_ping`, or nothing where it would panic. -/
def VerifyLibrary.isPingAt (lib : VerifyLibrary) : Option Bool :=
  if s.length ≠ pingLen then some false
  else do
    let low ← readU16At s 0
    let high ← readU16At s 2
    if low + 65536 * high ≠ pingDiscriminant then return false
    let sender ← sliceAt s 4 36
    let sig ← sliceAt s 68 132
    if !lib.validKey sender then return false
    let token ← sliceAt s 36 68
    return lib.verifyStrict sender token sig

/-- What the block data or the proof is, if there is any, or nothing where it would panic. -/
def rangeAt : Option (ByteRange s) → Option (Option (List UInt8))
  | some r => (sliceAt s r.start r.stop).map some
  | none => some none

end Accesses

/-- What the header of a coding shred tells, or else the position of a data shred, or nothing where
it would panic. -/
def headerAt (s : List UInt8) (isCode : Bool) (fecSetIndex shredIndex : ℕ) :
    Option (Option ℕ × Option ℕ × ℕ) :=
  if isCode then do
    let numData ← readU16At s codingNumDataOffset
    let numCoding ← readU16At s codingNumCodingOffset
    let position ← readU16At s codingPositionOffset
    return (some numData, some numCoding, position)
  else some (none, none, shredIndex - fecSetIndex)

/-- The part of the loop that fills in a shred, or nothing where it would panic. -/
def parseShredAt (lib : VerifyLibrary) (packetIndex : ℕ) (p : Packet) (isCode : Bool)
    (slot fecSetIndex shredIndex : ℕ) (leader : Option Pubkey) : Option Parsed := do
  let header ← headerAt p.data isCode fecSetIndex shredIndex
  let flags ← p.data[dataFlagsOffset]?
  let sig ← sliceAt p.data 0 sizeOfSignature
  let proof ← rangeAt p.data (proofRange p.data)
  let data ← rangeAt p.data (dataRange p.data)
  return {
    shred :=
      { packetIndex := packetIndex
        provider := p.provider
        rxUnixNs := p.rxUnixNs
        slot := slot
        fecSetIndex := fecSetIndex
        shredIndex := shredIndex
        isCode := isCode
        position := header.2.2
        lastInSlot := !isCode && flags &&& lastInSlotFlags == lastInSlotFlags
        dataComplete := !isCode && flags &&& dataCompleteFlag != 0
        numData := header.1
        numCoding := header.2.1
        leader := leader
        sigOk := none
        merkleOk := (lib.getMerkleRoot p.data).isSome
        proofStripped := proof.any fun bytes => bytes.all fun b => b == 0
        payloadHash := fnv1a p.data
        dataHash := data.map lib.hash }
    sig := sig
    root := lib.getMerkleRoot p.data }

/-- The loop of `verify_chunk` for one packet, or nothing where it would panic. -/
def inspectAt (lib : VerifyLibrary) (schedule : LeaderSchedule) (shredVersion : Option ℕ)
    (packetIndex : ℕ) (p : Packet) : Option (Except Reject Parsed) :=
  if p.data.length < codingHeaderLen + 1 then some (.error .malformed)
  else do
    if ← lib.isPingAt p.data then return .error .nonShredPing
    let otherVersion ← shredVersion.elim (some false) fun want =>
      (readU16At p.data versionOffset).map fun version => version != want
    if otherVersion then return .error .wrongVersion
    match decodeVariant (← p.data[variantOffset]?) with
    | none => return .error .unsupportedVariant
    | some (isCode, _, _, _) =>
      match lib.getSlot p.data, lib.getFecSetIndex p.data, lib.getIndex p.data with
      | some slot, some fecSetIndex, some shredIndex =>
        match schedule.classify slot with
        | .notPlausible => return .error .malformed
        | .leader pubkey =>
          (parseShredAt lib packetIndex p isCode slot fecSetIndex shredIndex (some pubkey)).map .ok
        | .unknown =>
          (parseShredAt lib packetIndex p isCode slot fecSetIndex shredIndex none).map .ok
      | _, _, _ => return .error .malformed

section Accesses

variable {s : List UInt8}

lemma readU16At_eq {off : ℕ} (h : off + 1 < s.length) :
    readU16At s off = some (readU16 s off h) := by
  unfold readU16At readU16
  rw [List.getElem?_eq_getElem (Nat.lt_of_succ_lt h), List.getElem?_eq_getElem h]
  rfl

lemma sliceAt_eq (r : ByteRange s) : sliceAt s r.start r.stop = some r.bytes :=
  if_pos ⟨r.le, r.bound⟩

lemma rangeAt_eq (r : Option (ByteRange s)) : rangeAt s r = some (r.map ByteRange.bytes) := by
  cases r with
  | none => rfl
  | some r => exact congrArg (Option.map some) (sliceAt_eq r)

/-- A ping is read inside its 132 bytes. -/
lemma isPingAt_eq (lib : VerifyLibrary) (s : List UInt8) :
    lib.isPingAt s = some (lib.isPing s) := by
  unfold VerifyLibrary.isPingAt VerifyLibrary.isPing
  by_cases h : s.length = pingLen
  · have hlength : s.length = 132 := h
    rw [if_neg (not_not_intro h), dif_pos h]
    have hsender : sliceAt s 4 36 = some ((s.drop 4).take 32) :=
      if_pos ⟨by decide, by omega⟩
    have hsig : sliceAt s 68 132 = some ((s.drop 68).take 64) := if_pos ⟨by decide, by omega⟩
    have htoken : sliceAt s 36 68 = some ((s.drop 36).take 32) := if_pos ⟨by decide, by omega⟩
    rw [readU16At_eq (show 0 + 1 < s.length by omega),
      readU16At_eq (show 2 + 1 < s.length by omega), hsender, hsig, htoken]
    simp only [Option.bind_eq_bind, Option.bind_some]
    split_ifs with hdiscriminant hkey
    · simp [hdiscriminant]
    · simp_all [ByteRange.bytes]
    · simp_all [ByteRange.bytes]
  · rw [if_pos h, dif_neg h]

/-- A shred is read inside its packet. -/
lemma parseShredAt_eq (lib : VerifyLibrary) (packetIndex : ℕ) (p : Packet)
    (h : codingHeaderLen + 1 ≤ p.data.length) (isCode : Bool) (slot fecSetIndex shredIndex : ℕ)
    (leader : Option Pubkey) :
    parseShredAt lib packetIndex p isCode slot fecSetIndex shredIndex leader =
      some (parseShred lib packetIndex p h isCode slot fecSetIndex shredIndex leader) := by
  have hlen : 90 ≤ p.data.length := h
  have hflags : p.data[dataFlagsOffset]? =
      some (p.data.get ⟨dataFlagsOffset, Nat.lt_of_lt_of_le (by decide) hlen⟩) :=
    List.getElem?_eq_getElem _
  have hsig := sliceAt_eq (s := p.data)
    ⟨0, sizeOfSignature, by decide, Nat.le_trans (by decide) hlen⟩
  have hheader : headerAt p.data isCode fecSetIndex shredIndex =
      some (if isCode then some (codingHeader p.data h).1 else none,
        if isCode then some (codingHeader p.data h).2.1 else none,
        if isCode then (codingHeader p.data h).2.2 else shredIndex - fecSetIndex) := by
    unfold headerAt
    cases isCode with
    | false => rfl
    | true =>
      rw [readU16At_eq (Nat.lt_of_lt_of_le (by decide) hlen),
        readU16At_eq (Nat.lt_of_lt_of_le (by decide) hlen),
        readU16At_eq (Nat.lt_of_lt_of_le (by decide) hlen)]
      rfl
  unfold parseShredAt
  rw [hheader, hflags, hsig, rangeAt_eq, rangeAt_eq]
  simp only [Option.bind_eq_bind, Option.bind_some]
  unfold parseShred
  simp only [Option.any_map, Option.map_map]
  rfl

/-- **No access of a byte is out of range.** -/
theorem inspectAt_eq (lib : VerifyLibrary) (schedule : LeaderSchedule) (shredVersion : Option ℕ)
    (packetIndex : ℕ) (p : Packet) :
    inspectAt lib schedule shredVersion packetIndex p =
      some (inspect lib schedule shredVersion packetIndex p) := by
  unfold inspectAt inspect
  by_cases h : p.data.length < codingHeaderLen + 1
  · rw [if_pos h, dif_pos h]
  · have hlen : codingHeaderLen + 1 ≤ p.data.length := not_lt.mp h
    have hlen' : 90 ≤ p.data.length := hlen
    have hvariant : p.data[variantOffset]? =
        some (p.data.get ⟨variantOffset, Nat.lt_of_lt_of_le (by decide) hlen'⟩) :=
      List.getElem?_eq_getElem _
    have hversion : versionOffset + 1 < p.data.length := Nat.lt_of_lt_of_le (by decide) hlen'
    rw [if_neg h, dif_neg h, isPingAt_eq, hvariant, readU16At_eq hversion]
    have hother : shredVersion.elim (some false) (fun want =>
        (some (readU16 p.data versionOffset hversion)).map fun version => version != want) =
        some (shredVersion.any fun want => readU16 p.data versionOffset hversion != want) := by
      cases shredVersion <;> rfl
    rw [hother]
    simp only [Option.bind_eq_bind, Option.bind_some, parseShredAt_eq lib packetIndex p hlen]
    split
    · rfl
    · split
      · rfl
      · generalize decodeVariant _ = variant
        rcases variant with _ | ⟨isCode, _, _, _⟩
        · rfl
        · cases lib.getSlot p.data with
          | none => rfl
          | some slot =>
            cases lib.getFecSetIndex p.data with
            | none => rfl
            | some fecSetIndex =>
              cases lib.getIndex p.data with
              | none => rfl
              | some shredIndex =>
                dsimp only
                cases schedule.classify slot <;> rfl

end Accesses

/-! ### Counters -/

/-- The counters that every provider has. -/
inductive VerifyCounter
  | parsed
  | malformed
  | unsupportedVariant
  | wrongVersion
  | noMerkleRoot
  | noLeader
  | sigBad
  | proofStripped

/-- The value of a counter. -/
def VerifyCounter.of (c : ProviderVerifyStats) : VerifyCounter → ℕ
  | parsed => c.parsed
  | malformed => c.malformed
  | unsupportedVariant => c.unsupportedVariant
  | wrongVersion => c.wrongVersion
  | noMerkleRoot => c.noMerkleRoot
  | noLeader => c.noLeader
  | sigBad => c.sigBad
  | proofStripped => c.proofStripped

/-- The counters of the providers add up to those of all together. -/
def VerifyStats.AddUp (stats : VerifyStats) : Prop :=
  ∀ counter : VerifyCounter, counter.of stats.toProviderVerifyStats =
    (stats.providers.map fun c => counter.of c).sum

/-- The counters account for the packets so far and the shreds made of them. -/
structure Conserved (packets : ℕ) (shreds : List VerifiedShred) (stats : VerifyStats) : Prop where
  /-- Every packet is counted in one way. -/
  packets : packets = stats.malformed + stats.nonShredPing + stats.wrongVersion +
    stats.unsupportedVariant + stats.parsed
  /-- Every packet that parsed is a shred. -/
  parsed : shreds.length = stats.parsed
  /-- A failed signature is counted as such or as a stripped proof. -/
  sigBad : stats.sigBad + stats.proofStripped = shreds.countP fun s => s.sigOk = some false
  /-- Shreds of unknown leaders are counted. -/
  noLeader : stats.noLeader = shreds.countP fun s => s.leader = none
  /-- The shreds without a merkle root are counted. -/
  noMerkleRoot : stats.noMerkleRoot = shreds.countP fun s => s.merkleOk = false
  /-- The counters of the providers add up. -/
  providers : stats.AddUp

/-- A call of `verify_chunk`. -/
structure VerifyCall where
  /-- The packets of the chunk. -/
  packets : List Packet
  /-- The leaders as known at the time. -/
  schedule : LeaderSchedule
  /-- The version that shreds have to have, if any. -/
  shredVersion : Option ℕ

/-- `verify_chunk` as a step on the counters, with the shreds that it returns. -/
def VerifyStats.step (lib : VerifyLibrary) (stats : VerifyStats) (call : VerifyCall) :
    VerifyStats × List VerifiedShred :=
  verifyChunk lib call.packets call.schedule call.shredVersion stats

/-- An update of one element moves a sum by as much as it moves the element. -/
lemma sum_map_modify {α : Type} {f : α → α} {φ : α → ℕ} {k : ℕ} (hf : ∀ a, φ (f a) = φ a + k)
    {l : List α} {i : ℕ} (hi : i < l.length) : ((l.modify i f).map φ).sum = (l.map φ).sum + k := by
  induction l generalizing i with
  | nil => exact absurd hi (Nat.not_lt_zero i)
  | cons a l ih =>
    cases i with
    | zero =>
      rw [List.modify_zero_cons, List.map_cons, List.sum_cons, hf, List.map_cons, List.sum_cons]
      omega
    | succ i =>
      rw [List.modify_succ_cons, List.map_cons, List.sum_cons, ih (Nat.lt_of_succ_lt_succ hi),
        List.map_cons, List.sum_cons]
      omega

/-- An update adds a constant to every counter. -/
def Adds (f : ProviderVerifyStats → ProviderVerifyStats) : Prop :=
  ∀ counter : VerifyCounter, ∃ k, ∀ c, counter.of (f c) = counter.of c + k

namespace VerifyStats

variable {stats : VerifyStats}

/-- The counters add up after something is counted for a provider and for all together. -/
theorem AddUp.count (h : stats.AddUp) (provider : ℕ)
    {f : ProviderVerifyStats → ProviderVerifyStats} (hf : Adds f) :
    (stats.count provider f).AddUp := by
  intro counter
  obtain ⟨k, hk⟩ := hf counter
  have hdefault : counter.of .default = 0 := by cases counter <;> rfl
  unfold VerifyStats.count
  dsimp only
  rw [hk, h, sum_map_modify hk, List.map_append, List.sum_append, List.map_replicate, hdefault,
    List.sum_replicate]
  · simp
  · rw [List.length_append, List.length_replicate]
    omega

/-- The counters add up after a packet. -/
theorem AddUp.countPacket (h : stats.AddUp) (provider : ℕ) (inspected : Except Reject Parsed) :
    (stats.countPacket provider inspected).AddUp := by
  cases inspected with
  | error reject =>
    cases reject with
    | malformed =>
      refine h.count provider fun counter => ?_
      cases counter <;> first | exact ⟨0, fun _ => rfl⟩ | exact ⟨1, fun _ => rfl⟩
    | nonShredPing => exact h
    | wrongVersion =>
      refine h.count provider fun counter => ?_
      cases counter <;> first | exact ⟨0, fun _ => rfl⟩ | exact ⟨1, fun _ => rfl⟩
    | unsupportedVariant =>
      refine h.count provider fun counter => ?_
      cases counter <;> first | exact ⟨0, fun _ => rfl⟩ | exact ⟨1, fun _ => rfl⟩
  | ok parsed =>
    refine h.count provider fun counter => ?_
    cases parsed.shred.leader.isNone <;> cases parsed.root.isNone <;> cases counter <;>
      first | exact ⟨0, fun _ => rfl⟩ | exact ⟨1, fun _ => rfl⟩

/-- The counters add up after a verdict. -/
theorem AddUp.countVerdict (h : stats.AddUp) (shred : VerifiedShred) :
    (stats.countVerdict shred).AddUp := by
  unfold VerifyStats.countVerdict
  split_ifs
  · refine h.count _ fun counter => ?_
    cases counter <;> first | exact ⟨0, fun _ => rfl⟩ | exact ⟨1, fun _ => rfl⟩
  · refine h.count _ fun counter => ?_
    cases counter <;> first | exact ⟨0, fun _ => rfl⟩ | exact ⟨1, fun _ => rfl⟩
  · exact h

end VerifyStats

/-- A packet that parses has no verdict yet. -/
lemma shred_of_inspect {lib : VerifyLibrary} {schedule : LeaderSchedule} {shredVersion : Option ℕ}
    {i : ℕ} {p : Packet} {parsed : Parsed}
    (h : inspect lib schedule shredVersion i p = .ok parsed) :
    parsed.shred.sigOk = none ∧ parsed.shred.merkleOk = parsed.root.isSome := by
  unfold inspect at h
  dsimp only at h
  split at h
  · cases h
  · split at h
    · cases h
    · split at h
      · cases h
      · split at h
        · cases h
        · split at h
          · split at h
            · cases h
            · cases h
              exact ⟨rfl, rfl⟩
            · cases h
              exact ⟨rfl, rfl⟩
          · cases h

namespace Conserved

variable {packets : ℕ} {shreds : List VerifiedShred} {stats : VerifyStats}

/-- At the start nothing is counted. -/
theorem start : Conserved 0 [] .default where
  packets := rfl
  parsed := rfl
  sigBad := rfl
  noLeader := rfl
  noMerkleRoot := rfl
  providers counter := by cases counter <;> rfl

/-- A packet that is no shred is counted. -/
theorem reject (h : Conserved packets shreds stats) (provider : ℕ) (reject : Reject) :
    Conserved (packets + 1) shreds (stats.countPacket provider (.error reject)) := by
  have hpackets := h.packets
  have hproviders := h.providers.countPacket provider (.error reject)
  cases reject with
  | malformed =>
    refine ⟨?_, h.parsed, h.sigBad, h.noLeader, h.noMerkleRoot, hproviders⟩
    dsimp only [VerifyStats.countPacket, VerifyStats.count]
    omega
  | nonShredPing =>
    refine ⟨?_, h.parsed, h.sigBad, h.noLeader, h.noMerkleRoot, hproviders⟩
    dsimp only [VerifyStats.countPacket]
    omega
  | wrongVersion =>
    refine ⟨?_, h.parsed, h.sigBad, h.noLeader, h.noMerkleRoot, hproviders⟩
    dsimp only [VerifyStats.countPacket, VerifyStats.count]
    omega
  | unsupportedVariant =>
    refine ⟨?_, h.parsed, h.sigBad, h.noLeader, h.noMerkleRoot, hproviders⟩
    dsimp only [VerifyStats.countPacket, VerifyStats.count]
    omega

/-- A packet that parses is counted. -/
theorem accept (h : Conserved packets shreds stats) (provider : ℕ) {parsed : Parsed}
    (hverdict : parsed.shred.sigOk = none) (hroot : parsed.shred.merkleOk = parsed.root.isSome) :
    Conserved (packets + 1) (shreds ++ [parsed.shred])
      (stats.countPacket provider (.ok parsed)) := by
  have hpackets := h.packets
  have hproviders := h.providers.countPacket provider (.ok parsed)
  refine ⟨?_, ?_, ?_, ?_, ?_, hproviders⟩
  · dsimp only [VerifyStats.countPacket, VerifyStats.count]
    omega
  · rw [List.length_append, h.parsed]
    rfl
  · rw [List.countP_append, ← h.sigBad]
    simp [hverdict, VerifyStats.countPacket, VerifyStats.count]
  · rw [List.countP_append, ← h.noLeader]
    cases hleader : parsed.shred.leader <;>
      simp [hleader, VerifyStats.countPacket, VerifyStats.count]
  · rw [List.countP_append, ← h.noMerkleRoot]
    cases hsome : parsed.root <;>
      simp [hroot, hsome, VerifyStats.countPacket, VerifyStats.count]

variable (lib : VerifyLibrary) (schedule : LeaderSchedule) (shredVersion : Option ℕ)

/-- The loop counts every packet of the chunk. -/
theorem push {st : ChunkState} (packet : Packet × ℕ)
    (h : Conserved packets (shreds ++ st.pending.map Prod.fst) st.stats) :
    Conserved (packets + 1)
      (shreds ++ (st.push lib schedule shredVersion packet).pending.map Prod.fst)
      (st.push lib schedule shredVersion packet).stats := by
  unfold ChunkState.push
  dsimp only
  cases hinspect : inspect lib schedule shredVersion packet.2 packet.1 with
  | error reject => exact h.reject packet.1.provider reject
  | ok parsed =>
    obtain ⟨hverdict, hroot⟩ := shred_of_inspect hinspect
    dsimp only
    rw [List.map_append, ← List.append_assoc]
    exact h.accept packet.1.provider hverdict hroot

/-- A verdict is counted for the shred that it is given to. -/
theorem verdict {before after : List VerifiedShred} {shred : VerifiedShred}
    (h : Conserved packets (before ++ shred :: after) stats) (hnone : shred.sigOk = none)
    (verdict : Option Bool) :
    Conserved packets (before ++ shred.withVerdict verdict :: after)
      (stats.countVerdict (shred.withVerdict verdict)) := by
  have hproviders := h.providers.countVerdict (shred.withVerdict verdict)
  have hparsed : (before ++ shred.withVerdict verdict :: after).length = stats.parsed := by
    rw [← h.parsed, List.length_append, List.length_append]
    rfl
  have hnoLeader : stats.noLeader = (before ++ shred.withVerdict verdict :: after).countP
      fun s => s.leader = none := by
    rw [h.noLeader, List.countP_append, List.countP_append, List.countP_cons, List.countP_cons]
    rfl
  have hnoMerkleRoot : stats.noMerkleRoot =
      (before ++ shred.withVerdict verdict :: after).countP fun s => s.merkleOk = false := by
    rw [h.noMerkleRoot, List.countP_append, List.countP_append, List.countP_cons, List.countP_cons]
    rfl
  have hsig : (shred.withVerdict verdict).sigOk = verdict := rfl
  have hbad :
      (before ++ shred.withVerdict verdict :: after).countP (fun s => s.sigOk = some false) =
        stats.sigBad + stats.proofStripped + if verdict = some false then 1 else 0 := by
    rw [h.sigBad, List.countP_append, List.countP_append, List.countP_cons, List.countP_cons, hsig,
      hnone]
    simp [Nat.add_assoc]
  unfold VerifyStats.countVerdict at hproviders ⊢
  rw [hsig] at hproviders ⊢
  split_ifs at hproviders ⊢ with hfalse hstripped
  · refine ⟨h.packets, hparsed, ?_, hnoLeader, hnoMerkleRoot, hproviders⟩
    rw [hbad, if_pos hfalse]
    rfl
  · refine ⟨h.packets, hparsed, ?_, hnoLeader, hnoMerkleRoot, hproviders⟩
    rw [hbad, if_pos hfalse]
    exact Nat.succ_add _ _
  · refine ⟨h.packets, hparsed, ?_, hnoLeader, hnoMerkleRoot, hproviders⟩
    rw [hbad, if_neg hfalse, Nat.add_zero]

/-- The verdicts of a chunk are counted for its shreds. -/
theorem settle (verdicts : List Bool) {before : List VerifiedShred}
    {pending : List (VerifiedShred × Option ℕ)}
    (h : Conserved packets (before ++ pending.map Prod.fst) stats)
    (hnone : ∀ entry ∈ pending, entry.1.sigOk = none) :
    Conserved packets (before ++ (Audit.settle verdicts stats pending).2)
      (Audit.settle verdicts stats pending).1 := by
  induction pending generalizing before stats with
  | nil => exact h
  | cons entry pending ih =>
    obtain ⟨shred, key⟩ := entry
    have hshred := hnone _ List.mem_cons_self
    have hrest := fun entry hentry => hnone entry (List.mem_cons_of_mem _ hentry)
    have hnext := h.verdict hshred (key.map fun i => verdicts.getD i false)
    rw [List.append_cons] at hnext
    have hdone := ih hnext hrest
    rw [List.append_assoc] at hdone
    exact hdone

/-- **A chunk is counted packet by packet, and every shred of it is returned.** -/
theorem verifyChunk (h : Conserved packets shreds stats) (chunk : List Packet) :
    Conserved (packets + chunk.length)
      (shreds ++ (Audit.verifyChunk lib chunk schedule shredVersion stats).2)
      (Audit.verifyChunk lib chunk schedule shredVersion stats).1 := by
  have hloop : ∀ (l : List (Packet × ℕ)) (n : ℕ) (st : ChunkState),
      Conserved n (shreds ++ st.pending.map Prod.fst) st.stats →
      (∀ entry ∈ st.pending, entry.1.sigOk = none) →
      let st' := l.foldl (ChunkState.push lib schedule shredVersion) st
      Conserved (n + l.length) (shreds ++ st'.pending.map Prod.fst) st'.stats ∧
        ∀ entry ∈ st'.pending, entry.1.sigOk = none := by
    intro l
    induction l with
    | nil => exact fun n st hst hnone => ⟨hst, hnone⟩
    | cons packet l ih =>
      intro n st hst hnone
      have hnone' : ∀ entry ∈ (st.push lib schedule shredVersion packet).pending,
          entry.1.sigOk = none := by
        intro entry hentry
        cases hinspect : inspect lib schedule shredVersion packet.2 packet.1 with
        | error reject =>
          rw [(push_of_error st hinspect).1] at hentry
          exact hnone entry hentry
        | ok parsed =>
          rw [(push_of_ok st hinspect).1, List.mem_append, List.mem_singleton] at hentry
          rcases hentry with hold | rfl
          · exact hnone entry hold
          · exact (shred_of_inspect hinspect).1
      have hrest := ih (n + 1) _ (hst.push lib schedule shredVersion packet) hnone'
      rw [List.length_cons, Nat.add_comm l.length, ← Nat.add_assoc]
      exact hrest
  obtain ⟨hcounted, hnone⟩ := hloop chunk.zipIdx packets ⟨stats, [], Interner.empty⟩
    (by rwa [List.map_nil, List.append_nil]) (fun _ h => absurd h List.not_mem_nil)
  rw [List.length_zipIdx] at hcounted
  unfold Audit.verifyChunk
  dsimp only
  refine settle _ ?_ hnone
  -- checking the signatures touches counters of its own only
  generalize List.foldl _ _ _ = st at hcounted ⊢
  unfold verifyTriples
  dsimp only
  split_ifs
  all_goals
    exact ⟨hcounted.packets, hcounted.parsed, hcounted.sigBad, hcounted.noLeader,
      hcounted.noMerkleRoot, hcounted.providers⟩

end Conserved

/-- **The counters are conserved over every sequence of calls**, and no call reads a packet out of
its range. -/
theorem counters_conserved (lib : VerifyLibrary) (calls : List VerifyCall) :
    Conserved (calls.flatMap VerifyCall.packets).length
        (Machine.outputs (VerifyStats.step lib) .default calls).flatten
        (Machine.finalState (VerifyStats.step lib) .default calls) ∧
      ∀ call ∈ calls, ∀ packet ∈ call.packets.zipIdx,
        (inspectAt lib call.schedule call.shredVersion packet.2 packet.1).isSome = true := by
  refine ⟨?_, fun call _ packet _ => by rw [inspectAt_eq]; rfl⟩
  induction calls using List.reverseRecOn with
  | nil => exact Conserved.start
  | append_singleton calls call ih =>
    rw [Machine.finalState_concat, Machine.outputs_concat, List.flatten_append, List.flatMap_append,
      List.length_append, List.flatMap_singleton]
    have hnext := ih.verifyChunk lib call.schedule call.shredVersion call.packets
    rw [List.flatten_cons, List.flatten_nil, List.append_nil]
    exact hnext

end ShredTools.Audit
