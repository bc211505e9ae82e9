import Mathlib.Data.Finset.Insert
import Mathlib.Data.List.Sort
import ShredTools.Audit.VerifiedShred
import ShredTools.Library.KeyedTable

/-!
# FEC-set aggregation

The aggregator gathers the shreds of each FEC set and provider and emits one row for a set once its
slot is `max_wait_slots` behind the highest slot seen.  Every function here is that of the source;
hash maps are keyed tables, the payload hashes seen a finite set, and the position bits a bit
vector.  The rows of a harvest come in the order of the table, which the source leaves open.

A shred that goes into a set meets one of a few fates (`Fate`): it is a repeat, accepted, invalid or
not verifiable.  What accepted shreds make of a set is a structure of its own (`Accepted`), so that
it can be said of the others that they leave it alone.  `ingest` drops what comes after its slot was
closed, and `harvest` closes slots, so for each of the two there is a lemma on every field that it
may change.  `finalize` makes the row, with the truth that the signed copies of all providers have
left.
-/

namespace ShredTools.Audit

/-- `MAX_POSITION` -/
def maxPosition : ℕ := 128

/-- The key of a set: who sent it, and which set of which slot it is. -/
structure SetKey where
  /-- The provider. -/
  provider : ℕ
  /-- The slot. -/
  slot : ℕ
  /-- The first data index of the set. -/
  fecSetIndex : ℕ
  deriving DecidableEq

/-- The key of a leader-signed copy.  Data and coding indices overlap, so the kind belongs to it. -/
structure TruthKey where
  /-- The slot. -/
  slot : ℕ
  /-- The first data index of the set. -/
  fecSetIndex : ℕ
  /-- Whether it is a coding shred. -/
  isCode : Bool
  /-- The index among the shreds of its kind. -/
  shredIndex : ℕ
  deriving DecidableEq

/-- The data hashes of leader-signed copies. -/
abbrev Truth := AList fun _ : TruthKey => Hash

/-- `SetRow` -/
structure SetRow where
  /-- The provider. -/
  provider : ℕ
  /-- The slot. -/
  slot : ℕ
  /-- The first data index of the set. -/
  fecSetIndex : ℕ
  /-- The leader of the slot, if known at the first shred. -/
  leader : Option Pubkey
  /-- The first arrival. -/
  firstNs : ℤ
  /-- When the set became decodable. -/
  decodeNs : Option ℤ
  /-- The last arrival. -/
  lastNs : ℤ
  /-- Distinct data positions. -/
  nData : ℕ
  /-- Distinct coding positions. -/
  nCode : ℕ
  /-- The number of shreds of the set, if known. -/
  expectedTotal : Option ℕ
  /-- Shreds that did not come. -/
  missed : ℕ
  /-- Shreds that failed verification. -/
  invalid : ℕ
  /-- Of these, the ones whose data matches a leader-signed copy. -/
  invalidSig : ℕ
  /-- Of these, the ones whose data differs from a leader-signed copy. -/
  invalidData : ℕ
  /-- Of these, the ones without a leader-signed copy to compare. -/
  invalidUnknown : ℕ
  /-- Shreds with a payload seen before. -/
  duplicated : ℕ
  /-- Shreds of an unknown leader. -/
  sigUnverifiable : ℕ
  /-- Whether the set decoded and everything in it verified. -/
  isValid : Bool
  /-- Whether a data shred was flagged as the last of the slot. -/
  lastInSlot : Bool
  deriving DecidableEq

/-- The fields of `SetState` that only accepted shreds change. -/
structure Accepted where
  /-- The data positions accepted. -/
  dataPos : BitVec maxPosition
  /-- The coding positions accepted. -/
  codePos : BitVec maxPosition
  /-- The number of data shreds, once learned. -/
  numData : Option ℕ
  /-- The number of coding shreds, once learned. -/
  numCoding : Option ℕ
  /-- The time of the first accepted shred. -/
  firstNs : Option ℤ
  /-- The time of the last accepted shred. -/
  lastNs : Option ℤ
  /-- The time of each new position. -/
  arrivals : List ℤ
  /-- Whether a data shred was flagged as the last of the slot. -/
  lastInSlot : Bool
  deriving DecidableEq

/-- `SetState` -/
structure SetState extends Accepted where
  /-- The leader at the first shred. -/
  leader : Option Pubkey
  /-- The payload hashes seen. -/
  seen : Finset ℕ
  /-- The time of the first shred, accepted or not. -/
  createdNs : ℤ
  /-- Kind, index and data hash of the shreds that failed verification. -/
  invalidShreds : List (Bool × ℕ × Option Hash)
  /-- Shreds with a payload seen before. -/
  duplicated : ℕ
  /-- Shreds of an unknown leader. -/
  unverifiable : ℕ
  deriving DecidableEq

/-- `Aggregator` -/
structure Aggregator where
  /-- The pending sets. -/
  sets : AList fun _ : SetKey => SetState
  /-- The leader-signed copies of the pending slots. -/
  truth : Truth
  /-- The highest slot of any shred. -/
  maxSlot : ℕ
  /-- The highest slot per provider among authentic shreds. -/
  latestSlot : AList fun _ : ℕ => ℕ
  /-- How far a set lies behind the highest slot when it is emitted. -/
  maxWaitSlots : ℕ
  /-- Sets at or below this slot have been emitted. -/
  evictedUpto : ℕ
  /-- Shreds that came after their set was emitted. -/
  shredsAfterWindow : ℕ

/-- The accepted part of a new set. -/
def Accepted.new : Accepted where
  dataPos := 0
  codePos := 0
  numData := none
  numCoding := none
  firstNs := none
  lastNs := none
  arrivals := []
  lastInSlot := false

/-- `SetState::new` -/
def SetState.new (leader : Option Pubkey) (ns : ℤ) : SetState where
  toAccepted := Accepted.new
  leader := leader
  seen := ∅
  createdNs := ns
  invalidShreds := []
  duplicated := 0
  unverifiable := 0

/-- `Aggregator::new` -/
def Aggregator.new (maxWaitSlots : ℕ) : Aggregator where
  sets := ∅
  truth := ∅
  maxSlot := 0
  latestSlot := ∅
  maxWaitSlots := maxWaitSlots
  evictedUpto := 0
  shredsAfterWindow := 0

/-! ### Taking in a shred -/

/-- The key of the set that a shred belongs to. -/
def VerifiedShred.setKey (s : VerifiedShred) : SetKey := ⟨s.provider, s.slot, s.fecSetIndex⟩

/-- The key of the copy that a shred is. -/
def VerifiedShred.truthKey (s : VerifiedShred) : TruthKey :=
  ⟨s.slot, s.fecSetIndex, s.isCode, s.shredIndex⟩

/-- `mark_position`: set the bit of a position; whether it was new. -/
def markPosition (bits : BitVec maxPosition) (pos : ℕ) : BitVec maxPosition × Bool :=
  if pos ≥ maxPosition then (bits, false)
  else
    let bit := BitVec.ofNat maxPosition 1 <<< pos
    (bits ||| bit, bits &&& bit == 0)

/-- What becomes of a shred that goes into a set. -/
inductive Fate where
  | duplicate
  | invalid
  | unverifiable
  | accepted
  deriving DecidableEq

/-- The tests of `ingest` on a shred that is not late. -/
def SetState.fate (st : SetState) (s : VerifiedShred) : Fate :=
  if s.payloadHash ∈ st.seen then .duplicate
  else
    match s.merkleOk, s.sigOk with
    | false, _ => .invalid
    | true, some false => .invalid
    | true, none => .unverifiable
    | true, some true => .accepted

/-- The positions and the set's size, from an accepted shred; whether its position is new. -/
def Accepted.place (acc : Accepted) (s : VerifiedShred) : Accepted × Bool :=
  if s.isCode then
    let (codePos, isNewPosition) := markPosition acc.codePos s.position
    ({ acc with
        numData := if acc.numData.isNone then s.numData else acc.numData
        numCoding := if acc.numData.isNone then s.numCoding else acc.numCoding
        codePos := codePos }, isNewPosition)
  else
    let (dataPos, isNewPosition) := markPosition acc.dataPos s.position
    ({ acc with
        lastInSlot := acc.lastInSlot || s.lastInSlot
        -- the last data shred of the set tells the number of data shreds
        numData := if acc.numData.isNone && s.dataComplete then some ((s.position + 1) % u16Size)
          else acc.numData
        dataPos := dataPos }, isNewPosition)

/-- The end of `ingest`, for an accepted shred. -/
def Accepted.accept (acc : Accepted) (s : VerifiedShred) : Accepted :=
  let (acc, isNewPosition) := acc.place s
  { acc with
    arrivals := if isNewPosition then acc.arrivals ++ [s.rxUnixNs] else acc.arrivals
    firstNs := some (acc.firstNs.elim s.rxUnixNs (min · s.rxUnixNs))
    lastNs := some (acc.lastNs.elim s.rxUnixNs (max · s.rxUnixNs)) }

/-- The set after a shred that goes into it. -/
def SetState.absorb (st : SetState) (s : VerifiedShred) : SetState :=
  match st.fate s with
  | .duplicate => { st with duplicated := (st.duplicated + 1) % u32Size }
  | .invalid =>
    { st with
      seen := insert s.payloadHash st.seen
      invalidShreds := st.invalidShreds ++ [(s.isCode, s.shredIndex, s.dataHash)] }
  | .unverifiable =>
    { st with
      seen := insert s.payloadHash st.seen
      unverifiable := (st.unverifiable + 1) % u32Size }
  | .accepted =>
    { st with
      seen := insert s.payloadHash st.seen
      toAccepted := st.toAccepted.accept s }

/-- A set has seen a shred that went into it, and what it saw before. -/
@[simp] theorem SetState.absorb_seen (st : SetState) (s : VerifiedShred) :
    (st.absorb s).seen = insert s.payloadHash st.seen := by
  unfold absorb
  cases hfate : st.fate s with
  | duplicate =>
    have hmem : s.payloadHash ∈ st.seen := by
      by_contra hnot
      rw [fate, if_neg hnot] at hfate
      revert hfate
      cases s.merkleOk <;> rcases s.sigOk with _ | _ | _ <;> simp
    exact (Finset.insert_eq_of_mem hmem).symm
  | invalid => rfl
  | unverifiable => rfl
  | accepted => rfl

/-- A shred is accepted when it is authentic and its payload new to the set. -/
theorem SetState.fate_eq_accepted_iff {st : SetState} {s : VerifiedShred} :
    st.fate s = .accepted ↔ s.isAuthentic = true ∧ s.payloadHash ∉ st.seen := by
  unfold fate VerifiedShred.isAuthentic
  by_cases hmem : s.payloadHash ∈ st.seen
  · simp [hmem]
  · cases s.merkleOk <;> rcases s.sigOk with _ | _ | _ <;> simp [hmem]

/-- Only an accepted shred changes the accepted part of a set. -/
theorem SetState.absorb_toAccepted (st : SetState) (s : VerifiedShred) :
    (st.absorb s).toAccepted =
      if st.fate s = .accepted then st.toAccepted.accept s else st.toAccepted := by
  unfold absorb
  cases st.fate s with
  | duplicate => rfl
  | invalid => rfl
  | unverifiable => rfl
  | accepted => rfl

/-- The leader-signed copies after an accepted shred. -/
def recordTruth (truth : Truth) (s : VerifiedShred) : Truth :=
  match s.dataHash with
  | some hash => truth.insert s.truthKey hash
  | none => truth

namespace Aggregator

/-- The state of the set that a shred goes into, before it. -/
def setFor (agg : Aggregator) (s : VerifiedShred) : SetState :=
  (agg.sets.lookup s.setKey).getD (SetState.new s.leader s.rxUnixNs)

/-- `Aggregator::ingest` -/
def ingest (agg : Aggregator) (s : VerifiedShred) : Aggregator :=
  let agg := { agg with
    maxSlot := max agg.maxSlot s.slot
    latestSlot :=
      if s.isAuthentic then agg.latestSlot.upsert s.provider 0 (max · s.slot)
      else agg.latestSlot }
  if s.slot ≤ agg.evictedUpto then
    { agg with shredsAfterWindow := agg.shredsAfterWindow + 1 }
  else
    { agg with
      sets := agg.sets.insert s.setKey ((agg.setFor s).absorb s)
      truth := if (agg.setFor s).fate s = .accepted then recordTruth agg.truth s else agg.truth }

end Aggregator

namespace Aggregator

/-- A shred raises the highest slot. -/
@[simp] theorem ingest_maxSlot (agg : Aggregator) (s : VerifiedShred) :
    (agg.ingest s).maxSlot = max agg.maxSlot s.slot := by
  unfold ingest
  dsimp only
  split_ifs <;> rfl

/-- A shred does not change the configuration. -/
@[simp] theorem ingest_maxWaitSlots (agg : Aggregator) (s : VerifiedShred) :
    (agg.ingest s).maxWaitSlots = agg.maxWaitSlots := by
  unfold ingest
  dsimp only
  split_ifs <;> rfl

/-- A shred does not move the floor. -/
@[simp] theorem ingest_evictedUpto (agg : Aggregator) (s : VerifiedShred) :
    (agg.ingest s).evictedUpto = agg.evictedUpto := by
  unfold ingest
  dsimp only
  split_ifs <;> rfl

/-- A late shred goes into no set. -/
theorem ingest_sets_of_late {agg : Aggregator} {s : VerifiedShred} (h : s.slot ≤ agg.evictedUpto) :
    (agg.ingest s).sets = agg.sets := by
  unfold ingest
  dsimp only
  rw [if_pos h]

/-- Only a late shred is counted as late. -/
theorem ingest_shredsAfterWindow (agg : Aggregator) (s : VerifiedShred) :
    (agg.ingest s).shredsAfterWindow =
      if s.slot ≤ agg.evictedUpto then agg.shredsAfterWindow + 1 else agg.shredsAfterWindow := by
  unfold ingest
  dsimp only
  split_ifs <;> rfl

/-- A shred that is not late goes into the set of its key, and no other set changes. -/
theorem lookup_ingest (agg : Aggregator) (s : VerifiedShred) (key : SetKey) :
    (agg.ingest s).sets.lookup key =
      if key = s.setKey ∧ agg.evictedUpto < s.slot then some ((agg.setFor s).absorb s)
      else agg.sets.lookup key := by
  by_cases hlate : s.slot ≤ agg.evictedUpto
  · rw [ingest_sets_of_late hlate, if_neg (fun h => absurd h.2 (not_lt.mpr hlate))]
  · have hsets : (agg.ingest s).sets = agg.sets.insert s.setKey ((agg.setFor s).absorb s) := by
      unfold ingest
      dsimp only
      rw [if_neg hlate]
      rfl
    rw [hsets]
    by_cases hkey : key = s.setKey
    · rw [if_pos ⟨hkey, not_le.mp hlate⟩, hkey, AList.lookup_insert]
    · rw [if_neg (fun h => hkey h.1), AList.lookup_insert_ne hkey]

end Aggregator

/-! ### Emitting sets -/

/-- `count_ones` -/
def countOnes (bits : BitVec maxPosition) : ℕ :=
  (List.range maxPosition).countP bits.getLsbD

/-- Whether a shred that failed verification has the data of a leader-signed copy (`some true`),
other data (`some false`), or nothing to be compared with. -/
def matchesTruth (truth : Truth) (slot fecSetIndex : ℕ) (shred : Bool × ℕ × Option Hash) :
    Option Bool :=
  match shred.2.2, truth.lookup ⟨slot, fecSetIndex, shred.1, shred.2.1⟩ with
  | some got, some want => some (got == want)
  | _, _ => none

/-- The time of the `k`-th arrival, when the set became decodable. -/
def Accepted.decodeNs (acc : Accepted) : Option ℤ :=
  let k := acc.numData.getD 0
  if 0 < k ∧ k ≤ acc.arrivals.length then (acc.arrivals.insertionSort (· ≤ ·))[k - 1]? else none

/-- `expected_total` -/
def Accepted.expectedTotal (acc : Accepted) : Option ℕ :=
  match acc.numData, acc.numCoding with
  | some numData, some numCoding => some (numData + numCoding)
  | _, _ => none

/-- `finalize` -/
def finalize (key : SetKey) (st : SetState) (truth : Truth) : SetRow :=
  let verdicts := st.invalidShreds.map (matchesTruth truth key.slot key.fecSetIndex)
  let delivered := countOnes st.dataPos + countOnes st.codePos
  let invalid := st.invalidShreds.length % u32Size
  { provider := key.provider
    slot := key.slot
    fecSetIndex := key.fecSetIndex
    leader := st.leader
    firstNs := st.firstNs.getD st.createdNs
    decodeNs := st.decodeNs
    lastNs := st.lastNs.getD st.createdNs
    nData := countOnes st.dataPos
    nCode := countOnes st.codePos
    expectedTotal := st.expectedTotal
    missed := st.expectedTotal.getD delivered - delivered
    invalid := invalid
    invalidSig := verdicts.count (some true) % u32Size
    invalidData := verdicts.count (some false) % u32Size
    invalidUnknown := verdicts.count none % u32Size
    duplicated := st.duplicated
    sigUnverifiable := st.unverifiable
    isValid := invalid == 0 && st.unverifiable == 0 && st.decodeNs.isSome
    lastInSlot := st.lastInSlot }

/-- The key of the set that a row is about. -/
def SetRow.key (row : SetRow) : SetKey := ⟨row.provider, row.slot, row.fecSetIndex⟩

/-- A row is about the set it was made of. -/
@[simp] theorem key_finalize (key : SetKey) (st : SetState) (truth : Truth) :
    (finalize key st truth).key = key := rfl

namespace Aggregator

/-- The slot at or below which a harvest emits. -/
def cutoff (agg : Aggregator) : ℕ := agg.maxSlot - agg.maxWaitSlots

/-- Whether a harvest emits the set of a key. -/
def ready (agg : Aggregator) (drainAll : Bool) (key : SetKey) : Bool :=
  drainAll || key.slot ≤ agg.cutoff

/-- `Aggregator::harvest` -/
def harvest (agg : Aggregator) (drainAll : Bool) : Aggregator × List SetRow :=
  let rows := (agg.sets.entries.filter fun set => agg.ready drainAll set.1).map
    fun set => finalize set.1 set.2 agg.truth
  let sets := agg.sets.retain fun key _ => !agg.ready drainAll key
  if drainAll then
    ({ agg with sets := sets, truth := ∅, evictedUpto := agg.cutoff }, rows)
  else if agg.cutoff > agg.evictedUpto then
    -- only prune when the cutoff advances
    ({ agg with
        sets := sets
        truth := agg.truth.retain fun key _ => agg.cutoff < key.slot
        evictedUpto := agg.cutoff }, rows)
  else ({ agg with sets := sets }, rows)

/-- A harvest keeps the sets that are not ready. -/
@[simp] theorem harvest_sets (agg : Aggregator) (drainAll : Bool) :
    (agg.harvest drainAll).1.sets = agg.sets.retain fun key _ => !agg.ready drainAll key := by
  unfold harvest
  split_ifs <;> rfl

/-- A harvest does not change the highest slot. -/
@[simp] theorem harvest_maxSlot (agg : Aggregator) (drainAll : Bool) :
    (agg.harvest drainAll).1.maxSlot = agg.maxSlot := by
  unfold harvest
  split_ifs <;> rfl

/-- A harvest does not change the configuration. -/
@[simp] theorem harvest_maxWaitSlots (agg : Aggregator) (drainAll : Bool) :
    (agg.harvest drainAll).1.maxWaitSlots = agg.maxWaitSlots := by
  unfold harvest
  split_ifs <;> rfl

/-- A harvest moves the floor to the cutoff, and only a drain could move it down. -/
theorem harvest_evictedUpto (agg : Aggregator) (drainAll : Bool) :
    (agg.harvest drainAll).1.evictedUpto =
      if drainAll then agg.cutoff else max agg.evictedUpto agg.cutoff := by
  unfold harvest
  by_cases hdrain : drainAll = true
  · rw [if_pos hdrain, if_pos hdrain]
  · rw [if_neg hdrain, if_neg hdrain]
    by_cases hadvance : agg.cutoff > agg.evictedUpto
    · rw [if_pos hadvance, max_eq_right hadvance.le]
    · rw [if_neg hadvance, max_eq_left (not_lt.mp hadvance)]

/-- The rows of a harvest. -/
lemma harvest_rows (agg : Aggregator) (drainAll : Bool) :
    (agg.harvest drainAll).2 = (agg.sets.entries.filter fun set => agg.ready drainAll set.1).map
      fun set => finalize set.1 set.2 agg.truth := by
  unfold harvest
  split_ifs <;> rfl

/-- A harvest emits the pending sets that are ready. -/
theorem mem_harvest_iff {agg : Aggregator} {drainAll : Bool} {row : SetRow} :
    row ∈ (agg.harvest drainAll).2 ↔ ∃ key st, agg.sets.lookup key = some st ∧
      agg.ready drainAll key = true ∧ row = finalize key st agg.truth := by
  rw [harvest_rows]
  constructor
  · intro h
    obtain ⟨set, hset, rfl⟩ := List.mem_map.mp h
    obtain ⟨hmem, hready⟩ := List.mem_filter.mp hset
    exact ⟨set.1, set.2, AList.mem_entries_iff_lookup.mp hmem, hready, rfl⟩
  · intro ⟨key, st, hlookup, hready, hrow⟩
    rw [hrow]
    have hmem : (⟨key, st⟩ : Sigma fun _ : SetKey => SetState) ∈ agg.sets.entries :=
      AList.mem_entries_iff_lookup.mpr hlookup
    exact List.mem_map.mpr ⟨⟨key, st⟩, List.mem_filter.mpr ⟨hmem, hready⟩, rfl⟩

/-- A harvest emits no key twice. -/
theorem nodup_keys_harvest (agg : Aggregator) (drainAll : Bool) :
    ((agg.harvest drainAll).2.map SetRow.key).Nodup := by
  rw [harvest_rows, List.map_map]
  have hkeys : (agg.sets.entries.map Sigma.fst).Nodup := agg.sets.nodupKeys
  exact hkeys.sublist (List.filter_sublist.map Sigma.fst)

end Aggregator

end ShredTools.Audit
