import Mathlib.Data.List.Basic
import ShredTools.Deshred.DataSetEnds
import ShredTools.Library.KeyedList
import ShredTools.Library.Segments

/-!
# The shreds of one slot

`SlotState` collects the data and coding shreds of one slot: the data shreds by index, the bitset
of indices that close a data set, and one `CodingSet` for each FEC set that may still need
Reed-Solomon recovery.  This file has the operations of the source on it, except the emission of
data sets, and for each of them what it does to the data shred at every index (`dataShred`), to
the end markers, to the coding sets and to the rest of the state.

A `Shred` stands for a shred that parsed.  Parsing and recovery are the work of the shred library:
`Agave` has the three of its functions the code calls, as parameters.
-/

namespace ShredTools.Deshred

/-- `MAX_RECOVERY_ATTEMPTS` -/
def maxRecoveryAttempts : ℕ := 3

/-- `SIZE_OF_COMMON_SHRED_HEADER` -/
def sizeOfCommonShredHeader : ℕ := 83

/-- A parsed shred: the header fields the code asks for and the payload. -/
structure Shred where
  /-- The slot of the shred. -/
  slot : ℕ
  /-- The index of the shred, among the data shreds or among the coding shreds of the slot. -/
  index : ℕ
  /-- The index of the first data shred of its FEC set. -/
  fecSetIndex : ℕ
  /-- Whether it is a data shred; otherwise it is a coding shred. -/
  isData : Bool
  /-- Whether it is the last shred of a data set. -/
  dataComplete : Bool
  /-- Whether it is the last data shred of the slot. -/
  lastInSlot : Bool
  /-- The bytes of the shred. -/
  payload : List UInt8
  /-- Parsing refuses an index of 32768 or more, so the index after one is still a `u32`. -/
  index_lt : index + 1 < 2 ^ 32
  deriving DecidableEq

/-- The functions of the shred library the code calls; their errors carry nothing the code reads. -/
structure Agave (Entry : Type*) where
  /-- `recover`: the shreds rebuilt from those of one FEC set, each parsed or not. -/
  recover : List Shred → Option (List (Option Shred))
  /-- `Shredder::deshred`: the bytes of a data set from the payloads of its shreds. -/
  deshred : List (List UInt8) → Option (List UInt8)
  /-- `Deserialize::deserialize`: the entries in the bytes of a data set. -/
  deserialize : List UInt8 → Option (List Entry)

/-- The place of a data shred: not here yet, held until its data set is complete, or emitted. -/
inductive DataShred where
  | missing
  | held (shred : Shred)
  | emitted
  deriving DecidableEq

/-- The coding shreds of one FEC set, kept until its data shreds are all there. -/
structure CodingSet where
  /-- The index of the first data shred of the set. -/
  fecSetIndex : ℕ
  /-- The number of data shreds of the set. -/
  numDataShreds : ℕ
  /-- The coding shreds held. -/
  codingShreds : List Shred
  /-- How often recovery was tried. -/
  recoveryAttempts : ℕ
  deriving DecidableEq

/-- The last index of the data range of a FEC set, computed in `u32`. -/
def dataRangeEnd (fecSetIndex numDataShreds : ℕ) : ℕ :=
  (fecSetIndex + numDataShreds - 1) % 2 ^ 32

/-- `CodingSet::data_range` -/
def CodingSet.dataRange (set : CodingSet) : List ℕ :=
  rangeInclusive set.fecSetIndex (dataRangeEnd set.fecSetIndex set.numDataShreds)

/-- Add a coding shred to its set, unless the set holds one of the same index. -/
def CodingSet.push (set : CodingSet) (shred : Shred) : CodingSet :=
  if set.codingShreds.any fun held => held.index == shred.index then set
  else { set with codingShreds := set.codingShreds ++ [shred] }

/-- The state of one slot. -/
structure SlotState where
  /-- The slot. -/
  slot : ℕ
  /-- The data shreds by index. -/
  dataShreds : List DataShred
  /-- The bitset of the indices that close a data set. -/
  dataSetEnds : List (BitVec 64)
  /-- The FEC sets with coding shreds. -/
  codingSets : List CodingSet
  /-- The index of the last data shred of the slot, once known. -/
  lastShredIndex : Option ℕ
  /-- The number of data shreds emitted. -/
  emittedShreds : ℕ
  /-- Whether every data shred was emitted. -/
  finished : Bool
  deriving DecidableEq

/-- What a recovery did. -/
structure RecoveryStats where
  /-- The first index of the FEC set. -/
  rangeStart : ℕ
  /-- The last index of the FEC set. -/
  rangeEnd : ℕ
  /-- The number of data shreds recovery brought. -/
  recoveredShreds : ℕ
  /-- Whether recovery failed, or rebuilt a shred that would not parse. -/
  failed : Bool

/-- `num_data_shreds`: the number of data shreds a coding shred says its FEC set has. -/
def numDataShreds (codingShredPayload : List UInt8) : Option ℕ :=
  match codingShredPayload[sizeOfCommonShredHeader]?,
      codingShredPayload[sizeOfCommonShredHeader + 1]? with
  | some lo, some hi =>
    let num := lo.toNat + 256 * hi.toNat
    if num > 0 then some num else none
  | _, _ => none

/-- `missing_data_shreds`: how many indices of a range have no data shred. -/
def missingDataShreds (dataShreds : List DataShred) (dataRange : List ℕ) : ℕ :=
  (dataRange.filter fun index => dataShreds.getD index .missing = .missing).length

/-- The vector of data shreds, resized with missing ones if an index lies beyond its end. -/
def growTo (dataShreds : List DataShred) (index : ℕ) : List DataShred :=
  if index ≥ dataShreds.length then
    dataShreds ++ List.replicate (index + 1 - dataShreds.length) .missing
  else dataShreds

namespace SlotState

/-- `SlotState::new` -/
def new (slot : ℕ) : SlotState where
  slot := slot
  dataShreds := []
  dataSetEnds := []
  codingSets := []
  lastShredIndex := none
  emittedShreds := 0
  finished := false

/-- The data shred at an index; nothing is there beyond the end of the vector. -/
def dataShred (st : SlotState) (index : ℕ) : DataShred :=
  st.dataShreds.getD index .missing

/-- The shred held at an index, if there is one. -/
def heldShred (st : SlotState) (index : ℕ) : Option Shred :=
  match st.dataShred index with
  | .held shred => some shred
  | _ => none

/-- `SlotState::is_held` -/
def isHeld (st : SlotState) (shredIndex : ℕ) : Bool :=
  (st.heldShred shredIndex).isSome

/-- `SlotState::insert_data_shred`: put a data shred in its place unless the place is taken. -/
def insertDataShred (st : SlotState) (shred : Shred) : SlotState × Bool :=
  let dataShreds := growTo st.dataShreds shred.index
  if dataShreds.getD shred.index .missing ≠ .missing then ({ st with dataShreds }, false)
  else
    ({ st with
      dataShreds := dataShreds.set shred.index (.held shred)
      dataSetEnds :=
        if shred.dataComplete then setBit st.dataSetEnds shred.index else st.dataSetEnds
      lastShredIndex := if shred.lastInSlot then some shred.index else st.lastShredIndex }, true)

/-- `SlotState::insert_coding_shred`: keep a coding shred whose FEC set still misses data. -/
def insertCodingShred (st : SlotState) (shred : Shred) : SlotState :=
  match numDataShreds shred.payload with
  | none => st
  | some num =>
    let dataRange := rangeInclusive shred.fecSetIndex (dataRangeEnd shred.fecSetIndex num)
    if missingDataShreds st.dataShreds dataRange = 0 then st
    else
      let (codingSets, position) : List CodingSet × ℕ :=
        match st.codingSets.findIdx? fun set => set.fecSetIndex == shred.fecSetIndex with
        | some position => (st.codingSets, position)
        | none => (st.codingSets ++ [{
            fecSetIndex := shred.fecSetIndex, numDataShreds := num, codingShreds := [],
            recoveryAttempts := 0 }], st.codingSets.length)
      { st with codingSets := codingSets.modify position fun set => set.push shred }

/-- One shred of a recovery: data shreds go to their places and are counted if these were free. -/
def insertRecovered (acc : SlotState × ℕ × Bool) (shred : Option Shred) : SlotState × ℕ × Bool :=
  let (st, recovered, failed) := acc
  match shred with
  | some shred =>
    if shred.isData then
      let (st, inserted) := st.insertDataShred shred
      (st, if inserted then recovered + 1 else recovered, failed)
    else (st, recovered, failed)
  | none => (st, recovered, true)

/-- The call of `recover` and the loop over what it returns. -/
def rebuild {Entry : Type*} (agave : Agave Entry) (st : SlotState) (recoveryInput : List Shred) :
    SlotState × ℕ × Bool :=
  match agave.recover recoveryInput with
  | some shreds => shreds.foldl insertRecovered (st, 0, false)
  | none => (st, 0, true)

/-- `SlotState::recover`: try to rebuild the missing data shreds of a FEC set. -/
def recover {Entry : Type*} (agave : Agave Entry) (st : SlotState) (fecSetIndex : ℕ) :
    SlotState × Option RecoveryStats :=
  match st.codingSets.findFinIdx? fun set => set.fecSetIndex == fecSetIndex with
  | none => (st, none)
  | some position =>
    let set := st.codingSets.get position
    if missingDataShreds st.dataShreds set.dataRange = 0 then
      ({ st with codingSets := st.codingSets.swapRemove position }, none)
    else
      let held := set.dataRange.filter st.isHeld
      if held.length + set.codingShreds.length < set.numDataShreds ∨
          set.recoveryAttempts ≥ maxRecoveryAttempts then (st, none)
      else
        let recoveryInput := set.dataRange.filterMap st.heldShred ++ set.codingShreds
        let tried := { st with
          codingSets := st.codingSets.set position
            { set with recoveryAttempts := set.recoveryAttempts + 1 } }
        let (rebuilt, recoveredShreds, failed) := tried.rebuild agave recoveryInput
        let done :=
          if missingDataShreds rebuilt.dataShreds set.dataRange = 0 then
            { rebuilt with codingSets := rebuilt.codingSets.swapRemove position }
          else rebuilt
        (done, some ⟨set.fecSetIndex, dataRangeEnd set.fecSetIndex set.numDataShreds,
          recoveredShreds, failed⟩)

/-! ### What is at an index -/

/-- Growing the vector changes what is at no index. -/
@[simp] lemma getD_growTo (dataShreds : List DataShred) (n i : ℕ) :
    (growTo dataShreds n).getD i .missing = dataShreds.getD i .missing := by
  unfold growTo
  split_ifs
  · simp only [List.getD_eq_getElem?_getD, List.getElem?_append, List.getElem?_replicate]
    split_ifs with h h'
    · rfl
    · simp [List.getElem?_eq_none (not_lt.mp h)]
    · simp [List.getElem?_eq_none (not_lt.mp h)]
  · rfl

/-- After growing, the index is in range. -/
lemma lt_length_growTo (dataShreds : List DataShred) (n : ℕ) :
    n < (growTo dataShreds n).length := by
  unfold growTo
  split_ifs
  · simp only [List.length_append, List.length_replicate]
    omega
  · omega

/-- No shred is held in a new slot. -/
@[simp] theorem dataShred_new (slot i : ℕ) : (new slot).dataShred i = .missing := rfl

/-- A shred is held at an index exactly when it is the data shred there. -/
theorem heldShred_eq_some_iff {st : SlotState} {i : ℕ} {shred : Shred} :
    st.heldShred i = some shred ↔ st.dataShred i = .held shred := by
  unfold heldShred
  cases st.dataShred i <;> simp

/-- The test for a held shred. -/
theorem isHeld_iff {st : SlotState} {i : ℕ} :
    st.isHeld i = true ↔ ∃ shred, st.dataShred i = .held shred := by
  simp only [isHeld, Option.isSome_iff_exists, heldShred_eq_some_iff]

/-- No index of a range is missing. -/
theorem missingDataShreds_eq_zero_iff {st : SlotState} {range : List ℕ} :
    missingDataShreds st.dataShreds range = 0 ↔ ∀ i ∈ range, st.dataShred i ≠ .missing := by
  simp [missingDataShreds, List.filter_eq_nil_iff, dataShred]

/-! ### Inserting a data shred -/

/-- Where the place is taken, only the vector may grow. -/
theorem insertDataShred_taken {st : SlotState} {shred : Shred}
    (h : st.dataShred shred.index ≠ .missing) :
    st.insertDataShred shred =
      ({ st with dataShreds := growTo st.dataShreds shred.index }, false) := by
  unfold insertDataShred
  dsimp only
  rw [getD_growTo]
  exact if_pos h

/-- Where the place is free, the shred is put there and its flags are noted. -/
theorem insertDataShred_free {st : SlotState} {shred : Shred}
    (h : st.dataShred shred.index = .missing) :
    st.insertDataShred shred =
      ({ st with
        dataShreds := (growTo st.dataShreds shred.index).set shred.index (.held shred)
        dataSetEnds :=
          if shred.dataComplete then setBit st.dataSetEnds shred.index else st.dataSetEnds
        lastShredIndex :=
          if shred.lastInSlot then some shred.index else st.lastShredIndex }, true) := by
  unfold insertDataShred
  dsimp only
  rw [getD_growTo]
  exact if_neg (not_not_intro h)

/-- A data shred goes to its place when the place is free; nothing else changes place. -/
theorem dataShred_insertDataShred (st : SlotState) (shred : Shred) (i : ℕ) :
    (st.insertDataShred shred).1.dataShred i =
      if i = shred.index ∧ st.dataShred i = .missing then .held shred else st.dataShred i := by
  by_cases hfree : st.dataShred shred.index = .missing
  · have hlen := lt_length_growTo st.dataShreds shred.index
    rw [insertDataShred_free hfree]
    change ((growTo st.dataShreds shred.index).set shred.index (.held shred)).getD i .missing = _
    rw [List.getD_eq_getElem?_getD, List.getElem?_set]
    by_cases hi : i = shred.index
    · subst hi
      rw [if_pos rfl, if_pos hlen, if_pos (And.intro rfl hfree), Option.getD_some]
    · rw [if_neg (Ne.symm hi), if_neg (fun h => hi h.1), ← List.getD_eq_getElem?_getD, getD_growTo]
      rfl
  · rw [insertDataShred_taken hfree, if_neg]
    · exact getD_growTo ..
    · rintro ⟨rfl, h⟩
      exact hfree h

/-- A data shred is inserted exactly when its place is free. -/
theorem insertDataShred_snd (st : SlotState) (shred : Shred) :
    (st.insertDataShred shred).2 = true ↔ st.dataShred shred.index = .missing := by
  by_cases h : st.dataShred shred.index = .missing
  · simp [insertDataShred_free h, h]
  · simp [insertDataShred_taken h, h]

/-- Inserting a data shred leaves the coding sets alone. -/
@[simp] theorem codingSets_insertDataShred (st : SlotState) (shred : Shred) :
    (st.insertDataShred shred).1.codingSets = st.codingSets := by
  unfold insertDataShred
  dsimp only
  split_ifs <;> rfl

/-! ### Inserting a coding shred -/

/-- A coding shred changes the coding sets only. -/
theorem insertCodingShred_eq (st : SlotState) (shred : Shred) :
    st.insertCodingShred shred =
      { st with codingSets := (st.insertCodingShred shred).codingSets } := by
  unfold insertCodingShred
  cases numDataShreds shred.payload with
  | none => rfl
  | some num =>
    dsimp only
    split_ifs <;> rfl

/-- A coding shred leaves every data shred where it is. -/
@[simp] theorem dataShred_insertCodingShred (st : SlotState) (shred : Shred) (i : ℕ) :
    (st.insertCodingShred shred).dataShred i = st.dataShred i := by
  rw [insertCodingShred_eq]
  rfl

/-- The FEC sets that have a coding set. -/
def codingKeys (st : SlotState) : List ℕ := st.codingSets.map CodingSet.fecSetIndex

/-- A coding shred is turned away when it does not say the size of its FEC set or when the data
of its FEC set is all there. -/
theorem insertCodingShred_ignored {st : SlotState} {shred : Shred}
    (h : ∀ num, numDataShreds shred.payload = some num → missingDataShreds st.dataShreds
      (rangeInclusive shred.fecSetIndex (dataRangeEnd shred.fecSetIndex num)) = 0) :
    st.insertCodingShred shred = st := by
  unfold insertCodingShred
  cases hnum : numDataShreds shred.payload with
  | none => rfl
  | some num => exact if_pos (h num hnum)

/-- Otherwise it is pushed to the coding set of its FEC set, which is created if there is none. -/
theorem insertCodingShred_kept {st : SlotState} {shred : Shred} {num : ℕ}
    (hkeys : st.codingKeys.Nodup) (hnum : numDataShreds shred.payload = some num)
    (hmissing : missingDataShreds st.dataShreds
      (rangeInclusive shred.fecSetIndex (dataRangeEnd shred.fecSetIndex num)) ≠ 0) :
    (st.insertCodingShred shred).codingKeys.Nodup ∧
    ∃ set : CodingSet, set.fecSetIndex = shred.fecSetIndex ∧
      (set ∈ st.codingSets ∨
        shred.fecSetIndex ∉ st.codingKeys ∧ set = ⟨shred.fecSetIndex, num, [], 0⟩) ∧
      ∀ c, c ∈ (st.insertCodingShred shred).codingSets ↔
        (c ∈ st.codingSets ∧ c.fecSetIndex ≠ shred.fecSetIndex) ∨ c = set.push shred := by
  have hpush : ∀ set : CodingSet, (set.push shred).fecSetIndex = set.fecSetIndex := by
    intro set
    unfold CodingSet.push
    split_ifs <;> rfl
  unfold insertCodingShred codingKeys
  simp only [hnum, hmissing, if_false]
  -- the coding set of the FEC set is there, or is appended
  cases hpos : st.codingSets.findIdx? fun set => set.fecSetIndex == shred.fecSetIndex with
  | some position =>
    obtain ⟨hlt, hkey, -⟩ := List.findIdx?_eq_some_iff_getElem.mp hpos
    rw [beq_iff_eq] at hkey
    dsimp only
    rw [List.map_modify_of_key hpush]
    refine ⟨hkeys, st.codingSets[position], hkey, Or.inl (List.getElem_mem hlt), fun c => ?_⟩
    rw [List.mem_modify_iff_of_keys hkeys hlt, hkey]
  | none =>
    have hnone : shred.fecSetIndex ∉ st.codingKeys := by
      rw [List.findIdx?_eq_none_iff] at hpos
      intro hmem
      obtain ⟨c, hc, heq⟩ := List.mem_map.mp hmem
      simpa [heq] using hpos c hc
    have hkeys' : ((st.codingSets ++ [(⟨shred.fecSetIndex, num, [], 0⟩ : CodingSet)]).map
        CodingSet.fecSetIndex).Nodup := by
      rw [List.map_append, List.nodup_append]
      refine ⟨hkeys, by simp, ?_⟩
      rintro a ha b hb rfl
      simp only [List.map_cons, List.map_nil, List.mem_singleton] at hb
      subst hb
      exact hnone ha
    have hlt : st.codingSets.length <
        (st.codingSets ++ [(⟨shred.fecSetIndex, num, [], 0⟩ : CodingSet)]).length := by simp
    dsimp only
    rw [List.map_modify_of_key hpush]
    refine ⟨hkeys', ⟨shred.fecSetIndex, num, [], 0⟩, rfl, Or.inr ⟨hnone, rfl⟩, fun c => ?_⟩
    rw [List.mem_modify_iff_of_keys hkeys' hlt]
    simp only [List.getElem_concat_length, List.mem_append, List.mem_singleton]
    constructor
    · rintro (⟨hc | rfl, hne⟩ | rfl)
      · exact Or.inl ⟨hc, hne⟩
      · exact absurd rfl hne
      · exact Or.inr rfl
    · rintro (⟨hc, hne⟩ | rfl)
      · exact Or.inl ⟨Or.inl hc, hne⟩
      · exact Or.inr rfl

end SlotState

end ShredTools.Deshred
