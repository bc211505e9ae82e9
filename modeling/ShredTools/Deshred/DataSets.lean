import Mathlib.Algebra.BigOperators.Group.List.Basic
import ShredTools.Deshred.SlotState

/-!
# Taking completed data sets

After an insertion, `takeCompletedDataSets` walks along the end markers from the one before the
inserted range and takes every data set whose shreds are all held.  `takeCompletedDataSets_spec`
says what the walk does: the data sets taken are segments between consecutive end markers, in
ascending order, and if the slot does not become finished on the way, none that touches the
inserted range is left behind.

A data set taken may fail to decode.  `TakenDataSet` therefore records the range and the shreds of
every data set taken, together with what it decodes to, so that those that only count as decode
errors can be spoken of too.
-/

namespace ShredTools.Deshred

/-- A data set that decoded. -/
structure CompletedDataSet (Entry : Type*) where
  /-- The slot. -/
  slot : ℕ
  /-- The first shred index of the data set. -/
  startShredIndex : ℕ
  /-- The last shred index of the data set. -/
  endShredIndex : ℕ
  /-- The entries of the data set. -/
  entries : List Entry
  deriving DecidableEq

/-- A data set taken from a slot, whether it decodes or not. -/
structure TakenDataSet (Entry : Type*) where
  /-- The slot. -/
  slot : ℕ
  /-- The first shred index of the data set. -/
  startShredIndex : ℕ
  /-- The last shred index of the data set. -/
  endShredIndex : ℕ
  /-- The shreds taken. -/
  dataShreds : List Shred
  /-- What `take_data_set` returns: the decoded data set, if it decodes. -/
  completed : Option (CompletedDataSet Entry)

variable {Entry : Type*}

/-- The end of `take_data_set`: deshred the payloads and deserialize the bytes. -/
def decode (agave : Agave Entry) (slot start stop : ℕ) (dataShreds : List Shred) :
    Option (CompletedDataSet Entry) :=
  (agave.deshred (dataShreds.map Shred.payload)).bind fun bytes =>
    (agave.deserialize bytes).map fun entries => ⟨slot, start, stop, entries⟩

/-- The data shreds with those of a range marked as emitted. -/
def markEmitted (dataShreds : List DataShred) (start stop : ℕ) : List DataShred :=
  dataShreds.mapIdx fun index entry => if start ≤ index ∧ index ≤ stop then .emitted else entry

namespace SlotState

/-- `SlotState::finish`: free everything held. -/
def finish (st : SlotState) : SlotState :=
  { st with finished := true, dataShreds := [], dataSetEnds := [], codingSets := [] }

/-- `SlotState::take_data_set`: emit the shreds of a range and decode them. -/
def takeDataSet (agave : Agave Entry) (st : SlotState) (start stop : ℕ) :
    SlotState × TakenDataSet Entry :=
  let dataShreds := (rangeInclusive start stop).filterMap st.heldShred
  let emitted := markEmitted st.dataShreds start stop
  let st' := { st with
    dataShreds := emitted
    emittedShreds := st.emittedShreds + (stop + 1 - start)
    codingSets := st.codingSets.filter fun set =>
      let overlaps := set.fecSetIndex ≤ stop ∧
        dataRangeEnd set.fecSetIndex set.numDataShreds ≥ start
      ¬ overlaps ∨ missingDataShreds emitted set.dataRange > 0 }
  let st'' :=
    if st'.lastShredIndex.any fun last => st'.emittedShreds = last + 1 then st'.finish else st'
  (st'', ⟨st.slot, start, stop, dataShreds, decode agave st.slot start stop dataShreds⟩)

/-- One turn of the loop of `take_completed_data_sets`: take the data set if it is all held. -/
def takeIfHeld (agave : Agave Entry) (st : SlotState) (start stop : ℕ) :
    SlotState × List (TakenDataSet Entry) :=
  if (rangeInclusive start stop).all st.isHeld then
    let (st, dataSet) := st.takeDataSet agave start stop
    (st, [dataSet])
  else (st, [])

/-- The loop of `take_completed_data_sets`. -/
def takeLoop (agave : Agave Entry) (insertedEnd : ℕ) (st : SlotState)
    (dataSetStart searchFrom : ℕ) : SlotState × List (TakenDataSet Entry) :=
  match _h : nextBitFrom st.dataSetEnds searchFrom with
  | none => (st, [])
  | some dataSetEnd =>
    let (st', taken) := st.takeIfHeld agave dataSetStart dataSetEnd
    if dataSetEnd > insertedEnd then (st', taken)
    else
      let (st'', rest) := takeLoop agave insertedEnd st' (dataSetEnd + 1) (dataSetEnd + 1)
      (st'', taken ++ rest)
  termination_by insertedEnd + 1 - searchFrom
  decreasing_by
    have := (nextBitFrom_eq_some_iff.mp _h).1.1
    omega

/-- `SlotState::take_completed_data_sets` -/
def takeCompletedDataSets (agave : Agave Entry) (st : SlotState) (insertedStart insertedEnd : ℕ) :
    SlotState × List (TakenDataSet Entry) :=
  let dataSetStart :=
    match lastBitBefore st.dataSetEnds insertedStart with
    | some stop => stop + 1
    | none => 0
  st.takeLoop agave insertedEnd dataSetStart insertedStart

/-! ### Taking one data set -/

/-- Every shred of the range is held. -/
def AllHeld (st : SlotState) (start stop : ℕ) : Prop :=
  ∀ i, start ≤ i → i ≤ stop → ∃ shred, st.dataShred i = .held shred

/-- The test of the loop. -/
theorem all_isHeld_iff {st : SlotState} {start stop : ℕ} :
    (rangeInclusive start stop).all st.isHeld = true ↔ st.AllHeld start stop := by
  simp only [List.all_eq_true, mem_rangeInclusive, isHeld_iff, AllHeld, and_imp]

/-- A data set as `take_data_set` takes it from a state in which it is complete. -/
structure TakenFrom (agave : Agave Entry) (st : SlotState) (dataSet : TakenDataSet Entry) :
    Prop where
  /-- The range lies between consecutive end markers. -/
  segment : Segment (HasBit st.dataSetEnds) dataSet.startShredIndex dataSet.endShredIndex
  /-- All its shreds are held. -/
  allHeld : st.AllHeld dataSet.startShredIndex dataSet.endShredIndex
  /-- The data set is of the slot. -/
  slot : dataSet.slot = st.slot
  /-- The data set consists of the shreds held, in the order of their indices. -/
  dataShreds : dataSet.dataShreds =
    (rangeInclusive dataSet.startShredIndex dataSet.endShredIndex).filterMap st.heldShred
  /-- The data set is decoded from its shreds. -/
  completed : dataSet.completed = decode agave dataSet.slot dataSet.startShredIndex
    dataSet.endShredIndex dataSet.dataShreds

/-- The number of shreds in the ranges of some data sets. -/
def shredCount (taken : List (TakenDataSet Entry)) : ℕ :=
  (taken.map fun dataSet => dataSet.endShredIndex + 1 - dataSet.startShredIndex).sum

/-- Index `i` lies in the range of one of the data sets. -/
def Covers (taken : List (TakenDataSet Entry)) (i : ℕ) : Prop :=
  ∃ dataSet ∈ taken, dataSet.startShredIndex ≤ i ∧ i ≤ dataSet.endShredIndex

/-- `st'` is `st` after the data sets `taken` were emitted, the slot being still unfinished. -/
structure Emits (taken : List (TakenDataSet Entry)) (st st' : SlotState) : Prop where
  /-- The indices of the data sets are emitted. -/
  covered : ∀ i, Covers taken i → st'.dataShred i = .emitted
  /-- The shreds taken were held. -/
  wasHeld : ∀ i, Covers taken i → ∃ shred, st.dataShred i = .held shred
  /-- The other indices are as they were. -/
  other : ∀ i, ¬ Covers taken i → st'.dataShred i = st.dataShred i
  /-- The end markers stay. -/
  ends : st'.dataSetEnds = st.dataSetEnds
  /-- Coding sets are only dropped. -/
  codingSets : st'.codingSets.Sublist st.codingSets
  /-- None is dropped while it misses data. -/
  kept : ∀ set ∈ st.codingSets, missingDataShreds st.dataShreds set.dataRange ≠ 0 →
    set ∈ st'.codingSets
  /-- The slot is not finished. -/
  unfinished : st'.finished = false

/-- What taking data sets does to a slot, whether the slot becomes finished or not. -/
structure Takes (agave : Agave Entry) (st st' : SlotState) (taken : List (TakenDataSet Entry)) :
    Prop where
  /-- Every data set is complete in the state taken from. -/
  sound : ∀ dataSet ∈ taken, TakenFrom agave st dataSet
  /-- The data sets are in ascending order. -/
  ascending : taken.Pairwise fun dataSet later => dataSet.endShredIndex < later.startShredIndex
  /-- The slot stays. -/
  slot : st'.slot = st.slot
  /-- The last index stays. -/
  lastShredIndex : st'.lastShredIndex = st.lastShredIndex
  /-- The shreds emitted are counted. -/
  emittedShreds : st'.emittedShreds = st.emittedShreds + shredCount taken
  /-- The data sets are emitted, or all shreds of the slot are and the slot is freed. -/
  outcome : Emits taken st st' ∨
    st'.finished = true ∧ st'.dataSetEnds = [] ∧
      st'.lastShredIndex.any fun last => st'.emittedShreds = last + 1

/-- What is at an index after a range was marked. -/
lemma getD_markEmitted (dataShreds : List DataShred) (start stop i : ℕ) :
    (markEmitted dataShreds start stop).getD i .missing =
      if i < dataShreds.length ∧ start ≤ i ∧ i ≤ stop then .emitted
      else dataShreds.getD i .missing := by
  rw [List.getD_eq_getElem?_getD, List.getD_eq_getElem?_getD, markEmitted, List.getElem?_mapIdx]
  by_cases hi : i < dataShreds.length
  · rw [List.getElem?_eq_getElem hi]
    simp only [Option.map_some, Option.getD_some, hi, true_and]
  · rw [List.getElem?_eq_none (not_lt.mp hi)]
    simp [hi]

/-- Only an index inside the vector is not missing. -/
theorem lt_length_of_ne_missing {st : SlotState} {i : ℕ} (h : st.dataShred i ≠ .missing) :
    i < st.dataShreds.length := by
  by_contra hge
  apply h
  rw [dataShred, List.getD_eq_getElem?_getD, List.getElem?_eq_none (not_lt.mp hge)]
  rfl

/-- The indices that one data set covers. -/
@[simp] theorem covers_singleton {dataSet : TakenDataSet Entry} {i : ℕ} :
    Covers [dataSet] i ↔ dataSet.startShredIndex ≤ i ∧ i ≤ dataSet.endShredIndex := by
  simp [Covers]

/-- Marking a range that is held changes what is missing nowhere. -/
lemma missingDataShreds_markEmitted {st : SlotState} {start stop : ℕ}
    (hheld : st.AllHeld start stop) (range : List ℕ) :
    missingDataShreds (markEmitted st.dataShreds start stop) range =
      missingDataShreds st.dataShreds range := by
  unfold missingDataShreds
  congr 1
  refine List.filter_congr fun i _ => ?_
  rw [getD_markEmitted]
  by_cases h : i < st.dataShreds.length ∧ start ≤ i ∧ i ≤ stop
  · obtain ⟨shred, hi⟩ := hheld i h.2.1 h.2.2
    rw [if_pos h, show st.dataShreds.getD i .missing = .held shred from hi]
    simp
  · rw [if_neg h]

/-- Taking a complete data set. -/
theorem takes_takeDataSet (agave : Agave Entry) {st : SlotState} {start stop : ℕ}
    (hfin : st.finished = false) (hseg : Segment (HasBit st.dataSetEnds) start stop)
    (hheld : st.AllHeld start stop) :
    Takes agave st (st.takeDataSet agave start stop).1 [(st.takeDataSet agave start stop).2] := by
  have hplace : ∀ i, (markEmitted st.dataShreds start stop).getD i .missing =
      if start ≤ i ∧ i ≤ stop then .emitted else st.dataShred i := by
    intro i
    rw [getD_markEmitted]
    by_cases h : start ≤ i ∧ i ≤ stop
    · obtain ⟨shred, hi⟩ := hheld i h.1 h.2
      have hlt : i < st.dataShreds.length :=
        lt_length_of_ne_missing (by rw [hi]; exact DataShred.noConfusion)
      rw [if_pos ⟨hlt, h⟩, if_pos h]
    · rw [if_neg (fun hlt => h hlt.2), if_neg h]
      rfl
  have hsound : TakenFrom agave st (st.takeDataSet agave start stop).2 :=
    { segment := hseg, allHeld := hheld, slot := rfl, dataShreds := rfl, completed := rfl }
  unfold takeDataSet at hsound ⊢
  dsimp only at hsound ⊢
  -- the data set that ends the slot also finishes it
  split_ifs with hlast
  · refine
      { sound := ?_, ascending := List.pairwise_singleton _ _, slot := rfl, lastShredIndex := rfl
        emittedShreds := ?_, outcome := Or.inr ⟨rfl, rfl, hlast⟩ }
    · simpa using hsound
    · simp [finish, shredCount]
  · refine
      { sound := ?_, ascending := List.pairwise_singleton _ _, slot := rfl, lastShredIndex := rfl
        emittedShreds := ?_, outcome := Or.inl ?_ }
    · simpa using hsound
    · simp [shredCount]
    · refine
        { covered := fun i hi => ?_, wasHeld := fun i hi => ?_, other := fun i hi => ?_, ends := rfl
          codingSets := List.filter_sublist, kept := fun set hset hmissing => ?_
          unfinished := hfin }
      · exact (hplace i).trans (if_pos (covers_singleton.mp hi))
      · exact hheld i (covers_singleton.mp hi).1 (covers_singleton.mp hi).2
      · exact (hplace i).trans (if_neg (mt covers_singleton.mpr hi))
      · rw [List.mem_filter, missingDataShreds_markEmitted hheld]
        exact ⟨hset, decide_eq_true (Or.inr (Nat.pos_of_ne_zero hmissing))⟩

/-- Taking nothing. -/
theorem Takes.refl (agave : Agave Entry) {st : SlotState} (hfin : st.finished = false) :
    Takes agave st st [] where
  sound _ h := absurd h List.not_mem_nil
  ascending := List.Pairwise.nil
  slot := rfl
  lastShredIndex := rfl
  emittedShreds := rfl
  outcome := Or.inl
    { covered := fun _ ⟨_, h, _⟩ => absurd h List.not_mem_nil
      wasHeld := fun _ ⟨_, h, _⟩ => absurd h List.not_mem_nil
      other := fun _ _ => rfl
      ends := rfl
      codingSets := List.Sublist.refl _
      kept := fun _ h _ => h
      unfinished := hfin }

/-- One turn of the loop takes its segment if that is complete, and nothing else. -/
theorem takeIfHeld_spec (agave : Agave Entry) {st : SlotState} {start stop : ℕ}
    (hfin : st.finished = false) (hseg : Segment (HasBit st.dataSetEnds) start stop) :
    Takes agave st (st.takeIfHeld agave start stop).1 (st.takeIfHeld agave start stop).2 ∧
      (∀ dataSet ∈ (st.takeIfHeld agave start stop).2,
        dataSet.startShredIndex = start ∧ dataSet.endShredIndex = stop) ∧
      (st.AllHeld start stop → ∃ dataSet ∈ (st.takeIfHeld agave start stop).2,
        dataSet.startShredIndex = start ∧ dataSet.endShredIndex = stop) := by
  unfold takeIfHeld
  by_cases hheld : st.AllHeld start stop
  · rw [if_pos (all_isHeld_iff.mpr hheld)]
    refine ⟨takes_takeDataSet agave hfin hseg hheld, ?_,
      fun _ => ⟨_, List.mem_singleton_self _, ?_⟩⟩
    · intro dataSet h
      rw [List.mem_singleton.mp h]
      exact ⟨rfl, rfl⟩
    · exact ⟨rfl, rfl⟩
  · rw [if_neg (mt all_isHeld_iff.mp hheld)]
    exact ⟨Takes.refl agave hfin, fun _ h => absurd h List.not_mem_nil, fun h => absurd h hheld⟩

/-! ### The loop -/

/-- The indices that two lists of data sets cover. -/
theorem covers_append {taken taken' : List (TakenDataSet Entry)} {i : ℕ} :
    Covers (taken ++ taken') i ↔ Covers taken i ∨ Covers taken' i := by
  simp only [Covers, List.mem_append, or_and_right, exists_or]

/-- Ranges of shreds are counted one by one. -/
theorem shredCount_append (taken taken' : List (TakenDataSet Entry)) :
    shredCount (taken ++ taken') = shredCount taken + shredCount taken' := by
  simp [shredCount]

namespace Emits

variable {taken taken' : List (TakenDataSet Entry)} {st st' st'' : SlotState}

/-- What is held after an emission was held before and is not covered. -/
theorem held (h : Emits taken st st') {i : ℕ} {shred : Shred}
    (hi : st'.dataShred i = .held shred) : ¬ Covers taken i ∧ st.dataShred i = .held shred := by
  have hc : ¬ Covers taken i := by
    intro hc
    rw [h.covered i hc] at hi
    exact DataShred.noConfusion hi
  exact ⟨hc, (h.other i hc).symm.trans hi⟩

/-- Emission changes what is missing nowhere. -/
theorem missing_iff (h : Emits taken st st') (i : ℕ) :
    st'.dataShred i = .missing ↔ st.dataShred i = .missing := by
  by_cases hc : Covers taken i
  · obtain ⟨shred, hheld⟩ := h.wasHeld i hc
    rw [h.covered i hc, hheld]
    exact ⟨fun hf => DataShred.noConfusion hf, fun hf => DataShred.noConfusion hf⟩
  · rw [h.other i hc]

/-- Emission changes the number of missing shreds of no range. -/
lemma missingDataShreds_eq (h : Emits taken st st') (range : List ℕ) :
    missingDataShreds st'.dataShreds range = missingDataShreds st.dataShreds range := by
  unfold missingDataShreds
  congr 1
  refine List.filter_congr fun i _ => ?_
  exact decide_eq_decide.mpr (h.missing_iff i)

/-- A range that is all held afterwards was all held and lies outside the data sets emitted. -/
theorem allHeld (h : Emits taken st st') {start stop : ℕ} (hheld : st'.AllHeld start stop) :
    st.AllHeld start stop := by
  intro i hs he
  obtain ⟨shred, hi⟩ := hheld i hs he
  exact ⟨shred, (h.held hi).2⟩

/-- A range that is all held stays so if no index of it is emitted. -/
theorem allHeld_of_not_covers (h : Emits taken st st') {start stop : ℕ}
    (hheld : st.AllHeld start stop) (hc : ∀ i, start ≤ i → i ≤ stop → ¬ Covers taken i) :
    st'.AllHeld start stop := by
  intro i hs he
  rw [h.other i (hc i hs he)]
  exact hheld i hs he

/-- Emitting twice. -/
theorem trans (h : Emits taken st st') (h' : Emits taken' st' st'') :
    Emits (taken ++ taken') st st'' where
  covered i hi := by
    by_cases hc : Covers taken' i
    · exact h'.covered i hc
    · rw [h'.other i hc]
      exact h.covered i ((covers_append.mp hi).resolve_right hc)
  wasHeld i hi := by
    rcases covers_append.mp hi with hc | hc
    · exact h.wasHeld i hc
    · obtain ⟨shred, hheld⟩ := h'.wasHeld i hc
      exact ⟨shred, (h.held hheld).2⟩
  other i hi := by
    rw [covers_append, not_or] at hi
    rw [h'.other i hi.2, h.other i hi.1]
  ends := h'.ends.trans h.ends
  codingSets := h'.codingSets.trans h.codingSets
  kept set hset hmissing :=
    h'.kept set (h.kept set hset hmissing) (by rwa [h.missingDataShreds_eq])
  unfinished := h'.unfinished

/-- A data set complete after an emission was complete before. -/
lemma takenFrom {agave : Agave Entry} (h : Emits taken st st') (hslot : st'.slot = st.slot)
    {dataSet : TakenDataSet Entry} (ht : TakenFrom agave st' dataSet) :
    TakenFrom agave st dataSet where
  segment := h.ends ▸ ht.segment
  allHeld := h.allHeld ht.allHeld
  slot := ht.slot.trans hslot
  dataShreds := by
    rw [ht.dataShreds]
    refine List.filterMap_congr fun i hi => ?_
    rw [mem_rangeInclusive] at hi
    obtain ⟨shred, hheld⟩ := ht.allHeld i hi.1 hi.2
    rw [heldShred_eq_some_iff.mpr hheld, heldShred_eq_some_iff.mpr (h.held hheld).2]
  completed := ht.completed

end Emits

/-- Taking more data sets from the state after some were emitted. -/
theorem Takes.append {agave : Agave Entry} {taken taken' : List (TakenDataSet Entry)}
    {st st' st'' : SlotState} (h : Takes agave st st' taken) (hemits : Emits taken st st')
    (h' : Takes agave st' st'' taken')
    (hlt : ∀ dataSet ∈ taken, ∀ later ∈ taken',
      dataSet.endShredIndex < later.startShredIndex) :
    Takes agave st st'' (taken ++ taken') where
  sound dataSet hmem := by
    rcases List.mem_append.mp hmem with hmem | hmem
    · exact h.sound dataSet hmem
    · exact hemits.takenFrom h.slot (h'.sound dataSet hmem)
  ascending := List.pairwise_append.mpr ⟨h.ascending, h'.ascending, hlt⟩
  slot := h'.slot.trans h.slot
  lastShredIndex := h'.lastShredIndex.trans h.lastShredIndex
  emittedShreds := by rw [h'.emittedShreds, h.emittedShreds, shredCount_append, Nat.add_assoc]
  outcome := h'.outcome.imp hemits.trans id

/-- The loop stops where no end marker is left. -/
theorem takeLoop_none {agave : Agave Entry} {insertedEnd : ℕ} {st : SlotState} {start f : ℕ}
    (h : nextBitFrom st.dataSetEnds f = none) :
    st.takeLoop agave insertedEnd start f = (st, []) := by
  rw [takeLoop]
  split
  · rfl
  · rename_i heq
    simp [h] at heq

/-- The loop takes the next data set if it is held and stops beyond the inserted range. -/
theorem takeLoop_some {agave : Agave Entry} {insertedEnd : ℕ} {st : SlotState} {start f stop : ℕ}
    (h : nextBitFrom st.dataSetEnds f = some stop) :
    st.takeLoop agave insertedEnd start f =
      if stop > insertedEnd then st.takeIfHeld agave start stop
      else
        let turn := st.takeIfHeld agave start stop
        let rest := turn.1.takeLoop agave insertedEnd (stop + 1) (stop + 1)
        (rest.1, turn.2 ++ rest.2) := by
  rw [takeLoop]
  split
  · rename_i heq
    simp [h] at heq
  · rename_i stop' heq
    obtain rfl : stop = stop' := Option.some.inj (h.symm.trans heq)
    rfl

/-- **Induction along the loop.**  It stops where no end marker is left; otherwise it takes a turn,
and goes on behind the marker if that is in the inserted range. -/
theorem takeLoop_induction (agave : Agave Entry) (insertedEnd : ℕ)
    {motive : SlotState → ℕ → ℕ → Prop}
    (done : ∀ st start f, nextBitFrom st.dataSetEnds f = none → motive st start f)
    (turn : ∀ st start f stop, nextBitFrom st.dataSetEnds f = some stop →
      (stop ≤ insertedEnd →
        motive (st.takeIfHeld agave start stop).1 (stop + 1) (stop + 1)) → motive st start f)
    (st : SlotState) (start f : ℕ) : motive st start f := by
  induction hn : insertedEnd + 1 - f using Nat.strong_induction_on generalizing st start f with
  | _ n ih =>
    subst hn
    cases hnext : nextBitFrom st.dataSetEnds f with
    | none => exact done st start f hnext
    | some stop =>
      have hfs : f ≤ stop := (nextBitFrom_eq_some_iff.mp hnext).1.1
      exact turn st start f stop hnext fun hle => ih _ (by omega) _ _ _ rfl

/-- The loop does nothing without end markers, as when the slot is finished. -/
theorem takeLoop_nil {agave : Agave Entry} {insertedEnd : ℕ} {st : SlotState} {start f : ℕ}
    (h : st.dataSetEnds = []) : st.takeLoop agave insertedEnd start f = (st, []) := by
  apply takeLoop_none
  rw [h]
  exact nextBitFrom_eq_none_iff.mpr fun j _ => not_hasBit_nil j

/-- The start of the range that an index lies in, by the search of `take_completed_data_sets`. -/
def dataSetStart (dataSetEnds : List (BitVec 64)) (i : ℕ) : ℕ :=
  match lastBitBefore dataSetEnds i with
  | some stop => stop + 1
  | none => 0

/-- The range begins at zero or after an end marker, and has none before the index. -/
theorem opens_dataSetStart (dataSetEnds : List (BitVec 64)) (i : ℕ) :
    Segment.Opens (HasBit dataSetEnds) (dataSetStart dataSetEnds i) i := by
  unfold dataSetStart
  cases hlast : lastBitBefore dataSetEnds i with
  | none => exact Segment.opens_zero (lastBitBefore_eq_none_iff.mp hlast)
  | some stop => exact Segment.opens_of_isGreatest (lastBitBefore_eq_some_iff.mp hlast)

/-- Taking the completed data sets is the loop from there. -/
theorem takeCompletedDataSets_eq (agave : Agave Entry) (st : SlotState)
    (insertedStart insertedEnd : ℕ) :
    st.takeCompletedDataSets agave insertedStart insertedEnd =
      st.takeLoop agave insertedEnd (dataSetStart st.dataSetEnds insertedStart) insertedStart := rfl

/-- **The loop.**  From a start of a segment it takes every segment that is all held, begins there
or later, ends at the search index or later and begins at most one after the inserted range; it
takes nothing else. -/
theorem takeLoop_spec (agave : Agave Entry) (insertedEnd : ℕ) {st : SlotState} {start f : ℕ}
    (hfin : st.finished = false) (hopens : Segment.Opens (HasBit st.dataSetEnds) start f)
    (hbound : start ≤ insertedEnd + 1) :
    let result := st.takeLoop agave insertedEnd start f
    Takes agave st result.1 result.2 ∧
      (∀ dataSet ∈ result.2, start ≤ dataSet.startShredIndex ∧ f ≤ dataSet.endShredIndex ∧
        dataSet.startShredIndex ≤ insertedEnd + 1) ∧
      (result.1.finished = false → ∀ a b, Segment (HasBit st.dataSetEnds) a b → st.AllHeld a b →
        start ≤ a → f ≤ b → a ≤ insertedEnd + 1 →
        ∃ dataSet ∈ result.2, dataSet.startShredIndex = a ∧ dataSet.endShredIndex = b) := by
  induction st, start, f using takeLoop_induction agave insertedEnd with
  | done st start f hnext =>
    rw [takeLoop_none hnext]
    refine ⟨Takes.refl agave hfin, fun _ h => absurd h List.not_mem_nil, ?_⟩
    intro _ a b hseg _ _ hfb _
    exact absurd hseg.ends (nextBitFrom_eq_none_iff.mp hnext b hfb)
  | turn st start f stop hnext ih =>
    have hleast := nextBitFrom_eq_some_iff.mp hnext
    have hseg := hopens.segment hleast
    have hfs : f ≤ stop := hleast.1.1
    have hle := hopens.le
    obtain ⟨htakes, honly, hall⟩ := takeIfHeld_spec agave hfin hseg
    rw [takeLoop_some hnext]
    by_cases hbeyond : stop > insertedEnd
    · rw [if_pos hbeyond]
      refine ⟨htakes, ?_, ?_⟩
      · intro dataSet hmem
        obtain ⟨h1, h2⟩ := honly dataSet hmem
        omega
      · intro _ a b hab hheld _ hfb hab'
        rcases hseg.eq_or_end_lt hleast hab hfb with ⟨rfl, rfl⟩ | hgt
        · exact hall hheld
        · omega
    · rw [if_neg hbeyond]
      dsimp only
      rcases htakes.outcome with hemits | ⟨hdone, hnil, hlast⟩
      · have hopens' := Segment.opens_succ hseg.ends
        rw [← hemits.ends] at hopens'
        obtain ⟨hrest, hrestOnly, hrestAll⟩ :=
          ih (not_lt.mp hbeyond) hemits.unfinished hopens' (by omega)
        refine ⟨htakes.append hemits hrest ?_, ?_, ?_⟩
        · intro dataSet hmem later hlater
          have h1 := (honly dataSet hmem).2
          have h2 := (hrestOnly later hlater).1
          omega
        · intro dataSet hmem
          rcases List.mem_append.mp hmem with hmem | hmem
          · obtain ⟨h1, h2⟩ := honly dataSet hmem
            omega
          · obtain ⟨h1, h2, h3⟩ := hrestOnly dataSet hmem
            omega
        · intro hunf a b hab hheld ha hfb hab'
          rcases hseg.eq_or_end_lt hleast hab hfb with ⟨rfl, rfl⟩ | hgt
          · obtain ⟨dataSet, hmem, heq⟩ := hall hheld
            exact ⟨dataSet, List.mem_append_left _ hmem, heq⟩
          · -- Beyond this segment, so none of its shreds was emitted by this turn.
            have hheld' : (st.takeIfHeld agave start stop).1.AllHeld a b := by
              refine hemits.allHeld_of_not_covers hheld ?_
              rintro i hi1 - ⟨dataSet, hmem, h1, h2⟩
              have := (honly dataSet hmem).2
              omega
            obtain ⟨dataSet, hmem, heq⟩ := hrestAll hunf a b (hemits.ends.symm ▸ hab) hheld'
              hgt (le_trans hgt hab.le) hab'
            exact ⟨dataSet, List.mem_append_right _ hmem, heq⟩
      · -- The slot is finished: its end markers are gone and the loop stops.
        rw [takeLoop_nil hnil, List.append_nil]
        refine ⟨htakes, ?_, fun hunf => ?_⟩
        · intro dataSet hmem
          obtain ⟨h1, h2⟩ := honly dataSet hmem
          omega
        · rw [hdone] at hunf
          exact Bool.noConfusion hunf

/-- **Taking the completed data sets.**  Unless the slot becomes finished on the way, the data sets
taken are exactly the segments that are all held, end at or after the start of the inserted range
and begin at most one after its end. -/
theorem takeCompletedDataSets_spec (agave : Agave Entry) {st : SlotState} {a b : ℕ}
    (hfin : st.finished = false) (hab : a ≤ b) :
    let result := st.takeCompletedDataSets agave a b
    Takes agave st result.1 result.2 ∧
      (∀ dataSet ∈ result.2, a ≤ dataSet.endShredIndex ∧ dataSet.startShredIndex ≤ b + 1) ∧
      (result.1.finished = false → ∀ s e, Segment (HasBit st.dataSetEnds) s e → st.AllHeld s e →
        a ≤ e → s ≤ b + 1 →
        ∃ dataSet ∈ result.2, dataSet.startShredIndex = s ∧ dataSet.endShredIndex = e) := by
  rw [takeCompletedDataSets_eq]
  have hopens := opens_dataSetStart st.dataSetEnds a
  obtain ⟨htakes, honly, hall⟩ := takeLoop_spec agave b hfin hopens (by
    have := hopens.le
    omega)
  refine ⟨htakes, fun dataSet hmem => (honly dataSet hmem).2, ?_⟩
  intro hunf s e hseg hheld hae hsb
  refine hall hunf s e hseg hheld ?_ hae hsb
  -- The marker before the inserted range cannot lie inside the segment.
  by_contra hbefore
  rcases hopens.starts with hzero | hmark
  · omega
  · have := hopens.le
    exact hseg.inner _ (by omega) (by omega) hmark

end SlotState

/-! ### The indices of data sets -/

/-- The indices of some data sets. -/
def takenIndices (taken : List (TakenDataSet Entry)) : List ℕ :=
  taken.flatMap fun dataSet => rangeInclusive dataSet.startShredIndex dataSet.endShredIndex

@[simp] theorem mem_takenIndices {taken : List (TakenDataSet Entry)} {i : ℕ} :
    i ∈ takenIndices taken ↔ SlotState.Covers taken i := by
  simp only [takenIndices, List.mem_flatMap, mem_rangeInclusive, SlotState.Covers]

theorem length_takenIndices (taken : List (TakenDataSet Entry)) :
    (takenIndices taken).length = SlotState.shredCount taken := by
  rw [takenIndices, List.length_flatMap]
  simp only [length_rangeInclusive, SlotState.shredCount]

/-- Data sets in ascending order have no index twice. -/
theorem nodup_takenIndices {taken : List (TakenDataSet Entry)}
    (h : taken.Pairwise fun dataSet later => dataSet.endShredIndex < later.startShredIndex) :
    (takenIndices taken).Nodup := by
  refine List.nodup_flatMap.mpr ⟨fun _ _ => nodup_rangeInclusive _ _, h.imp ?_⟩
  intro dataSet later hlt i hi hi'
  have hend := (mem_rangeInclusive.mp hi).2
  have hstart := (mem_rangeInclusive.mp hi').1
  omega

end ShredTools.Deshred
