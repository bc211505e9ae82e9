import ShredTools.Deshred.DataSets
import ShredTools.Deshred.Recovery

/-!
# No complete data set is left behind

A data set is complete when its range lies between consecutive end markers and all its shreds are
held.  New end markers cut older ranges in two, so an insertion can complete data sets that begin
before the inserted range and the one that follows it.  `takeCompletedDataSets` takes exactly those
(`takeCompletedDataSets_exact`), and if the slot becomes finished on the way, all up to the one that
finished it (`takeCompletedDataSets_initial`).

`CompleteSet` is the property of a range in a state, and `NoneComplete` the invariant between two
insertions.  What an insertion completes touches the inserted range (`CompleteSet.touches`), so the
walk over the end markers need not look at the rest.  `insertDataShreds` inserts several shreds, as
a recovery does, before anything is taken.
-/

namespace ShredTools.Deshred

namespace SlotState

variable {Entry : Type*}

/-- The range is that of a complete data set. -/
structure CompleteSet (st : SlotState) (start stop : ℕ) : Prop where
  /-- The range lies between consecutive end markers. -/
  segment : Segment (HasBit st.dataSetEnds) start stop
  /-- All its shreds are held. -/
  allHeld : st.AllHeld start stop

/-- No complete data set waits to be taken. -/
def NoneComplete (st : SlotState) : Prop := ∀ start stop, ¬ st.CompleteSet start stop

/-- Insert some data shreds. -/
def insertDataShreds (st : SlotState) (shreds : List Shred) : SlotState :=
  shreds.foldl (fun st shred => (st.insertDataShred shred).1) st

/-- A new slot has no complete data set. -/
theorem noneComplete_new (slot : ℕ) : (new slot).NoneComplete := fun _ _ h =>
  not_hasBit_nil _ h.segment.ends

/-- Inserting data shreds fills their places. -/
lemma fills_insertDataShreds (st : SlotState) (shreds : List Shred) :
    Fills {shred | shred ∈ shreds} st (st.insertDataShreds shreds) := by
  induction shreds generalizing st with
  | nil =>
    have hempty : {shred | shred ∈ ([] : List Shred)} = (∅ : Set Shred) := by
      ext shred
      simp
    rw [hempty]
    exact Fills.of_eq (fun _ => rfl) rfl rfl rfl rfl rfl
  | cons shred shreds ih =>
    have hcons : {other | other ∈ shred :: shreds} = {shred} ∪ {other | other ∈ shreds} := by
      ext other
      simp
    rw [hcons]
    exact (st.fills_insertDataShred shred).trans (ih _)

/-- Where no shred is offered, the place and the end marker stay. -/
lemma Fills.same_of_outside {new : Set Shred} {st st' : SlotState} (h : Fills new st st') {i : ℕ}
    (hout : ∀ shred ∈ new, shred.index ≠ i) :
    st'.dataShred i = st.dataShred i ∧ (HasBit st'.dataSetEnds i ↔ HasBit st.dataSetEnds i) := by
  have hplace : st'.dataShred i = st.dataShred i := by
    rcases h.place i with heq | ⟨-, shred, hmem, hindex, -⟩
    · exact heq
    · exact absurd hindex (hout shred hmem)
  refine ⟨hplace, (h.ends i).trans ⟨?_, Or.inl⟩⟩
  rintro (hbit | ⟨hmissing, shred, hheld, -⟩)
  · exact hbit
  · rw [hplace, hmissing] at hheld
    exact DataShred.noConfusion hheld

/-- A data set that an insertion completes touches the inserted range. -/
theorem CompleteSet.touches {new : Set Shred} {st st' : SlotState} (hnone : st.NoneComplete)
    (hfills : Fills new st st') {a b : ℕ}
    (hrange : ∀ shred ∈ new, a ≤ shred.index ∧ shred.index ≤ b) {start stop : ℕ}
    (h : st'.CompleteSet start stop) : a ≤ stop ∧ start ≤ b + 1 := by
  -- outside the range neither the places nor the end markers have changed
  have houtside : ∀ i, i < a ∨ b < i → st'.dataShred i = st.dataShred i ∧
      (HasBit st'.dataSetEnds i ↔ HasBit st.dataSetEnds i) := by
    intro i hi
    refine hfills.same_of_outside fun shred hmem hindex => ?_
    have := hrange shred hmem
    omega
  have hold : (∀ i, start - 1 ≤ i → i ≤ stop → i < a ∨ b < i) → False := by
    intro hall
    refine hnone start stop ⟨h.segment.congr fun i hs he => (houtside i (hall i hs he)).2, ?_⟩
    intro i hs he
    rw [← (houtside i (hall i (by omega) he)).1]
    exact h.allHeld i hs he
  constructor
  · by_contra hbefore
    exact hold fun i _ he => Or.inl (by omega)
  · by_contra hafter
    exact hold fun i hs _ => Or.inr (by omega)

/-- **No complete set is left behind.**  From a slot in which no data set is complete, after data
shreds with any flags were inserted inside a range, the data sets taken are in ascending order and
each of them is complete; unless the slot becomes finished on the way, they are all the data sets
that are complete, and none is complete afterwards.  `insert_shred` does not come here with a
finished slot. -/
theorem takeCompletedDataSets_exact (agave : Agave Entry) {st : SlotState}
    (hfin : st.finished = false) (hnone : st.NoneComplete) {shreds : List Shred}
    (hshreds : shreds ≠ []) {a b : ℕ}
    (hrange : ∀ shred ∈ shreds, a ≤ shred.index ∧ shred.index ≤ b) :
    let inserted := st.insertDataShreds shreds
    let result := inserted.takeCompletedDataSets agave a b
    (∀ dataSet ∈ result.2, TakenFrom agave inserted dataSet) ∧
      (result.2.Pairwise fun dataSet later => dataSet.endShredIndex < later.startShredIndex) ∧
      (result.1.finished = false →
        (∀ start stop, inserted.CompleteSet start stop ↔
          ∃ dataSet ∈ result.2, dataSet.startShredIndex = start ∧ dataSet.endShredIndex = stop) ∧
        result.1.NoneComplete) := by
  intro inserted result
  have hfills := st.fills_insertDataShreds shreds
  obtain ⟨shred, hshred⟩ := List.exists_mem_of_ne_nil shreds hshreds
  have hab : a ≤ b := (hrange shred hshred).1.trans (hrange shred hshred).2
  have hunfinished : inserted.finished = false := hfills.finished.trans hfin
  obtain ⟨htakes, -, hall⟩ := takeCompletedDataSets_spec agave hunfinished hab
  refine ⟨htakes.sound, htakes.ascending, fun hresult => ?_⟩
  have htaken : ∀ start stop, inserted.CompleteSet start stop →
      ∃ dataSet ∈ result.2, dataSet.startShredIndex = start ∧ dataSet.endShredIndex = stop := by
    intro start stop hcomplete
    obtain ⟨hstop, hstart⟩ := hcomplete.touches hnone hfills hrange
    exact hall hresult start stop hcomplete.segment hcomplete.allHeld hstop hstart
  have hemits : Emits result.2 inserted result.1 := by
    rcases htakes.outcome with hemits | ⟨hdone, -⟩
    · exact hemits
    · exact absurd (hdone.symm.trans hresult) Bool.noConfusion
  constructor
  · refine fun start stop => ⟨htaken start stop, ?_⟩
    rintro ⟨dataSet, hmem, rfl, rfl⟩
    exact ⟨(htakes.sound dataSet hmem).segment, (htakes.sound dataSet hmem).allHeld⟩
  · intro start stop hcomplete
    obtain ⟨dataSet, hmem, rfl, rfl⟩ := htaken start stop
      ⟨hemits.ends ▸ hcomplete.segment, hemits.allHeld hcomplete.allHeld⟩
    obtain ⟨shred, hheld⟩ := hcomplete.allHeld _ le_rfl hcomplete.segment.le
    exact (hemits.held hheld).1 ⟨dataSet, hmem, le_rfl, hcomplete.segment.le⟩

section Examples

/-- A data shred without payload. -/
def emptyShred (index : Fin 32768) (dataComplete lastInSlot : Bool) : Shred where
  slot := 7
  index := index
  fecSetIndex := 0
  isData := true
  dataComplete := dataComplete
  lastInSlot := lastInSlot
  payload := []
  index_lt := by omega

/-- A shred library that joins payloads and never recovers anything. -/
def joinAgave : Agave (List UInt8) where
  recover _ := none
  deshred payloads := some payloads.flatten
  deserialize bytes := some [bytes]

/-- The last shred of a data set comes before the first one. -/
theorem takeCompletedDataSets_exact_two :
    let inserted := (new 7).insertDataShreds [emptyShred 1 true false, emptyShred 0 false false]
    let result := inserted.takeCompletedDataSets joinAgave 0 1
    (∃ dataSet ∈ result.2, dataSet.startShredIndex = 0 ∧ dataSet.endShredIndex = 1) ∧
      result.1.NoneComplete := by
  intro inserted result
  have hfinished : result.1.finished = false := by
    decide +kernel
  refine ⟨by decide +kernel, ?_⟩
  exact ((takeCompletedDataSets_exact joinAgave rfl (noneComplete_new 7) (List.cons_ne_nil _ _)
    (by decide)).2.2 hfinished).2

end Examples

/-! ### When the slot becomes finished on the way -/

/-- The loop takes every complete data set that ends no later than one it takes. -/
lemma takeLoop_initial (agave : Agave Entry) (insertedEnd : ℕ) {st : SlotState} {start f : ℕ}
    (hfin : st.finished = false) (hopens : Segment.Opens (HasBit st.dataSetEnds) start f) {a b : ℕ}
    (hcomplete : st.CompleteSet a b) (hb : f ≤ b)
    (hlater : ∃ dataSet ∈ (st.takeLoop agave insertedEnd start f).2, b ≤ dataSet.endShredIndex) :
    ∃ dataSet ∈ (st.takeLoop agave insertedEnd start f).2,
      dataSet.startShredIndex = a ∧ dataSet.endShredIndex = b := by
  induction st, start, f using takeLoop_induction agave insertedEnd with
  | done st start f hnext =>
    exact absurd hcomplete.segment.ends (nextBitFrom_eq_none_iff.mp hnext b hb)
  | turn st start f stop hnext ih =>
    have hleast := nextBitFrom_eq_some_iff.mp hnext
    have hseg := hopens.segment hleast
    obtain ⟨htakes, honly, hall⟩ := takeIfHeld_spec agave hfin hseg
    rw [takeLoop_some hnext] at hlater ⊢
    rcases hseg.eq_or_end_lt hleast hcomplete.segment hb with ⟨rfl, rfl⟩ | hgt
    · -- it is the data set of this turn
      obtain ⟨dataSet, hmem, heq⟩ := hall hcomplete.allHeld
      split_ifs
      · exact ⟨dataSet, hmem, heq⟩
      · exact ⟨dataSet, List.mem_append_left _ hmem, heq⟩
    · -- it comes later, and so does the one taken
      have hnotNow : ∀ dataSet ∈ (st.takeIfHeld agave start stop).2,
          dataSet.endShredIndex < b := by
        intro dataSet hmem
        have hend := (honly dataSet hmem).2
        have := hcomplete.segment.le
        omega
      by_cases hbeyond : stop > insertedEnd
      · rw [if_pos hbeyond] at hlater
        obtain ⟨dataSet, hmem, hend⟩ := hlater
        exact absurd (hnotNow dataSet hmem) (not_lt.mpr hend)
      · rw [if_neg hbeyond] at hlater ⊢
        dsimp only at hlater ⊢
        obtain ⟨dataSet, hmem, hend⟩ := hlater
        rcases List.mem_append.mp hmem with hnow | hrest
        · exact absurd (hnotNow dataSet hnow) (not_lt.mpr hend)
        rcases htakes.outcome with hemits | ⟨-, hnil, -⟩
        · have hopens' := Segment.opens_succ hseg.ends
          rw [← hemits.ends] at hopens'
          have hheld : (st.takeIfHeld agave start stop).1.AllHeld a b := by
            refine hemits.allHeld_of_not_covers hcomplete.allHeld ?_
            rintro i hi - ⟨other, hother, -, hle'⟩
            have := (honly other hother).2
            omega
          obtain ⟨found, hfound, heq⟩ := ih (not_lt.mp hbeyond) hemits.unfinished hopens'
            ⟨hemits.ends.symm ▸ hcomplete.segment, hheld⟩
            (le_trans hgt hcomplete.segment.le) ⟨dataSet, hrest, hend⟩
          exact ⟨found, List.mem_append_right _ hfound, heq⟩
        · -- the slot is finished: the loop stops
          rw [takeLoop_nil hnil] at hrest
          exact absurd hrest List.not_mem_nil

/-- Whether the slot becomes finished or not, every complete data set that touches the inserted
range and ends no later than one that is taken is taken too. -/
theorem takeCompletedDataSets_initial (agave : Agave Entry) {st : SlotState} {a b : ℕ}
    (hfin : st.finished = false) {start stop : ℕ} (hcomplete : st.CompleteSet start stop)
    (hstop : a ≤ stop)
    (hlater : ∃ dataSet ∈ (st.takeCompletedDataSets agave a b).2, stop ≤ dataSet.endShredIndex) :
    ∃ dataSet ∈ (st.takeCompletedDataSets agave a b).2,
      dataSet.startShredIndex = start ∧ dataSet.endShredIndex = stop := by
  rw [takeCompletedDataSets_eq] at hlater ⊢
  exact takeLoop_initial agave b hfin (opens_dataSetStart st.dataSetEnds a) hcomplete hstop hlater

end SlotState

end ShredTools.Deshred
