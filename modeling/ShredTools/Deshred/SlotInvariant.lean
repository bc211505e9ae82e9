import Mathlib.Order.Interval.Finset.Nat
import ShredTools.Deshred.Deshredder

/-!
# The representation invariant of a slot state

`Represents` says how the parts of a slot state hang together: where the end markers may be, which
data shreds the counter counts, how the emitted ones lie between the markers, and what a coding set
holds.  `Reachable` are the states that the operations of `SlotState` lead to from a new one, in any
order, with any shreds and any answers of the recovery; every state of every ring is one of them.
Insertions and recoveries keep the invariant because they only fill missing places, and taking a
data set keeps it because it takes a whole segment between two markers.
-/

namespace ShredTools.Deshred

namespace SlotState

/-! ### The invariant -/

/-- What holds of the coding sets of an unfinished slot. -/
structure CodingSetsKept (codingSets : List CodingSet) : Prop where
  /-- No two coding sets are of one FEC set. -/
  keys : (codingSets.map CodingSet.fecSetIndex).Nodup
  /-- Every coding set holds a coding shred. -/
  nonempty : ∀ set ∈ codingSets, set.codingShreds ≠ []
  /-- No set holds two shreds of one index. -/
  indices : ∀ set ∈ codingSets, (set.codingShreds.map Shred.index).Nodup
  /-- The recovery of a set was not tried too often. -/
  attempts : ∀ set ∈ codingSets, set.recoveryAttempts ≤ maxRecoveryAttempts

/-- The representation invariant of an unfinished slot state. -/
structure Represents (st : SlotState) : Prop where
  /-- An end marker stands only where a shred arrived. -/
  ends : ∀ e, HasBit st.dataSetEnds e → st.dataShred e ≠ .missing
  /-- The counter counts the emitted shreds. -/
  emittedShreds : st.emittedShreds = st.dataShreds.count .emitted
  /-- An emitted shred lies in a range of emitted ones that ends at a marker, and begins at zero or
  after a marker. -/
  ranges : ∀ i, st.dataShred i = .emitted → ∃ s e, s ≤ i ∧ i ≤ e ∧ HasBit st.dataSetEnds e ∧
    (s = 0 ∨ HasBit st.dataSetEnds (s - 1)) ∧ ∀ j, s ≤ j → j ≤ e → st.dataShred j = .emitted
  /-- The coding sets are in order. -/
  codingSets : CodingSetsKept st.codingSets

/-! ### Counting the emitted shreds -/

/-- The emitted shreds of a vector, counted by their indices. -/
lemma count_emitted (dataShreds : List DataShred) {n : ℕ} (h : dataShreds.length ≤ n) :
    dataShreds.count .emitted =
      ((Finset.range n).filter fun i => dataShreds.getD i .missing = .emitted).card := by
  have hpadded : (List.range n).map (fun i => dataShreds.getD i .missing) =
      dataShreds ++ List.replicate (n - dataShreds.length) .missing := by
    apply List.ext_getElem
    · rw [List.length_map, List.length_range, List.length_append, List.length_replicate]
      omega
    · intro i _ _
      rw [List.getElem_map, List.getElem_range, List.getElem_append, List.getD_eq_getElem?_getD]
      split_ifs with hlt
      · rw [List.getElem?_eq_getElem hlt, Option.getD_some]
      · rw [List.getElem?_eq_none (not_lt.mp hlt), List.getElem_replicate]
        rfl
  have hcount : dataShreds.count .emitted =
      (dataShreds ++ List.replicate (n - dataShreds.length) DataShred.missing).count
        DataShred.emitted := by
    rw [List.count_append, List.count_replicate]
    rfl
  have hfilter : ((List.range n).map fun i => dataShreds.getD i .missing).count .emitted =
      ((List.range n).filter fun i => decide (dataShreds.getD i .missing = .emitted)).length := by
    rw [List.count_eq_countP, List.countP_map, List.countP_eq_length_filter]
    rfl
  rw [hcount, ← hpadded, hfilter]
  rfl

/-- The counts of two states that have the same shreds emitted. -/
lemma count_emitted_congr {st st' : SlotState}
    (h : ∀ i, st'.dataShred i = .emitted ↔ st.dataShred i = .emitted) :
    st'.dataShreds.count .emitted = st.dataShreds.count .emitted := by
  rw [count_emitted _ (le_max_left st'.dataShreds.length st.dataShreds.length),
    count_emitted _ (le_max_right st'.dataShreds.length st.dataShreds.length)]
  congr 1
  exact Finset.filter_congr fun i _ => h i

/-- A range that becomes emitted counts one for each of its indices. -/
lemma count_emitted_range {st st' : SlotState} {start stop : ℕ}
    (hnew : ∀ i, start ≤ i → i ≤ stop → st.dataShred i ≠ .emitted)
    (h : ∀ i, st'.dataShred i = .emitted ↔ st.dataShred i = .emitted ∨ start ≤ i ∧ i ≤ stop) :
    st'.dataShreds.count .emitted = st.dataShreds.count .emitted + (stop + 1 - start) := by
  have hsplit : ∀ n, stop < n →
      ((Finset.range n).filter fun i => st'.dataShred i = .emitted) =
        ((Finset.range n).filter fun i => st.dataShred i = .emitted) ∪ Finset.Icc start stop := by
    intro n hn
    ext i
    rw [Finset.mem_union, Finset.mem_filter, Finset.mem_filter, Finset.mem_Icc, h, Finset.mem_range]
    constructor
    · rintro ⟨hi, hemitted | hin⟩
      · exact Or.inl ⟨hi, hemitted⟩
      · exact Or.inr hin
    · rintro (⟨hi, hemitted⟩ | hin)
      · exact ⟨hi, Or.inl hemitted⟩
      · exact ⟨by omega, Or.inr hin⟩
  have hdisjoint : ∀ n, Disjoint ((Finset.range n).filter fun i => st.dataShred i = .emitted)
      (Finset.Icc start stop) := by
    intro n
    rw [Finset.disjoint_left]
    intro i hi hin
    rw [Finset.mem_Icc] at hin
    exact hnew i hin.1 hin.2 (Finset.mem_filter.mp hi).2
  have hbound : ∃ n, st.dataShreds.length ≤ n ∧ st'.dataShreds.length ≤ n ∧ stop < n :=
    ⟨st.dataShreds.length + st'.dataShreds.length + stop + 1, by omega, by omega, by omega⟩
  obtain ⟨n, hst, hst', hstop⟩ := hbound
  rw [count_emitted _ hst, count_emitted _ hst']
  change ((Finset.range n).filter fun i => st'.dataShred i = .emitted).card = _
  rw [hsplit n hstop, Finset.card_union_of_disjoint (hdisjoint n), Nat.card_Icc]
  rfl

/-! ### The coding sets -/

/-- A coding set that takes a coding shred. -/
lemma push_spec {set : CodingSet} (shred : Shred)
    (hindices : (set.codingShreds.map Shred.index).Nodup) :
    (set.push shred).codingShreds ≠ [] ∧
      ((set.push shred).codingShreds.map Shred.index).Nodup ∧
      (set.push shred).recoveryAttempts = set.recoveryAttempts := by
  unfold CodingSet.push
  split_ifs with hheld
  · refine ⟨?_, hindices, rfl⟩
    intro hnil
    rw [hnil] at hheld
    cases hheld
  · refine ⟨by simp, ?_, rfl⟩
    rw [List.map_append, List.map_singleton]
    refine hindices.append (List.nodup_singleton _) ?_
    intro index hmem hsingle
    rw [List.mem_singleton.mp hsingle] at hmem
    obtain ⟨held, hin, heq⟩ := List.mem_map.mp hmem
    apply hheld
    rw [List.any_eq_true]
    exact ⟨held, hin, beq_iff_eq.mpr heq⟩

/-- Fewer coding sets. -/
theorem CodingSetsKept.sublist {codingSets fewer : List CodingSet} (h : CodingSetsKept codingSets)
    (hsub : fewer.Sublist codingSets) : CodingSetsKept fewer where
  keys := h.keys.sublist (hsub.map _)
  nonempty set hset := h.nonempty set (hsub.subset hset)
  indices set hset := h.indices set (hsub.subset hset)
  attempts set hset := h.attempts set (hsub.subset hset)

/-- A coding set dropped by putting the last one in its place. -/
theorem CodingSetsKept.swapRemove {codingSets : List CodingSet} (h : CodingSetsKept codingSets)
    {position : ℕ} (hlt : position < codingSets.length) :
    CodingSetsKept (codingSets.swapRemove position) := by
  have hmem : ∀ set ∈ codingSets.swapRemove position, set ∈ codingSets := fun set hset =>
    ((List.mem_swapRemove_iff h.keys hlt).mp hset).1
  exact
    { keys := List.nodup_map_swapRemove h.keys hlt
      nonempty := fun set hset => h.nonempty set (hmem set hset)
      indices := fun set hset => h.indices set (hmem set hset)
      attempts := fun set hset => h.attempts set (hmem set hset) }

/-- One more recovery tried. -/
theorem CodingSetsKept.tried {codingSets : List CodingSet} (h : CodingSetsKept codingSets)
    (position : Fin codingSets.length)
    (hattempts : (codingSets.get position).recoveryAttempts < maxRecoveryAttempts) :
    CodingSetsKept (codingSets.set position { (codingSets.get position) with
      recoveryAttempts := (codingSets.get position).recoveryAttempts + 1 }) := by
  have hget : codingSets.get position ∈ codingSets := List.get_mem ..
  have hmem : ∀ set ∈ codingSets.set position { (codingSets.get position) with
      recoveryAttempts := (codingSets.get position).recoveryAttempts + 1 },
      set ∈ codingSets ∨ set = { (codingSets.get position) with
        recoveryAttempts := (codingSets.get position).recoveryAttempts + 1 } :=
    fun set hset => List.mem_or_eq_of_mem_set hset
  refine { keys := ?_, nonempty := ?_, indices := ?_, attempts := ?_ }
  · have hkeys : (codingSets.set position { (codingSets.get position) with
        recoveryAttempts := (codingSets.get position).recoveryAttempts + 1 }).map
          CodingSet.fecSetIndex = codingSets.map CodingSet.fecSetIndex := by
      rw [List.map_set]
      apply List.ext_getElem
      · rw [List.length_set]
      · intro i _ _
        rw [List.getElem_set]
        split_ifs with heq
        · simp [← heq]
        · rfl
    rw [hkeys]
    exact h.keys
  · intro set hset
    rcases hmem set hset with hold | rfl
    · exact h.nonempty set hold
    · exact h.nonempty (codingSets.get position) hget
  · intro set hset
    rcases hmem set hset with hold | rfl
    · exact h.indices set hold
    · exact h.indices (codingSets.get position) hget
  · intro set hset
    rcases hmem set hset with hold | rfl
    · exact h.attempts set hold
    · exact hattempts

/-- One more coding shred. -/
theorem CodingSetsKept.insertCodingShred {st : SlotState} (h : CodingSetsKept st.codingSets)
    (shred : Shred) : CodingSetsKept (st.insertCodingShred shred).codingSets := by
  by_cases hkept : ∃ num, numDataShreds shred.payload = some num ∧ missingDataShreds st.dataShreds
      (rangeInclusive shred.fecSetIndex (dataRangeEnd shred.fecSetIndex num)) ≠ 0
  · obtain ⟨num, hnum, hmissing⟩ := hkept
    obtain ⟨hkeys, set, -, hset, hmem⟩ := insertCodingShred_kept h.keys hnum hmissing
    have hold : (set.codingShreds.map Shred.index).Nodup ∧
        set.recoveryAttempts ≤ maxRecoveryAttempts := by
      rcases hset with hset | ⟨-, rfl⟩
      · exact ⟨h.indices set hset, h.attempts set hset⟩
      · exact ⟨List.nodup_nil, Nat.zero_le _⟩
    obtain ⟨hnonempty, hindices, hattempts⟩ := push_spec shred hold.1
    refine { keys := hkeys, nonempty := ?_, indices := ?_, attempts := ?_ }
    · intro c hc
      rcases (hmem c).mp hc with ⟨hc, -⟩ | rfl
      · exact h.nonempty c hc
      · exact hnonempty
    · intro c hc
      rcases (hmem c).mp hc with ⟨hc, -⟩ | rfl
      · exact h.indices c hc
      · exact hindices
    · intro c hc
      rcases (hmem c).mp hc with ⟨hc, -⟩ | rfl
      · exact h.attempts c hc
      · rw [hattempts]
        exact hold.2
  · rw [insertCodingShred_ignored]
    · exact h
    · intro num hnum
      by_contra hmissing
      exact hkept ⟨num, hnum, hmissing⟩

/-! ### The operations keep the invariant -/

/-- A new slot. -/
lemma represents_new (slot : ℕ) : Represents (SlotState.new slot) where
  ends e he := absurd he (not_hasBit_nil e)
  emittedShreds := rfl
  ranges i hi := by cases hi
  codingSets :=
    { keys := List.nodup_nil
      nonempty := fun _ hset => absurd hset List.not_mem_nil
      indices := fun _ hset => absurd hset List.not_mem_nil
      attempts := fun _ hset => absurd hset List.not_mem_nil }

/-- Missing places that are filled. -/
theorem Represents.fills {new : Set Shred} {st st' : SlotState} (h : Represents st)
    (hfills : Fills new st st') (hsets : CodingSetsKept st'.codingSets) : Represents st' := by
  have hemitted : ∀ i, st'.dataShred i = .emitted ↔ st.dataShred i = .emitted := by
    intro i
    rcases hfills.place i with heq | ⟨hmissing, shred, -, -, hheld⟩
    · rw [heq]
    · rw [hmissing, hheld]
      constructor <;> intro hcases <;> cases hcases
  have hbit : ∀ e, HasBit st.dataSetEnds e → HasBit st'.dataSetEnds e :=
    fun e he => (hfills.ends e).mpr (Or.inl he)
  refine { ends := ?_, emittedShreds := ?_, ranges := ?_, codingSets := hsets }
  · intro e he
    rcases (hfills.ends e).mp he with hold | ⟨-, shred, hheld, -⟩
    · rw [hfills.of_ne_missing (h.ends e hold)]
      exact h.ends e hold
    · rw [hheld]
      exact DataShred.noConfusion
  · rw [hfills.emittedShreds, h.emittedShreds, count_emitted_congr hemitted]
  · intro i hi
    obtain ⟨s, e, hsi, hie, hend, hstart, hrange⟩ := h.ranges i ((hemitted i).mp hi)
    exact ⟨s, e, hsi, hie, hbit e hend, hstart.imp_right (hbit _),
      fun j hsj hje => (hemitted j).mpr (hrange j hsj hje)⟩

/-- A data shred. -/
theorem Represents.insertDataShred {st : SlotState} (h : Represents st) (shred : Shred) :
    Represents (st.insertDataShred shred).1 := by
  apply h.fills (fills_insertDataShred st shred)
  rw [codingSets_insertDataShred]
  exact h.codingSets

/-- A coding shred. -/
theorem Represents.insertCodingShred {st : SlotState} (h : Represents st) (shred : Shred) :
    Represents (st.insertCodingShred shred) :=
  h.fills (fills_insertCodingShred st shred) (h.codingSets.insertCodingShred shred)

/-- A recovery, whatever comes back. -/
theorem Represents.recover {Entry : Type*} (agave : Agave Entry) {st : SlotState}
    (h : Represents st) (fecSetIndex : ℕ) : Represents (st.recover agave fecSetIndex).1 := by
  rcases st.recover_cases agave fecSetIndex with ⟨-, heq⟩ | ⟨position, -, ⟨-, heq⟩ | ⟨-, ⟨-, heq⟩ |
    ⟨-, hattempts, st', stats, heq, hrecovered⟩⟩⟩
  · rw [heq]
    exact h
  · rw [heq]
    exact { h with codingSets := h.codingSets.swapRemove position.isLt }
  · rw [heq]
    exact h
  · rw [heq]
    apply h.fills hrecovered.fills
    rw [hrecovered.codingSets]
    split_ifs
    · exact h.codingSets.swapRemove position.isLt
    · exact h.codingSets.tried position hattempts

/-- Taking a data set between two markers, if the slot does not become finished. -/
theorem Represents.takeDataSet {Entry : Type*} (agave : Agave Entry) {st : SlotState}
    (h : Represents st) (hfin : st.finished = false) {start stop : ℕ}
    (hseg : Segment (HasBit st.dataSetEnds) start stop) (hheld : st.AllHeld start stop)
    (hfin' : (st.takeDataSet agave start stop).1.finished = false) :
    Represents (st.takeDataSet agave start stop).1 := by
  have htakes := takes_takeDataSet agave hfin hseg hheld
  have hcovers : ∀ i, Covers [(st.takeDataSet agave start stop).2] i ↔ start ≤ i ∧ i ≤ stop :=
    fun i => covers_singleton
  rcases htakes.outcome with hemits | ⟨hdone, -, -⟩
  · have hin : ∀ i, start ≤ i → i ≤ stop →
        (st.takeDataSet agave start stop).1.dataShred i = .emitted :=
      fun i hs he => hemits.covered i ((hcovers i).mpr ⟨hs, he⟩)
    -- what is emitted now is what was, and the range of the data set
    have hemitted : ∀ i, (st.takeDataSet agave start stop).1.dataShred i = .emitted ↔
        st.dataShred i = .emitted ∨ start ≤ i ∧ i ≤ stop := by
      intro i
      by_cases hi : start ≤ i ∧ i ≤ stop
      · simp [hin i hi.1 hi.2, hi]
      · rw [hemits.other i (mt (hcovers i).mp hi)]
        simp [hi]
    refine { ends := ?_, emittedShreds := ?_, ranges := ?_, codingSets := ?_ }
    · intro e he
      rw [hemits.ends] at he
      exact mt (hemits.missing_iff e).mp (h.ends e he)
    · have hnew : ∀ i, start ≤ i → i ≤ stop → st.dataShred i ≠ .emitted := by
        intro i hs he
        obtain ⟨shred, hi⟩ := hheld i hs he
        rw [hi]
        exact DataShred.noConfusion
      rw [htakes.emittedShreds, h.emittedShreds, count_emitted_range hnew hemitted]
      rfl
    · intro i hi
      rw [hemits.ends]
      rcases (hemitted i).mp hi with hold | ⟨hs, he⟩
      · obtain ⟨s, e, hsi, hie, hend, hstart, hrange⟩ := h.ranges i hold
        exact ⟨s, e, hsi, hie, hend, hstart,
          fun j hsj hje => (hemitted j).mpr (Or.inl (hrange j hsj hje))⟩
      · exact ⟨start, stop, hs, he, hseg.ends, hseg.starts, hin⟩
    · exact h.codingSets.sublist hemits.codingSets
  · rw [hdone] at hfin'
    cases hfin'

/-! ### Reachable states -/

/-- The states that the operations lead to from a new one.  Nothing is asked of the shreds and of
what the recoveries give; a data set is tried between two markers, as the loop over them does. -/
inductive Reachable (Entry : Type*) : SlotState → Prop
  | new (slot : ℕ) : Reachable Entry (SlotState.new slot)
  | insertDataShred {st : SlotState} (h : Reachable Entry st) (hfin : st.finished = false)
      (shred : Shred) : Reachable Entry (st.insertDataShred shred).1
  | insertCodingShred {st : SlotState} (h : Reachable Entry st) (hfin : st.finished = false)
      (shred : Shred) : Reachable Entry (st.insertCodingShred shred)
  | recover {st : SlotState} (h : Reachable Entry st) (hfin : st.finished = false)
      (agave : Agave Entry) (fecSetIndex : ℕ) : Reachable Entry (st.recover agave fecSetIndex).1
  | takeIfHeld {st : SlotState} (h : Reachable Entry st) (hfin : st.finished = false)
      (agave : Agave Entry) {start stop : ℕ} (hseg : Segment (HasBit st.dataSetEnds) start stop) :
      Reachable Entry (st.takeIfHeld agave start stop).1

/-- **Run.**  Every unfinished reachable state meets the invariant. -/
theorem Reachable.represents {Entry : Type*} {st : SlotState} (h : Reachable Entry st)
    (hfin : st.finished = false) : Represents st := by
  induction h with
  | new slot => exact represents_new slot
  | insertDataShred _ hbefore shred ih => exact (ih hbefore).insertDataShred shred
  | insertCodingShred _ hbefore shred ih => exact (ih hbefore).insertCodingShred shred
  | recover _ hbefore agave fecSetIndex ih => exact (ih hbefore).recover agave fecSetIndex
  | @takeIfHeld st _ hbefore agave start stop hseg ih =>
    unfold SlotState.takeIfHeld at hfin ⊢
    split_ifs at hfin ⊢ with hheld
    · exact (ih hbefore).takeDataSet agave hbefore hseg (all_isHeld_iff.mp hheld) hfin
    · exact ih hbefore

/-- The loop over the markers leads to a reachable state. -/
theorem Reachable.takeLoop {Entry : Type*} (agave : Agave Entry) (insertedEnd : ℕ)
    {st : SlotState} {start f : ℕ} (h : Reachable Entry st) (hfin : st.finished = false)
    (hopens : Segment.Opens (HasBit st.dataSetEnds) start f) :
    Reachable Entry (st.takeLoop agave insertedEnd start f).1 := by
  induction st, start, f using takeLoop_induction agave insertedEnd with
  | done st start f hnext =>
    rw [takeLoop_none hnext]
    exact h
  | turn st start f stop hnext ih =>
    have hleast := nextBitFrom_eq_some_iff.mp hnext
    have hseg := hopens.segment hleast
    have hturn := h.takeIfHeld hfin agave hseg
    rw [takeLoop_some hnext]
    split_ifs with hbeyond
    · exact hturn
    · dsimp only
      rcases (takeIfHeld_spec agave hfin hseg).1.outcome with hemits | ⟨-, hnil, -⟩
      · have hopens' := Segment.opens_succ hseg.ends
        rw [← hemits.ends] at hopens'
        exact ih (not_lt.mp hbeyond) hturn hemits.unfinished hopens'
      · -- The slot is finished: its end markers are gone and the loop stops.
        rw [takeLoop_nil hnil]
        exact hturn

/-- Taking the completed data sets leads to a reachable state. -/
theorem Reachable.takeCompletedDataSets {Entry : Type*} (agave : Agave Entry) {st : SlotState}
    (h : Reachable Entry st) (hfin : st.finished = false) (insertedStart insertedEnd : ℕ) :
    Reachable Entry (st.takeCompletedDataSets agave insertedStart insertedEnd).1 := by
  rw [takeCompletedDataSets_eq]
  exact h.takeLoop agave insertedEnd hfin (opens_dataSetStart st.dataSetEnds insertedStart)

/-- Inserting a shred, with the recovery and the data sets taken, leads to a reachable state. -/
theorem Reachable.insertShred {Entry : Type*} (agave : Agave Entry) {st : SlotState}
    (h : Reachable Entry st) (hfin : st.finished = false) (shred : Shred) :
    Reachable Entry (st.insertShred agave shred).1 := by
  have hinsert : Reachable Entry (st.insert shred).1 := by
    unfold SlotState.insert
    split_ifs
    · exact h.insertDataShred hfin shred
    · exact h.insertCodingShred hfin shred
  obtain ⟨_, hfills⟩ := st.fills_insert shred
  have hfinInsert := hfills.finished.trans hfin
  have hrecover := hinsert.recover hfinInsert agave shred.fecSetIndex
  obtain ⟨_, hfills'⟩ := (st.insert shred).1.fills_recover agave shred.fecSetIndex
  have hfinRecover := hfills'.finished.trans hfinInsert
  unfold SlotState.insertShred
  dsimp only
  cases insertedDataRange (st.insert shred).2
      ((st.insert shred).1.recover agave shred.fecSetIndex).2 with
  | none => exact hrecover
  | some range => exact hrecover.takeCompletedDataSets agave hfinRecover range.1 range.2

end SlotState

/-- Every slot state of the ring is reachable, along every run. -/
lemma reachable_of_ring {Entry : Type*} (agave : Agave Entry) (shreds : List Shred)
    {k : Fin slotHistorySize} {st : SlotState}
    (h : (Machine.finalState (Deshredder.insertShred agave) Deshredder.default shreds).slots k =
      some st) : SlotState.Reachable Entry st := by
  refine Machine.run_induction (Deshredder.insertShred agave)
    (P := fun _ deshredder _ => ∀ k st, deshredder.slots k = some st →
      SlotState.Reachable Entry st) ?_ ?_ shreds k st h
  · intro k st h
    cases h
  · intro _ shred deshredder _ hall k st hk
    rcases deshredder.insertShred_cases agave shred with ⟨-, heq⟩ | ⟨cur, hcur, hfin, hslots, -, -⟩
    · rw [heq] at hk
      exact hall k st hk
    · rw [hslots] at hk
      by_cases hkey : k = ringIndex shred.slot
      · rw [hkey, Function.update_self] at hk
        rw [← Option.some.inj hk]
        have hreach : SlotState.Reachable Entry cur := by
          rcases (slotState_eq_some hcur).2 with hold | ⟨rfl, -⟩
          · exact hall _ cur hold
          · exact SlotState.Reachable.new shred.slot
        exact hreach.insertShred agave hfin shred
      · rw [Function.update_of_ne hkey] at hk
        exact hall k st hk

/-- **The representation invariant.**  Every unfinished state that the operations of a slot state
lead to meets the invariant, whatever the shreds are and whatever the recoveries give; and every
slot state that a ring holds along any run is such a state. -/
theorem slotState_represents (Entry : Type*) :
    (∀ st, SlotState.Reachable Entry st → st.finished = false → st.Represents) ∧
    ∀ (agave : Agave Entry) (shreds : List Shred) (k : Fin slotHistorySize) (st : SlotState),
      (Machine.finalState (Deshredder.insertShred agave) Deshredder.default shreds).slots k =
        some st → SlotState.Reachable Entry st :=
  ⟨fun _ h hfin => h.represents hfin, fun agave shreds _ _ h => reachable_of_ring agave shreds h⟩

end ShredTools.Deshred
