import ShredTools.Deshred.BlockState

/-!
# Deshredding a well-formed block

What the deshredder takes from the shreds of one well-formed block, whatever their order, and
however many are lost or repeated: exactly the data sets all of whose indices are present, in the
sense of `Block.Present`.  The slot state agrees with the block after every insertion, and no data
set that is complete is left behind (`Synced`); once the slot is finished, everything was emitted.

`Block.Complete` says that every data set with all its shreds present was taken, and `Synced` puts
it together with the agreement of places and coding sets.  One insertion is three moves: the shred
is put in its place, the rest of its FEC set may be recovered, and what is then complete is taken.
`RunInvariant` lifts the step to the deshredder with its ring of slots.  The block of the example is
`pair`, with two data shreds and one coding shred.
-/

namespace ShredTools.Deshred

variable {Entry : Type*}

namespace Block

variable {b : Block} {agave : Agave Entry}

/-! ### Taking data sets -/

/-- The elements of a list at the indices of a range. -/
lemma filterMap_getElem?_range' {α : Type*} (l : List α) (start n : ℕ) :
    (List.range' start n).filterMap (fun i => l[i]?) = (l.drop start).take n := by
  induction n generalizing start with
  | zero => simp
  | succ n ih =>
    rw [List.range'_succ, List.filterMap_cons, ih]
    cases h : l[start]? with
    | none =>
      have hlen := List.getElem?_eq_none_iff.mp h
      rw [List.drop_eq_nil_of_le hlen, List.drop_eq_nil_of_le (by omega)]
      simp
    | some x =>
      obtain ⟨hlt, rfl⟩ := List.getElem?_eq_some_iff.mp h
      rw [List.drop_eq_getElem_cons hlt, List.take_succ_cons]

/-- With a range and the index before it present, all that the range depends on is. -/
lemma present_of_before {P : ℕ → Prop} {s e j : ℕ} (hpresent : ∀ i, s ≤ i → i ≤ e → P i)
    (hbefore : s = 0 ∨ P (s - 1)) (hj : s - 1 ≤ j) (hje : j ≤ e) : P j := by
  by_cases hsj : s ≤ j
  · exact hpresent j hsj hje
  · rcases hbefore with h0 | hP
    · omega
    · rwa [show j = s - 1 by omega]

/-- A segment of the end markers all of whose shreds are held is a data set of the block. -/
theorem Places.segment {P : ℕ → Prop} {taken : List (TakenDataSet Entry)} {st : SlotState}
    (h : b.Places agave P taken st) {s e : ℕ} (hseg : Segment (HasBit st.dataSetEnds) s e)
    (hpresent : ∀ i, s ≤ i → i ≤ e → P i) :
    Segment b.EndsAt s e ∧ (s = 0 ∨ P (s - 1)) := by
  have hbefore : s = 0 ∨ P (s - 1) := hseg.starts.imp id fun hb => ((h.ends _).mp hb).1
  refine ⟨hseg.congr fun j hj hje => ?_, hbefore⟩
  rw [h.ends]
  refine and_iff_right ?_
  exact present_of_before hpresent hbefore hj hje

/-- A data set of the block whose indices are present is a segment of the end markers. -/
theorem Places.markers {P : ℕ → Prop} {taken : List (TakenDataSet Entry)} {st : SlotState}
    (h : b.Places agave P taken st) {s e : ℕ} (hseg : Segment b.EndsAt s e)
    (hpresent : ∀ i, s ≤ i → i ≤ e → P i) (hbefore : s = 0 ∨ P (s - 1)) :
    Segment (HasBit st.dataSetEnds) s e := by
  refine hseg.congr fun j hj hje => ?_
  rw [h.ends]
  refine (and_iff_right ?_).symm
  exact present_of_before hpresent hbefore hj hje

/-- A range of indices that are present, none of them taken, is all held. -/
theorem Places.allHeld {P : ℕ → Prop} {taken : List (TakenDataSet Entry)} {st : SlotState}
    (h : b.Places agave P taken st) {s e : ℕ} (hpresent : ∀ i, s ≤ i → i ≤ e → P i)
    (hc : ∀ i, s ≤ i → i ≤ e → ¬ SlotState.Covers taken i) : st.AllHeld s e := by
  intro i h1 h2
  cases hi : st.dataShred i with
  | missing => exact absurd (hpresent i h1 h2) ((h.missing_iff i).mp hi)
  | emitted => exact absurd ((h.emitted i).mp hi) (hc i h1 h2)
  | held shred => exact ⟨shred, rfl⟩

/-- A data set complete in a state that agrees with the block is one of the block's. -/
lemma Places.takenOk {P : ℕ → Prop} {taken : List (TakenDataSet Entry)} {st : SlotState}
    (h : b.Places agave P taken st) {dataSet : TakenDataSet Entry}
    (ht : SlotState.TakenFrom agave st dataSet) : b.TakenOk agave P dataSet := by
  have hpresent : ∀ i, dataSet.startShredIndex ≤ i → i ≤ dataSet.endShredIndex → P i := by
    intro i h1 h2
    obtain ⟨shred, hheld⟩ := ht.allHeld i h1 h2
    by_contra hnot
    rw [(h.missing_iff i).mpr hnot] at hheld
    exact DataShred.noConfusion hheld
  obtain ⟨hseg, hbefore⟩ := h.segment ht.segment hpresent
  have hslot := ht.slot.trans h.slot
  refine
    { segment := hseg, present := hpresent, before := hbefore, slot := hslot, dataShreds := ?_
      completed := hslot ▸ ht.completed }
  rw [ht.dataShreds, ← filterMap_getElem?_range']
  refine List.filterMap_congr fun i hi => ?_
  obtain ⟨h1, h2⟩ := mem_rangeInclusive.mp hi
  obtain ⟨shred, hheld⟩ := ht.allHeld i h1 h2
  rw [SlotState.heldShred_eq_some_iff.mpr hheld, h.held i shred hheld]

/-- A state that agrees with the block is marked. -/
theorem Places.marked {P : ℕ → Prop} {taken : List (TakenDataSet Entry)} {st : SlotState}
    (h : b.Places agave P taken st) : SlotState.Marked taken st where
  emitted _ i hi := (h.emitted i).mpr hi
  index _ i shred hheld := b.data_index i shred (h.held i shred hheld)

/-- The data sets taken in addition are the block's too. -/
lemma Places.takenOk_append {P : ℕ → Prop} {taken taken' : List (TakenDataSet Entry)}
    {st st' : SlotState} (h : b.Places agave P taken st)
    (htakes : SlotState.Takes agave st st' taken') :
    ∀ dataSet ∈ taken ++ taken', b.TakenOk agave P dataSet := by
  intro dataSet hmem
  rcases List.mem_append.mp hmem with hmem | hmem
  · exact h.sets dataSet hmem
  · exact h.takenOk (htakes.sound dataSet hmem)

/-- The data sets taken are apart from each other and from those taken before. -/
lemma Places.apart_append {P : ℕ → Prop} {taken taken' : List (TakenDataSet Entry)}
    {st st' : SlotState} (h : b.Places agave P taken st)
    (htakes : SlotState.Takes agave st st' taken') :
    (taken ++ taken').Pairwise TakenDataSet.Apart := by
  obtain ⟨hnew, hold⟩ := h.marked.apart h.unfinished htakes
  exact List.pairwise_append.mpr ⟨h.apart, hnew, hold⟩

/-- Emitting data sets keeps a state in agreement with the block. -/
theorem Places.emits {P : ℕ → Prop} {taken taken' : List (TakenDataSet Entry)} {st st' : SlotState}
    (h : b.Places agave P taken st) (htakes : SlotState.Takes agave st st' taken')
    (hemits : SlotState.Emits taken' st st') : b.Places agave P (taken ++ taken') st' where
  slot := htakes.slot.trans h.slot
  unfinished := hemits.unfinished
  missing_iff i := (hemits.missing_iff i).trans (h.missing_iff i)
  held i shred hheld := h.held i shred (hemits.held hheld).2
  emitted i := by
    rw [SlotState.covers_append]
    by_cases hc : SlotState.Covers taken' i
    · exact iff_of_true (hemits.covered i hc) (Or.inr hc)
    · rw [hemits.other i hc, h.emitted, or_iff_left hc]
  ends i := by rw [hemits.ends, h.ends]
  last i := by rw [htakes.lastShredIndex, h.last]
  emittedShreds := by
    rw [htakes.emittedShreds, h.emittedShreds, SlotState.shredCount_append]
  sets := h.takenOk_append htakes
  apart := h.apart_append htakes

/-- Emitting data sets keeps the coding sets in agreement with the shreds received. -/
theorem Codes.emits {received : List Shred} {P : ℕ → Prop}
    {taken taken' : List (TakenDataSet Entry)} {st st' : SlotState}
    (h : b.Codes received P st) (hplaces : b.Places agave P taken st)
    (hemits : SlotState.Emits taken' st st') : b.Codes received P st' where
  keys := h.keys.sublist (hemits.codingSets.map _)
  sound c hc := h.sound c (hemits.codingSets.subset hc)
  complete set hset hlacks shred hmem hcoding hname := by
    obtain ⟨c, hc, hkey⟩ :=
      List.mem_map.mp (h.complete set hset hlacks shred hmem hcoding hname)
    refine List.mem_map.mpr ⟨c, hemits.kept c hc ?_, hkey⟩
    obtain ⟨other, hother, hkey', hnum, -⟩ := h.sound c hc
    obtain rfl : set = other := start_unique hset hother (hkey.symm.trans hkey')
    rw [CodingSet.dataRange, hkey', hnum]
    exact (hplaces.missing_ne_zero_iff hset).mpr hlacks

/-- Data sets apart from each other that have as many shreds as the block cover it. -/
lemma covers_of_shredCount {P : ℕ → Prop} (hP : ∀ i, P i → i < b.data.length)
    {taken : List (TakenDataSet Entry)} (hsets : ∀ dataSet ∈ taken, b.TakenOk agave P dataSet)
    (hapart : taken.Pairwise TakenDataSet.Apart)
    (hcount : SlotState.shredCount taken = b.data.length) {i : ℕ} (hi : i < b.data.length) :
    SlotState.Covers taken i := by
  have hnodup : (takenIndices taken).Nodup := by
    refine List.nodup_flatMap.mpr ⟨fun _ _ => nodup_rangeInclusive _ _, ?_⟩
    refine hapart.imp_of_mem fun {dataSet other} hd ho h => ?_
    intro j hj hj'
    have hslot := (hsets dataSet hd).slot.trans (hsets other ho).slot.symm
    exact h hslot j ⟨mem_rangeInclusive.mp hj, mem_rangeInclusive.mp hj'⟩
  have hlength : (takenIndices taken).length = b.data.length := by
    rw [length_takenIndices, hcount]
  have hlt : ∀ j ∈ takenIndices taken, j < b.data.length := by
    intro j hj
    obtain ⟨dataSet, hd, h1, h2⟩ := mem_takenIndices.mp hj
    exact hP j ((hsets dataSet hd).present j h1 h2)
  exact mem_takenIndices.mp (hnodup.mem_of_length_eq hlt hlength hi)

/-- Every data set of the block whose indices are present was taken. -/
def Complete (b : Block) (P : ℕ → Prop) (taken : List (TakenDataSet Entry)) : Prop :=
  ∀ s e, Segment b.EndsAt s e → (∀ i, s ≤ i → i ≤ e → P i) → (s = 0 ∨ P (s - 1)) →
    ∃ dataSet ∈ taken, dataSet.startShredIndex = s ∧ dataSet.endShredIndex = e

/-- A data set of the block one of whose indices is covered was taken. -/
lemma taken_of_covers {P : ℕ → Prop} {taken : List (TakenDataSet Entry)}
    (hsets : ∀ dataSet ∈ taken, b.TakenOk agave P dataSet) {s e i : ℕ}
    (hseg : Segment b.EndsAt s e) (hsi : s ≤ i) (hie : i ≤ e) (hc : SlotState.Covers taken i) :
    ∃ dataSet ∈ taken, dataSet.startShredIndex = s ∧ dataSet.endShredIndex = e := by
  obtain ⟨dataSet, hmem, h1, h2⟩ := hc
  obtain ⟨h3, h4⟩ := (hsets dataSet hmem).segment.eq_of_mem hseg ⟨h1, h2⟩ ⟨hsi, hie⟩
  exact ⟨dataSet, hmem, h3, h4⟩

/-- Away from the inserted range nothing changed, so a data set there was taken before. -/
theorem Complete.away {P₀ P : ℕ → Prop} {taken : List (TakenDataSet Entry)}
    (hcomplete : b.Complete P₀ taken) {range : Option (ℕ × ℕ)}
    (hchanged : ∀ i, P i → ¬ P₀ i → ∃ a c, range = some (a, c) ∧ a ≤ i ∧ i ≤ c) {s e : ℕ}
    (hseg : Segment b.EndsAt s e) (hpresent : ∀ i, s ≤ i → i ≤ e → P i)
    (hbefore : s = 0 ∨ P (s - 1))
    (haway : ∀ a c, range = some (a, c) → ¬ (a ≤ e ∧ s ≤ c + 1)) :
    ∃ dataSet ∈ taken, dataSet.startShredIndex = s ∧ dataSet.endShredIndex = e := by
  have hunchanged : ∀ i, s ≤ i + 1 → i ≤ e → P i → P₀ i := by
    intro i h1 h2 hi
    by_contra hnot
    obtain ⟨a, c, hrange, h3, h4⟩ := hchanged i hi hnot
    exact haway a c hrange ⟨by omega, by omega⟩
  have := hseg.le
  exact hcomplete s e hseg (fun i h1 h2 => hunchanged i (by omega) h2 (hpresent i h1 h2))
    (hbefore.imp id (hunchanged (s - 1) (by omega) (by omega)))

/-- When taking data sets finishes the slot, all of the block was emitted. -/
lemma Places.covers_of_finishes {P : ℕ → Prop} {taken taken' : List (TakenDataSet Entry)}
    {st st' : SlotState} (hP : ∀ i, P i → i < b.data.length) (h : b.Places agave P taken st)
    (htakes : SlotState.Takes agave st st' taken')
    (hlast : st'.lastShredIndex.any (fun last => st'.emittedShreds = last + 1) = true) {i : ℕ}
    (hi : i < b.data.length) : SlotState.Covers (taken ++ taken') i := by
  refine covers_of_shredCount hP (h.takenOk_append htakes) (h.apart_append htakes) ?_ hi
  rw [htakes.lastShredIndex] at hlast
  cases hl : st.lastShredIndex with
  | none =>
    rw [hl] at hlast
    exact Bool.noConfusion hlast
  | some last =>
    rw [hl, Option.any_some, decide_eq_true_eq, htakes.emittedShreds, h.emittedShreds,
      ← SlotState.shredCount_append] at hlast
    exact hlast.trans ((h.last last).mp hl).1

/-- **The third move.**  Taking the data sets completed by the inserted range leaves none behind. -/
theorem takeInserted_complete {received : List Shred} {P₀ P : ℕ → Prop}
    {taken : List (TakenDataSet Entry)} {st : SlotState} {range : Option (ℕ × ℕ)}
    (hP : ∀ i, P i → i < b.data.length) (hplaces : b.Places agave P taken st)
    (hcodes : b.Codes received P st) (hcomplete : b.Complete P₀ taken)
    (hle : ∀ a c, range = some (a, c) → a ≤ c)
    (hchanged : ∀ i, P i → ¬ P₀ i → ∃ a c, range = some (a, c) ∧ a ≤ i ∧ i ≤ c) :
    let result := st.takeInserted agave range
    (∀ dataSet ∈ taken ++ result.2, b.TakenOk agave P dataSet) ∧
      (taken ++ result.2).Pairwise TakenDataSet.Apart ∧
      result.1.slot = b.slot ∧
      (b.Places agave P (taken ++ result.2) result.1 ∧ b.Codes received P result.1 ∧
          b.Complete P (taken ++ result.2) ∨
        result.1.finished = true ∧
          ∀ i < b.data.length, SlotState.Covers (taken ++ result.2) i) := by
  cases range with
  | none =>
    refine ⟨?_, ?_, hplaces.slot, Or.inl ⟨?_, hcodes, ?_⟩⟩ <;>
      simp only [SlotState.takeInserted, List.append_nil]
    · exact hplaces.sets
    · exact hplaces.apart
    · exact hplaces
    · intro s e hseg hpresent hbefore
      exact hcomplete.away hchanged hseg hpresent hbefore fun a c hf => by simp at hf
  | some range =>
    obtain ⟨a, c⟩ := range
    obtain ⟨htakes, -, hall⟩ :=
      SlotState.takeCompletedDataSets_spec agave hplaces.unfinished (hle a c rfl)
    have hsets := hplaces.takenOk_append htakes
    have hapart := hplaces.apart_append htakes
    refine ⟨hsets, hapart, htakes.slot.trans hplaces.slot, ?_⟩
    rcases htakes.outcome with hemits | ⟨hdone, -, hlast⟩
    · refine Or.inl ⟨hplaces.emits htakes hemits, hcodes.emits hplaces hemits, ?_⟩
      intro s e hseg hpresent hbefore
      by_cases hc : ∃ i, s ≤ i ∧ i ≤ e ∧ SlotState.Covers taken i
      · obtain ⟨i, h1, h2, hc⟩ := hc
        obtain ⟨dataSet, hmem, heq⟩ := taken_of_covers hplaces.sets hseg h1 h2 hc
        exact ⟨dataSet, List.mem_append_left _ hmem, heq⟩
      · by_cases hnear : a ≤ e ∧ s ≤ c + 1
        · -- All its shreds are held, so the walk takes it.
          have hheld : st.AllHeld s e :=
            hplaces.allHeld hpresent fun i h1 h2 hi => hc ⟨i, h1, h2, hi⟩
          have hmarkers := hplaces.markers hseg hpresent hbefore
          obtain ⟨dataSet, hmem, heq⟩ := hall hemits.unfinished s e hmarkers hheld hnear.1 hnear.2
          exact ⟨dataSet, List.mem_append_right _ hmem, heq⟩
        · obtain ⟨dataSet, hmem, heq⟩ := hcomplete.away hchanged hseg hpresent hbefore (by
            rintro a' c' hrange
            obtain ⟨rfl, rfl⟩ : a = a' ∧ c = c' := by simpa using hrange
            exact hnear)
          exact ⟨dataSet, List.mem_append_left _ hmem, heq⟩
    · exact Or.inr ⟨hdone, fun i hi => hplaces.covers_of_finishes hP htakes hlast hi⟩

/-! ### Runs -/

/-- What holds of the slot state of the block, unless no shred was received yet: it agrees with
the block and no data set is left behind, or all of the block was emitted. -/
structure Synced (b : Block) (agave : Agave Entry) (received : List Shred)
    (taken : List (TakenDataSet Entry)) (st : SlotState) : Prop where
  /-- The state is of the block's slot. -/
  slot : st.slot = b.slot
  /-- The data sets taken are the block's. -/
  sets : ∀ dataSet ∈ taken, b.TakenOk agave (b.Present received) dataSet
  /-- No position was taken twice. -/
  apart : taken.Pairwise TakenDataSet.Apart
  /-- The state agrees with what was received, or the slot is finished. -/
  state : b.Places agave (b.Present received) taken st ∧ b.Codes received (b.Present received) st ∧
      b.Complete (b.Present received) taken ∨
    st.finished = true ∧ ∀ i < b.data.length, SlotState.Covers taken i

/-- A new slot state. -/
theorem Synced.new (b : Block) (agave : Agave Entry) :
    b.Synced agave [] [] (SlotState.new b.slot) where
  slot := rfl
  sets _ h := absurd h List.not_mem_nil
  apart := List.Pairwise.nil
  state := by
    refine Or.inl ⟨?_, ?_, ?_⟩
    · exact
        { slot := rfl
          unfinished := rfl
          missing_iff := fun i => iff_of_true rfl (not_present_nil i)
          held := fun i shred h => by simp at h
          emitted := fun i => by simp [SlotState.Covers]
          ends := fun i => iff_of_false (not_hasBit_nil i) fun h => not_present_nil i h.1
          last := fun i => iff_of_false (by simp [SlotState.new]) fun h => not_present_nil i h.2
          emittedShreds := rfl
          sets := fun _ h => absurd h List.not_mem_nil
          apart := List.Pairwise.nil }
    · exact
        { keys := List.nodup_nil
          sound := fun _ h => absurd h List.not_mem_nil
          complete := fun _ _ _ _ h => absurd h List.not_mem_nil }
    · intro s e hseg hpresent _
      exact absurd (hpresent s le_rfl hseg.le) (not_present_nil s)

/-- In either case no data set whose indices are present is left behind. -/
theorem Synced.complete {received : List Shred} {taken : List (TakenDataSet Entry)}
    {st : SlotState} (hreceived : ∀ shred ∈ received, shred ∈ b.shreds)
    (h : b.Synced agave received taken st) : b.Complete (b.Present received) taken := by
  rcases h.state with ⟨-, -, hcomplete⟩ | ⟨-, hcovers⟩
  · exact hcomplete
  · intro s e hseg hpresent _
    have hlt := (hpresent e hseg.le le_rfl).lt hreceived
    exact taken_of_covers h.sets hseg hseg.le le_rfl (hcovers e hlt)

/-- An index that became present with the shred is in the inserted range. -/
theorem AfterRecovery.inserted {received : List Shred} {shred : Shred} {set : FecSet}
    {taken : List (TakenDataSet Entry)} {result : SlotState × Option RecoveryStats}
    (h : b.AfterRecovery agave received shred set taken result)
    (hset : set ∈ b.fecSets) (hname : shred.fecSetIndex = set.start) (hmem : shred ∈ b.shreds)
    {insertedData : Option (ℕ × ℕ)}
    (hinserted : ∀ i, b.Known received shred i → ¬ b.Present received i →
      insertedData = some (i, i)) {i : ℕ}
    (hi : b.Present (received ++ [shred]) i) (hnot : ¬ b.Present received i) :
    ∃ a c, insertedDataRange insertedData result.2 = some (a, c) ∧ a ≤ i ∧ i ≤ c := by
  have hhas : set.Has i := by
    by_contra hno
    exact hnot (present_append_other hset hname hmem hno hi)
  unfold insertedDataRange
  by_cases hknown : b.Known received shred i
  · -- It is the shred's own index, unless the recovery reports the whole FEC set.
    cases hstats : result.2 with
    | none => exact ⟨i, i, hinserted i hknown hnot, le_rfl, le_rfl⟩
    | some stats =>
      dsimp only
      split_ifs with hpos
      · exact ⟨_, _, rfl, h.range stats hstats i hhas⟩
      · exact ⟨i, i, hinserted i hknown hnot, le_rfl, le_rfl⟩
  · obtain ⟨stats, hstats, hpos⟩ := h.counted i hi hknown
    rw [hstats]
    dsimp only
    rw [if_pos hpos]
    exact ⟨_, _, rfl, h.range stats hstats i hhas⟩

/-- **Step.**  One more shred of the block, inserted into an unfinished slot state. -/
theorem Synced.insertShred (hrec : agave.Recovers b) {received : List Shred} {shred : Shred}
    (hreceived : ∀ other ∈ received ++ [shred], other ∈ b.shreds)
    {taken : List (TakenDataSet Entry)} {st : SlotState} (h : b.Synced agave received taken st)
    (hfin : st.finished = false) :
    b.Synced agave (received ++ [shred]) (taken ++ (st.insertShred agave shred).2.2)
      (st.insertShred agave shred).1 := by
  have hmem := hreceived shred (List.mem_append_right _ (List.mem_singleton_self _))
  obtain ⟨set, hset, hname, -, -⟩ := exists_fecSet hmem
  rcases h.state with ⟨hplaces, hcodes, hcomplete⟩ | ⟨hdone, -⟩
  · obtain ⟨hplaces₁, hcodes₁, hinserted⟩ := insert_known
      (fun other ho => hreceived other (List.mem_append_left _ ho)) hplaces hcodes hmem
    have hafter := recover_present hrec hreceived hplaces₁ hcodes₁ hset hname
    obtain ⟨hsets, hapart, hslot, hstate⟩ := takeInserted_complete
      (fun i hi => Present.lt hreceived hi) hafter.places hafter.codes hcomplete
      (fun a c hac => SlotState.insertedDataRange_le agave st _ shred hac)
      (fun i => hafter.inserted hset hname hmem hinserted)
    exact { slot := hslot, sets := hsets, apart := hapart, state := hstate }
  · rw [hfin] at hdone
    exact Bool.noConfusion hdone

/-- One more shred of the block changes nothing once its slot is finished. -/
theorem Synced.finished {received : List Shred} {taken : List (TakenDataSet Entry)}
    {st : SlotState} (h : b.Synced agave received taken st) (hfin : st.finished = true)
    (shred : Shred) : b.Synced agave (received ++ [shred]) taken st where
  slot := h.slot
  sets dataSet hmem := (h.sets dataSet hmem).mono fun _ hi => hi.append shred
  apart := h.apart
  state := by
    rcases h.state with ⟨hplaces, -, -⟩ | hdone
    · rw [hplaces.unfinished] at hfin
      exact Bool.noConfusion hfin
    · exact Or.inr hdone

/-- What holds of the deshredder along a run over shreds of the block. -/
def RunInvariant (b : Block) (agave : Agave Entry) (received : List Shred) (deshredder : Deshredder)
    (taken : List (TakenDataSet Entry)) : Prop :=
  (received = [] ∧ taken = [] ∧ deshredder.slots (ringIndex b.slot) = none) ∨
    ∃ st, deshredder.slots (ringIndex b.slot) = some st ∧ b.Synced agave received taken st

/-- **Step.**  One more shred of the block, inserted into the deshredder. -/
theorem RunInvariant.insertShred (hrec : agave.Recovers b) {received : List Shred} {shred : Shred}
    (hreceived : ∀ other ∈ received ++ [shred], other ∈ b.shreds) {deshredder : Deshredder}
    {taken : List (TakenDataSet Entry)}
    (h : b.RunInvariant agave received deshredder taken) :
    b.RunInvariant agave (received ++ [shred]) (deshredder.insertShred agave shred).1
      (taken ++ (deshredder.insertShred agave shred).2) := by
  have hslot : shred.slot = b.slot :=
    slot_eq (hreceived shred (List.mem_append_right _ (List.mem_singleton_self _)))
  -- The slot state the shred goes to.
  obtain ⟨st, hst, hsynced⟩ : ∃ st, slotState deshredder.slots shred.slot = some st ∧
      b.Synced agave received taken st := by
    rw [hslot]
    unfold slotState
    rcases h with ⟨rfl, rfl, hnone⟩ | ⟨st, hsome, hsynced⟩
    · rw [hnone]
      exact ⟨_, rfl, Synced.new b agave⟩
    · rw [hsome]
      refine ⟨st, ?_, hsynced⟩
      simp [hsynced.slot]
  rcases deshredder.insertShred_cases agave shred with
    ⟨hdone, hsame⟩ | ⟨st', hst', hfin, hslots, htaken, -⟩
  · have hfin := hdone st hst
    have hold : deshredder.slots (ringIndex b.slot) = some st := by
      obtain ⟨-, hold | ⟨rfl, -⟩⟩ := slotState_eq_some hst
      · exact hslot ▸ hold
      · exact Bool.noConfusion hfin
    rw [hsame, List.append_nil]
    exact Or.inr ⟨st, hold, hsynced.finished hfin shred⟩
  · rw [hst] at hst'
    obtain rfl := Option.some.inj hst'
    rw [htaken]
    refine Or.inr ⟨_, ?_, hsynced.insertShred hrec hreceived hfin⟩
    rw [hslots, hslot, Function.update_self]

/-- The invariant holds along every run over shreds of the block. -/
theorem runInvariant_run (hrec : agave.Recovers b) (received : List Shred)
    (hreceived : ∀ shred ∈ received, shred ∈ b.shreds) :
    b.RunInvariant agave received
      (Machine.finalState (Deshredder.insertShred agave) Deshredder.default received)
      (takenAlong agave Deshredder.default received) := by
  refine Machine.run_induction (Deshredder.insertShred agave)
    (P := fun received deshredder outs => (∀ shred ∈ received, shred ∈ b.shreds) →
      b.RunInvariant agave received deshredder outs.flatten)
    (fun _ => Or.inl ⟨rfl, rfl, rfl⟩) ?_ received hreceived
  intro received shred deshredder outs h hreceived
  rw [List.flatten_append, List.flatten_singleton]
  exact (h fun other ho => hreceived other (List.mem_append_left _ ho)).insertShred hrec hreceived

/-- **The deshredder emits exactly the decodable data sets of a block.**  Whatever shreds of a
well-formed block were inserted, in any order: the data sets taken are those all of whose indices
are present, as is the end of the data set before; each is taken once; each consists of the shreds
of its range in order and is decoded from them; and each is returned or counted as an error. -/
theorem insertShred_takes_exactly_decodable (agave : Agave Entry) (b : Block)
    (hrec : agave.Recovers b) (received : List Shred)
    (hreceived : ∀ shred ∈ received, shred ∈ b.shreds) :
    (∀ s e, (∃ dataSet ∈ takenAlong agave Deshredder.default received,
        dataSet.startShredIndex = s ∧ dataSet.endShredIndex = e) ↔
      Segment b.EndsAt s e ∧ (∀ i, s ≤ i → i ≤ e → b.Present received i) ∧
        (s = 0 ∨ b.Present received (s - 1))) ∧
    ((takenAlong agave Deshredder.default received).map fun dataSet =>
      (dataSet.startShredIndex, dataSet.endShredIndex)).Nodup ∧
    (∀ dataSet ∈ takenAlong agave Deshredder.default received,
      dataSet.slot = b.slot ∧
      dataSet.dataShreds = (b.data.drop dataSet.startShredIndex).take
        (dataSet.endShredIndex + 1 - dataSet.startShredIndex) ∧
      dataSet.completed = decode agave b.slot dataSet.startShredIndex dataSet.endShredIndex
        dataSet.dataShreds) ∧
    (Machine.finalState (Deshredder.insertShred agave) Deshredder.default
        received).stats.decodeErrors +
      (completedDataSets (takenAlong agave Deshredder.default received)).length =
      (takenAlong agave Deshredder.default received).length := by
  have hring := ringInvariant_run agave received
  obtain ⟨hsets, hcomplete⟩ : (∀ dataSet ∈ takenAlong agave Deshredder.default received,
      b.TakenOk agave (b.Present received) dataSet) ∧
      b.Complete (b.Present received) (takenAlong agave Deshredder.default received) := by
    rcases runInvariant_run hrec received hreceived with ⟨rfl, hnil, -⟩ | ⟨st, -, hsynced⟩
    · rw [hnil]
      refine ⟨fun _ h => absurd h List.not_mem_nil, fun s e hseg hpresent _ => ?_⟩
      exact absurd (hpresent s le_rfl hseg.le) (not_present_nil s)
    · exact ⟨hsynced.sets, hsynced.complete hreceived⟩
  refine ⟨fun s e => ⟨?_, ?_⟩, ?_, ?_, decodeErrors_run agave received⟩
  · rintro ⟨dataSet, hmem, rfl, rfl⟩
    have hok := hsets dataSet hmem
    exact ⟨hok.segment, hok.present, hok.before⟩
  · rintro ⟨hseg, hpresent, hbefore⟩
    exact hcomplete s e hseg hpresent hbefore
  · rw [List.Nodup, List.pairwise_map]
    refine hring.apart.imp_of_mem fun {dataSet other} hd ho hapart heq => ?_
    have hslot := (hsets dataSet hd).slot.trans (hsets other ho).slot.symm
    have hle := (hsets other ho).segment.le
    rw [Prod.mk.injEq] at heq
    exact hapart hslot other.startShredIndex ⟨by omega, by omega⟩
  · intro dataSet hmem
    have hok := hsets dataSet hmem
    exact ⟨hok.slot, hok.dataShreds, hok.completed⟩

/-- A block of one FEC set with two data shreds and a coding shred. -/
def pair : Block :=
  let shred (index : ℕ) (isData last : Bool) (payload : List UInt8)
      (h : index + 1 < 2 ^ 32) : Shred :=
    ⟨7, index, 0, isData, last, last, payload, h⟩
  let first := shred 0 true false [1] (by decide)
  let second := shred 1 true true [2] (by decide)
  let parity := shred 0 false false (List.replicate 83 0 ++ [2, 0]) (by decide)
  { slot := 7
    data := [first, second]
    fecSets := [⟨0, 2, [parity], by decide⟩]
    tiles := by decide
    data_index := by
      intro i shred h
      match i with
      | 0 => exact Option.some.inj h ▸ rfl
      | 1 => exact Option.some.inj h ▸ rfl
      | _ + 2 => simp at h
    data_isData := by decide
    data_slot := by decide
    data_fecSetIndex := by decide
    coding_isData := by decide
    coding_slot := by decide
    coding_fecSetIndex := by decide
    coding_numData := by decide
    coding_index := by decide
    dataComplete := by decide
    lastInSlot := by decide }

/-- A shred library that recovers the data shreds of `pair` and joins payloads. -/
def pairAgave : Agave (List UInt8) where
  recover input := some ((pair.data.filter (· ∉ input)).map some)
  deshred payloads := some payloads.flatten
  deserialize bytes := some [bytes]

/-- `pairAgave` recovers `pair`. -/
theorem pairAgave_recovers : pairAgave.Recovers pair := by
  intro set hset input _ _ _
  refine ⟨_, rfl, fun shred => ?_⟩
  have hall : ∀ shred ∈ pair.data, shred.isData = true ∧ ∀ set ∈ pair.fecSets,
      set.Has shred.index := by
    decide
  simp only [List.mem_map, List.mem_filter, decide_eq_true_eq, Option.some.injEq, exists_eq_right]
  constructor
  · rintro ⟨⟨hmem, hnot⟩, -⟩
    exact ⟨hmem, (hall shred hmem).2 set hset, hnot⟩
  · rintro ⟨hmem, -, hnot⟩
    exact ⟨⟨hmem, hnot⟩, (hall shred hmem).1⟩

/-- The first data shred and the coding shred bring the data set of `pair`. -/
theorem insertShred_takes_exactly_decodable_pair :
    ∃ received, (∀ shred ∈ received, shred ∈ pair.shreds) ∧ received.length = 2 ∧
      ∃ dataSet ∈ takenAlong pairAgave Deshredder.default received,
        dataSet.startShredIndex = 0 ∧ dataSet.endShredIndex = 1 := by
  have hshreds : ∀ shred ∈ pair.data.take 1 ++ pair.fecSets.flatMap FecSet.coding,
      shred ∈ pair.shreds := by
    intro shred h
    rcases List.mem_append.mp h with h | h
    · exact Or.inl (List.mem_of_mem_take h)
    · exact Or.inr (List.mem_flatMap.mp h)
  have hends : pair.EndsAt 1 := ⟨_, rfl, rfl⟩
  have hinner : ¬ pair.EndsAt 0 := by
    rintro ⟨shred, hget, hcomplete⟩
    rw [← Option.some.inj hget] at hcomplete
    exact Bool.noConfusion hcomplete
  refine ⟨_, hshreds, rfl, ((insertShred_takes_exactly_decodable pairAgave pair pairAgave_recovers _
    hshreds).1 0 1).mpr ⟨⟨by decide, hends, Or.inl rfl, ?_⟩, ?_, Or.inl rfl⟩⟩
  · intro j _ hj
    rwa [Nat.lt_one_iff.mp hj]
  · intro i _ hi
    refine Or.inr ⟨_, List.mem_singleton_self _, ⟨Nat.zero_le i, ?_⟩, ?_⟩
    · exact Nat.lt_succ_of_le hi
    · decide

end Block

end ShredTools.Deshred
