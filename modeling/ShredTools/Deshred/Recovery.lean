import ShredTools.Deshred.SlotState

/-!
# What an insertion and a recovery do to a slot

A received shred fills at most one place of a slot and a recovery fills many, but always missing
places and always with their own shreds.  `Fills new st st'` says so of two states in terms of the
set `new` of shreds offered: it holds of a single insertion, composes, and so holds of every
recovery.  `recover_cases` lists everything `recover` can do.

What was missing and is held afterwards is a shred of `new` (`Fills.mem_of_held`), what was held or
emitted stays (`Fills.of_ne_missing`), and the end markers and the last index are those that the new
shreds bring.  The coding sets are no part of it, as the two kinds of insertion treat them
differently.  `Recovered` says besides what a recovery leaves of its coding set: it is dropped once
no data of the set is missing, and otherwise the attempt is counted.
-/

namespace ShredTools.Deshred

namespace SlotState

/-- `st'` is `st` with some of the shreds of `new` put in missing places. -/
structure Fills (new : Set Shred) (st st' : SlotState) : Prop where
  /-- A place changes only from missing to a shred of `new` with that index. -/
  place : ∀ i, st'.dataShred i = st.dataShred i ∨
    st.dataShred i = .missing ∧ ∃ shred ∈ new, shred.index = i ∧ st'.dataShred i = .held shred
  /-- No place of a shred of `new` is missing any more. -/
  filled : ∀ shred ∈ new, st'.dataShred shred.index ≠ .missing
  /-- The end markers gained are those of the shreds put in. -/
  ends : ∀ i, HasBit st'.dataSetEnds i ↔ HasBit st.dataSetEnds i ∨
    st.dataShred i = .missing ∧ ∃ shred, st'.dataShred i = .held shred ∧ shred.dataComplete = true
  /-- The last index is that of a shred put in that closes the slot, if there is one. -/
  last : (st'.lastShredIndex = st.lastShredIndex ∧
      ∀ i shred, st.dataShred i = .missing → st'.dataShred i = .held shred →
        shred.lastInSlot = false) ∨
    ∃ i shred, st.dataShred i = .missing ∧ st'.dataShred i = .held shred ∧
      shred.lastInSlot = true ∧ st'.lastShredIndex = some i
  /-- The slot does not change. -/
  slot : st'.slot = st.slot
  /-- Nothing is emitted. -/
  emittedShreds : st'.emittedShreds = st.emittedShreds
  /-- The slot does not become finished. -/
  finished : st'.finished = st.finished

namespace Fills

variable {new new' : Set Shred} {st st' st'' : SlotState}

/-- What is there stays there. -/
theorem of_ne_missing (h : Fills new st st') {i : ℕ} (hi : st.dataShred i ≠ .missing) :
    st'.dataShred i = st.dataShred i :=
  (h.place i).resolve_right fun hm => hi hm.1

/-- A place that is missing afterwards was missing before. -/
theorem missing_of_missing (h : Fills new st st') {i : ℕ} (hi : st'.dataShred i = .missing) :
    st.dataShred i = .missing := by
  rcases h.place i with heq | ⟨hm, -⟩
  · rw [← heq, hi]
  · exact hm

/-- A place that was missing and is held is filled with a shred offered for it. -/
theorem mem_of_held (h : Fills new st st') {i : ℕ} {shred : Shred}
    (hm : st.dataShred i = .missing) (hheld : st'.dataShred i = .held shred) :
    shred ∈ new ∧ shred.index = i := by
  rcases h.place i with heq | ⟨-, other, hmem, hindex, hheld'⟩
  · rw [heq, hm] at hheld
    exact DataShred.noConfusion hheld
  · rw [hheld'] at hheld
    obtain rfl := DataShred.held.inj hheld
    exact ⟨hmem, hindex⟩

/-- A missing place for which a shred is offered is filled. -/
theorem exists_held (h : Fills new st st') {other : Shred} (hother : other ∈ new)
    (hm : st.dataShred other.index = .missing) :
    ∃ shred ∈ new, shred.index = other.index ∧ st'.dataShred other.index = .held shred := by
  rcases h.place other.index with heq | ⟨-, hheld⟩
  · exact absurd (heq.trans hm) (h.filled other hother)
  · exact hheld

/-- A state whose places, markers and counters are those of `st` fills nothing. -/
theorem of_eq (hplace : ∀ i, st'.dataShred i = st.dataShred i)
    (hends : st'.dataSetEnds = st.dataSetEnds) (hlast : st'.lastShredIndex = st.lastShredIndex)
    (hslot : st'.slot = st.slot) (hemitted : st'.emittedShreds = st.emittedShreds)
    (hfinished : st'.finished = st.finished) : Fills ∅ st st' where
  place i := Or.inl (hplace i)
  filled _ h := absurd h (Set.notMem_empty _)
  ends i := by
    rw [hends, hplace]
    constructor
    · exact Or.inl
    · rintro (h | ⟨hm, shred, hheld, -⟩)
      · exact h
      · rw [hm] at hheld
        exact DataShred.noConfusion hheld
  last := by
    refine Or.inl ⟨hlast, fun i shred hm hheld => ?_⟩
    rw [hplace, hm] at hheld
    exact DataShred.noConfusion hheld
  slot := hslot
  emittedShreds := hemitted
  finished := hfinished

/-- The coding sets play no part. -/
theorem codingSets {before after : List CodingSet}
    (h : Fills new { st with codingSets := before } st') :
    Fills new st { st' with codingSets := after } where
  place := h.place
  filled := h.filled
  ends := h.ends
  last := h.last
  slot := h.slot
  emittedShreds := h.emittedShreds
  finished := h.finished

/-- Filling twice fills with both. -/
theorem trans (h : Fills new st st') (h' : Fills new' st' st'') :
    Fills (new ∪ new') st st'' where
  place i := by
    rcases h'.place i with heq' | ⟨hm', shred, hmem, hidx, hheld⟩
    · rcases h.place i with heq | ⟨hm, shred, hmem, hidx, hheld⟩
      · exact Or.inl (heq'.trans heq)
      · exact Or.inr ⟨hm, shred, Or.inl hmem, hidx, heq'.trans hheld⟩
    · exact Or.inr ⟨h.missing_of_missing hm', shred, Or.inr hmem, hidx, hheld⟩
  filled shred hmem := by
    rcases hmem with hmem | hmem
    · intro hm
      exact h.filled shred hmem (h'.missing_of_missing hm)
    · exact h'.filled shred hmem
  ends i := by
    rw [h'.ends, h.ends]
    constructor
    · rintro ((hb | ⟨hm, shred, hheld, hdc⟩) | ⟨hm, shred, hheld, hdc⟩)
      · exact Or.inl hb
      · refine Or.inr ⟨hm, shred, ?_, hdc⟩
        rw [h'.of_ne_missing (by rw [hheld]; exact DataShred.noConfusion), hheld]
      · exact Or.inr ⟨h.missing_of_missing hm, shred, hheld, hdc⟩
    · rintro (hb | ⟨hm, shred, hheld, hdc⟩)
      · exact Or.inl (Or.inl hb)
      · rcases h'.place i with heq | ⟨hm', -⟩
        · exact Or.inl (Or.inr ⟨hm, shred, heq.symm.trans hheld, hdc⟩)
        · exact Or.inr ⟨hm', shred, hheld, hdc⟩
  last := by
    rcases h'.last with ⟨heq', hnone'⟩ | ⟨i, shred, hm, hheld, hlast, heq⟩
    · rcases h.last with ⟨heq, hnone⟩ | ⟨i, shred, hm, hheld, hlast, heq⟩
      · refine Or.inl ⟨heq'.trans heq, fun i shred hm hheld => ?_⟩
        rcases h'.place i with hsame | ⟨hm', -⟩
        · exact hnone i shred hm (hsame.symm.trans hheld)
        · exact hnone' i shred hm' hheld
      · refine Or.inr ⟨i, shred, hm, ?_, hlast, heq'.trans heq⟩
        rw [h'.of_ne_missing (by rw [hheld]; exact DataShred.noConfusion), hheld]
    · exact Or.inr ⟨i, shred, h.missing_of_missing hm, hheld, hlast, heq⟩
  slot := h'.slot.trans h.slot
  emittedShreds := h'.emittedShreds.trans h.emittedShreds
  finished := h'.finished.trans h.finished

end Fills

/-- Inserting a data shred fills its place. -/
theorem fills_insertDataShred (st : SlotState) (shred : Shred) :
    Fills {shred} st (st.insertDataShred shred).1 := by
  have hplace := dataShred_insertDataShred st shred
  -- the place of the shred is free, or else nothing is changed
  by_cases hfree : st.dataShred shred.index = .missing
  · have hself : (st.insertDataShred shred).1.dataShred shred.index = .held shred := by
      rw [hplace, if_pos ⟨rfl, hfree⟩]
    have hnew : ∀ i other, st.dataShred i = .missing →
        (st.insertDataShred shred).1.dataShred i = .held other →
        i = shred.index ∧ other = shred := by
      intro i other hm hheld
      rw [hplace] at hheld
      by_cases hi : i = shred.index
      · rw [if_pos ⟨hi, hm⟩] at hheld
        exact ⟨hi, (DataShred.held.inj hheld).symm⟩
      · rw [if_neg (fun h => hi h.1), hm] at hheld
        exact DataShred.noConfusion hheld
    refine
      { place := fun i => ?_, filled := ?_, ends := fun i => ?_, last := ?_, slot := ?_
        emittedShreds := ?_, finished := ?_ }
    · rw [hplace]
      by_cases hi : i = shred.index ∧ st.dataShred i = .missing
      · rw [if_pos hi]
        exact Or.inr ⟨hi.2, shred, rfl, hi.1.symm, rfl⟩
      · rw [if_neg hi]
        exact Or.inl rfl
    · rintro _ rfl
      rw [hself]
      exact DataShred.noConfusion
    · have hbit : HasBit (st.insertDataShred shred).1.dataSetEnds i ↔
          HasBit st.dataSetEnds i ∨ (i = shred.index ∧ shred.dataComplete = true) := by
        rw [insertDataShred_free hfree]
        by_cases hdc : shred.dataComplete = true
        · simp only [hdc, if_true, hasBit_setBit, and_true]
          exact or_comm
        · simp [hdc]
      rw [hbit]
      refine or_congr_right ⟨?_, ?_⟩
      · rintro ⟨rfl, hdc⟩
        exact ⟨hfree, shred, hself, hdc⟩
      · rintro ⟨hm, other, hheld, hdc⟩
        obtain ⟨rfl, rfl⟩ := hnew i other hm hheld
        exact ⟨rfl, hdc⟩
    · by_cases hl : shred.lastInSlot = true
      · refine Or.inr ⟨shred.index, shred, hfree, hself, hl, ?_⟩
        rw [insertDataShred_free hfree]
        exact if_pos hl
      · refine Or.inl ⟨?_, fun i other hm hheld => ?_⟩
        · rw [insertDataShred_free hfree]
          exact if_neg hl
        · obtain ⟨rfl, rfl⟩ := hnew i other hm hheld
          exact Bool.eq_false_iff.mpr hl
    all_goals rw [insertDataShred_free hfree]
  · have hsame : ∀ i, (st.insertDataShred shred).1.dataShred i = st.dataShred i := by
      intro i
      rw [hplace, if_neg]
      rintro ⟨rfl, hm⟩
      exact hfree hm
    have hnone : Fills ∅ st (st.insertDataShred shred).1 := by
      refine Fills.of_eq hsame ?_ ?_ ?_ ?_ ?_ <;> rw [insertDataShred_taken hfree]
    refine { hnone with place := fun i => Or.inl (hsame i), filled := ?_ }
    rintro _ rfl
    rw [hsame]
    exact hfree

/-- Inserting a coding shred fills nothing. -/
theorem fills_insertCodingShred (st : SlotState) (shred : Shred) :
    Fills ∅ st (st.insertCodingShred shred) := by
  refine Fills.of_eq (dataShred_insertCodingShred st shred) ?_ ?_ ?_ ?_ ?_ <;>
    rw [insertCodingShred_eq]

/-! ### Recovery -/

/-- The data shreds among the shreds rebuilt. -/
def rebuiltData (shreds : List (Option Shred)) : Set Shred :=
  {shred | some shred ∈ shreds ∧ shred.isData = true}

/-- A rebuilt data shred joins those after it. -/
lemma rebuiltData_cons_data {shred : Shred} (h : shred.isData = true)
    (shreds : List (Option Shred)) :
    rebuiltData (some shred :: shreds) = {shred} ∪ rebuiltData shreds := by
  ext other
  simp only [rebuiltData, Set.mem_ofPred_eq, List.mem_cons, Option.some.injEq, Set.mem_union,
    Set.mem_singleton_iff]
  constructor
  · rintro ⟨rfl | hmem, hdata⟩
    · exact Or.inl rfl
    · exact Or.inr ⟨hmem, hdata⟩
  · rintro (rfl | ⟨hmem, hdata⟩)
    · exact ⟨Or.inl rfl, h⟩
    · exact ⟨Or.inr hmem, hdata⟩

/-- Coding shreds and shreds that would not parse are no data shreds. -/
lemma rebuiltData_cons_other {shred : Option Shred}
    (h : ∀ s, shred = some s → s.isData = false) (shreds : List (Option Shred)) :
    rebuiltData (shred :: shreds) = rebuiltData shreds := by
  ext other
  simp only [rebuiltData, Set.mem_ofPred_eq, List.mem_cons]
  constructor
  · rintro ⟨heq | hmem, hdata⟩
    · rw [h other heq.symm] at hdata
      exact Bool.noConfusion hdata
    · exact ⟨hmem, hdata⟩
  · rintro ⟨hmem, hdata⟩
    exact ⟨Or.inr hmem, hdata⟩

/-- What the loop over the rebuilt shreds does, from any state and any counts. -/
lemma foldl_insertRecovered (shreds : List (Option Shred)) (st : SlotState) (n : ℕ)
    (failed : Bool) :
    let rebuilt := shreds.foldl insertRecovered (st, n, failed)
    Fills (rebuiltData shreds) st rebuilt.1 ∧ rebuilt.1.codingSets = st.codingSets ∧
      n ≤ rebuilt.2.1 ∧ (rebuilt.2.1 = n → ∀ i, rebuilt.1.dataShred i = st.dataShred i) := by
  induction shreds generalizing st n failed with
  | nil =>
    have hempty : rebuiltData [] = ∅ := by
      ext other
      simp [rebuiltData]
    refine ⟨?_, rfl, le_rfl, fun _ _ => rfl⟩
    rw [hempty]
    exact Fills.of_eq (fun _ => rfl) rfl rfl rfl rfl rfl
  | cons shred shreds ih =>
    -- what is not a data shred changes the flag at most
    have hother (hs : ∀ s, shred = some s → s.isData = false) (failed' : Bool)
        (hstep : insertRecovered (st, n, failed) shred = (st, n, failed')) :
        let rebuilt := (shred :: shreds).foldl insertRecovered (st, n, failed)
        Fills (rebuiltData (shred :: shreds)) st rebuilt.1 ∧
          rebuilt.1.codingSets = st.codingSets ∧ n ≤ rebuilt.2.1 ∧
          (rebuilt.2.1 = n → ∀ i, rebuilt.1.dataShred i = st.dataShred i) := by
      rw [List.foldl_cons, hstep, rebuiltData_cons_other hs]
      exact ih st n failed'
    cases shred with
    | none => exact hother (fun s h => nomatch h) true rfl
    | some shred =>
      by_cases hdata : shred.isData = true
      · have hfills := fills_insertDataShred st shred
        have hcoding := codingSets_insertDataShred st shred
        have hsnd := insertDataShred_snd st shred
        have hstep : insertRecovered (st, n, failed) (some shred) =
            ((st.insertDataShred shred).1,
              if (st.insertDataShred shred).2 then n + 1 else n, failed) := by
          simp [insertRecovered, hdata]
        rw [List.foldl_cons, hstep, rebuiltData_cons_data hdata]
        obtain ⟨hrest, hsets, hle, hsame⟩ := ih (st.insertDataShred shred).1
          (if (st.insertDataShred shred).2 then n + 1 else n) failed
        refine ⟨hfills.trans hrest, hsets.trans hcoding, ?_, fun heq i => ?_⟩
        · refine le_trans ?_ hle
          split_ifs <;> omega
        · have hnot : ¬ (st.insertDataShred shred).2 = true := by
            intro h
            rw [if_pos h] at hle heq
            omega
          rw [hsame (by rw [heq, if_neg hnot]), dataShred_insertDataShred, if_neg]
          rintro ⟨rfl, hm⟩
          exact hnot (hsnd.mpr hm)
      · rw [Bool.not_eq_true] at hdata
        exact hother (fun s h => Option.some.inj h ▸ hdata) failed
          (by simp [insertRecovered, hdata])

/-- What a call of the shred library and the loop over its shreds do to a state. -/
lemma rebuild_spec {Entry : Type*} (agave : Agave Entry) (st : SlotState) (input : List Shred) :
    Fills (rebuiltData ((agave.recover input).getD [])) st (st.rebuild agave input).1 ∧
      (st.rebuild agave input).1.codingSets = st.codingSets ∧
      ((st.rebuild agave input).2.1 = 0 →
        ∀ i, (st.rebuild agave input).1.dataShred i = st.dataShred i) := by
  unfold rebuild
  cases agave.recover input with
  | some shreds =>
    obtain ⟨hfills, hsets, -, hsame⟩ := foldl_insertRecovered shreds st 0 false
    exact ⟨hfills, hsets, hsame⟩
  | none =>
    obtain ⟨hfills, hsets, -, hsame⟩ := foldl_insertRecovered [] st 0 true
    exact ⟨hfills, hsets, hsame⟩

/-- The shreds handed to recovery: the data shreds held of the FEC set and its coding shreds. -/
def recoveryInput (st : SlotState) (set : CodingSet) : List Shred :=
  set.dataRange.filterMap st.heldShred ++ set.codingShreds

/-- A recovery of `set`, found at `position`, ran: what came back from the shred library was put
in missing places, and the coding set was dropped if no data of it is missing any more. -/
structure Recovered {Entry : Type*} (agave : Agave Entry) (st : SlotState)
    (position : Fin st.codingSets.length) (st' : SlotState) (stats : RecoveryStats) : Prop where
  /-- The data shreds that came back fill missing places. -/
  fills : Fills
    (rebuiltData ((agave.recover (st.recoveryInput (st.codingSets.get position))).getD [])) st st'
  /-- The coding sets afterwards. -/
  codingSets : st'.codingSets =
    if missingDataShreds st'.dataShreds (st.codingSets.get position).dataRange = 0 then
      st.codingSets.swapRemove position
    else st.codingSets.set position { (st.codingSets.get position) with
      recoveryAttempts := (st.codingSets.get position).recoveryAttempts + 1 }
  /-- Without a count, no place changed. -/
  unchanged : stats.recoveredShreds = 0 → ∀ i, st'.dataShred i = st.dataShred i
  /-- The range reported starts at the FEC set's first index. -/
  rangeStart : stats.rangeStart = (st.codingSets.get position).fecSetIndex
  /-- The range reported ends at the FEC set's last index. -/
  rangeEnd : stats.rangeEnd =
    dataRangeEnd (st.codingSets.get position).fecSetIndex (st.codingSets.get position).numDataShreds

/-- Everything `recover` can do: there is no coding set; or its data is all there and it is
dropped; or there are too few shreds, or too many attempts; or a recovery runs. -/
theorem recover_cases {Entry : Type*} (agave : Agave Entry) (st : SlotState) (fecSetIndex : ℕ) :
    (fecSetIndex ∉ st.codingKeys ∧ st.recover agave fecSetIndex = (st, none)) ∨
    ∃ position : Fin st.codingSets.length, (st.codingSets.get position).fecSetIndex = fecSetIndex ∧
      ((missingDataShreds st.dataShreds (st.codingSets.get position).dataRange = 0 ∧
          st.recover agave fecSetIndex =
            ({ st with codingSets := st.codingSets.swapRemove position }, none)) ∨
        missingDataShreds st.dataShreds (st.codingSets.get position).dataRange ≠ 0 ∧
          (((st.recoveryInput (st.codingSets.get position)).length <
                (st.codingSets.get position).numDataShreds ∨
              maxRecoveryAttempts ≤ (st.codingSets.get position).recoveryAttempts) ∧
              st.recover agave fecSetIndex = (st, none) ∨
            (st.codingSets.get position).numDataShreds ≤
                (st.recoveryInput (st.codingSets.get position)).length ∧
              (st.codingSets.get position).recoveryAttempts < maxRecoveryAttempts ∧
              ∃ st' stats, st.recover agave fecSetIndex = (st', some stats) ∧
                Recovered agave st position st' stats)) := by
  unfold recover
  cases hfind : st.codingSets.findFinIdx? fun set => set.fecSetIndex == fecSetIndex with
  | none =>
    refine Or.inl ⟨fun hmem => ?_, rfl⟩
    obtain ⟨set, hset, rfl⟩ := List.mem_map.mp hmem
    simpa using List.findFinIdx?_eq_none_iff.mp hfind set hset
  | some position =>
    have hkey : (st.codingSets.get position).fecSetIndex = fecSetIndex := by
      simpa using (List.findFinIdx?_eq_some_iff.mp hfind).1
    have hlength : (st.recoveryInput (st.codingSets.get position)).length =
        ((st.codingSets.get position).dataRange.filter st.isHeld).length +
          (st.codingSets.get position).codingShreds.length := by
      rw [recoveryInput, List.length_append, List.length_filterMap_eq_countP,
        List.countP_eq_length_filter]
      rfl
    refine Or.inr ⟨position, hkey, ?_⟩
    dsimp only
    by_cases hzero : missingDataShreds st.dataShreds (st.codingSets.get position).dataRange = 0
    · rw [if_pos hzero]
      exact Or.inl ⟨hzero, rfl⟩
    · rw [if_neg hzero]
      refine Or.inr ⟨hzero, ?_⟩
      -- the data shreds held and the coding shreds are what recovery has to work with
      by_cases hfew : ((st.codingSets.get position).dataRange.filter st.isHeld).length +
          (st.codingSets.get position).codingShreds.length <
            (st.codingSets.get position).numDataShreds ∨
          (st.codingSets.get position).recoveryAttempts ≥ maxRecoveryAttempts
      · rw [if_pos hfew]
        rw [← hlength] at hfew
        exact Or.inl ⟨hfew, rfl⟩
      · rw [if_neg hfew]
        rw [← hlength, not_or, not_lt, ge_iff_le, not_le] at hfew
        refine Or.inr ⟨hfew.1, hfew.2, _, _, rfl, ?_⟩
        obtain ⟨hfills, hsets, hsame⟩ := rebuild_spec agave
          { st with codingSets := st.codingSets.set position { (st.codingSets.get position) with
            recoveryAttempts := (st.codingSets.get position).recoveryAttempts + 1 } }
          (st.recoveryInput (st.codingSets.get position))
        refine
          { fills := ?_, codingSets := ?_, unchanged := fun h i => ?_, rangeStart := rfl
            rangeEnd := rfl }
        · split_ifs
          · exact hfills.codingSets
          · exact hfills.codingSets
        · split_ifs
          · exact (congrArg (List.swapRemove · position) hsets).trans (List.swapRemove_set ..)
          · exact hsets
        · split_ifs
          · exact hsame h i
          · exact hsame h i

end SlotState

end ShredTools.Deshred
