import Mathlib.Data.Set.Finite.Lemmas
import ShredTools.Deshred.DataSetCompletion
import ShredTools.Deshred.Deshredder

/-!
# When a slot is finished

A slot is finished when as many shreds were emitted as the last index says.  If none of them lies
past the last index, then these are all the shreds up to it (`finished_emits_all`).  But the last
index may come later than, or below, a complete data set, and the shreds of that count as well.

`FinishesWithin` is the condition for one insertion: wherever taking the complete data sets could
make up the count, no shred counted lies past the last index.  `Tracks` is the invariant, of an
unfinished slot as well as of a finished one, and `Tracks.accept` its step for a data shred.
`WithinRun` asks for the condition at every insertion of a run.  The two runs at the end show both
sides: three shreds that finish their slot as they should, and a last index that a complete data set
lies beyond.
-/

namespace ShredTools.Deshred

variable {Entry : Type*}

namespace SlotState

/-! ### The indices of complete data sets -/

/-- Whether an index lies in a complete data set, by the searches of the source. -/
def inCompleteSet (st : SlotState) (i : ℕ) : Bool :=
  match nextBitFrom st.dataSetEnds i with
  | some stop => (rangeInclusive (dataSetStart st.dataSetEnds i) stop).all st.isHeld
  | none => false

/-- The two searches find the range between consecutive end markers that an index lies in. -/
lemma inCompleteSet_iff {st : SlotState} {i : ℕ} :
    st.inCompleteSet i = true ↔ ∃ start stop, st.CompleteSet start stop ∧ start ≤ i ∧ i ≤ stop := by
  have hopens := opens_dataSetStart st.dataSetEnds i
  unfold inCompleteSet
  cases hnext : nextBitFrom st.dataSetEnds i with
  | none =>
    have hnone := nextBitFrom_eq_none_iff.mp hnext
    refine ⟨fun h => Bool.noConfusion h, ?_⟩
    rintro ⟨start, stop, hcomplete, -, hstop⟩
    exact absurd hcomplete.segment.ends (hnone stop hstop)
  | some stop =>
    have hleast := nextBitFrom_eq_some_iff.mp hnext
    have hseg := hopens.segment hleast
    dsimp only
    rw [all_isHeld_iff]
    constructor
    · intro hheld
      exact ⟨_, stop, ⟨hseg, hheld⟩, hopens.le, hleast.1.1⟩
    · rintro ⟨start', stop', hcomplete, hi, hi'⟩
      obtain ⟨rfl, rfl⟩ := hcomplete.segment.eq_of_mem hseg ⟨hi, hi'⟩
        ⟨hopens.le, hleast.1.1⟩
      exact hcomplete.allHeld

/-- The number of shreds in complete data sets, up to an index. -/
def completeUpTo (st : SlotState) (stop : ℕ) : ℕ :=
  ((List.range (stop + 1)).filter st.inCompleteSet).length

/-- The condition under which a slot is finished rightly, once a shred is inserted: if taking the
complete data sets up to some end marker makes the number of emitted shreds that of a whole slot,
then that end marker and the indices emitted before are not past the last index. -/
def FinishesWithin (st : SlotState) : Prop :=
  ∀ last ∈ st.lastShredIndex, ∀ stop < st.dataShreds.length, HasBit st.dataSetEnds stop →
    st.inCompleteSet stop = true → st.emittedShreds + st.completeUpTo stop = last + 1 →
      stop ≤ last ∧ ∀ i < st.dataShreds.length, st.dataShred i = .emitted → i ≤ last

instance (st : SlotState) : Decidable st.FinishesWithin :=
  inferInstanceAs (Decidable (∀ last ∈ st.lastShredIndex, ∀ stop < st.dataShreds.length, _ → _ →
    _ → _ ∧ ∀ i < st.dataShreds.length, st.dataShred i = .emitted → i ≤ last))

/-- The data sets taken, up to the last one, are the complete data sets up to there. -/
lemma completeUpTo_eq (agave : Agave Entry) {st : SlotState} {a b : ℕ}
    (hfin : st.finished = false) (hab : a ≤ b)
    (htouches : ∀ start stop, st.CompleteSet start stop → a ≤ stop)
    {taken : List (TakenDataSet Entry)} (htaken : (st.takeCompletedDataSets agave a b).2 = taken)
    {final : TakenDataSet Entry} (hfinal : final ∈ taken)
    (hgreatest : ∀ dataSet ∈ taken, dataSet.endShredIndex ≤ final.endShredIndex) :
    st.completeUpTo final.endShredIndex = shredCount taken := by
  subst htaken
  obtain ⟨htakes, -, -⟩ := takeCompletedDataSets_spec agave hfin hab
  have hmem : ∀ i, i ∈ (List.range (final.endShredIndex + 1)).filter st.inCompleteSet ↔
      i ∈ takenIndices (st.takeCompletedDataSets agave a b).2 := by
    intro i
    rw [List.mem_filter, List.mem_range, inCompleteSet_iff, mem_takenIndices]
    constructor
    · rintro ⟨hi, start, stop, hcomplete, hstart, hstop⟩
      -- a complete data set that reaches past the last one taken begins after it
      have hbound : stop ≤ final.endShredIndex := by
        by_contra hlt
        have := (htakes.sound final hfinal).segment.end_lt_start hcomplete.segment (not_le.mp hlt)
        omega
      obtain ⟨dataSet, hdataSet, rfl, rfl⟩ := takeCompletedDataSets_initial agave hfin hcomplete
        (htouches start stop hcomplete) ⟨final, hfinal, hbound⟩
      exact ⟨dataSet, hdataSet, hstart, hstop⟩
    · rintro ⟨dataSet, hdataSet, hstart, hstop⟩
      have hsound := htakes.sound dataSet hdataSet
      have := hgreatest dataSet hdataSet
      exact ⟨by omega, _, _, ⟨hsound.segment, hsound.allHeld⟩, hstart, hstop⟩
  have hnodup : ((List.range (final.endShredIndex + 1)).filter st.inCompleteSet).Nodup :=
    List.nodup_range.filter _
  rw [completeUpTo, ← length_takenIndices]
  exact ((List.perm_ext_iff_of_nodup hnodup (nodup_takenIndices htakes.ascending)).mpr
    hmem).length_eq

/-! ### One insertion -/

/-- Unless a slot is finished it takes the shred in. -/
def accept (agave : Agave Entry) (st : SlotState) (shred : Shred) :
    SlotState × List (TakenDataSet Entry) :=
  if st.finished then (st, [])
  else ((st.insertShred agave shred).1, (st.insertShred agave shred).2.2)

/-- Without coding shreds a data shred is inserted and its data sets are taken. -/
lemma accept_data (agave : Agave Entry) {st : SlotState} {shred : Shred}
    (hfin : st.finished = false) (hcoding : st.codingSets = []) (hdata : shred.isData = true) :
    st.accept agave shred =
      if st.dataShred shred.index = .missing then
        (st.insertDataShred shred).1.takeCompletedDataSets agave shred.index shred.index
      else ((st.insertDataShred shred).1, []) := by
  have hcoding' : (st.insertDataShred shred).1.codingSets = [] := by
    rw [codingSets_insertDataShred, hcoding]
  have hrecover : (st.insertDataShred shred).1.recover agave shred.fecSetIndex =
      ((st.insertDataShred shred).1, none) := by
    rcases (st.insertDataShred shred).1.recover_cases agave shred.fecSetIndex with
      ⟨-, heq⟩ | ⟨position, -⟩
    · exact heq
    · rw [hcoding'] at position
      exact position.elim0
  unfold accept insertShred insert
  rw [hfin, if_pos hdata]
  dsimp only
  rw [hrecover, insertedDataRange]
  by_cases hfree : st.dataShred shred.index = .missing
  · rw [if_pos ((st.insertDataShred_snd shred).mpr hfree), if_pos hfree]
    rfl
  · rw [if_neg (mt (st.insertDataShred_snd shred).mp hfree), if_neg hfree]
    rfl

/-- Nothing is done to a slot without taking a data set. -/
lemma takeLoop_eq_self (agave : Agave Entry) (insertedEnd : ℕ) {st : SlotState} {start f : ℕ}
    (h : (st.takeLoop agave insertedEnd start f).2 = []) :
    (st.takeLoop agave insertedEnd start f).1 = st := by
  have hturn : ∀ {st : SlotState} {start stop : ℕ}, (st.takeIfHeld agave start stop).2 = [] →
      (st.takeIfHeld agave start stop).1 = st := by
    intro st start stop hnil
    unfold takeIfHeld at hnil ⊢
    split at hnil
    · exact absurd hnil (List.cons_ne_nil _ _)
    · rename_i hnot
      rw [if_neg hnot]
  induction st, start, f using takeLoop_induction agave insertedEnd with
  | done st start f hnext => rw [takeLoop_none hnext]
  | turn st start f stop hnext ih =>
    rw [takeLoop_some hnext] at h ⊢
    by_cases hbeyond : stop > insertedEnd
    · rw [if_pos hbeyond] at h ⊢
      exact hturn h
    · rw [if_neg hbeyond] at h ⊢
      obtain ⟨hnow, hrest⟩ := List.append_eq_nil_iff.mp h
      exact (ih (not_lt.mp hbeyond) hrest).trans (hturn hnow)

/-- What holds of a slot and the data sets taken from it, as long as it gets data shreds only. -/
structure Tracks (taken : List (TakenDataSet Entry)) (st : SlotState) : Prop where
  codingSets : st.finished = false → st.codingSets = []
  /-- No index is emitted twice. -/
  nodup : (takenIndices taken).Nodup
  noneComplete : st.finished = false → st.NoneComplete
  emitted : st.finished = false → ∀ i, st.dataShred i = .emitted ↔ Covers taken i
  emittedShreds : st.finished = false → st.emittedShreds = shredCount taken
  /-- A finished slot has emitted every index up to the last one. -/
  finished : st.finished = true → ∃ last ∈ st.lastShredIndex, ∀ i ≤ last, Covers taken i

/-- A new slot. -/
theorem tracks_new (slot : ℕ) : Tracks ([] : List (TakenDataSet Entry)) (new slot) where
  codingSets _ := rfl
  nodup := List.nodup_nil
  noneComplete _ := noneComplete_new slot
  emitted _ i := by
    refine ⟨fun h => DataShred.noConfusion ((dataShred_new slot i).symm.trans h), ?_⟩
    rintro ⟨dataSet, hmem, -⟩
    exact absurd hmem List.not_mem_nil
  emittedShreds _ := rfl
  finished h := Bool.noConfusion h

variable {agave : Agave Entry} {taken : List (TakenDataSet Entry)} {st : SlotState}

/-- A data shred whose place is taken changes nothing. -/
lemma Tracks.insert_taken (h : Tracks taken st) (hfin : st.finished = false) {shred : Shred}
    (htaken : st.dataShred shred.index ≠ .missing) :
    Tracks taken (st.insertDataShred shred).1 := by
  have hplace : ∀ i, (st.insertDataShred shred).1.dataShred i = st.dataShred i := by
    intro i
    rw [dataShred_insertDataShred, if_neg]
    rintro ⟨rfl, hmissing⟩
    exact htaken hmissing
  have hsame : (st.insertDataShred shred).1 =
      { st with dataShreds := growTo st.dataShreds shred.index } := by
    rw [insertDataShred_taken htaken]
  exact {
    codingSets := fun _ => by rw [codingSets_insertDataShred, h.codingSets hfin]
    nodup := h.nodup
    noneComplete := by
      intro _ start stop hcomplete
      refine h.noneComplete hfin start stop ⟨?_, fun i hs he => ?_⟩
      · have hseg := hcomplete.segment
        rwa [hsame] at hseg
      · rw [← hplace i]
        exact hcomplete.allHeld i hs he
    emitted := by
      intro _ i
      rw [hplace]
      exact h.emitted hfin i
    emittedShreds := by
      intro _
      rw [hsame]
      exact h.emittedShreds hfin
    finished := by
      intro hdone
      rw [hsame] at hdone
      exact absurd (hfin.symm.trans hdone) Bool.noConfusion }

/-- Inserting a data shred emits nothing. -/
lemma emitted_insertDataShred {shred : Shred} {i : ℕ} :
    (st.insertDataShred shred).1.dataShred i = .emitted ↔ st.dataShred i = .emitted := by
  rw [dataShred_insertDataShred]
  split_ifs with h
  · simp [h.2]
  · rfl

/-- The data sets that an insertion completes have no index in common with those before. -/
theorem Tracks.nodup_append (h : Tracks taken st) (hfin : st.finished = false) {shred : Shred}
    {st' : SlotState} {more : List (TakenDataSet Entry)}
    (htakes : Takes agave (st.insertDataShred shred).1 st' more) :
    (takenIndices (taken ++ more)).Nodup := by
  rw [takenIndices, List.flatMap_append]
  refine List.Nodup.append h.nodup (nodup_takenIndices htakes.ascending) fun i hbefore hnow => ?_
  obtain ⟨dataSet, hmem, hstart, hstop⟩ := mem_takenIndices.mp hnow
  obtain ⟨other, hheld⟩ := (htakes.sound dataSet hmem).allHeld i hstart hstop
  have hemitted : (st.insertDataShred shred).1.dataShred i = .emitted :=
    emitted_insertDataShred.mpr ((h.emitted hfin i).mpr (mem_takenIndices.mp hbefore))
  exact DataShred.noConfusion (hheld.symm.trans hemitted)

/-- The data sets that a data shred completes finish the slot only if they bring the last index
that was not emitted yet. -/
lemma Tracks.covers_of_finished (h : Tracks taken st) (hfin : st.finished = false)
    {shred : Shred} (hwithin : (st.insertDataShred shred).1.FinishesWithin) {st' : SlotState}
    {more : List (TakenDataSet Entry)}
    (hresult : (st.insertDataShred shred).1.takeCompletedDataSets agave shred.index shred.index =
      (st', more)) (hdone : st'.finished = true) {last : ℕ}
    (hlast : st'.lastShredIndex = some last) (hall : st'.emittedShreds = last + 1) {i : ℕ}
    (hi : i ≤ last) : Covers (taken ++ more) i := by
  have hfills := st.fills_insertDataShred shred
  have hunfinished : (st.insertDataShred shred).1.finished = false := hfills.finished.trans hfin
  have htakes : Takes agave (st.insertDataShred shred).1 st' more := by
    have hspec := (takeCompletedDataSets_spec agave hunfinished (le_refl shred.index)).1
    rwa [hresult] at hspec
  have hrange : ∀ other ∈ ({shred} : Set Shred),
      shred.index ≤ other.index ∧ other.index ≤ shred.index := by
    rintro other rfl
    exact ⟨le_rfl, le_rfl⟩
  have htouches : ∀ start stop, (st.insertDataShred shred).1.CompleteSet start stop →
      shred.index ≤ stop := fun start stop hcomplete =>
    (hcomplete.touches (h.noneComplete hfin) hfills hrange).1
  -- the data set that finished the slot is the last one taken
  have hsome : ∃ dataSet, dataSet ∈ more := by
    refine List.exists_mem_of_ne_nil more fun hnil => ?_
    have hself := takeLoop_eq_self agave shred.index ((congrArg Prod.snd hresult).trans hnil)
    have hsame : st' = (st.insertDataShred shred).1 := (congrArg Prod.fst hresult).symm.trans hself
    rw [hsame, hunfinished] at hdone
    exact Bool.noConfusion hdone
  obtain ⟨final, hfinal, hgreatest⟩ := Set.exists_max_image {dataSet | dataSet ∈ more}
    TakenDataSet.endShredIndex (List.finite_toSet more) hsome
  have hsound := htakes.sound final hfinal
  obtain ⟨other, hheld⟩ := hsound.allHeld _ hsound.segment.le le_rfl
  have hup : (st.insertDataShred shred).1.completeUpTo final.endShredIndex = shredCount more :=
    completeUpTo_eq agave hunfinished le_rfl htouches (congrArg Prod.snd hresult) hfinal hgreatest
  obtain ⟨hstop, hemitted⟩ := hwithin last (htakes.lastShredIndex ▸ hlast) final.endShredIndex
    (lt_length_of_ne_missing (by rw [hheld]; exact DataShred.noConfusion)) hsound.segment.ends
    (inCompleteSet_iff.mpr ⟨_, _, ⟨hsound.segment, hsound.allHeld⟩, hsound.segment.le, le_rfl⟩)
    (by rw [hup, ← htakes.emittedShreds, hall])
  -- so none of the indices emitted is past the last one, and they are as many
  have hlt : ∀ j ∈ takenIndices (taken ++ more), j < last + 1 := by
    intro j hj
    rcases covers_append.mp (mem_takenIndices.mp hj) with hold | ⟨dataSet, hmem, -, hend⟩
    · have hplace : (st.insertDataShred shred).1.dataShred j = .emitted :=
        emitted_insertDataShred.mpr ((h.emitted hfin j).mpr hold)
      have hlen := lt_length_of_ne_missing (by rw [hplace]; exact DataShred.noConfusion)
      exact Nat.lt_succ_of_le (hemitted j hlen hplace)
    · exact Nat.lt_succ_of_le ((hend.trans (hgreatest dataSet hmem)).trans hstop)
  have hlength : (takenIndices (taken ++ more)).length = last + 1 := by
    rw [length_takenIndices, shredCount_append, ← h.emittedShreds hfin, ← hfills.emittedShreds,
      ← htakes.emittedShreds, hall]
  exact mem_takenIndices.mp
    ((h.nodup_append hfin htakes).mem_of_length_eq hlt hlength (Nat.lt_succ_of_le hi))

/-- A data shred whose place is free, and the data sets it completes. -/
lemma Tracks.insert_free (h : Tracks taken st) (hfin : st.finished = false) {shred : Shred}
    (hwithin : (st.insertDataShred shred).1.FinishesWithin) {st' : SlotState}
    {more : List (TakenDataSet Entry)}
    (hresult : (st.insertDataShred shred).1.takeCompletedDataSets agave shred.index shred.index =
      (st', more)) : Tracks (taken ++ more) st' := by
  have hfills := st.fills_insertDataShred shred
  have hunfinished : (st.insertDataShred shred).1.finished = false := hfills.finished.trans hfin
  have htakes : Takes agave (st.insertDataShred shred).1 st' more := by
    have hspec := (takeCompletedDataSets_spec agave hunfinished (le_refl shred.index)).1
    rwa [hresult] at hspec
  -- a call takes all data sets that the shred completes
  have hnone : st'.finished = false → st'.NoneComplete := by
    have hrange : ∀ other ∈ [shred], shred.index ≤ other.index ∧ other.index ≤ shred.index := by
      intro other hother
      rw [List.mem_singleton.mp hother]
      exact ⟨le_rfl, le_rfl⟩
    have hexact := (takeCompletedDataSets_exact agave hfin (h.noneComplete hfin)
      (List.cons_ne_nil shred []) hrange).2.2
    have hinserted : st.insertDataShreds [shred] = (st.insertDataShred shred).1 := rfl
    rw [hinserted, hresult] at hexact
    exact fun hunf => (hexact hunf).2
  rcases htakes.outcome with hemits | ⟨hdone, -, hlast⟩
  · exact {
      codingSets := by
        intro _
        have hsub := hemits.codingSets
        rw [codingSets_insertDataShred, h.codingSets hfin] at hsub
        exact List.sublist_nil.mp hsub
      nodup := h.nodup_append hfin htakes
      noneComplete := hnone
      emitted := by
        intro _ i
        rw [covers_append]
        by_cases hnow : Covers more i
        · exact ⟨fun _ => Or.inr hnow, fun _ => hemits.covered i hnow⟩
        · rw [hemits.other i hnow, emitted_insertDataShred, h.emitted hfin, or_iff_left hnow]
      emittedShreds := by
        intro _
        rw [htakes.emittedShreds, hfills.emittedShreds, h.emittedShreds hfin, shredCount_append]
      finished := fun hdone =>
        absurd (hemits.unfinished.symm.trans hdone) Bool.noConfusion }
  -- a finished slot keeps none of its bookkeeping
  · have hnot : ∀ {P : Prop}, st'.finished = false → P := fun hunf =>
      absurd (hdone.symm.trans hunf) Bool.noConfusion
    refine
      { codingSets := hnot, nodup := h.nodup_append hfin htakes, noneComplete := hnone
        emitted := hnot, emittedShreds := hnot, finished := fun _ => ?_ }
    obtain ⟨last, hlastIndex, hall⟩ := (Option.any_eq_true _ _).mp hlast
    exact ⟨last, hlastIndex, fun i hi => h.covers_of_finished hfin hwithin hresult hdone hlastIndex
      (of_decide_eq_true hall) hi⟩

/-! ### Runs -/

/-- A run of data shreds in which every insertion into the unfinished slot meets the condition. -/
def WithinRun (agave : Agave Entry) : SlotState → List Shred → Prop
  | _, [] => True
  | st, shred :: shreds =>
    (st.finished = false → (st.insertDataShred shred).1.FinishesWithin) ∧
      WithinRun agave (st.accept agave shred).1 shreds

instance decidableWithinRun (agave : Agave Entry) :
    ∀ (st : SlotState) (shreds : List Shred), Decidable (st.WithinRun agave shreds)
  | _, [] => .isTrue trivial
  | st, shred :: shreds =>
    have := decidableWithinRun agave (st.accept agave shred).1 shreds
    inferInstanceAs (Decidable (_ ∧ _))

/-- The data sets taken along a run. -/
def acceptedSets (agave : Agave Entry) (st : SlotState) (shreds : List Shred) :
    List (TakenDataSet Entry) :=
  (Machine.outputs (accept agave) st shreds).flatten

/-- A data shred keeps track. -/
theorem Tracks.accept (h : Tracks taken st) {shred : Shred} (hdata : shred.isData = true)
    (hwithin : st.finished = false → (st.insertDataShred shred).1.FinishesWithin) :
    Tracks (taken ++ (st.accept agave shred).2) (st.accept agave shred).1 := by
  cases hfin : st.finished with
  | true =>
    rw [SlotState.accept, if_pos hfin, List.append_nil]
    exact h
  | false =>
    rw [accept_data agave hfin (h.codingSets hfin) hdata]
    split_ifs with hfree
    · exact h.insert_free hfin (hwithin hfin) rfl
    · rw [List.append_nil]
      exact h.insert_taken hfin hfree

/-- Track is kept along every run that meets the condition. -/
theorem Tracks.run (h : Tracks taken st) {shreds : List Shred}
    (hdata : ∀ shred ∈ shreds, shred.isData = true) (hwithin : st.WithinRun agave shreds) :
    Tracks (taken ++ st.acceptedSets agave shreds)
      (Machine.finalState (SlotState.accept agave) st shreds) := by
  refine (Machine.log_induction (SlotState.accept agave) (P := fun st shreds taken =>
    ((∀ shred ∈ shreds, shred.isData = true) ∧ WithinRun agave st shreds) ∧ Tracks taken st) ?_
    ⟨⟨hdata, hwithin⟩, h⟩).2
  intro st shred shreds taken ⟨⟨hdata, hwithin⟩, h⟩
  refine ⟨⟨fun other hother => hdata other (List.mem_cons_of_mem _ hother), hwithin.2⟩, ?_⟩
  exact h.accept (hdata shred List.mem_cons_self) hwithin.1

/-- **A finished slot has emitted every index up to its last one**, after every run of data shreds
whose insertions all meet the condition. -/
theorem finished_emits_all (agave : Agave Entry) (slot : ℕ) {shreds : List Shred}
    (hdata : ∀ shred ∈ shreds, shred.isData = true)
    (hwithin : (new slot).WithinRun agave shreds) :
    (Machine.finalState (SlotState.accept agave) (new slot) shreds).finished = true →
      ∃ last ∈ (Machine.finalState (SlotState.accept agave) (new slot) shreds).lastShredIndex,
        ∀ i ≤ last, Covers ((new slot).acceptedSets agave shreds) i :=
  ((tracks_new slot).run hdata hwithin).finished

section Examples

/-- A slot of three shreds that come out of order, in two data sets. -/
theorem finished_emits_all_three :
    let shreds := [emptyShred 2 true true, emptyShred 0 false false, emptyShred 1 true false]
    (Machine.finalState (SlotState.accept joinAgave) (new 7) shreds).finished = true ∧
      ∃ last ∈ (Machine.finalState (SlotState.accept joinAgave) (new 7) shreds).lastShredIndex,
        ∀ i ≤ last, Covers ((new 7).acceptedSets joinAgave shreds) i := by
  intro shreds
  have hfinished : (Machine.finalState (SlotState.accept joinAgave) (new 7)
      shreds).finished = true := by
    decide +kernel
  have hwithin : (new 7).WithinRun joinAgave shreds := by
    decide +kernel
  exact ⟨hfinished, finished_emits_all joinAgave 7 (by decide) hwithin hfinished⟩

/-- Shred 1 is the last one, and shreds 2 and 3 past it are data sets of their own: they finish the
slot while shred 0 is missing. -/
theorem not_emits_all_past_last :
    let shreds := [emptyShred 2 true false, emptyShred 1 true true, emptyShred 3 true false]
    (Machine.finalState (SlotState.accept joinAgave) (new 7) shreds).finished = true ∧
      (Machine.finalState (SlotState.accept joinAgave) (new 7) shreds).lastShredIndex = some 1 ∧
      ¬ Covers ((new 7).acceptedSets joinAgave shreds) 0 := by
  intro shreds
  refine ⟨by decide +kernel, by decide +kernel, ?_⟩
  unfold Covers
  decide +kernel

end Examples

end SlotState

end ShredTools.Deshred
