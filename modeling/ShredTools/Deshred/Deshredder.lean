import Mathlib.Logic.Function.Basic
import ShredTools.Deshred.DataSets
import ShredTools.Deshred.Recovery
import ShredTools.Library.Run

/-!
# The deshredder

A `Deshredder` keeps the state of the last 256 slots in a ring and inserts one shred at a time.
`insertShred` is the whole of `insert_shred`; instead of the decoded data sets alone it gives every
data set taken, and `completedDataSets` are those the source returns.

The main result is about whole runs over arbitrary shreds: no data index of a slot is ever taken
twice.  It needs two invariants.  Inside the life of one slot state, the indices of the data sets
taken so far stay marked as emitted until the slot is finished (`Marked`).  Along the ring, the
slot of an entry only grows, so a slot state is never set up twice for one slot (`RingInvariant`).
-/

namespace ShredTools.Deshred

variable {Entry : Type*}

/-- `SLOT_HISTORY_SIZE` -/
def slotHistorySize : ℕ := 256

/-- The place of a slot in the ring. -/
def ringIndex (slot : ℕ) : Fin slotHistorySize :=
  ⟨slot % slotHistorySize, Nat.mod_lt _ (by decide)⟩

/-- The counters of a deshredder. -/
structure DeshredStats where
  /-- Recoveries run. -/
  recoveries : ℕ
  /-- Data shreds that recoveries brought. -/
  recoveredShreds : ℕ
  /-- Recoveries that failed or rebuilt a shred that would not parse. -/
  recoveryErrors : ℕ
  /-- Complete data sets that would not decode. -/
  decodeErrors : ℕ
  deriving DecidableEq

/-- The ring of slot states, and the counters. -/
structure Deshredder where
  /-- The slot states by their place in the ring. -/
  slots : Fin slotHistorySize → Option SlotState
  /-- The counters. -/
  stats : DeshredStats

/-- `Deshredder::default` -/
def Deshredder.default : Deshredder where
  slots _ := none
  stats := ⟨0, 0, 0, 0⟩

/-- `slot_state`: the state that a shred of the slot goes to, a new one unless the ring has one of
this slot; none if the ring has moved on to a later slot. -/
def slotState (slots : Fin slotHistorySize → Option SlotState) (slot : ℕ) : Option SlotState :=
  match slots (ringIndex slot) with
  | some state =>
    if state.slot > slot then none
    else if state.slot = slot then some state
    else some (SlotState.new slot)
  | none => some (SlotState.new slot)

/-- The first part of `insert_shred`: a data shred to its place, a coding shred to its set.  With
the range of data indices inserted. -/
def SlotState.insert (st : SlotState) (shred : Shred) : SlotState × Option (ℕ × ℕ) :=
  if shred.isData then
    let (st, inserted) := st.insertDataShred shred
    (st, if inserted then some (shred.index, shred.index) else none)
  else (st.insertCodingShred shred, none)

/-- The range of data indices inserted, after a recovery. -/
def insertedDataRange (inserted : Option (ℕ × ℕ)) (recovery : Option RecoveryStats) :
    Option (ℕ × ℕ) :=
  match recovery with
  | some recovery =>
    if recovery.recoveredShreds > 0 then some (recovery.rangeStart, recovery.rangeEnd) else inserted
  | none => inserted

/-- The last part of `insert_shred`: take data sets unless no data shred was inserted. -/
def SlotState.takeInserted (agave : Agave Entry) (st : SlotState) :
    Option (ℕ × ℕ) → SlotState × List (TakenDataSet Entry)
  | none => (st, [])
  | some (insertedStart, insertedEnd) =>
    st.takeCompletedDataSets agave insertedStart insertedEnd

/-- The part of `insert_shred` that works on the slot state: insert, recover, take. -/
def SlotState.insertShred (agave : Agave Entry) (st : SlotState) (shred : Shred) :
    SlotState × Option RecoveryStats × List (TakenDataSet Entry) :=
  let (st, inserted) := st.insert shred
  let (st, recovery) := st.recover agave shred.fecSetIndex
  let (st, taken) := st.takeInserted agave (insertedDataRange inserted recovery)
  (st, recovery, taken)

/-- Count a recovery. -/
def DeshredStats.addRecovery (stats : DeshredStats) : Option RecoveryStats → DeshredStats
  | some recovery =>
    { stats with
      recoveries := stats.recoveries + 1
      recoveredShreds := stats.recoveredShreds + recovery.recoveredShreds
      recoveryErrors := if recovery.failed then stats.recoveryErrors + 1 else stats.recoveryErrors }
  | none => stats

/-- `Deshredder::insert_shred`, with every data set it takes. -/
def Deshredder.insertShred (agave : Agave Entry) (deshredder : Deshredder) (shred : Shred) :
    Deshredder × List (TakenDataSet Entry) :=
  match slotState deshredder.slots shred.slot with
  | none => (deshredder, [])
  | some state =>
    if state.finished then (deshredder, [])
    else
      let (state, recovery, taken) := state.insertShred agave shred
      let stats := deshredder.stats.addRecovery recovery
      let decodeErrors := (taken.filter fun dataSet => dataSet.completed.isNone).length
      ({ slots := Function.update deshredder.slots (ringIndex shred.slot) (some state)
         stats := { stats with decodeErrors := stats.decodeErrors + decodeErrors } }, taken)

/-- What `insert_shred` returns: the data sets taken that decoded. -/
def completedDataSets (taken : List (TakenDataSet Entry)) : List (CompletedDataSet Entry) :=
  taken.filterMap TakenDataSet.completed

/-! ### One insertion into a slot state -/

/-- The range a recovery reports is not empty, since data of it was missing. -/
lemma SlotState.Recovered.range_le {agave : Agave Entry} {st st' : SlotState}
    {position : Fin st.codingSets.length} {stats : RecoveryStats}
    (h : SlotState.Recovered agave st position st' stats)
    (hmissing : missingDataShreds st.dataShreds (st.codingSets.get position).dataRange ≠ 0) :
    stats.rangeStart ≤ stats.rangeEnd := by
  by_contra hlt
  rw [h.rangeStart, h.rangeEnd] at hlt
  apply hmissing
  rw [SlotState.missingDataShreds_eq_zero_iff]
  intro i hi
  rw [CodingSet.dataRange, mem_rangeInclusive] at hi
  omega

/-- The first part of an insertion fills at most one place. -/
theorem SlotState.fills_insert (st : SlotState) (shred : Shred) :
    ∃ new, SlotState.Fills new st (st.insert shred).1 := by
  unfold SlotState.insert
  by_cases hdata : shred.isData = true
  · rw [if_pos hdata]
    exact ⟨_, st.fills_insertDataShred shred⟩
  · rw [if_neg hdata]
    exact ⟨_, st.fills_insertCodingShred shred⟩

/-- A recovery, or the lack of one, fills missing places. -/
theorem SlotState.fills_recover (agave : Agave Entry) (st : SlotState) (fecSetIndex : ℕ) :
    ∃ new, SlotState.Fills new st (st.recover agave fecSetIndex).1 := by
  rcases st.recover_cases agave fecSetIndex with ⟨-, heq⟩ | ⟨position, -, ⟨-, heq⟩ | ⟨-, ⟨-, heq⟩ |
    ⟨-, -, st', stats, heq, hrec⟩⟩⟩
  · rw [heq]
    exact ⟨∅, Fills.of_eq (fun _ => rfl) rfl rfl rfl rfl rfl⟩
  · rw [heq]
    exact ⟨∅, Fills.of_eq (fun _ => rfl) rfl rfl rfl rfl rfl⟩
  · rw [heq]
    exact ⟨∅, Fills.of_eq (fun _ => rfl) rfl rfl rfl rfl rfl⟩
  · rw [heq]
    exact ⟨_, hrec.fills⟩

/-- The range reported as inserted is not empty. -/
theorem SlotState.insertedDataRange_le (agave : Agave Entry) (st mid : SlotState) (shred : Shred)
    {a b : ℕ} (h : insertedDataRange (st.insert shred).2
      (mid.recover agave shred.fecSetIndex).2 = some (a, b)) : a ≤ b := by
  have hinsert : ∀ a b, (st.insert shred).2 = some (a, b) → a ≤ b := by
    intro a b h
    unfold SlotState.insert at h
    split_ifs at h with hdata
    · cases hsnd : (st.insertDataShred shred).2 with
      | true =>
        simp only [hsnd, if_true, Option.some.injEq, Prod.mk.injEq] at h
        omega
      | false => simp [hsnd] at h
  unfold insertedDataRange at h
  rcases mid.recover_cases agave shred.fecSetIndex with ⟨-, heq⟩ | ⟨position, -, ⟨-, heq⟩ |
    ⟨hmissing, ⟨-, heq⟩ | ⟨-, -, st', stats, heq, hrec⟩⟩⟩
  · exact hinsert a b (by simpa [heq] using h)
  · exact hinsert a b (by simpa [heq] using h)
  · exact hinsert a b (by simpa [heq] using h)
  · rw [heq] at h
    dsimp only at h
    split_ifs at h with hpos
    · have hle := hrec.range_le hmissing
      simp only [Option.some.injEq, Prod.mk.injEq] at h
      omega
    · exact hinsert a b h

/-- An insertion fills missing places and then takes data sets. -/
theorem SlotState.insertShred_spec (agave : Agave Entry) {st : SlotState} (shred : Shred)
    (hfin : st.finished = false) :
    ∃ new mid, SlotState.Fills new st mid ∧
      SlotState.Takes agave mid (st.insertShred agave shred).1
        (st.insertShred agave shred).2.2 := by
  obtain ⟨new, hinsert⟩ := st.fills_insert shred
  obtain ⟨new', hrecover⟩ := (st.insert shred).1.fills_recover agave shred.fecSetIndex
  refine ⟨_, _, hinsert.trans hrecover, ?_⟩
  have hfin' : ((st.insert shred).1.recover agave shred.fecSetIndex).1.finished = false := by
    rw [hrecover.finished, hinsert.finished, hfin]
  unfold SlotState.insertShred
  dsimp only
  cases hrange : insertedDataRange (st.insert shred).2
      ((st.insert shred).1.recover agave shred.fecSetIndex).2 with
  | none => exact SlotState.Takes.refl agave hfin'
  | some range =>
    exact (SlotState.takeCompletedDataSets_spec agave hfin'
      (SlotState.insertedDataRange_le agave st _ shred hrange)).1

/-! ### The life of one slot state -/

/-- The indices of the data sets taken from a slot state stay marked until it is finished, and
what it holds is held under its own index. -/
structure SlotState.Marked (taken : List (TakenDataSet Entry)) (st : SlotState) : Prop where
  /-- Taken indices are marked as emitted. -/
  emitted : st.finished = false → ∀ i, SlotState.Covers taken i → st.dataShred i = .emitted
  /-- A shred is held under its own index. -/
  index : st.finished = false → ∀ i shred, st.dataShred i = .held shred → shred.index = i

/-- Two data sets have no position in common. -/
def TakenDataSet.Apart (dataSet other : TakenDataSet Entry) : Prop :=
  dataSet.slot = other.slot → ∀ i, ¬ ((dataSet.startShredIndex ≤ i ∧ i ≤ dataSet.endShredIndex) ∧
    other.startShredIndex ≤ i ∧ i ≤ other.endShredIndex)

/-- A data set consists of one shred for each index of its range, in ascending order. -/
def TakenDataSet.Whole (dataSet : TakenDataSet Entry) : Prop :=
  dataSet.startShredIndex ≤ dataSet.endShredIndex ∧
    dataSet.dataShreds.map Shred.index =
      rangeInclusive dataSet.startShredIndex dataSet.endShredIndex

/-- A new slot state, before anything is taken. -/
theorem SlotState.Marked.new (slot : ℕ) :
    SlotState.Marked ([] : List (TakenDataSet Entry)) (SlotState.new slot) where
  emitted _ _ h := by simp [SlotState.Covers] at h
  index _ i shred h := by simp at h

/-- What fills missing places keeps the marks. -/
theorem SlotState.Marked.fills {taken : List (TakenDataSet Entry)} {new : Set Shred}
    {st st' : SlotState} (h : SlotState.Marked taken st) (hfills : SlotState.Fills new st st') :
    SlotState.Marked taken st' where
  emitted hfin i hi := by
    rw [hfills.finished] at hfin
    have hst := h.emitted hfin i hi
    rw [hfills.of_ne_missing (by rw [hst]; exact DataShred.noConfusion), hst]
  index hfin i shred hheld := by
    rw [hfills.finished] at hfin
    rcases hfills.place i with heq | ⟨-, other, -, hidx, hheld'⟩
    · exact h.index hfin i shred (heq.symm.trans hheld)
    · rw [hheld'] at hheld
      rw [← DataShred.held.inj hheld, hidx]

/-- Taking data sets marks their indices. -/
theorem SlotState.Marked.takes {agave : Agave Entry} {taken taken' : List (TakenDataSet Entry)}
    {st st' : SlotState} (h : SlotState.Marked taken st) (hfin : st.finished = false)
    (htakes : SlotState.Takes agave st st' taken') : SlotState.Marked (taken ++ taken') st' := by
  rcases htakes.outcome with hemits | ⟨hdone, -, -⟩
  · refine { emitted := fun _ i hi => ?_, index := fun _ i shred hheld => ?_ }
    · by_cases hc : SlotState.Covers taken' i
      · exact hemits.covered i hc
      · rw [hemits.other i hc]
        exact h.emitted hfin i ((SlotState.covers_append.mp hi).resolve_right hc)
    · exact h.index hfin i shred (hemits.held hheld).2
  · refine { emitted := fun hf => ?_, index := fun hf => ?_ }
    · rw [hdone] at hf
      exact Bool.noConfusion hf
    · rw [hdone] at hf
      exact Bool.noConfusion hf

/-- A data set complete in a marked state is whole. -/
theorem SlotState.TakenFrom.whole {agave : Agave Entry} {taken : List (TakenDataSet Entry)}
    {st : SlotState} {dataSet : TakenDataSet Entry} (ht : SlotState.TakenFrom agave st dataSet)
    (h : SlotState.Marked taken st) (hfin : st.finished = false) : dataSet.Whole := by
  refine ⟨ht.segment.le, ?_⟩
  rw [ht.dataShreds, List.map_filterMap]
  refine (List.filterMap_congr (g := some) fun i hi => ?_).trans List.filterMap_some
  rw [mem_rangeInclusive] at hi
  obtain ⟨shred, hheld⟩ := ht.allHeld i hi.1 hi.2
  rw [SlotState.heldShred_eq_some_iff.mpr hheld, Option.map_some, h.index hfin i shred hheld]

/-- The data sets taken next are apart from each other and from those taken before. -/
theorem SlotState.Marked.apart {agave : Agave Entry} {taken taken' : List (TakenDataSet Entry)}
    {st st' : SlotState} (h : SlotState.Marked taken st) (hfin : st.finished = false)
    (htakes : SlotState.Takes agave st st' taken') :
    taken'.Pairwise TakenDataSet.Apart ∧
      ∀ dataSet ∈ taken, ∀ later ∈ taken', TakenDataSet.Apart dataSet later := by
  constructor
  · refine htakes.ascending.imp ?_
    rintro dataSet later hlt - i ⟨⟨-, hle⟩, hge, -⟩
    omega
  · rintro dataSet hmem later hlater - i ⟨hi, hi'⟩
    obtain ⟨shred, hheld⟩ := (htakes.sound later hlater).allHeld i hi'.1 hi'.2
    rw [h.emitted hfin i ⟨dataSet, hmem, hi⟩] at hheld
    exact DataShred.noConfusion hheld

/-! ### The ring -/

/-- A slot state that a shred goes to is the one of the ring, or a new one of a later slot. -/
theorem slotState_eq_some {slots : Fin slotHistorySize → Option SlotState} {slot : ℕ}
    {st : SlotState} (h : slotState slots slot = some st) :
    st.slot = slot ∧ (slots (ringIndex slot) = some st ∨
      st = SlotState.new slot ∧ ∀ old, slots (ringIndex slot) = some old → old.slot < slot) := by
  unfold slotState at h
  cases hold : slots (ringIndex slot) with
  | none =>
    rw [hold] at h
    obtain rfl : SlotState.new slot = st := Option.some.inj h
    exact ⟨rfl, Or.inr ⟨rfl, fun old h => by simp at h⟩⟩
  | some old =>
    rw [hold] at h
    dsimp only at h
    split_ifs at h with hgt heq
    · obtain rfl : old = st := Option.some.inj h
      exact ⟨heq, Or.inl rfl⟩
    · obtain rfl : SlotState.new slot = st := Option.some.inj h
      refine ⟨rfl, Or.inr ⟨rfl, fun other hother => ?_⟩⟩
      obtain rfl : old = other := Option.some.inj hother
      omega

/-- Everything `insertShred` can do: nothing, or an insertion into the state of the shred's slot. -/
theorem Deshredder.insertShred_cases (agave : Agave Entry) (deshredder : Deshredder)
    (shred : Shred) :
    ((∀ st, slotState deshredder.slots shred.slot = some st → st.finished = true) ∧
      deshredder.insertShred agave shred = (deshredder, [])) ∨
    ∃ st, slotState deshredder.slots shred.slot = some st ∧ st.finished = false ∧
      (deshredder.insertShred agave shred).1.slots =
        Function.update deshredder.slots (ringIndex shred.slot)
          (some (st.insertShred agave shred).1) ∧
      (deshredder.insertShred agave shred).2 = (st.insertShred agave shred).2.2 ∧
      (deshredder.insertShred agave shred).1.stats.decodeErrors =
        deshredder.stats.decodeErrors + ((st.insertShred agave shred).2.2.filter
          fun dataSet => dataSet.completed.isNone).length := by
  have hstats : ∀ recovery,
      (deshredder.stats.addRecovery recovery).decodeErrors = deshredder.stats.decodeErrors := by
    intro recovery
    cases recovery <;> rfl
  unfold Deshredder.insertShred
  cases hst : slotState deshredder.slots shred.slot with
  | none => exact Or.inl ⟨fun st h => by simp at h, rfl⟩
  | some st =>
    cases hfin : st.finished with
    | true => exact Or.inl ⟨fun st' h => Option.some.inj h ▸ hfin, by simp [hfin]⟩
    | false =>
      refine Or.inr ⟨st, rfl, hfin, ?_, ?_, ?_⟩
      · simp [hfin]
      · simp [hfin]
      · simp [hfin, hstats]

/-- An insertion keeps the slot of a slot state, and takes data sets of that slot. -/
theorem SlotState.insertShred_slot (agave : Agave Entry) {st : SlotState} (shred : Shred)
    (hfin : st.finished = false) :
    (st.insertShred agave shred).1.slot = st.slot ∧
      ∀ dataSet ∈ (st.insertShred agave shred).2.2, dataSet.slot = st.slot := by
  obtain ⟨new, mid, hfills, htakes⟩ := SlotState.insertShred_spec agave shred hfin
  refine ⟨htakes.slot.trans hfills.slot, fun dataSet hmem => ?_⟩
  exact (htakes.sound dataSet hmem).slot.trans hfills.slot

/-- What holds of the ring and of all data sets taken so far. -/
structure Deshredder.RingInvariant (deshredder : Deshredder) (taken : List (TakenDataSet Entry)) :
    Prop where
  /-- A slot state stands at its place of the ring. -/
  place : ∀ k st, deshredder.slots k = some st → ringIndex st.slot = k
  /-- The data sets taken of its slot are marked. -/
  marked : ∀ k st, deshredder.slots k = some st →
    SlotState.Marked (taken.filter fun dataSet => dataSet.slot = st.slot) st
  /-- The ring holds no earlier slot than those of the data sets taken. -/
  newest : ∀ dataSet ∈ taken, ∃ st, deshredder.slots (ringIndex dataSet.slot) = some st ∧
    dataSet.slot ≤ st.slot
  /-- No position was taken twice. -/
  apart : taken.Pairwise TakenDataSet.Apart
  /-- Every data set taken is whole. -/
  whole : ∀ dataSet ∈ taken, dataSet.Whole

/-- The empty ring. -/
theorem Deshredder.RingInvariant.default :
    Deshredder.default.RingInvariant ([] : List (TakenDataSet Entry)) where
  place k st h := by simp [Deshredder.default] at h
  marked k st h := by simp [Deshredder.default] at h
  newest _ h := absurd h List.not_mem_nil
  apart := List.Pairwise.nil
  whole _ h := absurd h List.not_mem_nil

/-- The slot state that a shred goes to, with the data sets taken of its slot so far. -/
theorem Deshredder.RingInvariant.slotState {deshredder : Deshredder}
    {taken : List (TakenDataSet Entry)} (h : deshredder.RingInvariant taken) {slot : ℕ}
    {st : SlotState} (hst : slotState deshredder.slots slot = some st) :
    SlotState.Marked (taken.filter fun dataSet => dataSet.slot = slot) st ∧
      ∀ dataSet ∈ taken, ringIndex dataSet.slot = ringIndex slot → dataSet.slot ≤ slot := by
  obtain ⟨hslot, hold | ⟨rfl, hearlier⟩⟩ := slotState_eq_some hst
  · constructor
    · rw [← hslot]
      exact h.marked _ st hold
    · intro dataSet hmem hindex
      obtain ⟨st', hst', hle⟩ := h.newest dataSet hmem
      rw [hindex, hold] at hst'
      rw [← Option.some.inj hst', hslot] at hle
      exact hle
  · have hlt : ∀ dataSet ∈ taken, ringIndex dataSet.slot = ringIndex slot →
        dataSet.slot < slot := by
      intro dataSet hmem hindex
      obtain ⟨st', hst', hle⟩ := h.newest dataSet hmem
      rw [hindex] at hst'
      exact lt_of_le_of_lt hle (hearlier st' hst')
    refine ⟨?_, fun dataSet hmem hindex => (hlt dataSet hmem hindex).le⟩
    have hnil : (taken.filter fun dataSet => dataSet.slot = slot) = [] := by
      rw [List.filter_eq_nil_iff]
      intro dataSet hmem heq
      rw [decide_eq_true_eq] at heq
      have := hlt dataSet hmem (by rw [heq])
      omega
    rw [hnil]
    exact SlotState.Marked.new slot

/-- **Step.**  An insertion keeps the ring invariant. -/
theorem Deshredder.RingInvariant.insertShred (agave : Agave Entry) {deshredder : Deshredder}
    {taken : List (TakenDataSet Entry)} (h : deshredder.RingInvariant taken) (shred : Shred) :
    (deshredder.insertShred agave shred).1.RingInvariant
      (taken ++ (deshredder.insertShred agave shred).2) := by
  rcases deshredder.insertShred_cases agave shred with ⟨-, heq⟩ | ⟨st, hst, hfin, hslots, htaken, -⟩
  · rw [heq, List.append_nil]
    exact h
  · obtain ⟨hmarked, hle⟩ := h.slotState hst
    obtain ⟨hslot, -⟩ := slotState_eq_some hst
    obtain ⟨new, mid, hfills, htakes⟩ := SlotState.insertShred_spec agave shred hfin
    obtain ⟨hslot', hsets⟩ := SlotState.insertShred_slot agave shred hfin
    have hmid : mid.finished = false := hfills.finished.trans hfin
    have hmarkedMid := hmarked.fills hfills
    have hmarked' := hmarkedMid.takes hmid htakes
    obtain ⟨hapart, hapart'⟩ := hmarkedMid.apart hmid htakes
    rw [htaken]
    -- a data set of this call belongs to the slot of the shred, and to no other slot of the ring
    refine { place := ?_, marked := ?_, newest := ?_, apart := ?_, whole := ?_ }
    · intro k st' hk
      rw [hslots] at hk
      by_cases hkey : k = ringIndex shred.slot
      · subst hkey
        rw [Function.update_self] at hk
        rw [← Option.some.inj hk, hslot', hslot]
      · rw [Function.update_of_ne hkey] at hk
        exact h.place k st' hk
    · intro k st' hk
      rw [hslots] at hk
      by_cases hkey : k = ringIndex shred.slot
      · subst hkey
        rw [Function.update_self] at hk
        obtain rfl := Option.some.inj hk
        rw [hslot', hslot, List.filter_append,
          List.filter_eq_self.mpr fun dataSet hmem =>
            decide_eq_true ((hsets dataSet hmem).trans hslot)]
        exact hmarked'
      · rw [Function.update_of_ne hkey] at hk
        have hnil : ((st.insertShred agave shred).2.2.filter
            fun dataSet => dataSet.slot = st'.slot) = [] := by
          rw [List.filter_eq_nil_iff]
          intro dataSet hmem heq
          rw [decide_eq_true_eq, hsets dataSet hmem, hslot] at heq
          exact hkey (by rw [heq, h.place k st' hk])
        rw [List.filter_append, hnil, List.append_nil]
        exact h.marked k st' hk
    · intro dataSet hmem
      rw [hslots]
      by_cases hkey : ringIndex dataSet.slot = ringIndex shred.slot
      · refine ⟨_, by rw [hkey, Function.update_self], ?_⟩
        rw [hslot', hslot]
        rcases List.mem_append.mp hmem with hmem | hmem
        · exact hle dataSet hmem hkey
        · rw [hsets dataSet hmem, hslot]
      · rw [Function.update_of_ne hkey]
        rcases List.mem_append.mp hmem with hmem | hmem
        · exact h.newest dataSet hmem
        · exact absurd (by rw [hsets dataSet hmem, hslot]) hkey
    · refine List.pairwise_append.mpr ⟨h.apart, hapart, fun dataSet hmem later hlater => ?_⟩
      intro heq
      refine hapart' dataSet ?_ later hlater heq
      rw [List.mem_filter, decide_eq_true_eq]
      exact ⟨hmem, by rw [heq, hsets later hlater, hslot]⟩
    · intro dataSet hmem
      rcases List.mem_append.mp hmem with hmem | hmem
      · exact h.whole dataSet hmem
      · exact (htakes.sound dataSet hmem).whole hmarkedMid hmid

/-! ### Runs -/

/-- The data sets taken along a run. -/
def takenAlong (agave : Agave Entry) (deshredder : Deshredder) (shreds : List Shred) :
    List (TakenDataSet Entry) :=
  (Machine.outputs (Deshredder.insertShred agave) deshredder shreds).flatten

/-- The ring invariant holds along every run from the empty ring. -/
theorem ringInvariant_run (agave : Agave Entry) (shreds : List Shred) :
    (Machine.finalState (Deshredder.insertShred agave) Deshredder.default shreds).RingInvariant
      (takenAlong agave Deshredder.default shreds) := by
  refine Machine.run_induction (Deshredder.insertShred agave)
    (P := fun _ deshredder outs => deshredder.RingInvariant outs.flatten)
    Deshredder.RingInvariant.default ?_ shreds
  intro _ shred deshredder outs h
  rw [List.flatten_append, List.flatten_singleton]
  exact h.insertShred agave shred

/-- An insertion only moves an entry of the ring to a later slot, and takes no data set of an
earlier slot than the one at its place. -/
lemma Deshredder.insertShred_slot_le (agave : Agave Entry) (deshredder : Deshredder)
    (shred : Shred) {k : Fin slotHistorySize} {st : SlotState}
    (hplace : ringIndex st.slot = k) (hst : deshredder.slots k = some st) :
    (∃ st', (deshredder.insertShred agave shred).1.slots k = some st' ∧ st.slot ≤ st'.slot ∧
      ringIndex st'.slot = k) ∧
    ∀ dataSet ∈ (deshredder.insertShred agave shred).2, ringIndex dataSet.slot = k →
      st.slot ≤ dataSet.slot := by
  rcases deshredder.insertShred_cases agave shred with
    ⟨-, heq⟩ | ⟨cur, hcur, hfin, hslots, htaken, -⟩
  · rw [heq]
    exact ⟨⟨st, hst, le_rfl, hplace⟩, fun _ h => absurd h List.not_mem_nil⟩
  · obtain ⟨hslot, hold⟩ := slotState_eq_some hcur
    obtain ⟨hslot', hsets⟩ := SlotState.insertShred_slot agave shred hfin
    have hle : k = ringIndex shred.slot → st.slot ≤ shred.slot := by
      rintro rfl
      rcases hold with hold | ⟨-, hearlier⟩
      · rw [hst] at hold
        rw [Option.some.inj hold, hslot]
      · exact (hearlier st hst).le
    rw [hslots, htaken]
    constructor
    · by_cases hkey : k = ringIndex shred.slot
      · refine ⟨_, by rw [hkey, Function.update_self], ?_, ?_⟩
        · rw [hslot', hslot]
          exact hle hkey
        · rw [hslot', hslot, hkey]
      · rw [Function.update_of_ne hkey]
        exact ⟨st, hst, le_rfl, hplace⟩
    · intro dataSet hmem hindex
      rw [hsets dataSet hmem, hslot] at hindex ⊢
      exact hle hindex.symm

/-- Once an entry of the ring holds a slot, no data set of an earlier slot with that place is
taken any more. -/
theorem takenAlong_slot_le (agave : Agave Entry) (shreds : List Shred) {deshredder : Deshredder}
    {k : Fin slotHistorySize} {st : SlotState} (hplace : ringIndex st.slot = k)
    (hst : deshredder.slots k = some st) :
    ∀ dataSet ∈ takenAlong agave deshredder shreds, ringIndex dataSet.slot = k →
      st.slot ≤ dataSet.slot := by
  induction shreds generalizing deshredder st with
  | nil => exact fun _ h => absurd h List.not_mem_nil
  | cons shred shreds ih =>
    obtain ⟨⟨st', hst', hle, hplace'⟩, hsets⟩ :=
      deshredder.insertShred_slot_le agave shred hplace hst
    intro dataSet hmem hindex
    rw [takenAlong, Machine.outputs_cons, List.flatten_cons, List.mem_append] at hmem
    rcases hmem with hmem | hmem
    · exact hsets dataSet hmem hindex
    · exact hle.trans (ih hplace' hst' dataSet hmem hindex)

/-- The data sets that do not decode are counted. -/
lemma decodeErrors_insertShred (agave : Agave Entry) (deshredder : Deshredder) (shred : Shred) :
    (deshredder.insertShred agave shred).1.stats.decodeErrors +
        (completedDataSets (deshredder.insertShred agave shred).2).length =
      deshredder.stats.decodeErrors + (deshredder.insertShred agave shred).2.length := by
  have hsplit : ∀ taken : List (TakenDataSet Entry),
      (taken.filter fun dataSet => dataSet.completed.isNone).length +
        (completedDataSets taken).length = taken.length := by
    intro taken
    rw [completedDataSets, List.length_filterMap_eq_countP, ← List.countP_eq_length_filter,
      List.length_eq_countP_add_countP (fun dataSet => dataSet.completed.isNone) (l := taken)]
    congr 1
    refine List.countP_congr fun dataSet _ => ?_
    cases dataSet.completed <;> simp
  rcases deshredder.insertShred_cases agave shred with ⟨-, heq⟩ | ⟨st, -, -, -, htaken, herrors⟩
  · rw [heq]
    rfl
  · rw [htaken, herrors, Nat.add_assoc, hsplit]

/-- Along a run every data set taken is either returned or counted as a decode error. -/
theorem decodeErrors_run (agave : Agave Entry) (shreds : List Shred) :
    (Machine.finalState (Deshredder.insertShred agave) Deshredder.default
        shreds).stats.decodeErrors +
      (completedDataSets (takenAlong agave Deshredder.default shreds)).length =
    (takenAlong agave Deshredder.default shreds).length := by
  refine Machine.run_induction (Deshredder.insertShred agave)
    (P := fun _ deshredder outs => deshredder.stats.decodeErrors +
      (completedDataSets outs.flatten).length = outs.flatten.length) rfl ?_ shreds
  intro _ shred deshredder outs h
  have hstep := decodeErrors_insertShred agave deshredder shred
  simp only [completedDataSets, List.flatten_append, List.flatten_singleton, List.filterMap_append,
    List.length_append] at h hstep ⊢
  omega

/-- **No shred position is emitted twice.**  Along every run over arbitrary shreds, with any
recovery results: no two data sets taken share a position; each consists of one shred for each
index of its range, in ascending order; each is returned or counted as a decode error; and once an
entry of the ring holds a slot, no data set of an earlier slot of that entry is taken any more. -/
theorem insertShred_takes_each_position_once (agave : Agave Entry) (shreds : List Shred) :
    (takenAlong agave Deshredder.default shreds).Pairwise TakenDataSet.Apart ∧
    (∀ dataSet ∈ takenAlong agave Deshredder.default shreds, dataSet.Whole) ∧
    (Machine.finalState (Deshredder.insertShred agave) Deshredder.default
        shreds).stats.decodeErrors +
      (completedDataSets (takenAlong agave Deshredder.default shreds)).length =
      (takenAlong agave Deshredder.default shreds).length ∧
    ∀ before after, shreds = before ++ after → ∀ k st,
      (Machine.finalState (Deshredder.insertShred agave) Deshredder.default before).slots k =
        some st →
      ∀ dataSet ∈ takenAlong agave (Machine.finalState (Deshredder.insertShred agave)
          Deshredder.default before) after,
        ringIndex dataSet.slot = k → st.slot ≤ dataSet.slot := by
  have hring := ringInvariant_run agave shreds
  refine ⟨hring.apart, hring.whole, decodeErrors_run agave shreds, ?_⟩
  intro before after _ k st hst
  exact takenAlong_slot_le agave after ((ringInvariant_run agave before).place k st hst) hst

end ShredTools.Deshred
