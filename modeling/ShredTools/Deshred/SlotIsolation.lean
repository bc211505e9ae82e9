import ShredTools.Deshred.Deshredder

/-!
# Slots do not disturb each other

A deshredder works on 256 slots at a time, each at its place of one ring, and shreds of all of them
come in any order.  Two slots share a place if they are equal modulo 256, and then the later one
evicts the earlier one.  That is all that one slot can do to another: until its place is taken by a
later slot, a slot makes the run of its own shreds (`takenAlong_isolated`), whatever is received of
other slots.

`evicts` says that a shred takes the place of a slot away from it, and `Agree` that two deshredders
have the same state of a slot.  A shred of the slot itself acts on both alike (`Agree.own`), and a
shred of another slot that does not evict it leaves it as it is (`Agree.other`).  What the two runs
take is then compared with the data sets of other slots left out (`filter_takenAlong`).
-/

namespace ShredTools.Deshred

variable {Entry : Type*}

/-- A shred of a later slot at the same place of the ring. -/
def evicts (slot : ℕ) (shred : Shred) : Bool :=
  ringIndex shred.slot = ringIndex slot ∧ slot < shred.slot

/-- The state of a slot, put at its place, is what its shreds go to. -/
lemma slotState_update_self (slots : Fin slotHistorySize → Option SlotState) (st : SlotState) :
    slotState (Function.update slots (ringIndex st.slot) (some st)) st.slot = some st := by
  unfold slotState
  rw [Function.update_self]
  dsimp only
  rw [if_neg (lt_irrefl _), if_pos rfl]

/-- What stands at the place of an earlier slot makes no difference to a slot whose state is not
there yet. -/
lemma slotState_update_of_lt {slots : Fin slotHistorySize → Option SlotState} {slot : ℕ}
    {st : SlotState} (h : st.slot < slot) :
    slotState (Function.update slots (ringIndex slot) (some st)) slot =
      some (SlotState.new slot) := by
  unfold slotState
  rw [Function.update_self]
  dsimp only
  rw [if_neg (not_lt.mpr h.le), if_neg h.ne]

/-- What happens at another place makes no difference. -/
lemma slotState_update_of_ne {slots : Fin slotHistorySize → Option SlotState} {slot : ℕ}
    {k : Fin slotHistorySize} (h : k ≠ ringIndex slot) (st : Option SlotState) :
    slotState (Function.update slots k st) slot = slotState slots slot := by
  unfold slotState
  rw [Function.update_of_ne h.symm]

/-- A shred brings data sets of its own slot only. -/
lemma Deshredder.slot_of_taken (agave : Agave Entry) (deshredder : Deshredder) (shred : Shred) :
    ∀ dataSet ∈ (deshredder.insertShred agave shred).2, dataSet.slot = shred.slot := by
  intro dataSet hmem
  rcases deshredder.insertShred_cases agave shred with
    ⟨-, heq⟩ | ⟨cur, hcur, hfin, -, htaken, -⟩
  · rw [heq] at hmem
    exact absurd hmem List.not_mem_nil
  · rw [htaken] at hmem
    exact ((SlotState.insertShred_slot agave shred hfin).2 dataSet hmem).trans
      (slotState_eq_some hcur).1

/-- Two deshredders have the same state of a slot, or both none yet. -/
def Agree (slot : ℕ) (deshredder other : Deshredder) : Prop :=
  ∃ st, slotState deshredder.slots slot = some st ∧ slotState other.slots slot = some st

/-- Deshredders that agree on a slot do the same with a shred of it. -/
theorem Agree.own (agave : Agave Entry) {slot : ℕ} {deshredder other : Deshredder}
    (h : Agree slot deshredder other) {shred : Shred} (hslot : shred.slot = slot) :
    Agree slot (deshredder.insertShred agave shred).1 (other.insertShred agave shred).1 ∧
      (deshredder.insertShred agave shred).2 = (other.insertShred agave shred).2 := by
  subst hslot
  obtain ⟨st, hst, hst'⟩ := h
  have hfirst := deshredder.insertShred_cases agave shred
  have hsecond := other.insertShred_cases agave shred
  cases hfin : st.finished with
  | true =>
    obtain ⟨-, heq⟩ := hfirst.resolve_right (by
      rintro ⟨cur, hcur, hunfinished, -⟩
      rw [Option.some.inj (hst.symm.trans hcur), hunfinished] at hfin
      exact Bool.noConfusion hfin)
    obtain ⟨-, heq'⟩ := hsecond.resolve_right (by
      rintro ⟨cur, hcur, hunfinished, -⟩
      rw [Option.some.inj (hst'.symm.trans hcur), hunfinished] at hfin
      exact Bool.noConfusion hfin)
    rw [heq, heq']
    exact ⟨⟨st, hst, hst'⟩, rfl⟩
  | false =>
    obtain ⟨cur, hcur, -, hslots, htaken, -⟩ := hfirst.resolve_left (by
      rintro ⟨hdone, -⟩
      rw [hdone st hst] at hfin
      exact Bool.noConfusion hfin)
    obtain ⟨cur', hcur', -, hslots', htaken', -⟩ := hsecond.resolve_left (by
      rintro ⟨hdone, -⟩
      rw [hdone st hst'] at hfin
      exact Bool.noConfusion hfin)
    obtain rfl := Option.some.inj (hst.symm.trans hcur)
    obtain rfl := Option.some.inj (hst'.symm.trans hcur')
    have hkeep : (st.insertShred agave shred).1.slot = shred.slot :=
      (SlotState.insertShred_slot agave shred hfin).1.trans (slotState_eq_some hst).1
    refine ⟨⟨(st.insertShred agave shred).1, ?_, ?_⟩, htaken.trans htaken'.symm⟩
    · rw [hslots, ← hkeep]
      exact slotState_update_self _ _
    · rw [hslots', ← hkeep]
      exact slotState_update_self _ _

/-- A shred of another slot that does not evict the slot leaves its state. -/
theorem Agree.other (agave : Agave Entry) {slot : ℕ} {deshredder alone : Deshredder}
    (h : Agree slot deshredder alone) {shred : Shred} (hne : shred.slot ≠ slot)
    (hkeep : evicts slot shred = false) :
    Agree slot (deshredder.insertShred agave shred).1 alone := by
  obtain ⟨st, hst, hst'⟩ := h
  rcases deshredder.insertShred_cases agave shred with
    ⟨-, heq⟩ | ⟨cur, hcur, hfin, hslots, -, -⟩
  · rw [heq]
    exact ⟨st, hst, hst'⟩
  · obtain ⟨hslot, hold⟩ := slotState_eq_some hcur
    have hslot' := (SlotState.insertShred_slot agave shred hfin).1
    refine ⟨st, ?_, hst'⟩
    rw [hslots]
    by_cases hplace : ringIndex shred.slot = ringIndex slot
    · -- an earlier slot at the same place, so the state of the slot is not there yet
      have hlt : shred.slot < slot := by
        rw [evicts, decide_eq_false_iff_not, not_and] at hkeep
        exact lt_of_le_of_ne (not_lt.mp (hkeep hplace)) hne
      obtain ⟨hst_slot, hthere | ⟨hnew, -⟩⟩ := slotState_eq_some hst
      · rcases hold with hold | ⟨-, hearlier⟩
        · rw [hplace, hthere] at hold
          rw [← hslot, ← Option.some.inj hold, hst_slot] at hne
          exact absurd rfl hne
        · have := hearlier st (hplace ▸ hthere)
          omega
      · rw [hplace, hnew]
        exact slotState_update_of_lt (by rw [hslot', hslot]; exact hlt)
    · rw [slotState_update_of_ne hplace]
      exact hst

/-- As long as it is not evicted, a slot makes the run of its own shreds. -/
theorem filter_takenAlong (agave : Agave Entry) {slot : ℕ} {shreds : List Shred}
    (hkeep : ∀ shred ∈ shreds, evicts slot shred = false) :
    let alone := shreds.filter fun shred => shred.slot = slot
    Agree slot (Machine.finalState (Deshredder.insertShred agave) Deshredder.default shreds)
        (Machine.finalState (Deshredder.insertShred agave) Deshredder.default alone) ∧
      (takenAlong agave Deshredder.default shreds).filter (fun dataSet => dataSet.slot = slot) =
        takenAlong agave Deshredder.default alone := by
  refine Machine.run_project (fun shred : Shred => shred.slot = slot)
    (fun dataSet : TakenDataSet Entry => dataSet.slot = slot) ?_ ?_ ⟨SlotState.new slot, rfl, rfl⟩
  · intro deshredder alone shred _ hagree hslot
    rw [decide_eq_true_eq] at hslot
    obtain ⟨hagree', htaken⟩ := hagree.own agave hslot
    refine ⟨hagree', ?_⟩
    rw [← htaken, List.filter_eq_self]
    intro dataSet hdataSet
    rw [decide_eq_true_eq, ← hslot]
    exact deshredder.slot_of_taken agave shred dataSet hdataSet
  · intro deshredder alone shred hmem hagree hslot
    rw [decide_eq_false_iff_not] at hslot
    refine ⟨hagree.other agave hslot (hkeep shred hmem), List.filter_eq_nil_iff.mpr ?_⟩
    intro dataSet hdataSet
    rw [decide_eq_true_eq, deshredder.slot_of_taken agave shred dataSet hdataSet]
    exact hslot

/-- Once a shred was inserted, the ring holds its slot or a later one. -/
lemma Deshredder.newest_insertShred (agave : Agave Entry) {deshredder : Deshredder}
    (hplace : ∀ k st, deshredder.slots k = some st → ringIndex st.slot = k) (shred : Shred) :
    ∃ st, (deshredder.insertShred agave shred).1.slots (ringIndex shred.slot) = some st ∧
      shred.slot ≤ st.slot ∧ ringIndex st.slot = ringIndex shred.slot := by
  rcases deshredder.insertShred_cases agave shred with
    ⟨hdone, heq⟩ | ⟨cur, hcur, hfin, hslots, -, -⟩
  · rw [heq]
    cases hold : deshredder.slots (ringIndex shred.slot) with
    | none =>
      have hnew : slotState deshredder.slots shred.slot = some (SlotState.new shred.slot) := by
        unfold slotState
        rw [hold]
      exact Bool.noConfusion (hdone _ hnew)
    | some st =>
      refine ⟨st, rfl, ?_, hplace _ st hold⟩
      by_contra hlt
      have hnew : slotState deshredder.slots shred.slot = some (SlotState.new shred.slot) := by
        unfold slotState
        rw [hold]
        dsimp only
        rw [if_neg (by omega), if_neg (by omega)]
      exact Bool.noConfusion (hdone _ hnew)
  · have hslot := (SlotState.insertShred_slot agave shred hfin).1.trans (slotState_eq_some hcur).1
    rw [hslots, Function.update_self]
    exact ⟨_, rfl, hslot.ge, by rw [hslot]⟩

/-- **Slots do not disturb each other.**  Whatever shreds of other slots come in between: the data
sets taken of a slot are those of the run over the shreds of this slot alone, up to the first shred
of a later slot that shares its place in the ring; after that shred none of it is taken. -/
theorem takenAlong_isolated (agave : Agave Entry) (slot : ℕ) (shreds : List Shred) :
    (takenAlong agave Deshredder.default shreds).filter (fun dataSet => dataSet.slot = slot) =
      takenAlong agave Deshredder.default ((shreds.takeWhile fun shred =>
        !evicts slot shred).filter fun shred => shred.slot = slot) := by
  have hkeep : ∀ shred ∈ shreds.takeWhile fun shred => !evicts slot shred,
      evicts slot shred = false := by
    intro shred hmem
    have := List.all_eq_true.mp List.all_takeWhile shred hmem
    rwa [Bool.not_eq_true'] at this
  have hbefore := (filter_takenAlong agave hkeep).2
  have hsplit : shreds.takeWhile (fun shred => !evicts slot shred) ++
      shreds.dropWhile (fun shred => !evicts slot shred) = shreds :=
    List.takeWhile_append_dropWhile
  cases hrest : shreds.dropWhile fun shred => !evicts slot shred with
  | nil =>
    rw [hrest, List.append_nil] at hsplit
    rwa [hsplit] at hbefore ⊢
  | cons evictor rest =>
    -- from the evicting shred on, the place belongs to a later slot
    have hevicts : evicts slot evictor = true := by
      have := List.head_dropWhile_not (l := shreds) (fun shred => !evicts slot shred)
        (by rw [hrest]; exact List.cons_ne_nil _ _)
      simpa [hrest] using this
    rw [evicts, decide_eq_true_eq] at hevicts
    obtain ⟨hplace, hlater⟩ := hevicts
    rw [hrest] at hsplit
    have hring := ringInvariant_run agave (shreds.takeWhile fun shred => !evicts slot shred)
    obtain ⟨st, hst, hle, hindex⟩ := Deshredder.newest_insertShred agave hring.place evictor
    conv_lhs => rw [← hsplit]
    rw [takenAlong, Machine.outputs_append, List.flatten_append, List.filter_append,
      Machine.outputs_cons, List.flatten_cons, List.filter_append]
    refine (congrArg₂ (· ++ ·) hbefore ?_).trans (List.append_nil _)
    refine List.append_eq_nil_iff.mpr ⟨?_, ?_⟩ <;> rw [List.filter_eq_nil_iff] <;>
      intro dataSet hmem <;> rw [decide_eq_true_eq]
    · have := Deshredder.slot_of_taken agave _ evictor dataSet hmem
      omega
    · rintro rfl
      have := takenAlong_slot_le agave rest hindex hst dataSet hmem hplace.symm
      omega

end ShredTools.Deshred
