import Mathlib.Tactic.Ring
import ShredTools.Audit.FilterWindow

/-!
# What one call hands out

`take_ready` moves the cursor of a window in steps of the sample distance.  As long as no slot wraps
on the way, the slots that it hands out are an arithmetic progression from the place of the cursor
on, each with what the window kept for it, and nothing that lies ahead of the new cursor is lost.

`HandsOut` describes the loop by its results: where the cursor ends, which slots come out, and what
is kept for every slot that does not; the course of the window changes in nothing else.  `Advances`
does the same for the jump and the loop together, with the number of sampled slots that the jump
passes over.  The conditions are those of `CursorFits`, on the cursor before the call, and
`advances_advance` is the lemma that the accounts of the checker and the coverage of a window both
rest on.
-/

namespace ShredTools.Audit

section Rounding

variable {n x : ℕ}

/-- Rounding up does not go down. -/
theorem le_divCeil_mul (hn : 0 < n) : x ≤ divCeil x n * n := by
  have hdm : n * (x / n) + x % n = x := Nat.div_add_mod x n
  have hmod : x % n < n := Nat.mod_lt x hn
  unfold divCeil
  split
  · rw [Nat.add_mul, Nat.one_mul, Nat.mul_comm]
    omega
  next hzero =>
    rw [Nat.mul_comm]
    omega

/-- Rounding up ends on a multiple, unless it wraps. -/
theorem dvd_roundUp (h : divCeil x n * n < u64Size) : n ∣ roundUp n x := by
  unfold roundUp
  rw [Nat.mod_eq_of_lt h]
  exact Nat.dvd_mul_left n _

/-- Rounding up ends at or above the slot, unless it wraps. -/
theorem le_roundUp (hn : 0 < n) (h : divCeil x n * n < u64Size) : x ≤ roundUp n x := by
  unfold roundUp
  rw [Nat.mod_eq_of_lt h]
  exact le_divCeil_mul hn

end Rounding

namespace Course

variable {n lagSlots tip last next room : ℕ} {key : WindowKey} {c : Course}

/-- Filling the opening tip does not touch what is kept for the check. -/
@[simp] theorem deliveriesFor_learnTip (slot slot' : ℕ) (c : Course) :
    (c.learnTip slot).deliveriesFor slot' = c.deliveriesFor slot' := by
  unfold learnTip
  split <;> rfl

/-- Filling the opening tip does not touch the cursor. -/
@[simp] theorem nextCheck_learnTip (slot : ℕ) (c : Course) :
    (c.learnTip slot).nextCheck = c.nextCheck := by
  unfold learnTip
  split <;> rfl

/-- Filling the opening tip does not touch the first delivery. -/
@[simp] theorem firstDeliveredSlot_learnTip (slot : ℕ) (c : Course) :
    (c.learnTip slot).firstDeliveredSlot = c.firstDeliveredSlot := by
  unfold learnTip
  split <;> rfl

/-- The loop of `take_ready`, starting at `next`, gets to its slot number `k`. -/
def Reaches (n lagSlots tip last next k : ℕ) : Prop :=
  ∀ j ≤ k, Due lagSlots tip last (next + n * j)

instance (n lagSlots tip last next k : ℕ) : Decidable (Reaches n lagSlots tip last next k) :=
  inferInstanceAs (Decidable (∀ j ≤ k, Due lagSlots tip last (next + n * j)))

/-- What the loop of `take_ready` does, as long as it does not step past the last slot. -/
structure HandsOut (n lagSlots tip last next room : ℕ) (key : WindowKey) (c : Course)
    (r : ℕ × Course × List SlotTask) : Prop where
  /-- There is room for the slots. -/
  length_le : r.2.2.length ≤ room
  /-- The slots are the sampled ones from the cursor on. -/
  slots : r.2.2.map SlotTask.slot = List.range' next r.2.2.length n
  /-- The cursor moves past them. -/
  cursor : r.1 = next + n * r.2.2.length
  /-- All of them were due. -/
  due : ∀ k < r.2.2.length, Due lagSlots tip last (next + n * k)
  /-- Each task carries what was kept for its slot. -/
  task : ∀ t ∈ r.2.2, t = c.taskFor key t.slot
  /-- What was kept for other slots stays. -/
  other : ∀ slot, slot ∉ r.2.2.map SlotTask.slot → r.2.1.deliveriesFor slot = c.deliveriesFor slot
  /-- Every task is in flight. -/
  inFlight : c.inFlight < u32Size → r.2.1.inFlight = (c.inFlight + r.2.2.length) % u32Size
  /-- The rest of the course is not touched. -/
  frame : r.2.1 =
    { c with
      sampled := r.2.1.sampled
      inFlight := r.2.1.inFlight
      auditStart := r.2.1.auditStart
      auditEnd := r.2.1.auditEnd }

/-- Handing out a slot takes what was kept for it, and no more. -/
theorem deliveriesFor_handOne {slot slot' : ℕ} (h : slot' ≠ slot) :
    (c.handOne slot).deliveriesFor slot' = c.deliveriesFor slot' := by
  unfold deliveriesFor handOne
  rw [AList.lookup_erase_ne h]

/-- The tasks of other slots are what they were. -/
lemma taskFor_handOne {slot slot' : ℕ} (h : slot' ≠ slot) :
    (c.handOne slot).taskFor key slot' = c.taskFor key slot' := by
  unfold taskFor
  rw [deliveriesFor_handOne h]
  rfl

/-- Handing out nothing. -/
lemma handsOut_nil : HandsOut n lagSlots tip last next room key c (next, c, []) where
  length_le := Nat.zero_le room
  slots := rfl
  cursor := rfl
  due k hk := absurd hk (Nat.not_lt_zero k)
  task _ ht := absurd ht List.not_mem_nil
  other _ _ := rfl
  inFlight h := (Nat.mod_eq_of_lt h).symm
  frame := rfl

/-- One more slot at the front. -/
lemma handsOut_cons {r : ℕ × Course × List SlotTask} (hn : 0 < n)
    (hdue : Due lagSlots tip last next)
    (h : HandsOut n lagSlots tip last (next + n) room key (c.handOne next) r) :
    HandsOut n lagSlots tip last next (room + 1) key c
      (r.1, r.2.1, c.taskFor key next :: r.2.2) where
  length_le := Nat.succ_le_succ h.length_le
  slots := by
    rw [List.map_cons, h.slots, List.length_cons, List.range'_succ]
    rfl
  cursor := by
    rw [List.length_cons, h.cursor]
    ring
  due k hk := by
    cases k with
    | zero => exact hdue
    | succ k =>
      have := h.due k (Nat.lt_of_succ_lt_succ hk)
      rwa [show next + n + n * k = next + n * (k + 1) by ring] at this
  task t ht := by
    rcases List.mem_cons.mp ht with rfl | ht
    · rfl
    · have hslot : t.slot ∈ List.range' (next + n) r.2.2.length n := by
        rw [← h.slots]
        exact List.mem_map_of_mem ht
      obtain ⟨i, -, hi⟩ := List.mem_range'.mp hslot
      have hne : t.slot ≠ next := by omega
      rw [← taskFor_handOne hne]
      exact h.task t ht
  other slot hslot := by
    rw [List.map_cons, List.mem_cons, not_or] at hslot
    rw [h.other slot hslot.2]
    exact deliveriesFor_handOne hslot.1
  inFlight hlt := by
    have hmod : (c.inFlight + 1) % u32Size < u32Size := Nat.mod_lt _ (by decide)
    have hrest := h.inFlight hmod
    dsimp only [handOne] at hrest
    dsimp only
    rw [hrest, List.length_cons, Nat.mod_add_mod, Nat.add_assoc, Nat.add_comm 1]
  frame := by
    rw [h.frame]
    rfl

/-- The loop of `take_ready` hands out a progression, as long as no step past a slot that it
reaches wraps. -/
lemma handsOut_handOut (hn : 0 < n)
    (hfit : ∀ k < room, Reaches n lagSlots tip last next k → next + n * (k + 1) < u64Size) :
    HandsOut n lagSlots tip last next room key c
      (handOut n lagSlots tip key last room next c) := by
  induction room generalizing next c with
  | zero => exact handsOut_nil
  | succ room ih =>
    unfold handOut
    split
    next hdue =>
      have hstep : next + n < u64Size := by
        have hreach : Reaches n lagSlots tip last next 0 := by
          intro j hj
          rw [Nat.le_zero.mp hj]
          exact hdue
        simpa using hfit 0 (Nat.succ_pos room) hreach
      rw [Nat.mod_eq_of_lt hstep]
      refine handsOut_cons hn hdue (ih fun k hk hreach => ?_)
      have hreach' : Reaches n lagSlots tip last next (k + 1) := by
        intro j hj
        cases j with
        | zero => exact hdue
        | succ j =>
          have := hreach j (Nat.le_of_succ_le_succ hj)
          rwa [show next + n + n * j = next + n * (j + 1) by ring] at this
      have := hfit (k + 1) (Nat.succ_lt_succ hk) hreach'
      rwa [show next + n * (k + 1 + 1) = next + n + n * (k + 1) by ring] at this
    next => exact handsOut_nil

/-- Moving the cursor keeps what lies ahead of it. -/
lemma deliveriesFor_moveCursor {cursor slot : ℕ} (h : cursor ≤ slot) :
    (c.moveCursor cursor).deliveriesFor slot = c.deliveriesFor slot := by
  unfold deliveriesFor moveCursor
  rw [AList.lookup_retain]
  cases c.sampled.lookup slot with
  | none => rfl
  | some m => simp [Option.filter, h]

/-- No slot wraps when the cursor moves on from `next`: not where it jumps to, and not past a slot
that the loop reaches. -/
structure CursorFits (n lagSlots tip next : ℕ) (c : Course) : Prop where
  /-- Rounding the floor up does not wrap, if the cursor jumps there. -/
  jump : next < floorSlot lagSlots tip → divCeil (floorSlot lagSlots tip) n * n < u64Size
  /-- No step past a slot that is handed out wraps. -/
  step : ∀ k < maxTasksPerWindow,
    Reaches n lagSlots tip (c.endSlot tip) (c.catchUp n lagSlots tip next).1 k →
      (c.catchUp n lagSlots tip next).1 + n * (k + 1) < u64Size

instance (n lagSlots tip next : ℕ) (c : Course) : Decidable (CursorFits n lagSlots tip next c) :=
  decidable_of_iff
    ((next < floorSlot lagSlots tip → divCeil (floorSlot lagSlots tip) n * n < u64Size) ∧
      ∀ k < maxTasksPerWindow,
        Reaches n lagSlots tip (c.endSlot tip) (c.catchUp n lagSlots tip next).1 k →
          (c.catchUp n lagSlots tip next).1 + n * (k + 1) < u64Size)
    ⟨fun h => ⟨h.1, h.2⟩, fun h => ⟨h.jump, h.step⟩⟩

/-- What moving the cursor on from `next` does, after it passes over `passed` sampled slots. -/
structure Advances (n lagSlots tip next passed : ℕ) (key : WindowKey) (c : Course)
    (r : Course × List SlotTask) : Prop where
  /-- The cursor jumps over these slots. -/
  jump : (c.catchUp n lagSlots tip next).1 = next + n * passed
  /-- No more slots are handed out than a window may have. -/
  length_le : r.2.length ≤ maxTasksPerWindow
  /-- The slots are the sampled ones from where the cursor jumps to. -/
  slots : r.2.map SlotTask.slot = List.range' (next + n * passed) r.2.length n
  /-- All of them were due. -/
  due : ∀ k < r.2.length, Due lagSlots tip (c.endSlot tip) (next + n * passed + n * k)
  /-- The cursor moves past them. -/
  nextCheck : r.1.nextCheck = some (next + n * (passed + r.2.length))
  /-- Each task carries what was kept for its slot. -/
  task : ∀ t ∈ r.2, t = c.taskFor key t.slot
  /-- What was kept for slots ahead of the cursor stays. -/
  ahead : ∀ slot, next + n * (passed + r.2.length) ≤ slot →
    r.1.deliveriesFor slot = c.deliveriesFor slot
  /-- Every task is in flight. -/
  inFlight : c.inFlight < u32Size → r.1.inFlight = (c.inFlight + r.2.length) % u32Size
  /-- The slots passed over are on record as unchecked. -/
  slotsUnchecked : r.1.slotsUnchecked = c.slotsUnchecked + passed
  /-- The rest of the course is not touched. -/
  frame : r.1 =
    { c with
      sampled := r.1.sampled
      nextCheck := r.1.nextCheck
      inFlight := r.1.inFlight
      slotsUnchecked := r.1.slotsUnchecked
      auditStart := r.1.auditStart
      auditEnd := r.1.auditEnd }

/-- The jump of the cursor passes over whole steps, and counts them. -/
lemma catchUp_eq (hn : 0 < n) (hdvd : n ∣ next)
    (hfit : next < floorSlot lagSlots tip → divCeil (floorSlot lagSlots tip) n * n < u64Size) :
    ∃ passed, c.catchUp n lagSlots tip next =
      (next + n * passed, { c with slotsUnchecked := c.slotsUnchecked + passed }) := by
  unfold catchUp
  dsimp only
  split
  next hlt =>
    have hle : floorSlot lagSlots tip ≤ roundUp n (floorSlot lagSlots tip) :=
      le_roundUp hn (hfit hlt)
    have hbound : roundUp n (floorSlot lagSlots tip) < u64Size := Nat.mod_lt _ (by decide)
    obtain ⟨k, hk⟩ : n ∣ roundUp n (floorSlot lagSlots tip) - next :=
      Nat.dvd_sub (dvd_roundUp (hfit hlt)) hdvd
    have hpassed : (roundUp n (floorSlot lagSlots tip) + u64Size - next) % u64Size = n * k := by
      rw [show roundUp n (floorSlot lagSlots tip) + u64Size - next = n * k + u64Size by omega,
        Nat.add_mod_right, Nat.mod_eq_of_lt (by omega)]
    refine ⟨k, ?_⟩
    rw [hpassed, Nat.mul_div_cancel_left k hn, ← hk]
    congr 1
    omega
  next => exact ⟨0, rfl⟩

/-- **What `take_ready` does with a placed cursor**, as long as no slot wraps. -/
theorem advances_advance (hn : 0 < n) (hdvd : n ∣ next) (hfit : CursorFits n lagSlots tip next c) :
    ∃ passed, Advances n lagSlots tip next passed key c (c.advance n lagSlots tip key next) := by
  obtain ⟨passed, hcaught⟩ := catchUp_eq (c := c) hn hdvd hfit.jump
  have hstep := hfit.step
  rw [hcaught] at hstep
  refine ⟨passed, ?_⟩
  unfold advance
  rw [hcaught]
  dsimp only
  have h : HandsOut n lagSlots tip (c.endSlot tip) (next + n * passed) maxTasksPerWindow key
      { c with slotsUnchecked := c.slotsUnchecked + passed } _ := handsOut_handOut hn hstep
  generalize handOut n lagSlots tip key (c.endSlot tip) maxTasksPerWindow (next + n * passed)
    { c with slotsUnchecked := c.slotsUnchecked + passed } = r at h
  have hcursor : r.1 = next + n * (passed + r.2.2.length) := by
    rw [h.cursor, Nat.mul_add, Nat.add_assoc]
  exact
    { jump := congrArg Prod.fst hcaught
      length_le := h.length_le
      slots := h.slots
      due := h.due
      nextCheck := congrArg some hcursor
      task := h.task
      -- what is still ahead was not handed out, so its deliveries are kept
      ahead := by
        intro slot hslot
        have hnot : slot ∉ r.2.2.map SlotTask.slot := by
          rw [h.slots, List.mem_range']
          rintro ⟨i, hi, rfl⟩
          have hlt : n * i < n * r.2.2.length := Nat.mul_lt_mul_of_pos_left hi hn
          dsimp only at hslot
          rw [Nat.mul_add] at hslot
          omega
        dsimp only at hslot ⊢
        rw [deliveriesFor_moveCursor (hcursor ▸ hslot), h.other slot hnot]
        rfl
      inFlight := h.inFlight
      slotsUnchecked := by
        rw [h.frame]
        rfl
      frame := by
        rw [h.frame]
        rfl }

/-! What a window was opened with stays, and so its tasks have its bundle. -/

@[simp] theorem info_learnTip (slot : ℕ) (c : Course) : (c.learnTip slot).info = c.info := by
  unfold learnTip
  split <;> rfl

/-- Catching up only counts what is passed over. -/
theorem frame_catchUp (next : ℕ) (c : Course) :
    (c.catchUp n lagSlots tip next).2 =
      { c with slotsUnchecked := (c.catchUp n lagSlots tip next).2.slotsUnchecked } := by
  unfold catchUp
  dsimp only
  split <;> rfl

/-- Handing out only touches what was kept, what is in flight and the range handed out. -/
lemma frame_handOut (last room next : ℕ) (c : Course) :
    (handOut n lagSlots tip key last room next c).2.1 =
      { c with
        sampled := (handOut n lagSlots tip key last room next c).2.1.sampled
        inFlight := (handOut n lagSlots tip key last room next c).2.1.inFlight
        auditStart := (handOut n lagSlots tip key last room next c).2.1.auditStart
        auditEnd := (handOut n lagSlots tip key last room next c).2.1.auditEnd } := by
  induction room generalizing next c with
  | zero => rfl
  | succ room ih =>
    unfold handOut
    split
    · dsimp only
      rw [ih]
      rfl
    · rfl

/-- The rest of the course is not touched on the way of the cursor. -/
theorem frame_advance (next : ℕ) (c : Course) :
    (c.advance n lagSlots tip key next).1 =
      { c with
        sampled := (c.advance n lagSlots tip key next).1.sampled
        nextCheck := (c.advance n lagSlots tip key next).1.nextCheck
        inFlight := (c.advance n lagSlots tip key next).1.inFlight
        slotsUnchecked := (c.advance n lagSlots tip key next).1.slotsUnchecked
        auditStart := (c.advance n lagSlots tip key next).1.auditStart
        auditEnd := (c.advance n lagSlots tip key next).1.auditEnd } := by
  unfold advance moveCursor
  dsimp only
  rw [frame_handOut, frame_catchUp]

lemma info_catchUp (next : ℕ) (c : Course) : (c.catchUp n lagSlots tip next).2.info = c.info := by
  rw [frame_catchUp]

lemma info_advance (next : ℕ) (c : Course) :
    (c.advance n lagSlots tip key next).1.info = c.info := by
  rw [frame_advance]

@[simp] theorem info_takeReady (c : Course) : (c.takeReady n lagSlots tip key).1.info = c.info := by
  unfold takeReady
  dsimp only
  rw [← info_learnTip tip c]
  generalize c.learnTip tip = d
  cases d.cursor n tip with
  | none => rfl
  | some next =>
    dsimp only
    exact info_advance next d

/-- A task is made from its slot, by a course with the same info. -/
lemma exists_of_mem_handOut {last room next : ℕ} {c : Course} {t : SlotTask}
    (ht : t ∈ (handOut n lagSlots tip key last room next c).2.2) :
    ∃ (d : Course) (slot : ℕ), d.info = c.info ∧ t = d.taskFor key slot := by
  induction room generalizing next c with
  | zero => cases ht
  | succ room ih =>
    unfold handOut at ht
    split at ht
    · rcases List.mem_cons.mp ht with rfl | ht
      · exact ⟨c, next, rfl, rfl⟩
      · obtain ⟨d, slot, hinfo, heq⟩ := ih ht
        exact ⟨d, slot, hinfo, heq⟩
    · cases ht

theorem exists_of_mem_takeReady {c : Course} {t : SlotTask}
    (ht : t ∈ (c.takeReady n lagSlots tip key).2) :
    ∃ (d : Course) (slot : ℕ), d.info = c.info ∧ t = d.taskFor key slot := by
  rw [← info_learnTip tip c]
  unfold takeReady at ht
  dsimp only at ht
  split at ht
  · cases ht
  next next _ =>
    rw [← info_catchUp next]
    unfold advance at ht
    dsimp only at ht
    exact exists_of_mem_handOut ht

/-- The tasks of a window carry its key. -/
theorem key_of_mem_takeReady {t : SlotTask} (ht : t ∈ (c.takeReady n lagSlots tip key).2) :
    t.key = key := by
  obtain ⟨d, slot, -, rfl⟩ := exists_of_mem_takeReady ht
  rfl

end Course

end ShredTools.Audit
