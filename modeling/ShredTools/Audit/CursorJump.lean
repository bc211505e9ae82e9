import Mathlib.Order.Interval.Finset.Nat
import ShredTools.Audit.FilterCheckRun
import ShredTools.Audit.WindowLife

/-!
# What a jump of the cursor counts

A cursor that falls far behind the tip jumps, and the sampled slots that it passes over go on record
as unchecked.  The jump goes by the tip alone, wherever the window ends.  It stays in the window
exactly if the floor, rounded up to a sampled slot, is at most one step past the end
(`blamesInside_iff`).

What a window has taken, that is counted or handed out, are the sampled slots that its cursor has
left behind since it was placed.  They lie between its start and its end (`SlotsInside`) as long as
the start and the end stay out of their way.  A `take_ready` keeps the slots taken in the window if
its jump stays there (`SlotsInside.takeReady`); the calls of a source could move the start or the
end, and do so with a first delivery that comes after slots were handed out
(`SlotsInside.countDelivery`); the other steps of the checker touch neither (`keepsRange_step`).

So in runs whose steps all meet these conditions (`FilterSystem.Inside`), each slot that a jump
counts is one of its window, and a window never counts more slots than there are sampled ones from
its start to its end (`jumps_blame_inside`).
-/

namespace ShredTools.Audit

/-! ### Sampled slots in a range -/

/-- How many multiples of the sample distance there are from `lo` to `hi`. -/
def sampledIn (n lo hi : ℕ) : ℕ := ((Finset.Icc lo hi).filter (n ∣ ·)).card

/-- A progression of sampled slots in a range is no longer than the range allows. -/
lemma le_sampledIn {n lo hi first k : ℕ} (hn : 0 < n) (hlo : lo ≤ first) (hdvd : n ∣ first)
    (hhi : k = 0 ∨ first + n * k ≤ hi + n) : k ≤ sampledIn n lo hi := by
  have hmaps : ∀ j ∈ Finset.range k,
      first + n * j ∈ (Finset.Icc lo hi).filter (n ∣ ·) := by
    intro j hj
    have hlt : j < k := Finset.mem_range.mp hj
    have hstep : n * (j + 1) ≤ n * k := Nat.mul_le_mul_left n hlt
    rw [Nat.mul_add, Nat.mul_one] at hstep
    rw [Finset.mem_filter, Finset.mem_Icc]
    refine ⟨⟨by omega, by omega⟩, Nat.dvd_add hdvd (Nat.dvd_mul_right n j)⟩
  have hinj : Set.InjOn (fun j => first + n * j) (Finset.range k : Set ℕ) := by
    intro i _ j _ hij
    exact Nat.eq_of_mul_eq_mul_left hn (Nat.add_left_cancel hij)
  have hcard := Finset.card_le_card_of_injOn _ hmaps hinj
  rwa [Finset.card_range] at hcard

/-! ### One jump -/

namespace Course

section Jump

variable (n lagSlots tip : ℕ) (key : WindowKey) (c : Course)

/-- How many slots `take_ready` adds to the unchecked ones. -/
def blamed : ℕ := (c.takeReady n lagSlots tip key).1.slotsUnchecked - c.slotsUnchecked

/-- The slots that `take_ready` adds to the unchecked ones: those that the cursor passes over. -/
def blamedSlots : List ℕ :=
  ((c.learnTip tip).cursor n tip).elim [] fun next =>
    List.range' next (c.blamed n lagSlots tip key) n

/-- Only sampled slots of the window are added, from the cursor to the end. -/
structure BlamesInside : Prop where
  /-- These slots are what the count grows by. -/
  counted : (c.takeReady n lagSlots tip key).1.slotsUnchecked =
    c.slotsUnchecked + (c.blamedSlots n lagSlots tip key).length
  /-- Each of them is a sampled slot, at or after the cursor, and up to the end. -/
  inside : ∀ slot ∈ c.blamedSlots n lagSlots tip key,
    n ∣ slot ∧ (∀ next ∈ (c.learnTip tip).cursor n tip, next ≤ slot) ∧ slot ≤ c.endSlot tip

/-- A cursor behind the floor jumps no further than one step past the end. -/
def JumpFits : Prop :=
  ∀ next ∈ (c.learnTip tip).cursor n tip, next < floorSlot lagSlots tip →
    roundUp n (floorSlot lagSlots tip) ≤ c.endSlot tip + n

instance : Decidable (c.JumpFits n lagSlots tip) :=
  inferInstanceAs (Decidable (∀ next ∈ (c.learnTip tip).cursor n tip,
    next < floorSlot lagSlots tip → roundUp n (floorSlot lagSlots tip) ≤ c.endSlot tip + n))

end Jump

variable {n lagSlots tip : ℕ} {key : WindowKey} {c : Course}

/-- Filling the opening tip does not move the end. -/
@[simp] lemma endSlot_learnTip (slot tip : ℕ) (c : Course) :
    (c.learnTip slot).endSlot tip = c.endSlot tip := by
  unfold learnTip
  split <;> rfl

/-- Filling the opening tip does not count slots either. -/
@[simp] lemma slotsUnchecked_learnTip (slot : ℕ) (c : Course) :
    (c.learnTip slot).slotsUnchecked = c.slotsUnchecked :=
  congrArg SlotLedger.slotsUnchecked (ledger_learnTip slot)

/-- Without a cursor nothing happens. -/
lemma takeReady_of_cursor_none (h : (c.learnTip tip).cursor n tip = none) :
    c.takeReady n lagSlots tip key = (c.learnTip tip, []) := by
  unfold takeReady
  dsimp only
  rw [h]

/-- The slots added are as many as `catch_up` passes over. -/
lemma blamedSlots_eq {next passed : ℕ} {r : Course × List SlotTask}
    (hcursor : (c.learnTip tip).cursor n tip = some next)
    (hready : c.takeReady n lagSlots tip key = r)
    (hadv : Advances n lagSlots tip next passed key (c.learnTip tip) r) :
    c.blamedSlots n lagSlots tip key = List.range' next passed n := by
  have hblamed : c.blamed n lagSlots tip key = passed := by
    unfold blamed
    rw [hready, hadv.slotsUnchecked, slotsUnchecked_learnTip, Nat.add_sub_cancel_left]
  unfold blamedSlots
  rw [hcursor, hblamed]
  rfl

/-- How far the cursor jumps: to the floor rounded up, or not at all. -/
lemma jump_cases {next passed : ℕ} (hn : 0 < n)
    (hjump : (c.catchUp n lagSlots tip next).1 = next + n * passed)
    (hfit : next < floorSlot lagSlots tip → divCeil (floorSlot lagSlots tip) n * n < u64Size) :
    (next < floorSlot lagSlots tip ∧ 0 < passed ∧
        roundUp n (floorSlot lagSlots tip) = next + n * passed) ∨
      (¬ next < floorSlot lagSlots tip ∧ passed = 0) := by
  unfold catchUp at hjump
  dsimp only at hjump
  by_cases hlt : next < floorSlot lagSlots tip
  · left
    rw [if_pos hlt] at hjump
    dsimp only at hjump
    refine ⟨hlt, ?_, hjump⟩
    have hle : floorSlot lagSlots tip ≤ roundUp n (floorSlot lagSlots tip) :=
      le_roundUp hn (hfit hlt)
    rw [Nat.pos_iff_ne_zero]
    rintro rfl
    omega
  · right
    rw [if_neg hlt] at hjump
    dsimp only at hjump
    have hzero : n * passed = 0 := by omega
    exact ⟨hlt, (Nat.mul_eq_zero.mp hzero).resolve_left (Nat.ne_of_gt hn)⟩

/-- The slots passed over end before the place that the cursor jumps to. -/
lemma forall_mem_range'_le {next passed hi : ℕ} (hpos : 0 < passed) :
    (∀ slot ∈ List.range' next passed n, slot ≤ hi) ↔ next + n * passed ≤ hi + n := by
  have hsplit : n * passed = n * (passed - 1) + n := by
    rw [← Nat.mul_succ]
    congr 1
    omega
  constructor
  · intro h
    have hlast := h (next + n * (passed - 1)) (List.mem_range'.mpr ⟨passed - 1, by omega, rfl⟩)
    omega
  · intro h slot hslot
    obtain ⟨i, hi', rfl⟩ := List.mem_range'.mp hslot
    have hle : n * i ≤ n * (passed - 1) := Nat.mul_le_mul_left n (by omega)
    omega

/-- **When a jump stays in the window**: exactly if it goes at most one step past the end. -/
theorem blamesInside_iff (hn : 0 < n) (hfit : c.CountsFit n lagSlots tip)
    (haligned : ∀ next ∈ c.nextCheck, n ∣ next) (key : WindowKey) :
    c.BlamesInside n lagSlots tip key ↔ c.JumpFits n lagSlots tip := by
  cases hcursor : (c.learnTip tip).cursor n tip with
  | none =>
    have hnone : c.blamedSlots n lagSlots tip key = [] := by
      unfold blamedSlots
      rw [hcursor]
      rfl
    constructor
    · intro _ next hnext
      rw [hcursor] at hnext
      cases hnext
    · refine fun _ => ⟨?_, fun slot hslot => ?_⟩
      · rw [takeReady_of_cursor_none hcursor, hnone]
        exact slotsUnchecked_learnTip tip c
      · rw [hnone] at hslot
        cases hslot
  | some next =>
    obtain ⟨hdvd, passed, hadv⟩ := c.advances_takeReady hn hfit haligned hcursor key
    have hslots := blamedSlots_eq hcursor rfl hadv
    -- the cursor jumps to the rounded floor, or stays
    have hjump := jump_cases hn hadv.jump (hfit.move next hcursor).jump
    have hfits : c.JumpFits n lagSlots tip ↔
        (next < floorSlot lagSlots tip →
          roundUp n (floorSlot lagSlots tip) ≤ c.endSlot tip + n) := by
      unfold JumpFits
      rw [hcursor]
      simp
    rw [hfits]
    constructor
    · intro h hlt
      obtain ⟨-, hpos, heq⟩ | ⟨hnot, -⟩ := hjump
      · rw [heq, ← forall_mem_range'_le hpos, ← hslots]
        -- the last slot passed over is a step before the cursor
        exact fun slot hslot => (h.inside slot hslot).2.2
      · exact absurd hlt hnot
    · refine fun h => ⟨?_, fun slot hslot => ?_⟩
      · rw [hadv.slotsUnchecked, slotsUnchecked_learnTip, hslots, List.length_range']
      · rw [hslots] at hslot
        obtain ⟨i, hi, rfl⟩ := List.mem_range'.mp hslot
        refine ⟨Nat.dvd_add hdvd (Nat.dvd_mul_right n i), fun next' hnext' => ?_, ?_⟩
        · rw [hcursor] at hnext'
          cases hnext'
          exact Nat.le_add_right next (n * i)
        · obtain ⟨hlt, hpos, heq⟩ | ⟨-, rfl⟩ := hjump
          · rw [heq] at h
            exact (forall_mem_range'_le hpos).mpr (h hlt) _ hslot
          · exact absurd hi (Nat.not_lt_zero i)

end Course

/-! ### The range of a window -/

namespace Course

section Range

variable (n tip : ℕ) (c : Course)

/-- The number of sampled slots of a window, from its start to its end. -/
def sampledSlots : ℕ := c.startSlot.elim 0 fun start => sampledIn n start (c.endSlot tip)

/-- The slots that were counted, and those in flight. -/
def taken : ℕ := c.slotsChecked + c.slotsSkipped + c.slotsUnchecked + c.inFlight

end Range

/-- What a window has counted lies in its range: the cursor was placed on a sampled slot after the
start, and has not left the range by more than a step. -/
structure SlotsInside (n tip : ℕ) (placed : List ℕ) (c : Course) : Prop where
  /-- A window with deliveries has a first one. -/
  seen : 0 < c.delivered → c.firstDeliveredSlot.isSome = true
  /-- The cursor is within the range. -/
  cursor : ∀ next ∈ c.nextCheck, ∃ start ∈ c.startSlot, ∃ initial, placed = [initial] ∧
    n ∣ initial ∧ start ≤ initial ∧ (next = initial ∨ next ≤ c.endSlot tip + n)

section Range

variable {n lagSlots tip tip' slot : ℕ} {key : WindowKey} {placed : List ℕ} {c c' : Course}

/-- **The sampled slots that a cursor within the range has left behind are in the range.** -/
theorem SlotsInside.counted_le {l : SlotLedger} (h : c.SlotsInside n tip placed) (hn : 0 < n)
    (hnext : l.nextCheck = c.nextCheck) (hcounts : Account.CountsAll n placed l) :
    l.counted ≤ c.sampledSlots n tip := by
  cases hcheck : c.nextCheck with
  | none =>
    rw [((Account.countsAll_of_none (hnext.trans hcheck)).mp hcounts).2]
    exact Nat.zero_le _
  | some next =>
    obtain ⟨start, hstart, initial, hplaced, hdvd, hfirst, hnear⟩ := h.cursor next hcheck
    obtain ⟨initial', hplaced', hsum⟩ :=
      (Account.countsAll_of_some (hnext.trans hcheck)).mp hcounts
    rw [hplaced] at hplaced'
    cases hplaced'
    unfold sampledSlots
    rw [Option.mem_def.mp hstart]
    apply le_sampledIn hn hfirst hdvd
    rcases hnear with hnear | hnear
    · left
      have hzero : n * l.counted = 0 := by omega
      exact (Nat.mul_eq_zero.mp hzero).resolve_left (Nat.ne_of_gt hn)
    · right
      rwa [← hsum]

/-- What is at most a step past the end: the end is set by the tip, and by the deliveries if there
are any. -/
lemma le_endSlot_add_iff {x : ℕ} : x ≤ c.endSlot tip + n ↔
    x ≤ c.tipClose.getD tip - (endMargin + c.commitmentLag) + n ∧
      (0 < c.delivered → x ≤ c.maxDeliveredSlot - 1 + n) := by
  unfold endSlot
  dsimp only
  by_cases hdelivered : 0 < c.delivered
  · rw [if_pos hdelivered]
    omega
  · rw [if_neg hdelivered]
    omega

/-- A later tip does not move the end back. -/
lemma endSlot_mono (h : tip ≤ tip') : c.endSlot tip ≤ c.endSlot tip' := by
  have hlast : c.tipClose.getD tip ≤ c.tipClose.getD tip' := by
    cases c.tipClose with
    | none => exact h
    | some t => exact Nat.le_refl t
  unfold endSlot
  dsimp only
  split <;> omega

/-! ### What the calls of a source do to the range -/

/-- A course that has the cursor and the range of another one. -/
structure SameRange (c c' : Course) : Prop where
  /-- The cursor is the same. -/
  nextCheck : c'.nextCheck = c.nextCheck
  /-- The start stays as it is. -/
  startSlot : c'.startSlot = c.startSlot
  /-- The end stays as it is. -/
  endSlot : ∀ tip, c'.endSlot tip = c.endSlot tip
  /-- As many transactions were delivered. -/
  delivered : c'.delivered = c.delivered
  /-- The first of them is the same. -/
  firstDeliveredSlot : c'.firstDeliveredSlot = c.firstDeliveredSlot

theorem SameRange.refl (c : Course) : SameRange c c := ⟨rfl, rfl, fun _ => rfl, rfl, rfl⟩

theorem SameRange.trans {c'' : Course} (h : SameRange c c') (h' : SameRange c' c'') :
    SameRange c c'' where
  nextCheck := h'.nextCheck.trans h.nextCheck
  startSlot := h'.startSlot.trans h.startSlot
  endSlot tip := (h'.endSlot tip).trans (h.endSlot tip)
  delivered := h'.delivered.trans h.delivered
  firstDeliveredSlot := h'.firstDeliveredSlot.trans h.firstDeliveredSlot

/-- Settling a task moves neither the cursor nor the range. -/
lemma sameRange_settle (outcome : Outcome) (c : Course) : SameRange c (c.settle outcome) := by
  cases outcome <;> exact ⟨rfl, rfl, fun _ => rfl, rfl, rfl⟩

/-- A course with the cursor and the range of another one counts inside if that one does. -/
lemma SlotsInside.of_sameRange (h : c.SlotsInside n tip placed) (hsame : SameRange c c') :
    c'.SlotsInside n tip placed := by
  refine ⟨?_, ?_⟩
  · rw [hsame.delivered, hsame.firstDeliveredSlot]
    exact h.seen
  · rw [hsame.nextCheck, hsame.startSlot, hsame.endSlot]
    exact h.cursor

/-- A new window has no cursor. -/
lemma slotsInside_new (info : WindowInfo) : (new info).SlotsInside n tip placed := by
  refine ⟨fun hdelivered => ?_, fun next hnext => ?_⟩
  · exact absurd hdelivered (Nat.lt_irrefl 0)
  · cases hnext

section Conditions

variable (n tip slot : ℕ) (c : Course)

/-- The condition on `subscribed`: the start does not move past a slot that was taken. -/
def SubscribesInside : Prop :=
  ∀ next ∈ c.nextCheck, ∃ start ∈ (c.subscribe tip).startSlot, start + n * c.taken ≤ next

/-- The condition on the first delivery of a window: it comes before a slot is taken, and the start
does not move past the cursor. -/
def DeliversInside : Prop :=
  c.delivered = 0 → ∀ next ∈ c.nextCheck,
    c.taken = 0 ∧ ∃ start ∈ (c.countDelivery slot).startSlot, start ≤ next

/-- The condition on `close`: the end does not move before a slot that was taken. -/
def ClosesInside : Prop :=
  0 < c.taken → ∀ next ∈ c.nextCheck, next ≤ tip - (endMargin + c.commitmentLag) + n

instance : Decidable (c.SubscribesInside n tip) :=
  inferInstanceAs (Decidable (∀ next ∈ c.nextCheck,
    ∃ start ∈ (c.subscribe tip).startSlot, start + n * c.taken ≤ next))

instance : Decidable (c.DeliversInside slot) :=
  inferInstanceAs (Decidable (_ → ∀ next ∈ c.nextCheck,
    _ ∧ ∃ start ∈ (c.countDelivery slot).startSlot, start ≤ next))

instance : Decidable (c.ClosesInside n tip) :=
  inferInstanceAs (Decidable (_ → ∀ next ∈ c.nextCheck, _))

end Conditions

/-- The place where the cursor was put, and what it left behind since. -/
lemma SlotsInside.eq_add_taken (h : c.SlotsInside n tip placed)
    (hcounts : Account.CountsAll n placed c.ledger.finished) {next : ℕ}
    (hnext : c.nextCheck = some next) :
    ∃ initial, placed = [initial] ∧ n ∣ initial ∧ next = initial + n * c.taken := by
  obtain ⟨-, -, initial, hplaced, hdvd, -⟩ := h.cursor next hnext
  obtain ⟨initial', hplaced', hsum⟩ :=
    (Account.countsAll_of_some (l := c.ledger.finished) hnext).mp hcounts
  rw [hplaced] at hplaced'
  cases hplaced'
  rw [Account.counted_finished] at hsum
  exact ⟨initial, hplaced, hdvd, hsum⟩

/-- A call of `subscribed` that meets the condition leaves the slots counted in the range. -/
theorem SlotsInside.subscribe (h : c.SlotsInside n tip' placed)
    (hcounts : Account.CountsAll n placed c.ledger.finished) (hinside : c.SubscribesInside n tip) :
    (c.subscribe tip).SlotsInside n tip' placed := by
  refine ⟨h.seen, fun next hnext => ?_⟩
  obtain ⟨initial, hplaced, hdvd, hsum⟩ := h.eq_add_taken hcounts hnext
  obtain ⟨-, -, initial', hplaced', -, -, hnear⟩ := h.cursor next hnext
  rw [hplaced] at hplaced'
  cases hplaced'
  obtain ⟨start, hstart, hle⟩ := hinside next hnext
  exact ⟨start, hstart, initial, hplaced, hdvd, by omega, hnear⟩

theorem SlotsInside.close (h : c.SlotsInside n tip' placed)
    (hcounts : Account.CountsAll n placed c.ledger.finished) (hinside : c.ClosesInside n tip)
    (now : ℤ) (reason : String) : (c.close tip now reason).SlotsInside n tip' placed := by
  refine ⟨h.seen, fun next hnext => ?_⟩
  obtain ⟨initial, hplaced, hdvd, hsum⟩ := h.eq_add_taken hcounts hnext
  obtain ⟨start, hstart, initial', hplaced', -, hfirst, hnear⟩ := h.cursor next hnext
  rw [hplaced] at hplaced'
  cases hplaced'
  refine ⟨start, hstart, initial, hplaced, hdvd, hfirst, ?_⟩
  rcases Nat.eq_zero_or_pos c.taken with hzero | hpos
  · left
    rw [hsum, hzero, Nat.mul_zero, Nat.add_zero]
  · refine hnear.imp_right fun hnear => le_endSlot_add_iff.mpr ⟨hinside hpos next hnext, ?_⟩
    exact (le_endSlot_add_iff.mp hnear).2

/-- Counting a delivery that meets the condition. -/
theorem SlotsInside.countDelivery (h : c.SlotsInside n tip' placed)
    (hcounts : Account.CountsAll n placed c.ledger.finished) (hinside : c.DeliversInside slot) :
    (c.countDelivery slot).SlotsInside n tip' placed := by
  have hopen : ∀ start ∈ c.startSlot, (c.countDelivery slot).tipOpen = c.tipOpen := by
    intro start hstart
    obtain ⟨opened, hopened, -⟩ := Option.map_eq_some_iff.mp hstart
    unfold Course.countDelivery learnTip
    dsimp only
    rw [hopened, if_neg (by simp)]
  have hclose : (c.countDelivery slot).tipClose = c.tipClose ∧
      (c.countDelivery slot).commitmentLag = c.commitmentLag ∧
      (c.countDelivery slot).nextCheck = c.nextCheck ∧
      (c.countDelivery slot).firstDeliveredSlot = some (c.firstDeliveredSlot.getD slot) ∧
      (c.countDelivery slot).maxDeliveredSlot = max c.maxDeliveredSlot slot := by
    unfold Course.countDelivery learnTip
    dsimp only
    split <;> exact ⟨rfl, rfl, rfl, rfl, rfl⟩
  obtain ⟨hclose, hlag, hcheck, hfirst, hmax⟩ := hclose
  refine ⟨fun _ => by rw [hfirst]; rfl, fun next hnext => ?_⟩
  rw [hcheck] at hnext
  obtain ⟨initial, hplaced, hdvd, hsum⟩ := h.eq_add_taken hcounts hnext
  obtain ⟨start, hstart, initial', hplaced', -, hle, hnear⟩ := h.cursor next hnext
  rw [hplaced] at hplaced'
  cases hplaced'
  rcases Nat.eq_zero_or_pos c.delivered with hzero | hpos
  · -- the first delivery: nothing was taken
    obtain ⟨htaken, start', hstart', hle'⟩ := hinside hzero next hnext
    rw [htaken, Nat.mul_zero, Nat.add_zero] at hsum
    exact ⟨start', hstart', initial, hplaced, hdvd, hsum ▸ hle', Or.inl hsum⟩
  · -- a later one: the start stays, and the end does not move back
    obtain ⟨first, hseen⟩ := Option.isSome_iff_exists.mp (h.seen hpos)
    refine ⟨start, ?_, initial, hplaced, hdvd, hle, hnear.imp_right fun hnear => ?_⟩
    · unfold startSlot at hstart ⊢
      rw [hopen start hstart, hfirst, hseen]
      rw [hseen] at hstart
      exact hstart
    · rw [le_endSlot_add_iff] at hnear ⊢
      rw [hclose, hlag, hmax]
      refine ⟨hnear.1, fun _ => ?_⟩
      have hlast := hnear.2 hpos
      omega

/-- The rest of a delivery is no matter of the range. -/
theorem SlotsInside.deliver (h : c.SlotsInside n tip' placed)
    (hcounts : Account.CountsAll n placed c.ledger.finished) (hinside : c.DeliversInside slot)
    (sampleEvery : ℕ) (skipVotes : Bool) (tx : TxView) (mask : Mask) :
    (c.deliver sampleEvery skipVotes slot tx mask).SlotsInside n tip' placed := by
  have hcount := h.countDelivery hcounts hinside
  unfold Course.deliver
  dsimp only
  split
  · exact hcount.of_sameRange ⟨rfl, rfl, fun _ => rfl, rfl, rfl⟩
  · exact hcount

/-! ### What a `take_ready` does to the range -/

/-- The condition on a `take_ready` under which a window counts its own slots only: placing the
cursor does not wrap, and a cursor behind the floor jumps at most one step past the end. -/
structure JumpsInside (n lagSlots tip : ℕ) (c : Course) : Prop where
  /-- Rounding the start up does not wrap, if the cursor is placed there. -/
  place : c.nextCheck = none → ∀ start ∈ (c.learnTip tip).startSlot,
    ((c.learnTip tip).cursor n tip).isSome → divCeil start n * n < u64Size
  /-- The jump stays in the window. -/
  jump : c.JumpFits n lagSlots tip

instance (n lagSlots tip : ℕ) (c : Course) : Decidable (c.JumpsInside n lagSlots tip) :=
  decidable_of_iff
    ((c.nextCheck = none → ∀ start ∈ (c.learnTip tip).startSlot,
      ((c.learnTip tip).cursor n tip).isSome → divCeil start n * n < u64Size) ∧
      c.JumpFits n lagSlots tip)
    ⟨fun h => ⟨h.1, h.2⟩, fun h => ⟨h.place, h.jump⟩⟩

/-- A cursor that moves on does not leave the range by more than a step: what it passes over and
what it hands out lies before the end. -/
lemma Advances.le_endSlot {next passed : ℕ} {r : Course × List SlotTask} (hn : 0 < n)
    (hadv : Advances n lagSlots tip next passed key (c.learnTip tip) r)
    (hcursor : (c.learnTip tip).cursor n tip = some next) (hfit : c.CountsFit n lagSlots tip)
    (hjump : c.JumpFits n lagSlots tip) :
    next + n * (passed + r.2.length) = next ∨
      next + n * (passed + r.2.length) ≤ c.endSlot tip + n := by
  have hcases := jump_cases hn hadv.jump (hfit.move next hcursor).jump
  cases hlen : r.2.length with
  | zero =>
    obtain ⟨hlt, -, heq⟩ | ⟨-, rfl⟩ := hcases
    · right
      rw [Nat.add_zero, ← heq]
      exact hjump next hcursor hlt
    · exact Or.inl rfl
  | succ k =>
    right
    have hdue := (hadv.due k (by omega)).1
    rw [endSlot_learnTip] at hdue
    rw [← Nat.add_assoc passed, Nat.mul_succ, Nat.mul_add]
    omega

/-- A window with a start has its opening tip. -/
lemma learnTip_of_startSlot {start : ℕ} (h : c.startSlot = some start) : c.learnTip slot = c := by
  obtain ⟨opened, hopened, -⟩ := Option.map_eq_some_iff.mp h
  unfold learnTip
  rw [hopened, if_neg (by simp)]

/-- Taking what is ready fills the opening tip, and moves neither the start nor the end. -/
lemma range_takeReady (n lagSlots tip : ℕ) (key : WindowKey) (c : Course) :
    (c.takeReady n lagSlots tip key).1.startSlot = (c.learnTip tip).startSlot ∧
      (∀ tip', (c.takeReady n lagSlots tip key).1.endSlot tip' = c.endSlot tip') ∧
      (c.takeReady n lagSlots tip key).1.delivered = c.delivered ∧
      (c.takeReady n lagSlots tip key).1.firstDeliveredSlot = c.firstDeliveredSlot := by
  have hdelivered : (c.learnTip tip).delivered = c.delivered := by
    unfold learnTip
    split <;> rfl
  have hmoved : (c.takeReady n lagSlots tip key).1.startSlot = (c.learnTip tip).startSlot ∧
      (∀ tip', (c.takeReady n lagSlots tip key).1.endSlot tip' = (c.learnTip tip).endSlot tip') ∧
      (c.takeReady n lagSlots tip key).1.delivered = (c.learnTip tip).delivered ∧
      (c.takeReady n lagSlots tip key).1.firstDeliveredSlot =
        (c.learnTip tip).firstDeliveredSlot := by
    unfold takeReady
    dsimp only
    generalize c.learnTip tip = d
    cases d.cursor n tip with
    | none => exact ⟨rfl, fun _ => rfl, rfl, rfl⟩
    | some next =>
      have hframe : (d.advance n lagSlots tip key next).1 = _ := frame_advance next d
      dsimp only
      generalize (d.advance n lagSlots tip key next).1 = e at hframe ⊢
      rw [hframe]
      exact ⟨rfl, fun _ => rfl, rfl, rfl⟩
  obtain ⟨hstart, hend, hcount, hfirst⟩ := hmoved
  exact ⟨hstart, fun tip' => (hend tip').trans (endSlot_learnTip tip tip' c),
    hcount.trans hdelivered, hfirst.trans (firstDeliveredSlot_learnTip tip c)⟩

/-- **A `take_ready` leaves the slots counted in the range.** -/
theorem SlotsInside.takeReady (h : c.SlotsInside n tip' placed) (hn : 0 < n) (htip : tip ≤ tip')
    (hplaced : c.nextCheck = none → placed = [])
    (hfit : c.CountsFit n lagSlots tip) (haligned : ∀ next ∈ c.nextCheck, n ∣ next)
    (hinside : c.JumpsInside n lagSlots tip) (key : WindowKey) :
    (c.takeReady n lagSlots tip key).1.SlotsInside n tip' (placed ++ c.placement n tip) := by
  obtain ⟨hstart', hend', hdelivered, hfirst⟩ := c.range_takeReady n lagSlots tip key
  refine ⟨by rw [hdelivered, hfirst]; exact h.seen, ?_⟩
  rw [hstart', hend']
  cases hcursor : (c.learnTip tip).cursor n tip with
  | none =>
    -- the cursor is not placed yet, as there is no start or it is not settled
    intro next hnext
    rw [takeReady_of_cursor_none hcursor, nextCheck_learnTip] at hnext
    obtain ⟨start, hstart, -⟩ := h.cursor next hnext
    rw [learnTip_of_startSlot hstart] at hcursor
    unfold Course.cursor at hcursor
    rw [Option.mem_def.mp hnext, Option.mem_def.mp hstart,
      if_neg fun hand => Option.some_ne_none next hand.1] at hcursor
    cases hcursor
  | some next =>
    obtain ⟨-, passed, hadv⟩ := c.advances_takeReady hn hfit haligned hcursor key
    have hend := hadv.le_endSlot hn hcursor hfit hinside.jump
    have hlater : c.endSlot tip ≤ c.endSlot tip' := endSlot_mono htip
    have hstart : ∃ start, (c.learnTip tip).startSlot = some start ∧
        next = c.nextCheck.getD (roundUp n start) := by
      unfold Course.cursor at hcursor
      split at hcursor
      · cases hcursor
      · obtain ⟨start, hstart, rfl⟩ := Option.map_eq_some_iff.mp hcursor
        rw [nextCheck_learnTip]
        exact ⟨start, hstart, rfl⟩
    obtain ⟨start, hstart, hnext⟩ := hstart
    rw [hadv.nextCheck]
    intro cursor hc
    cases hc
    cases hcheck : c.nextCheck with
    | none =>
      -- the cursor is placed now
      have hplacement : c.placement n tip = [next] := by
        unfold placement
        rw [hcursor, if_pos hcheck]
        rfl
      have hrounds := hinside.place hcheck start hstart (by rw [hcursor]; rfl)
      rw [hcheck] at hnext
      rw [hplaced hcheck, hplacement]
      refine ⟨start, hstart, next, rfl, ?_, ?_, hend.imp_right fun hend => ?_⟩
      · rw [hnext]
        exact dvd_roundUp hrounds
      · rw [hnext]
        exact le_roundUp hn hrounds
      · omega
    | some next' =>
      -- it moves on from its place
      rw [hcheck] at hnext
      obtain rfl : next = next' := hnext
      obtain ⟨start', hold, initial, hinitial, hdvd, hfirst, hnear⟩ := h.cursor next hcheck
      have hplacement : c.placement n tip = [] := by
        unfold placement
        rw [if_neg]
        rw [hcheck]
        exact Option.some_ne_none next
      rw [hplacement, List.append_nil]
      refine ⟨start', ?_, initial, hinitial, hdvd, hfirst, ?_⟩
      · rw [learnTip_of_startSlot hold]
        exact hold
      · rcases hend with hend | hend
        · rw [hend]
          exact hnear
        · right
          omega

end Range

end Course

/-! ### What the checker does to the ranges -/

/-- A window has the cursor and the range that it had before, or is gone. -/
def KeepsRange (key : WindowKey) (a a' : FilterAudit) : Prop :=
  ∀ c' ∈ a'.course key, ∃ c ∈ a.course key, Course.SameRange c c'

namespace KeepsRange

variable {key : WindowKey} {a a' a'' : FilterAudit}

theorem refl (key : WindowKey) (a : FilterAudit) : KeepsRange key a a := fun c hc =>
  ⟨c, hc, Course.SameRange.refl c⟩

theorem trans (h : KeepsRange key a a') (h' : KeepsRange key a' a'') :
    KeepsRange key a a'' := by
  intro c'' hc''
  obtain ⟨c', hc', heq'⟩ := h' c'' hc''
  obtain ⟨c, hc, heq⟩ := h c' hc'
  exact ⟨c, hc, heq.trans heq'⟩

/-- An update of a course keeps its range if it keeps that of all courses. -/
theorem of_update {key' : WindowKey} {g : Course → Course}
    (hcourse : a'.course key = if key = key' then (a.course key').map g else a.course key)
    (hg : ∀ c, Course.SameRange c (g c)) : KeepsRange key a a' := by
  intro c' hc'
  rw [hcourse] at hc'
  split at hc'
  next heq =>
    obtain ⟨c, hc, rfl⟩ := Option.mem_map.mp hc'
    exact ⟨c, heq ▸ hc, hg c⟩
  next => exact ⟨c', hc', Course.SameRange.refl c'⟩

/-- Several calls keep the range if each of them does. -/
theorem foldl {f : FilterAudit → SlotTask → FilterAudit}
    (hf : ∀ a t, KeepsRange key a (f a t)) (ts : List SlotTask) (a : FilterAudit) :
    KeepsRange key a (ts.foldl f a) := by
  induction ts generalizing a with
  | nil => exact refl key a
  | cons t ts ih => exact (hf a t).trans (ih (f a t))

/-- The removal of windows keeps the range of those that stay. -/
lemma of_filter {p : Course → Bool} (hcourse : a'.course key = (a.course key).filter p) :
    KeepsRange key a a' := by
  intro c' hc'
  rw [hcourse] at hc'
  exact ⟨c', (Option.filter_eq_some_iff.mp hc').1, Course.SameRange.refl c'⟩

end KeepsRange

lemma keepsRange_compare (base58 : List UInt8 → String) (key : WindowKey) (fetched : Fetched)
    (a : FilterAudit) (task : SlotTask) : KeepsRange key a (a.compare base58 task fetched) :=
  KeepsRange.of_update (FilterAudit.course_compare base58 task fetched a key)
    (Course.sameRange_settle _)

lemma keepsRange_unchecked (key : WindowKey) (a : FilterAudit) (task : SlotTask) :
    KeepsRange key a (a.unchecked task) :=
  KeepsRange.of_update (FilterAudit.course_unchecked task a key) (Course.sameRange_settle _)

/-- A window is emitted with the cursor and the range that it had. -/
lemma exists_of_mem_emittedAt {key : WindowKey} {a : FilterAudit} {call : AuditCall} {c : Course}
    (hc : c ∈ ((a.emits call).map CheckEvent.emitted).filterMap (CheckEvent.emittedAt key)) :
    ∃ c' ∈ a.course key, c'.SameRange c := by
  obtain ⟨event, hevent, hat⟩ := List.mem_filterMap.mp hc
  obtain ⟨e, he, rfl⟩ := List.mem_map.mp hevent
  obtain ⟨w, hw, hwindow⟩ := FilterAudit.exists_of_mem_emits he
  unfold CheckEvent.emittedAt at hat
  dsimp only at hat
  split at hat
  next hkey =>
    cases hat
    rw [hwindow]
    refine ⟨w.toCourse, ?_, rfl, rfl, fun _ => rfl, rfl, rfl⟩
    unfold FilterAudit.course
    rw [← hkey, hw]
    rfl
  next => cases hat

/-- What a step reports of the range of a window: nothing about the place of the cursor, and what is
emitted has the cursor and the range from before. -/
structure Quiet (key : WindowKey) (a : FilterAudit) (events : List CheckEvent) : Prop where
  /-- The cursor is not placed. -/
  placed : events.filterMap (CheckEvent.placedAt key) = []
  /-- What is emitted has the range from before. -/
  emitted : ∀ c ∈ events.filterMap (CheckEvent.emittedAt key),
    ∃ c' ∈ a.course key, c'.SameRange c

/-- Settled tasks report nothing of the range. -/
lemma quiet_settled (key : WindowKey) (a : FilterAudit) (ts : List SlotTask) :
    Quiet key a (ts.map .settled) := by
  have hnone : ∀ {α : Type} (f : CheckEvent → Option α), (∀ t, f (.settled t) = none) →
      (ts.map CheckEvent.settled).filterMap f = [] := by
    intro α f hf
    rw [List.filterMap_eq_nil_iff]
    intro e he
    obtain ⟨t, -, rfl⟩ := List.mem_map.mp he
    exact hf t
  refine ⟨hnone _ fun _ => rfl, fun c hc => ?_⟩
  rw [hnone _ fun _ => rfl] at hc
  cases hc

/-- No event reports nothing. -/
lemma quiet_nil (key : WindowKey) (a : FilterAudit) : Quiet key a [] := quiet_settled key a []

namespace Worker

/-- A slot that has its turn leaves the ranges alone. -/
lemma keepsRange_attempt (base58 : List UInt8 → String) (key : WindowKey) (slot : ℕ)
    (ts : List SlotTask) (r : Readings) (w : Worker) :
    KeepsRange key w.audit (w.attempt base58 slot ts r).1.audit ∧
      Quiet key w.audit (w.attempt base58 slot ts r).2 := by
  have haudit := (fetch_frame slot r w).1
  unfold attempt
  dsimp only
  split
  · refine ⟨?_, quiet_settled key _ ts⟩
    unfold compareAll
    dsimp only
    rw [haudit]
    exact KeepsRange.foldl (keepsRange_compare base58 key _) ts w.audit
  · split
    · refine ⟨?_, quiet_nil key _⟩
      unfold putBack
      dsimp only
      rw [haudit]
      exact KeepsRange.refl key w.audit
    · refine ⟨?_, quiet_settled key _ ts⟩
      unfold uncheckAll
      dsimp only
      rw [haudit]
      exact KeepsRange.foldl (keepsRange_unchecked key) ts w.audit

end Worker

/-- A step of the checker but for taking what is ready: it settles tasks and emits windows. -/
def FilterStep.Settles : FilterStep → Prop
  | .handleGroup _ | .endTick _ _ _ | .shutdown => True
  | _ => False

namespace FilterSystem

variable {base58 : List UInt8 → String} {n : ℕ} {s : FilterSystem} {log : List CheckEvent}
  {key : WindowKey} {tip : ℕ}

/-- **The checker leaves the cursors and the ranges alone**, but for taking what is ready. -/
theorem keepsRange_step {step : FilterStep} (hsettles : step.Settles) (key : WindowKey) :
    KeepsRange key s.worker.audit (s.step base58 step).1.worker.audit ∧
      Quiet key s.worker.audit (s.step base58 step).2 := by
  cases step with
  | connect | subscribed | onDelivery | close | beginTick => exact hsettles.elim
  | handleGroup readings =>
    unfold FilterSystem.step withWorker Worker.handleGroup
    dsimp only
    split
    · split
      · exact Worker.keepsRange_attempt base58 key _ _ readings _
      · split
        · exact ⟨KeepsRange.refl key _, quiet_nil key _⟩
        · exact Worker.keepsRange_attempt base58 key _ _ readings _
    · exact ⟨KeepsRange.refl key _, quiet_nil key _⟩
  | endTick tip floor now =>
    unfold FilterSystem.step withWorker Worker.endTick
    dsimp only
    split
    · have hcourse := FilterAudit.course_takeFinished (a := s.worker.audit.drainViolations.1) tip
        floor now giveUpSecs key
      rw [FilterAudit.course_drainViolations] at hcourse
      refine ⟨KeepsRange.of_filter hcourse, ?_, fun c hc => ?_⟩
      · rw [List.filterMap_map]
        exact List.filterMap_eq_nil_iff.mpr fun _ _ => rfl
      · rw [← FilterAudit.course_drainViolations]
        exact @exists_of_mem_emittedAt key _ (.takeFinished tip floor now giveUpSecs) c hc
    · exact ⟨KeepsRange.refl key _, quiet_nil key _⟩
  | shutdown =>
    unfold FilterSystem.step withWorker Worker.shutdown
    dsimp only
    split
    -- what waits to be tried again is given up before the windows are taken
    · have hgiven : KeepsRange key s.worker.audit
          ((s.worker.retries.map Retry.task).foldl (fun a t => a.unchecked t) s.worker.audit) :=
        KeepsRange.foldl (keepsRange_unchecked key) _ _
      refine ⟨fun c hc => ?_, ?_, fun c hc => ?_⟩
      · have hnone : c ∈ (none : Option Course) := by
          rw [← FilterAudit.course_takeAll]
          exact hc
        cases hnone
      · rw [List.filterMap_append, (quiet_settled key s.worker.audit _).placed,
          List.filterMap_map]
        exact List.filterMap_eq_nil_iff.mpr fun _ _ => rfl
      · rw [List.filterMap_append] at hc
        rcases List.mem_append.mp hc with hc | hc
        · exact (quiet_settled key s.worker.audit _).emitted c hc
        · obtain ⟨c', hc', heq⟩ := @exists_of_mem_emittedAt key _ .takeAll c hc
          rw [FilterAudit.course_drainViolations] at hc'
          obtain ⟨c'', hc'', heq'⟩ := hgiven c' hc'
          exact ⟨c'', hc'', heq'.trans heq⟩
    · exact ⟨KeepsRange.refl key _, quiet_nil key _⟩

/-! ### Runs -/

/-- The condition on a step under which windows count their own slots only: no count wraps, the
calls of the sources do not move the start or the end of a window into the slots that it has taken,
and all jumps stay in their windows. -/
def Inside (s : FilterSystem) (step : FilterStep) : Prop :=
  s.Exact step ∧
    match step with
    | .subscribed key tip =>
      ∀ c ∈ s.worker.audit.course key, c.SubscribesInside s.worker.audit.sampleEvery tip
    | .onDelivery key slot _ _ _ => ∀ c ∈ s.worker.audit.course key, c.DeliversInside slot
    | .close key tip _ _ =>
      ∀ c ∈ s.worker.audit.course key, c.ClosesInside s.worker.audit.sampleEvery tip
    | .beginTick tip _ =>
      s.worker.phase.isIdle = true → ∀ e ∈ s.worker.audit.windows.entries,
        e.2.toCourse.JumpsInside s.worker.audit.sampleEvery s.worker.lagSlots tip
    | _ => True

instance (s : FilterSystem) (step : FilterStep) : Decidable (s.Inside step) :=
  match step with
  | .beginTick tip now =>
    inferInstanceAs (Decidable (s.Exact (.beginTick tip now) ∧
      (s.worker.phase.isIdle = true → ∀ e ∈ s.worker.audit.windows.entries,
        e.2.toCourse.JumpsInside s.worker.audit.sampleEvery s.worker.lagSlots tip)))
  | .connect sid info => inferInstanceAs (Decidable (s.Exact (.connect sid info) ∧ True))
  | .subscribed key tip =>
    inferInstanceAs (Decidable (True ∧
      ∀ c ∈ s.worker.audit.course key, c.SubscribesInside s.worker.audit.sampleEvery tip))
  | .onDelivery key slot _ _ _ =>
    inferInstanceAs (Decidable (True ∧
      ∀ c ∈ s.worker.audit.course key, c.DeliversInside slot))
  | .close key tip _ _ =>
    inferInstanceAs (Decidable (True ∧
      ∀ c ∈ s.worker.audit.course key, c.ClosesInside s.worker.audit.sampleEvery tip))
  | .handleGroup _ | .endTick _ _ _ | .shutdown => isTrue ⟨trivial, trivial⟩

/-- A run of steps that all meet the condition. -/
def InsideRun (base58 : List UInt8 → String) : FilterSystem → List FilterStep → Prop
  | _, [] => True
  | s, step :: steps => s.Inside step ∧ InsideRun base58 (s.step base58 step).1 steps

instance decidableInsideRun (base58 : List UInt8 → String) (s : FilterSystem) :
    (steps : List FilterStep) → Decidable (s.InsideRun base58 steps)
  | [] => isTrue trivial
  | step :: steps =>
    have := decidableInsideRun base58 (s.step base58 step).1 steps
    inferInstanceAs (Decidable (_ ∧ _))

/-- What a window has counted lies in its range, as long as it is there and when it is emitted. -/
structure Within (n tip : ℕ) (key : WindowKey) (s : FilterSystem) (log : List CheckEvent) :
    Prop where
  /-- The window that is there. -/
  there : ∀ c ∈ s.worker.audit.course key, c.SlotsInside n tip (placements key log)
  /-- The windows emitted. -/
  emitted : ∀ c ∈ log.filterMap (CheckEvent.emittedAt key),
    c.SlotsInside n tip (placements key log)

/-- A step that leaves the cursors and the ranges alone keeps what is counted in them. -/
lemma Within.of_keeps {s' : FilterSystem} {events : List CheckEvent}
    (h : s.Within n tip key log) (hkeeps : KeepsRange key s.worker.audit s'.worker.audit)
    (hquiet : Quiet key s.worker.audit events) : s'.Within n tip key (log ++ events) := by
  have hplaced : placements key (log ++ events) = placements key log := by
    unfold placements
    rw [List.filterMap_append, hquiet.placed, List.append_nil]
  refine ⟨fun c' hc' => ?_, fun c' hc' => ?_⟩
  · obtain ⟨c, hc, hsame⟩ := hkeeps c' hc'
    rw [hplaced]
    exact (h.there c hc).of_sameRange hsame
  · rw [hplaced]
    rw [List.filterMap_append] at hc'
    rcases List.mem_append.mp hc' with hc' | hc'
    · exact h.emitted c' hc'
    · obtain ⟨c, hc, hsame⟩ := hquiet.emitted c' hc'
      exact (h.there c hc).of_sameRange hsame

/-- The books of a window that is there account for the slots that its cursor left behind. -/
lemma Balanced.countsAll (h : s.Balanced n log) {c : Course}
    (hc : s.worker.audit.course key = some c) :
    Account.CountsAll n (placements key log) c.ledger.finished :=
  ((h.balanced key).ledger c.ledger (Option.map_eq_some_iff.mpr ⟨c, hc, rfl⟩)).counts

/-- A call of a source keeps what is counted in the ranges, if it does so on the window that it
concerns. -/
lemma Within.of_call (h : s.Within n tip key log) (hbalanced : s.Balanced n log)
    {f : FilterAudit → FilterAudit} {key' : WindowKey} {g : Course → Course}
    (hcourse : (f s.worker.audit).course key =
      if key = key' then (s.worker.audit.course key').map g else s.worker.audit.course key)
    (hg : ∀ c ∈ s.worker.audit.course key', ∀ placed, c.SlotsInside n tip placed →
      Account.CountsAll n placed c.ledger.finished → (g c).SlotsInside n tip placed) :
    (s.withAudit f).Within n tip key (log ++ []) := by
  rw [List.append_nil]
  refine ⟨fun c' hc' => ?_, h.emitted⟩
  have hc' : c' ∈ (f s.worker.audit).course key := hc'
  rw [hcourse] at hc'
  split at hc'
  next heq =>
    subst heq
    obtain ⟨c, hc, rfl⟩ := Option.map_eq_some_iff.mp hc'
    exact hg c hc _ (h.there c hc) (hbalanced.countsAll hc)
  next => exact h.there c' hc'

/-- What a tick reports of the place of the cursor of a window. -/
lemma placements_beginTick (tip now : ℕ) (hidle : s.worker.phase.isIdle = true) :
    placements key (s.step base58 (.beginTick tip now)).2 =
      (s.worker.audit.course key).elim [] (Course.placement s.worker.audit.sampleEvery tip) ∧
    (s.step base58 (.beginTick tip now)).2.filterMap (CheckEvent.emittedAt key) = [] ∧
    (s.step base58 (.beginTick tip now)).1.worker.audit =
      (s.worker.audit.takeReady s.worker.lagSlots tip).1 := by
  have hphase : s.worker.phase = .idle := by
    cases hphase : s.worker.phase with
    | idle => rfl
    | ticking calls groups =>
      rw [hphase] at hidle
      cases hidle
    | stopped =>
      rw [hphase] at hidle
      cases hidle
  unfold placements FilterSystem.step withWorker Worker.beginTick
  dsimp only
  rw [hphase]
  refine ⟨?_, ?_, rfl⟩
  · rw [← filter_placements, List.filterMap_append, List.filterMap_map, List.filterMap_map,
      ← filterMap_ite_eq_map_filter]
    simp only [Function.comp_def, CheckEvent.placedAt, List.filterMap_none, List.append_nil]
  · rw [List.filterMap_append, List.filterMap_map, List.filterMap_map]
    simp only [Function.comp_def, CheckEvent.emittedAt, List.filterMap_none, List.append_nil]

/-- A tick keeps what is counted in the ranges. -/
theorem Within.beginTick (h : s.Within n tip key log) (hn : 0 < n)
    (hbalanced : s.Balanced n log) {read now : ℕ} (hread : read ≤ tip)
    (hstep : s.Inside (.beginTick read now)) :
    (s.step base58 (.beginTick read now)).1.Within n tip key
      (log ++ (s.step base58 (.beginTick read now)).2) := by
  obtain ⟨hexact, hinside⟩ := hstep
  by_cases hidle : s.worker.phase.isIdle = true
  · obtain ⟨hplaced, hemitted, haudit⟩ :
        placements key (s.step base58 (.beginTick read now)).2 =
            (s.worker.audit.course key).elim []
              (Course.placement s.worker.audit.sampleEvery read) ∧
          (s.step base58 (.beginTick read now)).2.filterMap (CheckEvent.emittedAt key) = [] ∧
          (s.step base58 (.beginTick read now)).1.worker.audit =
            (s.worker.audit.takeReady s.worker.lagSlots read).1 :=
      placements_beginTick read now hidle
    have hplacements : placements key (log ++ (s.step base58 (.beginTick read now)).2) =
        placements key log ++ (s.worker.audit.course key).elim []
          (Course.placement s.worker.audit.sampleEvery read) := by
      rw [← hplaced]
      exact List.filterMap_append
    rw [hbalanced.every] at hplacements
    -- a tick places the cursor of a window that is there, and emits none
    cases hcourse : s.worker.audit.course key with
    | none =>
      rw [hcourse] at hplacements
      rw [Option.elim_none, List.append_nil] at hplacements
      refine ⟨fun c' hc' => ?_, fun c' hc' => ?_⟩
      · rw [haudit, FilterAudit.course_takeReady, hcourse] at hc'
        cases hc'
      · rw [List.filterMap_append, hemitted, List.append_nil] at hc'
        rw [hplacements]
        exact h.emitted c' hc'
    | some c =>
      rw [hcourse] at hplacements
      rw [Option.elim_some] at hplacements
      have hledger : (s.worker.account key log).ledger = some c.ledger :=
        Option.map_eq_some_iff.mpr ⟨c, hcourse, rfl⟩
      have horder := (hbalanced.balanced key).ledger c.ledger hledger
      obtain ⟨w, hentry, rfl⟩ := FilterAudit.exists_entry_of_course hcourse
      have hfit := hexact hidle _ hentry
      have hjump := hinside hidle _ hentry
      rw [hbalanced.every] at hfit hjump
      refine ⟨fun c' hc' => ?_, fun c' hc' => ?_⟩
      · rw [haudit, FilterAudit.course_takeReady, hcourse, hbalanced.every] at hc'
        cases hc'
        rw [hplacements]
        refine (h.there w.toCourse hcourse).takeReady hn hread (fun hnone => ?_) hfit
          (fun next hnext => (horder.ahead next hnext).1) hjump key
        exact ((Account.countsAll_of_none hnone).mp horder.counts).1
      · -- a window that is there was not emitted
        have hnil : log.filterMap (CheckEvent.emittedAt key) = [] :=
          List.map_eq_nil_iff.mp ((hbalanced.balanced key).emitted_eq_nil hledger)
        rw [List.filterMap_append, hemitted, hnil] at hc'
        cases hc'
  · have hsame : s.step base58 (.beginTick read now) = (s, []) := by
      unfold FilterSystem.step withWorker Worker.beginTick
      dsimp only
      split
      next hphase =>
        rw [hphase] at hidle
        exact absurd rfl hidle
      next => rfl
    rw [hsame]
    exact h.of_keeps (KeepsRange.refl key _) (quiet_nil key _)

/-- A new connection opens a window without a cursor. -/
theorem Within.connect (h : s.Within n tip key log) (sid : ℕ) (info : WindowInfo) :
    (s.step base58 (.connect sid info)).1.Within n tip key
      (log ++ (s.step base58 (.connect sid info)).2) := by
  have hlog : log ++ (s.step base58 (.connect sid info)).2 = log := List.append_nil log
  have hcourse := FilterAudit.course_openWindow (a := s.worker.audit) (sid, s.connections sid)
    info key
  rw [hlog]
  refine ⟨fun c hc => ?_, h.emitted⟩
  have hopened : (s.step base58 (.connect sid info)).1.worker.audit.course key =
      if key = (sid, s.connections sid) then some (Course.new info)
      else s.worker.audit.course key := hcourse
  rw [hopened] at hc
  split at hc
  · cases hc
    exact Course.slotsInside_new info
  · exact h.there c hc

/-- **Every step that meets the condition keeps what is counted in the ranges**, as long as the tip
does not go past the one by which the ends are told. -/
theorem Within.step (h : s.Within n tip key log) (hn : 0 < n) (hbalanced : s.Balanced n log)
    {step : FilterStep} (hstep : s.Inside step)
    (hread : ∀ read now, step = .beginTick read now → read ≤ tip) :
    (s.step base58 step).1.Within n tip key (log ++ (s.step base58 step).2) := by
  have hsettled : ∀ step : FilterStep, step.Settles →
      (s.step base58 step).1.Within n tip key (log ++ (s.step base58 step).2) := by
    intro step hsettles
    have hkept : KeepsRange key s.worker.audit (s.step base58 step).1.worker.audit ∧
        Quiet key s.worker.audit (s.step base58 step).2 := keepsRange_step hsettles key
    exact h.of_keeps hkept.1 hkept.2
  cases step with
  | connect sid info => exact h.connect sid info
  | subscribed key' read =>
    refine h.of_call hbalanced (FilterAudit.course_subscribed key' read key) ?_
    intro c hc placed hinside hcounts
    have hcall := hstep.2 c hc
    rw [hbalanced.every] at hcall
    exact hinside.subscribe hcounts hcall
  | onDelivery key' slot tx tags serverIsVote =>
    refine h.of_call hbalanced
      (FilterAudit.course_onDelivery key' slot tx tags serverIsVote key) ?_
    intro c hc placed hinside hcounts
    exact hinside.deliver hcounts (hstep.2 c hc) _ _ tx _
  | close key' read now reason =>
    refine h.of_call hbalanced (FilterAudit.course_close key' read now reason key) ?_
    intro c hc placed hinside hcounts
    have hcall := hstep.2 c hc
    rw [hbalanced.every] at hcall
    exact hinside.close hcounts hcall now reason
  | beginTick read now => exact h.beginTick hn hbalanced (hread read now rfl) hstep
  | handleGroup readings => exact hsettled _ trivial
  | endTick read floor now => exact hsettled _ trivial
  | shutdown => exact hsettled _ trivial

/-- In such a run no count wraps. -/
lemma InsideRun.exactRun {steps : List FilterStep} (hrun : s.InsideRun base58 steps) :
    s.ExactRun base58 steps := by
  induction steps generalizing s with
  | nil => trivial
  | cons step steps ih => exact ⟨hrun.1.1, ih hrun.2⟩

/-- Along a run of steps that meet the condition what is counted stays in the ranges. -/
theorem Within.run (h : s.Within n tip key log) (hn : 0 < n) (hbalanced : s.Balanced n log)
    {steps : List FilterStep} (hrun : s.InsideRun base58 steps)
    (hread : ∀ read now, FilterStep.beginTick read now ∈ steps → read ≤ tip) :
    (Machine.finalState (FilterSystem.step base58) s steps).Within n tip key
      (log ++ (Machine.outputs (FilterSystem.step base58) s steps).flatten) := by
  induction steps generalizing s log with
  | nil =>
    rw [Machine.outputs_nil, List.flatten_nil, List.append_nil]
    exact h
  | cons step steps ih =>
    rw [Machine.outputs_cons, List.flatten_cons, ← List.append_assoc, Machine.finalState_cons]
    refine ih (h.step hn hbalanced hrun.1 fun read now heq => ?_)
      (hbalanced.step hn hrun.1.1) hrun.2 fun read now hmem => ?_
    · exact hread read now (heq ▸ List.mem_cons_self)
    · exact hread read now (List.mem_cons_of_mem step hmem)

/-- Every jump in a run of steps that meet the condition stays in its window. -/
lemma InsideRun.blamesInside {before after : List FilterStep} {tip now : ℕ} (hn : 0 < n)
    (hbalanced : s.Balanced n log)
    (hrun : s.InsideRun base58 (before ++ .beginTick tip now :: after)) :
    let s' := Machine.finalState (FilterSystem.step base58) s before
    s'.worker.phase.isIdle = true → ∀ c ∈ s'.worker.audit.course key,
      c.BlamesInside n s'.worker.lagSlots tip key := by
  induction before generalizing s log with
  | nil =>
    intro s' hidle c hc
    obtain ⟨hexact, hinside⟩ := hrun.1
    obtain ⟨w, hentry, rfl⟩ := FilterAudit.exists_entry_of_course hc
    have hledger : (s.worker.account key log).ledger = some w.toCourse.ledger := by
      unfold Worker.account Audit.account
      exact Option.map_eq_some_iff.mpr ⟨w.toCourse, hc, rfl⟩
    have horder := (hbalanced.balanced key).ledger _ hledger
    have hfit := hexact hidle _ hentry
    have hjump := hinside hidle _ hentry
    rw [hbalanced.every] at hfit hjump
    exact (Course.blamesInside_iff hn hfit (fun next hnext => (horder.ahead next hnext).1) key).mpr
      hjump.jump
  | cons step before ih => exact ih (hbalanced.step hn hrun.1.1) hrun.2

/-- A window counts no more slots than there are sampled ones from its start to its end, given the
events so far. -/
structure CountsInside (n tip : ℕ) (key : WindowKey) (s : FilterSystem) (log : List CheckEvent) :
    Prop where
  /-- As long as the window is there, what is in flight included. -/
  there : ∀ c ∈ s.worker.audit.course key,
    c.slotsChecked + c.slotsSkipped + c.slotsUnchecked + c.inFlight ≤ c.sampledSlots n tip
  /-- When it is emitted. -/
  emitted : ∀ c ∈ log.filterMap (CheckEvent.emittedAt key),
    c.slotsChecked + c.slotsSkipped + c.slotsUnchecked ≤ c.sampledSlots n tip

/-- Books that balance, with what is counted in the ranges, count sampled slots of the window. -/
lemma Within.countsInside (h : s.Within n tip key log) (hn : 0 < n)
    (hbalanced : s.Balanced n log) : CountsInside n tip key s log := by
  refine ⟨fun c hc => ?_, fun c hc => ?_⟩
  · have hle := (h.there c hc).counted_le (l := c.ledger.finished) hn rfl (hbalanced.countsAll hc)
    rw [Account.counted_finished] at hle
    exact hle
  · exact (h.emitted c hc).counted_le (l := c.ledger) hn rfl
      ((hbalanced.balanced key).emitted c.ledger (List.mem_map_of_mem hc))

/-- **No window is blamed for slots outside it**, in every run of the checker and its sources in
which no count wraps, no jump goes more than a step past the end of its window, and no call of a
source moves the start or the end of a window into the slots that it has taken: each slot that a
jump adds to the unchecked ones is a sampled slot of the window, and a window, there or emitted,
never counts more slots than there are sampled ones from its start to its end, at the tip of the
last tick or any later one. -/
theorem jumps_blame_inside {base58 : List UInt8 → String} {n : ℕ} (hn : 0 < n) (skipVotes : Bool)
    (lagSlots : ℕ) {steps : List FilterStep}
    (hrun : (new n hn skipVotes lagSlots).InsideRun base58 steps) (key : WindowKey) :
    (∀ before tip now after, steps = before ++ .beginTick tip now :: after →
      let s := Machine.finalState (FilterSystem.step base58) (new n hn skipVotes lagSlots) before
      s.worker.phase.isIdle = true → ∀ c ∈ s.worker.audit.course key,
        c.BlamesInside n s.worker.lagSlots tip key) ∧
      ∀ tip, (∀ read now, FilterStep.beginTick read now ∈ steps → read ≤ tip) →
        CountsInside n tip key
          (Machine.finalState (FilterSystem.step base58) (new n hn skipVotes lagSlots) steps)
          (Machine.outputs (FilterSystem.step base58) (new n hn skipVotes lagSlots)
            steps).flatten := by
  have hstart := balanced_new n hn skipVotes lagSlots
  constructor
  · intro before tip now after hsplit
    rw [hsplit] at hrun
    exact hrun.blamesInside hn hstart
  · intro tip hread
    have hwithin : (new n hn skipVotes lagSlots).Within n tip key [] := by
      refine ⟨fun c hc => ?_, fun c hc => by cases hc⟩
      have hnone : c ∈ (none : Option Course) := by
        rw [← FilterAudit.course_new n hn skipVotes key]
        exact hc
      cases hnone
    have hexact : (new n hn skipVotes lagSlots).ExactRun base58 steps := hrun.exactRun
    exact (hwithin.run hn hstart hrun hread).countsInside hn (hstart.run hn hexact)

/-- A window stays open, and is delivered to, while the tip moves far ahead. -/
def farTipSteps : List FilterStep :=
  [.connect 0 ⟨"g", .grpcDeshred, none, Bundle.all⟩, .subscribed (0, 0) 1000,
    .onDelivery (0, 0) 1001 (plainTx 1) [] none, .onDelivery (0, 0) 2500 (plainTx 2) [] none,
    .beginTick 3000 0]

/-- The cursor of the window jumps over 136 slots and hands out 13: together they are the sampled
slots of the window. -/
theorem jumps_blame_inside_farTip :
    let s := Machine.finalState (FilterSystem.step fun _ => "") (new 10 (by decide) false 32)
      farTipSteps
    (s.worker.audit.course (0, 0)).map (fun c =>
        (c.slotsUnchecked, c.inFlight, c.sampledSlots 10 3000)) = some (136, 13, 149) ∧
      CountsInside 10 3000 (0, 0) s
        (Machine.outputs (FilterSystem.step fun _ => "") (new 10 (by decide) false 32)
          farTipSteps).flatten := by
  have hrun : (new 10 (by decide) false 32).InsideRun (fun _ => "") farTipSteps := by
    decide
  refine ⟨by decide +kernel, (jumps_blame_inside (by decide) false 32 hrun (0, 0)).2 3000 ?_⟩
  intro read now hmem
  simp only [farTipSteps, List.mem_cons, List.not_mem_nil, or_false, reduceCtorEq, false_or,
    FilterStep.beginTick.injEq] at hmem
  exact hmem.1.le

/-- A window is closed at tip 1062, before any of its slots were checked. -/
def rotatedSteps : List FilterStep :=
  [.connect 0 ⟨"g", .grpcDeshred, none, Bundle.all⟩, .subscribed (0, 0) 1000,
    .close (0, 0) 1062 0 "rotated"]

/-- A jump at tip 3000 counts slots outside of this window: of the slots that it adds, those from
1060 to 2360 lie behind the end, and the window counts more slots than it has. -/
theorem not_blameInside_rotated :
    let s := Machine.finalState (FilterSystem.step fun _ => "") (new 10 (by decide) false 32)
      rotatedSteps
    (¬ ∀ c ∈ s.worker.audit.course (0, 0), c.BlamesInside 10 32 3000 (0, 0)) ∧
      ∃ c ∈ (s.step (fun _ => "") (.beginTick 3000 0)).1.worker.audit.course (0, 0),
        c.sampledSlots 10 3000 < c.slotsChecked + c.slotsSkipped + c.slotsUnchecked := by
  constructor
  · intro h
    have hslot := ((h _ rfl).inside 2360 (by decide)).2.2
    exact absurd hslot (by decide)
  · exact ⟨_, rfl, by decide⟩

/-- Nothing is delivered to a window until tip 1100, when six of its slots are handed out; the first
delivery then moves its start past them, and past its end. -/
example : ((Machine.finalState (FilterSystem.step fun _ => "") (new 10 (by decide) false 32)
    [.connect 0 ⟨"g", .grpcDeshred, none, Bundle.all⟩, .subscribed (0, 0) 1000, .beginTick 1100 0,
      .onDelivery (0, 0) 1090 (plainTx 1) [] none]).worker.audit.course (0, 0)).map
    (fun c => (c.taken, c.sampledSlots 10 1100)) = some (6, 0) := by
  decide

end FilterSystem

end ShredTools.Audit
