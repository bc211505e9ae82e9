import ShredTools.Audit.FilterHandOut
import ShredTools.Library.WordArithmetic

/-!
# The slots of a window, with checked arithmetic

A debug build stops where a sum, a difference or a product of slots is no number of 64 bits, and a
release build wraps.  The functions here are those of a window again, with each operation that the
source does in the order in which it does them; `none` is where a debug build stops.  As long as
they do not stop they agree with the wrapping ones, the cursor only moves up, and whatever is handed
out lies at or above the cursor.
-/

namespace ShredTools.Audit

open CheckedWords

namespace Course

/-! ### The operations -/

/-- `Window::start_slot`, checked. -/
def startSlotChecked (c : Course) : Option (Option ℕ) :=
  match c.tipOpen with
  | none => some none
  | some tip => (plus u64Size (max tip (c.firstDeliveredSlot.getD 0)) startMargin).map some

/-- `Window::start_known`, checked: the sum is only made if there is neither a delivery nor an
end. -/
def startKnownChecked (tip : ℕ) (c : Course) : Option Bool :=
  if c.firstDeliveredSlot.isSome ∨ c.endedAt.isSome then some true
  else
    match c.tipOpen with
    | none => some false
    | some t => (plus u64Size t startWithoutDeliverySlots).map fun limit => decide (limit ≤ tip)

/-- `w.next_check.is_none() && !w.start_known(tip)`, the other way round and checked. -/
def startSettledChecked (tip : ℕ) (c : Course) : Option Bool :=
  if c.nextCheck = none then c.startKnownChecked tip else some true

/-- `div_ceil` and the product with the divisor, checked. -/
def roundUpChecked (n x : ℕ) : Option ℕ := times u64Size (divCeil x n) n

section TakeReady

variable (sampleEvery lagSlots tip : ℕ) (key : WindowKey)

/-- The part of `take_ready` that pulls a cursor forward, checked. -/
def catchUpChecked (next : ℕ) (c : Course) : Option (ℕ × Course) := do
  let lag ← plus u64Size lagSlots maxCursorLagSlots
  let floor := tip - lag
  if next < floor then
    let jumped ← roundUpChecked sampleEvery floor
    let passed ← minus jumped next
    return (jumped, { c with slotsUnchecked := c.slotsUnchecked + passed / sampleEvery })
  else return (next, c)

/-- The loop of `take_ready`, checked.  The sum with the lag is made before the room is looked
at. -/
def handOutChecked (last : ℕ) : ℕ → ℕ → Course → Option (ℕ × Course × List SlotTask)
  | 0, next, c =>
    if next ≤ last then (plus u64Size next lagSlots).map fun _ => (next, c, [])
    else some (next, c, [])
  | room + 1, next, c =>
    if next ≤ last then do
      let due ← plus u64Size next lagSlots
      if due ≤ tip then
        let moved ← plus u64Size next sampleEvery
        let rest ← handOutChecked last room moved (c.handOne next)
        return (rest.1, rest.2.1, c.taskFor key next :: rest.2.2)
      else return (next, c, [])
    else some (next, c, [])

/-- `take_ready` from the place of the cursor on, checked. -/
def advanceChecked (next : ℕ) (c : Course) : Option (Course × List SlotTask) := do
  let last := c.endSlot tip
  let caught ← c.catchUpChecked sampleEvery lagSlots tip next
  let handed ←
    handOutChecked sampleEvery lagSlots tip key last maxTasksPerWindow caught.1 caught.2
  return (handed.2.1.moveCursor handed.1, handed.2.2)

/-- `FilterAudit::take_ready` on one window, checked.  The start is rounded up also if there is a
cursor already. -/
def takeReadyChecked (c : Course) : Option (Course × List SlotTask) := do
  let c := c.learnTip tip
  let settled ← c.startSettledChecked tip
  if settled then
    match ← c.startSlotChecked with
    | none => return (c, [])
    | some start =>
      let placed ← roundUpChecked sampleEvery start
      c.advanceChecked sampleEvery lagSlots tip key (c.nextCheck.getD placed)
  else return (c, [])

end TakeReady

/-! ### What does not stop does not wrap -/

section Agreement

variable {n lagSlots tip last room next : ℕ} {key : WindowKey} {c : Course}

lemma startSlot_of_checked {start : Option ℕ} (h : c.startSlotChecked = some start) :
    c.startSlot = start := by
  unfold startSlotChecked at h
  unfold startSlot
  cases htip : c.tipOpen with
  | none =>
    rw [htip] at h
    exact Option.some.inj h
  | some tip =>
    rw [htip] at h
    obtain ⟨sum, hsum, rfl⟩ := Option.map_eq_some_iff.mp h
    obtain ⟨hfits, rfl⟩ := plus_eq_some_iff.mp hsum
    rw [Option.map_some, Nat.mod_eq_of_lt hfits]

lemma startKnown_of_checked {known : Bool} (h : c.startKnownChecked tip = some known) :
    c.startKnown tip ↔ known = true := by
  unfold startKnownChecked at h
  unfold startKnown
  by_cases hseen : c.firstDeliveredSlot.isSome ∨ c.endedAt.isSome
  · rw [if_pos hseen] at h
    rw [← or_assoc]
    exact iff_of_true (.inl hseen) (Option.some.inj h).symm
  · rw [if_neg hseen] at h
    rw [← or_assoc, or_iff_right hseen]
    cases htip : c.tipOpen with
    | none =>
      rw [htip] at h
      simp [← Option.some.inj h]
    | some t =>
      rw [htip] at h
      obtain ⟨sum, hsum, rfl⟩ := Option.map_eq_some_iff.mp h
      obtain ⟨hfits, rfl⟩ := plus_eq_some_iff.mp hsum
      simp [Nat.mod_eq_of_lt hfits]

lemma startSettled_of_checked {settled : Bool} (h : c.startSettledChecked tip = some settled) :
    ¬ (c.nextCheck = none ∧ ¬ c.startKnown tip) ↔ settled = true := by
  unfold startSettledChecked at h
  by_cases hnone : c.nextCheck = none
  · rw [if_pos hnone] at h
    rw [← startKnown_of_checked h, not_and, not_not]
    exact forall_prop_of_true hnone
  · rw [if_neg hnone] at h
    exact iff_of_true (fun hand => hnone hand.1) (Option.some.inj h).symm

lemma roundUp_of_checked {x rounded : ℕ} (h : roundUpChecked n x = some rounded) :
    roundUp n x = rounded ∧ divCeil x n * n < u64Size := by
  obtain ⟨hfits, rfl⟩ := times_eq_some_iff.mp h
  exact ⟨Nat.mod_eq_of_lt hfits, hfits⟩

/-- The cursor jumps as with wrapping numbers, and to no slot below it. -/
lemma catchUp_of_checked (hn : 0 < n) (hdvd : n ∣ next) {r : ℕ × Course}
    (h : c.catchUpChecked n lagSlots tip next = some r) :
    c.catchUp n lagSlots tip next = r ∧ next ≤ r.1 ∧ n ∣ r.1 := by
  unfold catchUpChecked at h
  simp only [Option.bind_eq_bind, Option.bind_eq_some_iff] at h
  obtain ⟨lag, hlag, h⟩ := h
  obtain ⟨hfits, rfl⟩ := plus_eq_some_iff.mp hlag
  have hfloor : floorSlot lagSlots tip = tip - (lagSlots + maxCursorLagSlots) := by
    rw [floorSlot, Nat.mod_eq_of_lt hfits]
  rw [← hfloor] at h
  unfold catchUp
  by_cases hlt : next < floorSlot lagSlots tip
  · rw [if_pos hlt] at h
    rw [if_pos hlt]
    simp only [Option.bind_eq_some_iff] at h
    obtain ⟨jumped, hjumped, passed, hpassed, h⟩ := h
    obtain ⟨hround, hwhole⟩ := roundUp_of_checked hjumped
    have hle : floorSlot lagSlots tip ≤ jumped := hround ▸ le_roundUp hn hwhole
    have hsize : jumped < u64Size := hround ▸ Nat.mod_lt _ (by decide)
    rw [minus_eq_some (by omega)] at hpassed
    obtain rfl := Option.some.inj hpassed
    obtain rfl := Option.some.inj h
    have hdiff : (jumped + u64Size - next) % u64Size = jumped - next := by
      rw [show jumped + u64Size - next = jumped - next + u64Size by omega, Nat.add_mod_right,
        Nat.mod_eq_of_lt (by omega)]
    dsimp only
    rw [hround, hdiff]
    exact ⟨rfl, by omega, hround ▸ dvd_roundUp hwhole⟩
  · rw [if_neg hlt] at h
    rw [if_neg hlt]
    obtain rfl := Option.some.inj h
    exact ⟨rfl, le_refl _, hdvd⟩

/-- A hand-out that starts at `next` ends on a sampled slot, and neither it nor a task lies below
the start. -/
structure Ascends (n next : ℕ) (r : ℕ × Course × List SlotTask) : Prop where
  /-- The cursor does not move back. -/
  cursor : next ≤ r.1
  /-- The cursor stands on a sampled slot. -/
  aligned : n ∣ r.1
  /-- The tasks lie at or above the start. -/
  tasks : ∀ t ∈ r.2.2, next ≤ t.slot

lemma ascends_nil (hdvd : n ∣ next) : Ascends n next (next, c, []) :=
  ⟨le_refl next, hdvd, fun _ ht => absurd ht List.not_mem_nil⟩

theorem Ascends.cons {r : ℕ × Course × List SlotTask} (h : Ascends n (next + n) r) :
    Ascends n next (r.1, r.2.1, c.taskFor key next :: r.2.2) where
  cursor := (Nat.le_add_right next n).trans h.cursor
  aligned := h.aligned
  tasks := by
    rintro t (_ | ⟨_, ht⟩)
    · exact le_refl next
    · exact (Nat.le_add_right next n).trans (h.tasks t ht)

/-- The loop hands out as with wrapping numbers, and moves up. -/
lemma handOut_of_checked (hdvd : n ∣ next) {r : ℕ × Course × List SlotTask}
    (h : handOutChecked n lagSlots tip key last room next c = some r) :
    handOut n lagSlots tip key last room next c = r ∧ Ascends n next r := by
  -- on the room that is left, as both loops are
  induction room generalizing next c r with
  | zero =>
    have hr : (next, c, []) = r := by
      unfold handOutChecked at h
      by_cases hlast : next ≤ last
      · rw [if_pos hlast] at h
        obtain ⟨-, -, hr⟩ := Option.map_eq_some_iff.mp h
        exact hr
      · rw [if_neg hlast] at h
        exact Option.some.inj h
    exact ⟨hr, hr ▸ ascends_nil hdvd⟩
  | succ room ih =>
    unfold handOutChecked at h
    unfold handOut
    by_cases hlast : next ≤ last
    · rw [if_pos hlast] at h
      simp only [Option.bind_eq_bind, Option.bind_eq_some_iff] at h
      obtain ⟨due, hdue, h⟩ := h
      obtain ⟨hfits, rfl⟩ := plus_eq_some_iff.mp hdue
      have hsum : (next + lagSlots) % u64Size = next + lagSlots := Nat.mod_eq_of_lt hfits
      by_cases htip : next + lagSlots ≤ tip
      · rw [if_pos htip] at h
        simp only [Option.bind_eq_some_iff] at h
        obtain ⟨moved, hmoved, rest, hrest, h⟩ := h
        obtain ⟨hstep, rfl⟩ := plus_eq_some_iff.mp hmoved
        obtain rfl := Option.some.inj h
        obtain ⟨hagree, hascends⟩ := ih (Nat.dvd_add hdvd (Nat.dvd_refl n)) hrest
        rw [if_pos ⟨hlast, hsum.trans_le htip⟩, Nat.mod_eq_of_lt hstep, hagree]
        exact ⟨rfl, hascends.cons⟩
      · rw [if_neg htip] at h
        rw [if_neg fun hdue => htip (hsum.symm.trans_le hdue.2)]
        have hr : (next, c, []) = r := Option.some.inj h
        exact ⟨hr, hr ▸ ascends_nil hdvd⟩
    · rw [if_neg hlast] at h
      rw [if_neg fun hdue => hlast hdue.1]
      have hr : (next, c, []) = r := Option.some.inj h
      exact ⟨hr, hr ▸ ascends_nil hdvd⟩

/-- The call moves the cursor as with wrapping numbers, and up. -/
lemma advance_of_checked (hn : 0 < n) (hdvd : n ∣ next) {r : Course × List SlotTask}
    (h : c.advanceChecked n lagSlots tip key next = some r) :
    c.advance n lagSlots tip key next = r ∧
      ∃ cursor, r.1.nextCheck = some cursor ∧ next ≤ cursor ∧ n ∣ cursor ∧
        ∀ t ∈ r.2, next ≤ t.slot := by
  unfold advanceChecked at h
  simp only [Option.bind_eq_bind, Option.bind_eq_some_iff] at h
  obtain ⟨caught, hcaught, handed, hhanded, h⟩ := h
  obtain rfl := Option.some.inj h
  obtain ⟨hcatch, hle, hdvd'⟩ := catchUp_of_checked hn hdvd hcaught
  obtain ⟨hhand, hascends⟩ := handOut_of_checked hdvd' hhanded
  refine ⟨?_, handed.1, rfl, hle.trans hascends.cursor, hascends.aligned,
    fun t ht => hle.trans (hascends.tasks t ht)⟩
  unfold advance
  dsimp only
  rw [hcatch, hhand]

end Agreement

/-! ### What a window knows of its slots -/

/-- The slots that a window has seen: the opening tip, the first delivery and the closing tip, and
whether it is live. -/
def seen (c : Course) : Option ℕ × Option ℕ × Option ℕ × Bool :=
  (c.tipOpen, c.firstDeliveredSlot, c.tipClose, c.subscribed)

section Seen

variable {n lagSlots tip : ℕ} {key : WindowKey}

/-- Moving the cursor teaches a window nothing. -/
lemma seen_advance (next : ℕ) (c : Course) :
    (c.advance n lagSlots tip key next).1.seen = c.seen := by
  unfold seen
  rw [frame_advance]

end Seen

/-- What holds of a window whose slots are at most `highest`: its cursor stands on a sampled slot
above the opening tip. -/
structure Placed (n highest : ℕ) (c : Course) : Prop where
  /-- The opening tip is a real slot. -/
  opened : ∀ t ∈ c.tipOpen, 0 < t ∧ t ≤ highest
  /-- The slot of the first delivery is in the range. -/
  first : ∀ f ∈ c.firstDeliveredSlot, f ≤ highest
  /-- The closing tip is in the range. -/
  closed : ∀ t ∈ c.tipClose, t ≤ highest
  /-- There is an opening tip only once the subscription is live. -/
  live : c.tipOpen.isSome = true → c.subscribed = true
  /-- The cursor lies above the opening tip. -/
  cursor : ∀ next ∈ c.nextCheck, n ∣ next ∧ ∃ t ∈ c.tipOpen, t + startMargin ≤ next

section Placed

variable {n highest lagSlots tip slot : ℕ} {key : WindowKey} {c d : Course}

/-- A window with the same slots is placed, if its cursor is. -/
lemma Placed.of_moved (h : c.Placed n highest) (hseen : d.seen = c.seen)
    (hcursor : ∀ next ∈ d.nextCheck, n ∣ next ∧ ∃ t ∈ d.tipOpen, t + startMargin ≤ next) :
    d.Placed n highest := by
  unfold seen at hseen
  simp only [Prod.mk.injEq] at hseen
  obtain ⟨hopen, hfirst, hclose, hlive⟩ := hseen
  exact
    { opened := hopen ▸ h.opened
      first := hfirst ▸ h.first
      closed := hclose ▸ h.closed
      live := by
        rw [hopen, hlive]
        exact h.live
      cursor := hcursor }

/-- A window with the same slots and the same cursor is placed. -/
theorem Placed.of_seen (h : c.Placed n highest) (hseen : d.seen = c.seen)
    (hcursor : d.nextCheck = c.nextCheck) : d.Placed n highest := by
  have hopen : d.tipOpen = c.tipOpen := congrArg Prod.fst hseen
  refine h.of_moved hseen ?_
  rw [hcursor, hopen]
  exact h.cursor

/-- The start lies above the opening tip. -/
lemma exists_opened_of_start {start : ℕ} (h : c.startSlotChecked = some (some start)) :
    ∃ t ∈ c.tipOpen, t + startMargin ≤ start := by
  unfold startSlotChecked at h
  cases hopen : c.tipOpen with
  | none =>
    rw [hopen] at h
    cases h
  | some t =>
    rw [hopen] at h
    obtain ⟨sum, hsum, heq⟩ := Option.map_eq_some_iff.mp h
    obtain ⟨-, rfl⟩ := plus_eq_some_iff.mp hsum
    obtain rfl := Option.some.inj heq
    exact ⟨t, rfl, Nat.add_le_add_right (le_max_left t _) _⟩

theorem placed_new (info : WindowInfo) : (new info).Placed n highest where
  opened := by simp [new]
  first := by simp [new]
  closed := by simp [new]
  live := by simp [new]
  cursor := by simp [new]

/-- Filling the opening tip with a slot in the range. -/
theorem Placed.learnTip (h : c.Placed n highest) (hslot : slot ≤ highest) :
    (c.learnTip slot).Placed n highest := by
  unfold Course.learnTip
  by_cases hlearns : c.subscribed ∧ c.tipOpen = none ∧ 0 < slot
  · rw [if_pos hlearns]
    obtain ⟨hlive, hnone, hpos⟩ := hlearns
    refine ⟨?_, h.first, h.closed, fun _ => hlive, ?_⟩
    · rintro t ⟨⟩
      exact ⟨hpos, hslot⟩
    · intro next hnext
      obtain ⟨-, t, ht, -⟩ := h.cursor next hnext
      rw [hnone] at ht
      cases ht
  · rw [if_neg hlearns]
    exact h

/-- Subscribing a window that was not live. -/
theorem Placed.subscribe (h : c.Placed n highest) (hfresh : c.subscribed = false)
    (htip : tip ≤ highest) : (c.subscribe tip).Placed n highest := by
  have hnone : c.tipOpen = none := by
    cases hopen : c.tipOpen with
    | none => rfl
    | some t => exact (Bool.false_ne_true (hfresh.symm.trans (h.live (by rw [hopen]; rfl)))).elim
  refine ⟨?_, h.first, h.closed, fun _ => rfl, ?_⟩
  · intro t ht
    unfold Course.subscribe at ht
    by_cases hpos : 0 < tip
    · rw [if_pos hpos] at ht
      obtain rfl := Option.some.inj ht
      exact ⟨hpos, htip⟩
    · rw [if_neg hpos] at ht
      cases ht
  · intro next hnext
    obtain ⟨-, t, ht, -⟩ := h.cursor next hnext
    rw [hnone] at ht
    cases ht

theorem Placed.close (h : c.Placed n highest) (htip : tip ≤ highest) (now : ℤ) (reason : String) :
    (c.close tip now reason).Placed n highest := by
  refine ⟨h.opened, h.first, ?_, h.live, h.cursor⟩
  rintro t ⟨⟩
  exact htip

/-- Counting a delivery in the range. -/
theorem Placed.countDelivery (h : c.Placed n highest) (hslot : slot ≤ highest) :
    (c.countDelivery slot).Placed n highest := by
  have hfirst : Placed n highest
      { c with
        delivered := c.delivered + 1
        firstDeliveredSlot := some (c.firstDeliveredSlot.getD slot) } := by
    refine ⟨h.opened, ?_, h.closed, h.live, h.cursor⟩
    rintro f ⟨⟩
    cases hfirst : c.firstDeliveredSlot with
    | none => exact hslot
    | some f => exact h.first f hfirst
  exact (hfirst.learnTip hslot).of_seen rfl rfl

/-- The rest of a delivery is no matter of slots. -/
theorem Placed.deliver (h : c.Placed n highest) (hslot : slot ≤ highest) (skipVotes : Bool)
    (tx : TxView) (mask : Mask) : (c.deliver n skipVotes slot tx mask).Placed n highest := by
  have hcount := h.countDelivery hslot
  unfold Course.deliver
  dsimp only
  split
  · exact hcount.of_seen rfl rfl
  · exact hcount

/-- The cursor was placed before, or is placed at the start. -/
lemma Placed.of_start (hn : 0 < n) (h : c.Placed n highest) {start rounded : ℕ}
    (hstart : c.startSlotChecked = some (some start))
    (hrounded : roundUpChecked n start = some rounded) :
    n ∣ c.nextCheck.getD rounded ∧
      ∃ t ∈ c.tipOpen, t + startMargin ≤ c.nextCheck.getD rounded := by
  obtain ⟨hround, hfits⟩ := roundUp_of_checked hrounded
  cases hnext : c.nextCheck with
  | some next => exact h.cursor next hnext
  | none =>
    obtain ⟨t, ht, hle⟩ := exists_opened_of_start hstart
    refine ⟨hround ▸ dvd_roundUp hfits, t, ht, hle.trans ?_⟩
    rw [Option.getD_none, ← hround]
    exact le_roundUp hn hfits

/-- **A call that does not stop keeps a window placed**, and hands out no slot below the opening
tip. -/
theorem Placed.takeReady (hn : 0 < n) (h : c.Placed n highest) (htip : tip ≤ highest)
    {r : Course × List SlotTask} (hr : c.takeReadyChecked n lagSlots tip key = some r) :
    c.takeReady n lagSlots tip key = r ∧ r.1.Placed n highest ∧
      ∀ task ∈ r.2, ∃ t ∈ r.1.tipOpen, t ≤ task.slot := by
  have hlearnt := h.learnTip htip
  have hstays : ∀ d : Course, d.Placed n highest → (d, ([] : List SlotTask)) = r →
      r.1.Placed n highest ∧ ∀ task ∈ r.2, ∃ t ∈ r.1.tipOpen, t ≤ task.slot := by
    rintro d hd rfl
    exact ⟨hd, fun task htask => absurd htask List.not_mem_nil⟩
  unfold takeReadyChecked at hr
  unfold Course.takeReady
  simp only [Option.bind_eq_bind, Option.bind_eq_some_iff] at hr
  dsimp only
  -- each checked operation that succeeds is the one of the model, so the branches match one by one
  generalize c.learnTip tip = d at hlearnt hr
  obtain ⟨settled, hsettled, hr⟩ := hr
  have hiff := startSettled_of_checked hsettled
  cases settled with
  | false =>
    have hcursor : d.cursor n tip = none :=
      if_pos (not_not.mp fun hnot => Bool.false_ne_true (hiff.mp hnot))
    have heq : (d, ([] : List SlotTask)) = r := Option.some.inj hr
    rw [hcursor]
    exact ⟨heq, hstays d hlearnt heq⟩
  | true =>
    rw [if_pos rfl] at hr
    obtain ⟨start, hstart, hr⟩ := Option.bind_eq_some_iff.mp hr
    have hcursor : d.cursor n tip =
        start.map fun start => d.nextCheck.getD (roundUp n start) := by
      unfold Course.cursor
      rw [startSlot_of_checked hstart]
      exact if_neg (hiff.mpr rfl)
    rw [hcursor]
    cases start with
    | none =>
      have heq : (d, ([] : List SlotTask)) = r := Option.some.inj hr
      exact ⟨heq, hstays d hlearnt heq⟩
    | some start =>
      obtain ⟨rounded, hrounded, hadvance⟩ := Option.bind_eq_some_iff.mp hr
      obtain ⟨hround, -⟩ := roundUp_of_checked hrounded
      obtain ⟨hdvd, t, ht, hle⟩ := hlearnt.of_start hn hstart hrounded
      obtain ⟨hagree, cursor, hmoved, hup, hdvd', htasks⟩ := advance_of_checked hn hdvd hadvance
      have hseen : r.1.seen = d.seen := by
        rw [← hagree]
        exact seen_advance _ d
      have hopen : r.1.tipOpen = d.tipOpen := congrArg Prod.fst hseen
      have hcursor' : ∀ next ∈ r.1.nextCheck,
          n ∣ next ∧ ∃ t ∈ r.1.tipOpen, t + startMargin ≤ next := by
        intro next hnext
        obtain rfl := Option.some.inj (hmoved.symm.trans hnext)
        exact ⟨hdvd', t, hopen ▸ ht, hle.trans hup⟩
      rw [Option.map_some, hround]
      refine ⟨hagree, hlearnt.of_moved hseen hcursor', fun task htask => ⟨t, hopen ▸ ht, ?_⟩⟩
      exact (Nat.le_add_right t _).trans (hle.trans (htasks task htask))

end Placed

end Course

/-! ### When nothing stops -/

/-- The slots up to `highest` leave room below the end of the numbers. -/
structure LeaveRoom (n lagSlots highest : ℕ) : Prop where
  /-- The start without a delivery fits. -/
  start : highest + startWithoutDeliverySlots < u64Size
  /-- The start fits when it is rounded up. -/
  round : divCeil (highest + startMargin) n * n < u64Size
  /-- The lag of the cursor fits. -/
  lag : lagSlots + maxCursorLagSlots < u64Size
  /-- The last sampled slot that the cursor can come to fits with the lag. -/
  due : startMargin < (highest - endMargin) / n * n →
    (highest - endMargin) / n * n + lagSlots < u64Size

/-- The slots up to `highest` are zero, which counts as none, or leave room. -/
def SlotsFit (n lagSlots highest : ℕ) : Prop := highest = 0 ∨ LeaveRoom n lagSlots highest

/-- Rounding up goes to the first multiple. -/
theorem divCeil_mul_le {n x k : ℕ} (hdvd : n ∣ k) (hle : x ≤ k) : divCeil x n * n ≤ k := by
  obtain ⟨q, rfl⟩ := hdvd
  have hdm : n * (x / n) + x % n = x := Nat.div_add_mod x n
  have hmul : x / n * n = n * (x / n) := Nat.mul_comm _ _
  unfold divCeil
  by_cases hrest : x % n > 0
  · rw [if_pos hrest, Nat.mul_comm]
    refine Nat.mul_le_mul_left n ?_
    by_contra hlt
    have := Nat.mul_le_mul_left n (Nat.le_of_lt_succ (not_le.mp hlt))
    omega
  · rw [if_neg hrest]
    omega

/-- A higher slot is rounded no lower. -/
lemma divCeil_mul_mono {n x y : ℕ} (hn : 0 < n) (hle : x ≤ y) :
    divCeil x n * n ≤ divCeil y n * n :=
  divCeil_mul_le (Nat.dvd_mul_left n _) (hle.trans (le_divCeil_mul hn))

namespace LeaveRoom

variable {n lagSlots highest slot : ℕ}

/-- A sampled slot that is old enough fits with the lag. -/
lemma due_of_dvd (h : LeaveRoom n lagSlots highest) (hdvd : n ∣ slot)
    (hlow : startMargin < slot) (hold : slot ≤ highest - endMargin) :
    slot + lagSlots < u64Size := by
  have hle : slot ≤ (highest - endMargin) / n * n := by
    obtain ⟨q, rfl⟩ := hdvd
    rw [Nat.mul_comm]
    rcases Nat.eq_zero_or_pos n with rfl | hn
    · simp
    · refine Nat.mul_le_mul_right n ((Nat.le_div_iff_mul_le hn).mpr ?_)
      rwa [Nat.mul_comm]
  have := h.due (hlow.trans_le hle)
  omega

/-- The sampled slot after one that is old enough does not wrap either. -/
lemma next_of_dvd (h : LeaveRoom n lagSlots highest) (hn : 0 < n) (hdvd : n ∣ slot)
    (hlow : startMargin < slot) (hold : slot ≤ highest - endMargin) :
    slot + n < u64Size := by
  refine Nat.lt_of_le_of_lt ?_ h.round
  have hlt : slot < divCeil (highest + startMargin) n * n := by
    refine Nat.lt_of_lt_of_le ?_ (le_divCeil_mul hn)
    unfold startMargin at hlow ⊢
    omega
  obtain ⟨q, rfl⟩ := hdvd
  rw [Nat.mul_comm _ n] at hlt ⊢
  have hq : q < divCeil (highest + startMargin) n := Nat.lt_of_mul_lt_mul_left hlt
  calc n * q + n = n * (q + 1) := (Nat.mul_succ n q).symm
    _ ≤ n * divCeil (highest + startMargin) n := Nat.mul_le_mul_left n hq

end LeaveRoom

namespace Course

variable {n highest lagSlots tip next last : ℕ} {key : WindowKey} {c : Course}

/-- With an opening tip there is a slot, so the slots leave room. -/
lemma Placed.leaveRoom (h : c.Placed n highest) (hfit : SlotsFit n lagSlots highest) {t : ℕ}
    (ht : t ∈ c.tipOpen) : LeaveRoom n lagSlots highest := by
  obtain ⟨hpos, hle⟩ := h.opened t ht
  exact hfit.resolve_left fun hzero => by omega

/-- The start fits. -/
theorem Placed.exists_startSlot (h : c.Placed n highest) (hfit : SlotsFit n lagSlots highest) :
    ∃ start, c.startSlotChecked = some start ∧
      ∀ s ∈ start, s ≤ highest + startMargin ∧ LeaveRoom n lagSlots highest := by
  unfold startSlotChecked
  cases hopen : c.tipOpen with
  | none => exact ⟨none, rfl, by simp⟩
  | some t =>
    have hroom := h.leaveRoom hfit hopen
    have hmax : max t (c.firstDeliveredSlot.getD 0) ≤ highest := by
      refine max_le (h.opened t hopen).2 ?_
      cases hfirst : c.firstDeliveredSlot with
      | none => exact Nat.zero_le _
      | some f => exact h.first f hfirst
    have hstart := hroom.start
    have hsum : plus u64Size (max t (c.firstDeliveredSlot.getD 0)) startMargin =
        some (max t (c.firstDeliveredSlot.getD 0) + startMargin) := by
      refine plus_eq_some_iff.mpr ⟨?_, rfl⟩
      unfold startMargin
      unfold startWithoutDeliverySlots at hstart
      omega
    dsimp only
    refine ⟨_, by rw [hsum, Option.map_some], ?_⟩
    rintro s ⟨⟩
    exact ⟨Nat.add_le_add_right hmax _, hroom⟩

/-- Looking whether the start is settled does not stop. -/
lemma Placed.exists_startSettled (h : c.Placed n highest) (hfit : SlotsFit n lagSlots highest)
    (tip : ℕ) : ∃ settled, c.startSettledChecked tip = some settled := by
  unfold startSettledChecked
  by_cases hnone : c.nextCheck = none
  · rw [if_pos hnone]
    unfold startKnownChecked
    by_cases hseen : c.firstDeliveredSlot.isSome ∨ c.endedAt.isSome
    · exact ⟨true, if_pos hseen⟩
    · rw [if_neg hseen]
      cases hopen : c.tipOpen with
      | none => exact ⟨false, rfl⟩
      | some t =>
        have hstart := (h.leaveRoom hfit hopen).start
        have hle := (h.opened t hopen).2
        have hsum : plus u64Size t startWithoutDeliverySlots =
            some (t + startWithoutDeliverySlots) :=
          plus_eq_some_iff.mpr ⟨by omega, rfl⟩
        dsimp only
        exact ⟨_, by rw [hsum, Option.map_some]⟩
  · exact ⟨true, if_neg hnone⟩

/-- The jump of the cursor fits. -/
lemma exists_catchUp (hn : 0 < n) (hroom : LeaveRoom n lagSlots highest) (htip : tip ≤ highest)
    (next : ℕ) (c : Course) : ∃ r, c.catchUpChecked n lagSlots tip next = some r := by
  have hlag : plus u64Size lagSlots maxCursorLagSlots = some (lagSlots + maxCursorLagSlots) :=
    plus_eq_some_iff.mpr ⟨hroom.lag, rfl⟩
  unfold catchUpChecked
  rw [hlag, Option.bind_eq_bind, Option.bind_some]
  dsimp only
  by_cases hlt : next < tip - (lagSlots + maxCursorLagSlots)
  · have hle : divCeil (tip - (lagSlots + maxCursorLagSlots)) n * n ≤
        divCeil (highest + startMargin) n * n :=
      divCeil_mul_mono hn (by omega)
    have hround : roundUpChecked n (tip - (lagSlots + maxCursorLagSlots)) =
        some (divCeil (tip - (lagSlots + maxCursorLagSlots)) n * n) :=
      times_eq_some_iff.mpr ⟨hle.trans_lt hroom.round, rfl⟩
    have hup := le_divCeil_mul (x := tip - (lagSlots + maxCursorLagSlots)) hn
    rw [if_pos hlt, hround, Option.bind_some, minus_eq_some (by omega)]
    exact ⟨_, rfl⟩
  · exact ⟨_, if_neg hlt⟩

/-- The loop fits. -/
lemma exists_handOut (hn : 0 < n) (hroom : LeaveRoom n lagSlots highest)
    (hlast : last ≤ highest - endMargin) (room : ℕ) (hdvd : n ∣ next) (hlow : startMargin < next)
    (c : Course) : ∃ r, handOutChecked n lagSlots tip key last room next c = some r := by
  have hlag : ∀ slot, n ∣ slot → startMargin < slot → slot ≤ last →
      plus u64Size slot lagSlots = some (slot + lagSlots) := fun slot hslot hup hle =>
    plus_eq_some_iff.mpr ⟨hroom.due_of_dvd hslot hup (hle.trans hlast), rfl⟩
  induction room generalizing next c with
  | zero =>
    unfold handOutChecked
    by_cases hle : next ≤ last
    · rw [if_pos hle, hlag next hdvd hlow hle]
      exact ⟨_, rfl⟩
    · exact ⟨_, if_neg hle⟩
  | succ room ih =>
    unfold handOutChecked
    by_cases hle : next ≤ last
    · rw [if_pos hle, hlag next hdvd hlow hle, Option.bind_eq_bind, Option.bind_some]
      by_cases hdue : next + lagSlots ≤ tip
      · have hstep : plus u64Size next n = some (next + n) :=
          plus_eq_some_iff.mpr ⟨hroom.next_of_dvd hn hdvd hlow (hle.trans hlast), rfl⟩
        obtain ⟨rest, hrest⟩ := ih (Nat.dvd_add hdvd (Nat.dvd_refl n))
          (Nat.lt_add_right n hlow) (c.handOne next)
        rw [if_pos hdue, hstep, Option.bind_some, hrest]
        exact ⟨_, rfl⟩
      · exact ⟨_, if_neg hdue⟩
    · exact ⟨_, if_neg hle⟩

/-- What is checked for the end lies behind every slot seen. -/
lemma Placed.endSlot_le (h : c.Placed n highest) (htip : tip ≤ highest) :
    c.endSlot tip ≤ highest - endMargin := by
  have hclose : c.tipClose.getD tip ≤ highest := by
    cases hclosed : c.tipClose with
    | none => exact htip
    | some t => exact h.closed t hclosed
  unfold endSlot
  dsimp only
  split
  · omega
  · omega

/-- **With room, a call does not stop.** -/
theorem Placed.exists_takeReady (hn : 0 < n) (h : c.Placed n highest)
    (hfit : SlotsFit n lagSlots highest) (htip : tip ≤ highest) :
    ∃ r, c.takeReadyChecked n lagSlots tip key = some r := by
  have hlearnt := h.learnTip htip
  unfold takeReadyChecked
  dsimp only
  generalize c.learnTip tip = d at hlearnt
  obtain ⟨settled, hsettled⟩ := hlearnt.exists_startSettled hfit tip
  rw [hsettled, Option.bind_eq_bind, Option.bind_some]
  by_cases hgo : settled = true
  · obtain ⟨start, hstart, hbound⟩ := hlearnt.exists_startSlot hfit
    rw [if_pos hgo, hstart, Option.bind_eq_bind, Option.bind_some]
    cases start with
    | none => exact ⟨_, rfl⟩
    | some start =>
      obtain ⟨hle, hroom⟩ := hbound start rfl
      have hround : roundUpChecked n start = some (divCeil start n * n) :=
        times_eq_some_iff.mpr ⟨(divCeil_mul_mono hn hle).trans_lt hroom.round, rfl⟩
      obtain ⟨hdvd, t, ht, hup⟩ := hlearnt.of_start hn hstart hround
      have hlow : startMargin < d.nextCheck.getD (divCeil start n * n) := by
        have := (hlearnt.opened t ht).1
        omega
      dsimp only
      rw [hround, Option.bind_eq_bind, Option.bind_some]
      unfold advanceChecked
      dsimp only
      obtain ⟨caught, hcaught⟩ := exists_catchUp hn hroom htip _ d
      obtain ⟨-, hmoved, hdvd'⟩ := catchUp_of_checked hn hdvd hcaught
      obtain ⟨handed, hhanded⟩ := exists_handOut hn hroom (hlearnt.endSlot_le htip)
        maxTasksPerWindow hdvd' (hlow.trans_le hmoved) caught.2
      rw [hcaught, Option.bind_eq_bind, Option.bind_some, hhanded]
      exact ⟨_, rfl⟩
  · exact ⟨_, if_neg hgo⟩

end Course

end ShredTools.Audit
