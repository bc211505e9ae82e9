import ShredTools.Audit.FilterCheck

/-!
# The ending of a window

Whether `take_finished` releases a window depends, beside its checks, on three things: its number of
deliveries, the tip when it was closed and whether it is closed.  They change only when the window
is opened, delivers or is closed, and the window is gone when it is taken.

`Ending` gathers these three, and `FilterAudit.ending` reads them for the window of a key.  There is
a lemma for each call of the audit that says what becomes of them, in the order of the source; those
that a call does not touch stay.  `isSome_ending_of_mem_takeFinished` and `ending_takeFinished` say
that a window that is taken was there and is gone, and `nodup_takeFinished` that no key is taken
twice.
-/

namespace ShredTools.Audit

/-- The part of the course of a window that a release of it looks at, but for its checks. -/
structure Ending where
  /-- The number of deliveries. -/
  delivered : ℕ
  /-- The tip when the window was closed. -/
  tipClose : Option ℕ
  /-- Whether the window is closed. -/
  ended : Bool

/-- The ending of a course. -/
def Course.ending (c : Course) : Ending := ⟨c.delivered, c.tipClose, c.endedAt.isSome⟩

namespace Course

lemma ending_learnTip (slot : ℕ) (c : Course) : (c.learnTip slot).ending = c.ending := by
  unfold learnTip
  split <;> rfl

lemma ending_settle (outcome : Outcome) (c : Course) : (c.settle outcome).ending = c.ending := by
  cases outcome <;> rfl

lemma ending_handOut (sampleEvery lagSlots tip : ℕ) (key : WindowKey) (last room next : ℕ)
    (c : Course) :
    (handOut sampleEvery lagSlots tip key last room next c).2.1.ending = c.ending := by
  induction room generalizing next c with
  | zero => rfl
  | succ room ih =>
    have hone : (c.handOne next).ending = c.ending := rfl
    unfold handOut
    split
    · dsimp only
      rw [ih, hone]
    · rfl

lemma ending_moveCursor (cursor : ℕ) (c : Course) : (c.moveCursor cursor).ending = c.ending := rfl

lemma ending_catchUp (sampleEvery lagSlots tip next : ℕ) (c : Course) :
    (c.catchUp sampleEvery lagSlots tip next).2.ending = c.ending := by
  unfold catchUp
  by_cases hfar : next < floorSlot lagSlots tip
  · rw [if_pos hfar]
    -- with the count named, the terms need not be computed to see that they agree
    have hcounted : ∀ count, ({ c with slotsUnchecked := count } : Course).ending = c.ending :=
      fun _ => rfl
    exact hcounted _
  · rw [if_neg hfar]

lemma ending_advance (sampleEvery lagSlots tip : ℕ) (key : WindowKey) (next : ℕ) (c : Course) :
    (c.advance sampleEvery lagSlots tip key next).1.ending = c.ending := by
  have hcaught := ending_catchUp sampleEvery lagSlots tip next c
  have hhanded := ending_handOut sampleEvery lagSlots tip key (c.endSlot tip) maxTasksPerWindow
    (c.catchUp sampleEvery lagSlots tip next).1 (c.catchUp sampleEvery lagSlots tip next).2
  exact (ending_moveCursor _ _).trans (hhanded.trans hcaught)

/-- Handing slots out does not touch the ending. -/
theorem ending_takeReady (sampleEvery lagSlots tip : ℕ) (key : WindowKey) (c : Course) :
    (c.takeReady sampleEvery lagSlots tip key).1.ending = c.ending := by
  unfold takeReady
  dsimp only
  split
  · exact ending_learnTip tip c
  · rw [ending_advance, ending_learnTip]

/-- A delivery counts. -/
lemma ending_deliver (sampleEvery : ℕ) (skipVotes : Bool) (slot : ℕ) (tx : TxView) (mask : Mask)
    (c : Course) : (c.deliver sampleEvery skipVotes slot tx mask).ending =
      { c.ending with delivered := c.delivered + 1 } := by
  have hcount : (c.countDelivery slot).ending = { c.ending with delivered := c.delivered + 1 } := by
    unfold countDelivery
    exact ending_learnTip slot _
  unfold deliver
  dsimp only
  split <;> exact hcount

end Course

namespace FilterAudit

/-- The ending of the window at a key. -/
def ending (a : FilterAudit) (key : WindowKey) : Option Ending :=
  (a.course key).map Course.ending

variable {a : FilterAudit}

/-- What changes one course changes one ending. -/
lemma ending_of_course {a' : FilterAudit} {key : WindowKey} {g : Course → Course}
    {f : Ending → Ending}
    (hcourse : ∀ key', a'.course key' = if key' = key then (a.course key).map g else a.course key')
    (hg : ∀ c, (g c).ending = f c.ending) (key' : WindowKey) :
    a'.ending key' = if key' = key then (a.ending key).map f else a.ending key' := by
  unfold ending
  rw [hcourse]
  by_cases hkey : key' = key
  · rw [if_pos hkey, if_pos hkey, Option.map_map, Option.map_map]
    exact congrArg (fun h => (a.course key).map h) (funext hg)
  · rw [if_neg hkey, if_neg hkey]

/-- What keeps the endings of courses keeps all endings. -/
lemma ending_of_course_eq {a' : FilterAudit} {key : WindowKey} {g : Course → Course}
    (hcourse : ∀ key', a'.course key' = if key' = key then (a.course key).map g else a.course key')
    (hg : ∀ c, (g c).ending = c.ending) : a'.ending = a.ending := by
  funext key'
  rw [ending_of_course (f := id) hcourse hg, Option.map_id]
  by_cases hkey : key' = key
  · rw [if_pos hkey, hkey]
    rfl
  · rw [if_neg hkey]

theorem ending_subscribed (key : WindowKey) (tip : ℕ) :
    (a.subscribed key tip).ending = a.ending :=
  ending_of_course_eq (course_subscribed key tip) fun _ => rfl

theorem ending_compare (base58 : List UInt8 → String) (task : SlotTask) (fetched : Fetched) :
    (a.compare base58 task fetched).ending = a.ending :=
  ending_of_course_eq (course_compare base58 task fetched a) (Course.ending_settle _)

theorem ending_unchecked (task : SlotTask) : (a.unchecked task).ending = a.ending :=
  ending_of_course_eq (course_unchecked task a) (Course.ending_settle _)

theorem ending_takeReady (lagSlots tip : ℕ) : (a.takeReady lagSlots tip).1.ending = a.ending := by
  funext key
  unfold ending
  rw [course_takeReady, Option.map_map]
  exact congrArg (fun h => (a.course key).map h)
    (funext fun c => Course.ending_takeReady a.sampleEvery lagSlots tip key c)

theorem ending_drainViolations : a.drainViolations.1.ending = a.ending := by
  funext key
  rw [ending, course_drainViolations, ending]

theorem ending_openWindow (key : WindowKey) (info : WindowInfo) (key' : WindowKey) :
    (a.openWindow key info).ending key' =
      if key' = key then some ⟨0, none, false⟩ else a.ending key' := by
  unfold ending
  rw [course_openWindow]
  by_cases hkey : key' = key
  · rw [if_pos hkey, if_pos hkey]
    rfl
  · rw [if_neg hkey, if_neg hkey]

theorem ending_close (key : WindowKey) (tip : ℕ) (now : ℤ) (reason : String) (key' : WindowKey) :
    (a.close key tip now reason).ending key' =
      if key' = key then (a.ending key).map fun e => ⟨e.delivered, some tip, true⟩
      else a.ending key' :=
  ending_of_course (course_close key tip now reason) (fun _ => rfl) key'

theorem ending_onDelivery (base58 : List UInt8 → String) (key : WindowKey) (slot : ℕ) (tx : TxView)
    (tags : List String) (serverIsVote : Option Bool) (key' : WindowKey) :
    (a.onDelivery base58 key slot tx tags serverIsVote).ending key' =
      if key' = key then
        (a.ending key).map fun e => { e with delivered := e.delivered + 1 }
      else a.ending key' :=
  ending_of_course (course_onDelivery key slot tx tags serverIsVote)
    (fun c => Course.ending_deliver a.sampleEvery a.skipVotes slot tx _ c) key'

/-- What `take_finished` takes are the closed windows that are finished. -/
lemma mem_takeFinished_iff {tip floor : ℕ} {now : ℤ} {giveUpSecs : ℕ} {w : Emitted} :
    w ∈ (a.takeFinished tip floor now giveUpSecs).2 ↔
      ∃ window, a.windows.lookup w.1 = some window ∧
        window.toCourse.Finished tip floor now giveUpSecs ∧ w = emitted w.1 window := by
  have hentry : ∀ key window, (⟨key, window⟩ : Sigma fun _ : WindowKey => Window) ∈
      (a.windows.retain fun _ w => w.toCourse.Finished tip floor now giveUpSecs).entries ↔
      a.windows.lookup key = some window ∧
        window.toCourse.Finished tip floor now giveUpSecs := by
    intro key window
    rw [AList.mem_entries_iff_lookup, AList.lookup_retain, Option.filter_eq_some_iff,
      decide_eq_true_iff]
  unfold takeFinished
  dsimp only
  rw [List.mem_map]
  constructor
  · rintro ⟨⟨key, window⟩, hmem, rfl⟩
    obtain ⟨hlookup, hfinished⟩ := (hentry key window).mp hmem
    exact ⟨window, hlookup, hfinished, rfl⟩
  · rintro ⟨window, hlookup, hfinished, hw⟩
    exact ⟨⟨w.1, window⟩, (hentry w.1 window).mpr ⟨hlookup, hfinished⟩, hw.symm⟩

/-- What `take_finished` takes are closed windows. -/
theorem course_of_mem_takeFinished {tip floor : ℕ} {now : ℤ} {giveUpSecs : ℕ} {w : Emitted}
    (hw : w ∈ (a.takeFinished tip floor now giveUpSecs).2) :
    ∃ c, a.course w.1 = some c ∧ c.endedAt.isSome = true ∧ w.2.toCourse = c.finished := by
  obtain ⟨window, hlookup, ⟨ended, hended, -⟩, heq⟩ := mem_takeFinished_iff.mp hw
  refine ⟨window.toCourse, ?_, Option.isSome_of_mem hended, ?_⟩
  · rw [course, hlookup]
    rfl
  · rw [heq]
    rfl

/-- The windows that `take_finished` takes were there. -/
theorem isSome_ending_of_mem_takeFinished {tip floor : ℕ} {now : ℤ} {giveUpSecs : ℕ}
    {key : WindowKey} (hkey : key ∈ (a.takeFinished tip floor now giveUpSecs).2.map Prod.fst) :
    (a.ending key).isSome = true := by
  obtain ⟨w, hw, rfl⟩ := List.mem_map.mp hkey
  obtain ⟨c, hc, -⟩ := course_of_mem_takeFinished hw
  rw [ending, hc]
  rfl

/-- A window that `take_finished` takes is gone, and the others are as they were. -/
theorem ending_takeFinished (tip floor : ℕ) (now : ℤ) (giveUpSecs : ℕ) (key : WindowKey) :
    (a.takeFinished tip floor now giveUpSecs).1.ending key =
      if key ∈ (a.takeFinished tip floor now giveUpSecs).2.map Prod.fst then none
      else a.ending key := by
  have hmem : key ∈ (a.takeFinished tip floor now giveUpSecs).2.map Prod.fst ↔
      ∃ c ∈ a.course key, c.Finished tip floor now giveUpSecs := by
    rw [List.mem_map]
    constructor
    · rintro ⟨w, hw, rfl⟩
      obtain ⟨window, hlookup, hfinished, -⟩ := mem_takeFinished_iff.mp hw
      exact ⟨window.toCourse, by rw [Option.mem_def, course, hlookup]; rfl, hfinished⟩
    · rintro ⟨c, hc, hfinished⟩
      obtain ⟨window, hlookup, rfl⟩ := Option.map_eq_some_iff.mp hc
      exact ⟨emitted key window,
        mem_takeFinished_iff.mpr ⟨window, hlookup, hfinished, rfl⟩, rfl⟩
  unfold ending
  rw [course_takeFinished]
  by_cases hdone : key ∈ (a.takeFinished tip floor now giveUpSecs).2.map Prod.fst
  · obtain ⟨c, hc, hfinished⟩ := hmem.mp hdone
    rw [if_pos hdone, Option.mem_def.mp hc, Option.filter_some, if_neg (by simpa using hfinished)]
    rfl
  · rw [if_neg hdone]
    cases hc : a.course key with
    | none => rfl
    | some c =>
      have hkept : ¬ c.Finished tip floor now giveUpSecs := fun h => hdone (hmem.mpr ⟨c, hc, h⟩)
      rw [Option.filter_some, if_pos (by simpa using hkept)]

/-- No window is taken twice. -/
theorem nodup_takeFinished (tip floor : ℕ) (now : ℤ) (giveUpSecs : ℕ) :
    ((a.takeFinished tip floor now giveUpSecs).2.map Prod.fst).Nodup := by
  unfold takeFinished
  dsimp only
  rw [List.map_map]
  exact AList.keys_nodup _

/-- The windows that `take_all` takes. -/
theorem keys_takeAll : a.takeAll.2.map Prod.fst = a.windows.keys := by
  unfold takeAll
  dsimp only
  rw [List.map_map]
  rfl

theorem ending_takeAll (key : WindowKey) : a.takeAll.1.ending key = none := by
  rw [ending, course_takeAll]
  rfl

/-- A window has an ending. -/
theorem isSome_ending_iff {key : WindowKey} :
    (a.ending key).isSome = true ↔ key ∈ a.windows.keys := by
  unfold ending course
  rw [Option.isSome_map, Option.isSome_map, AList.lookup_isSome, AList.mem_keys]

end FilterAudit

end ShredTools.Audit
