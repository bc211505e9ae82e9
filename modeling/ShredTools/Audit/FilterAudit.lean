import Mathlib.Data.List.AList
import ShredTools.Audit.FilterWindow
import ShredTools.Library.KeyedTable

/-!
# The filter audit

`FilterAudit` keeps the windows of all rotating sources, by source and connection.  Every call does
one thing to one window (or to each of them), so each is described by what it does to the course of
the window at a key.  The tip and the finalized floor of the signature registry, and the time, are
arguments of the calls that read them.

The calls are those of the source: opening a window, saying that it is subscribed, a delivery,
closing it, handing slots out, draining violations, taking what is finished, and taking all.
`FilterAudit.course` projects a window to its course, and for each call there is a lemma `course_…`
that says what becomes of it; the modules on accounts, endings and coverage go through these lemmas
and never look at the table.  A window that is emitted is taken out of the table with what it has
counted (`emitted`).
-/

namespace ShredTools.Audit

/-- `FilterAudit` -/
structure FilterAudit where
  /-- The open windows, and those that wait for their checks. -/
  windows : AList fun _ : WindowKey => Window
  /-- Every slot that is a multiple of this is sampled. -/
  sampleEvery : ℕ
  /-- The configuration is rejected unless it is at least 1. -/
  sampleEvery_pos : 0 < sampleEvery
  /-- Whether the blocks come without votes. -/
  skipVotes : Bool

namespace FilterAudit

/-- `FilterAudit::new` -/
def new (sampleEvery : ℕ) (sampleEvery_pos : 0 < sampleEvery) (skipVotes : Bool) : FilterAudit where
  windows := ∅
  sampleEvery := sampleEvery
  sampleEvery_pos := sampleEvery_pos
  skipVotes := skipVotes

/-- `FilterAudit::open` -/
def openWindow (key : WindowKey) (info : WindowInfo) (a : FilterAudit) : FilterAudit :=
  { a with windows := a.windows.insert key (Window.new info) }

/-- `FilterAudit::with_window`, for an update of the window. -/
def withWindow (key : WindowKey) (f : Window → Window) (a : FilterAudit) : FilterAudit :=
  { a with windows := a.windows.modify key f }

/-- `FilterAudit::subscribed` -/
def subscribed (key : WindowKey) (tip : ℕ) (a : FilterAudit) : FilterAudit :=
  a.withWindow key fun w => { w with toCourse := w.subscribe tip }

/-- `FilterAudit::close` -/
def close (key : WindowKey) (tip : ℕ) (now : ℤ) (reason : String) (a : FilterAudit) : FilterAudit :=
  a.withWindow key fun w => { w with toCourse := w.toCourse.close tip now reason }

/-- `FilterAudit::on_delivery` -/
def onDelivery (base58 : List UInt8 → String) (key : WindowKey) (slot : ℕ) (tx : TxView)
    (tags : List String) (serverIsVote : Option Bool) (a : FilterAudit) : FilterAudit :=
  a.withWindow key
    (Window.onDelivery base58 a.sampleEvery a.skipVotes slot tx tags serverIsVote)

/-- `FilterAudit::take_ready` -/
def takeReady (lagSlots tip : ℕ) (a : FilterAudit) : FilterAudit × List SlotTask :=
  ({ a with
      windows := a.windows.mapValues fun key w =>
        { w with toCourse := (w.toCourse.takeReady a.sampleEvery lagSlots tip key).1 } },
    a.windows.entries.flatMap fun e =>
      (e.2.toCourse.takeReady a.sampleEvery lagSlots tip e.1).2)

/-- `FilterAudit::drain_violations` -/
def drainViolations (a : FilterAudit) : FilterAudit × List ViolationRow :=
  ({ a with windows := a.windows.mapValues fun _ w => { w with violations := [] } },
    a.windows.entries.flatMap fun e => e.2.violations)

/-- A window as it is emitted, with its key. -/
abbrev Emitted := WindowKey × Window

/-- `Window::finished`, of the window at a key. -/
def emitted (key : WindowKey) (w : Window) : Emitted :=
  (key, { w with toCourse := w.toCourse.finished })

/-- `FilterAudit::take_finished` -/
def takeFinished (tip floor : ℕ) (now : ℤ) (giveUpSecs : ℕ) (a : FilterAudit) :
    FilterAudit × List Emitted :=
  let done := a.windows.retain fun _ w => w.toCourse.Finished tip floor now giveUpSecs
  ({ a with
      windows := a.windows.retain fun _ w => ¬ w.toCourse.Finished tip floor now giveUpSecs },
    done.entries.map fun e => emitted e.1 e.2)

/-- `FilterAudit::take_all` -/
def takeAll (a : FilterAudit) : FilterAudit × List Emitted :=
  ({ a with windows := ∅ }, a.windows.entries.map fun e => emitted e.1 e.2)

/-- The course of the window at a key. -/
def course (a : FilterAudit) (key : WindowKey) : Option Course :=
  (a.windows.lookup key).map Window.toCourse

section Courses

variable {base58 : List UInt8 → String} {a : FilterAudit}

/-- The window at a key, among the entries of the table. -/
theorem exists_entry_of_course {key : WindowKey} {c : Course} (hc : a.course key = some c) :
    ∃ w, ⟨key, w⟩ ∈ a.windows.entries ∧ w.toCourse = c := by
  obtain ⟨w, hw, hwc⟩ := Option.map_eq_some_iff.mp hc
  exact ⟨w, AList.mem_entries_iff_lookup.mpr hw, hwc⟩

@[simp] theorem course_new (n : ℕ) (hn : 0 < n) (skipVotes : Bool) (key : WindowKey) :
    (new n hn skipVotes).course key = none := by
  unfold course new
  rw [AList.lookup_empty]
  rfl

/-- Opening a window starts its course afresh. -/
theorem course_openWindow (key : WindowKey) (info : WindowInfo) (key' : WindowKey) :
    (a.openWindow key info).course key' =
      if key' = key then some (Course.new info) else a.course key' := by
  unfold course openWindow
  by_cases h : key' = key
  · subst h
    rw [AList.lookup_insert, if_pos rfl]
    rfl
  · rw [AList.lookup_insert_ne h, if_neg h]

/-- An update of one window does to its course what it does to the window's. -/
theorem course_withWindow {key : WindowKey} {f : Window → Window} {g : Course → Course}
    (hfg : ∀ w, a.windows.lookup key = some w → (f w).toCourse = g w.toCourse)
    (key' : WindowKey) :
    (a.withWindow key f).course key' =
      if key' = key then (a.course key).map g else a.course key' := by
  unfold course withWindow
  rw [AList.lookup_modify]
  by_cases h : key' = key
  · rw [if_pos h, if_pos h, Option.map_map, Option.map_map]
    cases hw : a.windows.lookup key with
    | none => rfl
    | some w => exact congrArg some (hfg w hw)
  · rw [if_neg h, if_neg h]

theorem course_subscribed (key : WindowKey) (tip : ℕ) (key' : WindowKey) :
    (a.subscribed key tip).course key' =
      if key' = key then (a.course key).map (Course.subscribe tip) else a.course key' :=
  course_withWindow (fun _ _ => rfl) key'

theorem course_close (key : WindowKey) (tip : ℕ) (now : ℤ) (reason : String) (key' : WindowKey) :
    (a.close key tip now reason).course key' =
      if key' = key then (a.course key).map (Course.close tip now reason) else a.course key' :=
  course_withWindow (fun _ _ => rfl) key'

/-- A delivery is sampled with the mask that the bundle of its window reads from the tags. -/
theorem course_onDelivery (key : WindowKey) (slot : ℕ) (tx : TxView) (tags : List String)
    (serverIsVote : Option Bool) (key' : WindowKey) :
    (a.onDelivery base58 key slot tx tags serverIsVote).course key' =
      if key' = key then
        (a.course key).map fun c =>
          c.deliver a.sampleEvery a.skipVotes slot tx (c.info.bundle.readTags tx tags).mask
      else a.course key' :=
  course_withWindow (fun w _ => Window.toCourse_onDelivery base58 a.sampleEvery a.skipVotes slot tx
    tags serverIsVote w) key'

theorem course_takeReady (lagSlots tip : ℕ) (key : WindowKey) :
    (a.takeReady lagSlots tip).1.course key =
      (a.course key).map fun c => (c.takeReady a.sampleEvery lagSlots tip key).1 := by
  unfold course takeReady
  rw [AList.lookup_mapValues, Option.map_map, Option.map_map]
  rfl

@[simp] theorem course_drainViolations (key : WindowKey) :
    a.drainViolations.1.course key = a.course key := by
  unfold course drainViolations
  rw [AList.lookup_mapValues, Option.map_map]
  rfl

theorem course_takeFinished (tip floor : ℕ) (now : ℤ) (giveUpSecs : ℕ) (key : WindowKey) :
    (a.takeFinished tip floor now giveUpSecs).1.course key =
      (a.course key).filter fun c => ¬ c.Finished tip floor now giveUpSecs := by
  unfold course takeFinished
  rw [AList.lookup_retain]
  cases a.windows.lookup key with
  | none => rfl
  | some w =>
    by_cases h : w.toCourse.Finished tip floor now giveUpSecs
    · simp [Option.filter, h]
    · simp [Option.filter, h]

@[simp] theorem course_takeAll (key : WindowKey) : a.takeAll.1.course key = none := by
  unfold course takeAll
  rw [AList.lookup_empty]
  rfl

end Courses

end FilterAudit

end ShredTools.Audit
