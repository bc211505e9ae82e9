import ShredTools.Audit.FilterAccount
import ShredTools.Audit.FilterCheck
import ShredTools.Audit.FilterHandOut
import ShredTools.Library.Run

/-!
# Accounting for sampled slots

The books of a window are kept by its course, by the tasks that the checker holds, and by what the
checker has reported so far.  Each thing that the checker does to the windows moves these books as
`Account.Moves` allows: taking what is ready, settling tasks, and emitting windows.

`Course.ledger` reads the counts that the books need off the course of a window, and `account` puts
them together with what is placed, handed out, settled and emitted in the log, one key at a time.
`Course.ledger_takeReady` is the step that carries the rest: the cursor moves on by whole samples,
and the slots handed out are those that it passes, as long as no count wraps (`Course.CountsFit`).
The other lemmas say that settling, taking and reordering move the books, and `groupBySlot_perm`
that grouping tasks by their slot loses none.
-/

namespace ShredTools.Audit

/-- The ledger of a window, as its course has it. -/
def Course.ledger (c : Course) : SlotLedger :=
  ⟨c.nextCheck, c.inFlight, c.slotsChecked, c.slotsSkipped, c.slotsUnchecked⟩

namespace CheckEvent

/-- Where an event places the cursor of a window. -/
def placedAt (key : WindowKey) : CheckEvent → Option ℕ
  | placed key' next => if key' = key then some next else none
  | _ => none

/-- The slot that an event hands out for a window. -/
def handedAt (key : WindowKey) : CheckEvent → Option ℕ
  | handed task => if task.key = key then some task.slot else none
  | _ => none

/-- The slot of the task of a window that an event settles. -/
def settledAt (key : WindowKey) : CheckEvent → Option ℕ
  | settled task => if task.key = key then some task.slot else none
  | _ => none

/-- The course with which an event emits a window. -/
def emittedAt (key : WindowKey) : CheckEvent → Option Course
  | emitted window => if window.1 = key then some window.2.toCourse else none
  | _ => none

end CheckEvent

/-- The slots of the tasks of a window. -/
def slotsOf (key : WindowKey) (tasks : List SlotTask) : List ℕ :=
  (tasks.filter fun t => t.key = key).map SlotTask.slot

/-- The books of a window, by the windows, the tasks that wait and the events so far. -/
def account (key : WindowKey) (a : FilterAudit) (tasks : List SlotTask) (log : List CheckEvent) :
    Account where
  ledger := (a.course key).map Course.ledger
  waiting := slotsOf key tasks
  placed := log.filterMap (CheckEvent.placedAt key)
  handed := log.filterMap (CheckEvent.handedAt key)
  settled := log.filterMap (CheckEvent.settledAt key)
  emitted := (log.filterMap (CheckEvent.emittedAt key)).map Course.ledger

section Ledgers

variable {c : Course}

@[simp] theorem ledger_learnTip (slot : ℕ) : (c.learnTip slot).ledger = c.ledger := by
  unfold Course.learnTip
  split <;> rfl

/-- A delivery does not touch the ledger. -/
@[simp] theorem ledger_deliver (n : ℕ) (skipVotes : Bool) (slot : ℕ) (tx : TxView) (mask : Mask) :
    (c.deliver n skipVotes slot tx mask).ledger = c.ledger := by
  have hcount : (c.countDelivery slot).ledger = c.ledger := ledger_learnTip slot
  unfold Course.deliver
  dsimp only
  split
  · exact hcount
  · exact hcount

/-- Settling a task settles it in the ledger. -/
lemma settles_settle (outcome : Outcome) : c.ledger.Settles (c.settle outcome).ledger := by
  cases outcome with
  | checked =>
    refine ⟨rfl, rfl, ?_⟩
    simp only [Course.settle, Course.ledger, SlotLedger.counted]
    omega
  | skipped =>
    refine ⟨rfl, rfl, ?_⟩
    simp only [Course.settle, Course.ledger, SlotLedger.counted]
    omega
  | unchecked => exact ⟨rfl, rfl, rfl⟩

end Ledgers

section Slots

variable {key : WindowKey}

@[simp] lemma slotsOf_nil : slotsOf key [] = [] := rfl

@[simp] theorem slotsOf_append (tasks tasks' : List SlotTask) :
    slotsOf key (tasks ++ tasks') = slotsOf key tasks ++ slotsOf key tasks' := by
  unfold slotsOf
  rw [List.filter_append, List.map_append]

theorem slotsOf_perm {tasks tasks' : List SlotTask} (h : tasks.Perm tasks') :
    (slotsOf key tasks).Perm (slotsOf key tasks') :=
  (h.filter _).map _

/-- What a task has been through does not matter for its slot. -/
theorem slotsOf_map {f : SlotTask → SlotTask} (hkey : ∀ t, (f t).key = t.key)
    (hslot : ∀ t, (f t).slot = t.slot) (tasks : List SlotTask) :
    slotsOf key (tasks.map f) = slotsOf key tasks := by
  induction tasks with
  | nil => rfl
  | cons t tasks ih =>
    unfold slotsOf at ih ⊢
    rw [List.map_cons, List.filter_cons, List.filter_cons, hkey]
    split
    · rw [List.map_cons, List.map_cons, ih, hslot]
    · exact ih

end Slots

section Refinement

open Relation

variable {n : ℕ} {key : WindowKey} {a a' : FilterAudit} {tasks tasks' : List SlotTask}
  {log : List CheckEvent}

/-- A step that leaves the ledgers alone leaves the books alone. -/
theorem account_congr (h : (a'.course key).map Course.ledger = (a.course key).map Course.ledger) :
    account key a' tasks log = account key a tasks log := by
  unfold account
  rw [h]

/-- An update of a course that keeps its ledger leaves the ledgers alone. -/
theorem ledger_of_update {key' : WindowKey} {g : Course → Course}
    (hcourse : ∀ key, a'.course key =
      if key = key' then (a.course key').map g else a.course key)
    (hledger : ∀ c, (g c).ledger = c.ledger) :
    (a'.course key).map Course.ledger = (a.course key).map Course.ledger := by
  rw [hcourse key]
  split
  next heq =>
    subst heq
    rw [Option.map_map]
    exact congrArg (fun f => (a.course key).map f) (funext hledger)
  next => rfl

/-- The tasks may wait in any order. -/
theorem moves_reorder (h : (slotsOf key tasks).Perm (slotsOf key tasks')) :
    ReflTransGen (Account.Moves n) (account key a tasks log) (account key a tasks' log) :=
  ReflTransGen.single (Account.Moves.reorder h)

/-- A task that is settled is settled in the books of its window. -/
lemma moves_settle {t : SlotTask} {outcome : Outcome}
    (hcourse : ∀ key, a'.course key =
      if key = t.key then (a.course t.key).map (Course.settle outcome) else a.course key) :
    ReflTransGen (Account.Moves n) (account key a (t :: tasks) log)
      (account key a' tasks (log ++ [.settled t])) := by
  unfold account
  simp only [List.filterMap_append, List.filterMap_cons, List.filterMap_nil, CheckEvent.placedAt,
    CheckEvent.handedAt, CheckEvent.emittedAt, CheckEvent.settledAt, List.append_nil]
  rw [hcourse key]
  by_cases heq : t.key = key
  · subst heq
    rw [if_pos rfl, if_pos rfl]
    have hwaiting : slotsOf t.key (t :: tasks) = t.slot :: slotsOf t.key tasks := by
      unfold slotsOf
      rw [List.filter_cons_of_pos (by simp), List.map_cons]
    rw [hwaiting]
    refine ReflTransGen.single ?_
    cases hc : a.course t.key with
    | none => exact Account.Moves.settleGone rfl rfl
    | some c => exact Account.Moves.settle rfl rfl (settles_settle outcome)
  · rw [if_neg heq, if_neg fun h => heq h.symm]
    have hwaiting : slotsOf key (t :: tasks) = slotsOf key tasks := by
      unfold slotsOf
      rw [List.filter_cons_of_neg (by simpa using heq)]
    rw [hwaiting, List.append_nil]

/-- Several tasks that are settled one after the other move the books, too. -/
theorem moves_settleAll {f : FilterAudit → SlotTask → FilterAudit} {outcome : Outcome}
    (hcourse : ∀ a t key, (f a t).course key =
      if key = t.key then (a.course t.key).map (Course.settle outcome) else a.course key)
    (ts : List SlotTask) :
    ReflTransGen (Account.Moves n) (account key a (ts ++ tasks) log)
      (account key (ts.foldl f a) tasks (log ++ ts.map .settled)) := by
  induction ts generalizing a log with
  | nil =>
    rw [List.map_nil, List.append_nil]
    exact ReflTransGen.refl
  | cons t ts ih =>
    rw [List.map_cons, List.append_cons]
    exact (moves_settle (hcourse a t)).trans ih

/-! ### Taking what is ready -/

/-- The tasks that `take_ready` hands out for a window. -/
lemma filter_takeReady (lagSlots tip : ℕ) (a : FilterAudit) (key : WindowKey) :
    ((a.takeReady lagSlots tip).2.filter fun t => t.key = key) =
      (a.course key).elim [] fun c => (c.takeReady a.sampleEvery lagSlots tip key).2 := by
  unfold FilterAudit.takeReady FilterAudit.course
  have h := AList.filter_flatMap_entries
    (f := fun k (w : Window) => (w.toCourse.takeReady a.sampleEvery lagSlots tip k).2)
    (fun _ _ _ ht => Course.key_of_mem_takeReady ht) a.windows key
  refine Eq.trans h ?_
  cases a.windows.lookup key with
  | none => rfl
  | some w => rfl

/-- The placements of a window. -/
theorem filter_placements (tip : ℕ) (a : FilterAudit) (key : WindowKey) :
    ((a.placements tip).filter fun p => p.1 = key).map Prod.snd =
      (a.course key).elim [] (Course.placement a.sampleEvery tip) := by
  have h : ((a.placements tip).filter fun p => p.1 = key) =
      (a.windows.lookup key).elim [] fun w =>
        (w.toCourse.placement a.sampleEvery tip).map fun next => (key, next) :=
    AList.filter_flatMap_entries
      (f := fun k w => (w.toCourse.placement a.sampleEvery tip).map fun next => (k, next))
      (fun k w p hp => by
        obtain ⟨next, -, rfl⟩ := List.mem_map.mp hp
        rfl) a.windows key
  rw [h]
  unfold FilterAudit.course
  cases a.windows.lookup key with
  | none => rfl
  | some w =>
    dsimp only [Option.elim, Option.map]
    rw [List.map_map]
    exact List.map_id _

/-- Choosing some elements and mapping them, in one pass. -/
theorem filterMap_ite_eq_map_filter {α β : Type} (p : α → Prop) [DecidablePred p] (f : α → β)
    (l : List α) : (l.filterMap fun x => if p x then some (f x) else none) =
      (l.filter fun x => p x).map f := by
  rw [← List.filterMap_eq_map', List.filterMap_filter]
  simp only [decide_eq_true_eq]

/-- What the events of a `take_ready` say of a window. -/
lemma account_takeReady (ps : List (WindowKey × ℕ)) (ts : List SlotTask) :
    account key a' tasks
        (log ++ ((ps.map fun p => CheckEvent.placed p.1 p.2) ++ ts.map CheckEvent.handed)) =
      { account key a' tasks log with
        placed := (account key a' tasks log).placed ++
          ((ps.filter fun p => p.1 = key).map Prod.snd)
        handed := (account key a' tasks log).handed ++ slotsOf key ts } := by
  unfold account slotsOf
  simp only [List.filterMap_append, List.filterMap_map, Function.comp_def, CheckEvent.placedAt,
    CheckEvent.handedAt, CheckEvent.settledAt, CheckEvent.emittedAt, List.filterMap_none,
    filterMap_ite_eq_map_filter, List.append_nil, List.nil_append]

/-- No count of a window wraps in `take_ready`: not where the cursor is placed (unless the sample
distance divides the number of slots), not where it moves, and not in the tasks in flight. -/
structure Course.CountsFit (n lagSlots tip : ℕ) (c : Course) : Prop where
  /-- Rounding the start up does not wrap, if the cursor is placed there. -/
  place : c.nextCheck = none → (c.learnTip tip).startKnown tip →
    ∀ start ∈ (c.learnTip tip).startSlot, n ∣ u64Size ∨ divCeil start n * n < u64Size
  /-- The cursor fits where it moves. -/
  move : ∀ next ∈ (c.learnTip tip).cursor n tip,
    Course.CursorFits n lagSlots tip next (c.learnTip tip)
  /-- The tasks in flight fit in 32 bits. -/
  inFlight : ∀ next ∈ (c.learnTip tip).cursor n tip, ∀ k < maxTasksPerWindow,
    Course.Reaches n lagSlots tip ((c.learnTip tip).endSlot tip)
      ((c.learnTip tip).catchUp n lagSlots tip next).1 k → c.inFlight + (k + 1) < u32Size

instance (n lagSlots tip : ℕ) (c : Course) : Decidable (c.CountsFit n lagSlots tip) :=
  decidable_of_iff
    ((c.nextCheck = none → (c.learnTip tip).startKnown tip →
      ∀ start ∈ (c.learnTip tip).startSlot, n ∣ u64Size ∨ divCeil start n * n < u64Size) ∧
      (∀ next ∈ (c.learnTip tip).cursor n tip,
        Course.CursorFits n lagSlots tip next (c.learnTip tip)) ∧
      ∀ next ∈ (c.learnTip tip).cursor n tip, ∀ k < maxTasksPerWindow,
        Course.Reaches n lagSlots tip ((c.learnTip tip).endSlot tip)
          ((c.learnTip tip).catchUp n lagSlots tip next).1 k → c.inFlight + (k + 1) < u32Size)
    ⟨fun h => ⟨h.1, h.2.1, h.2.2⟩, fun h => ⟨h.place, h.move, h.inFlight⟩⟩

/-- Where the rounding fits, or its wrapping does no harm, the cursor is placed on a sampled
slot. -/
lemma dvd_roundUp_of_fits {start : ℕ} (h : n ∣ u64Size ∨ divCeil start n * n < u64Size) :
    n ∣ roundUp n start := by
  rcases h with h | h
  · exact (Nat.dvd_mod_iff h).mpr (Nat.dvd_mul_left n _)
  · exact dvd_roundUp h

/-- The cursor that `take_ready` uses is the one of the window, or it is placed on a sampled
slot. -/
lemma Course.cursor_cases {lagSlots tip next : ℕ} (c : Course)
    (hfit : c.CountsFit n lagSlots tip) (hnext : (c.learnTip tip).cursor n tip = some next) :
    c.nextCheck = some next ∧ c.placement n tip = [] ∨
      c.nextCheck = none ∧ c.placement n tip = [next] ∧ n ∣ next := by
  have hplace := hfit.place
  rw [← Course.nextCheck_learnTip tip c] at hplace
  unfold Course.placement
  rw [hnext, ← Course.nextCheck_learnTip tip c]
  generalize c.learnTip tip = d at hnext hplace
  unfold Course.cursor at hnext
  split at hnext
  · cases hnext
  next hnot =>
    obtain ⟨start, hstart, rfl⟩ := Option.map_eq_some_iff.mp hnext
    cases hcheck : d.nextCheck with
    | some next =>
      left
      exact ⟨rfl, if_neg (Option.some_ne_none next)⟩
    | none =>
      right
      have hknown : d.startKnown tip := by
        by_contra hunknown
        exact hnot ⟨hcheck, hunknown⟩
      exact ⟨rfl, if_pos rfl, dvd_roundUp_of_fits (hplace hcheck hknown start hstart)⟩

/-- What `take_ready` does to the course of a window that has a cursor, or gets one. -/
theorem Course.advances_takeReady (hn : 0 < n) {lagSlots tip next : ℕ} (c : Course)
    (hfit : c.CountsFit n lagSlots tip) (haligned : ∀ next ∈ c.nextCheck, n ∣ next)
    (hcursor : (c.learnTip tip).cursor n tip = some next) (key : WindowKey) :
    n ∣ next ∧ ∃ passed, Course.Advances n lagSlots tip next passed key (c.learnTip tip)
      (c.takeReady n lagSlots tip key) := by
  have hdvd : n ∣ next := by
    rcases c.cursor_cases hfit hcursor with ⟨hcheck, -⟩ | ⟨-, -, hdvd⟩
    · exact haligned next hcheck
    · exact hdvd
  have hready : c.takeReady n lagSlots tip key =
      (c.learnTip tip).advance n lagSlots tip key next := by
    unfold Course.takeReady
    dsimp only
    rw [hcursor]
  rw [hready]
  exact ⟨hdvd, Course.advances_advance hn hdvd (hfit.move next hcursor)⟩

/-- **What `take_ready` does to the ledger of a window**: nothing, or the cursor moves on, and the
slots that it hands out are the ones after those it passes over. -/
theorem Course.ledger_takeReady (hn : 0 < n) {lagSlots tip : ℕ} {c : Course}
    (hfit : c.CountsFit n lagSlots tip) (haligned : ∀ next ∈ c.nextCheck, n ∣ next)
    (hsmall : c.inFlight < u32Size) (key : WindowKey) :
    (c.placement n tip = [] ∧ (c.takeReady n lagSlots tip key).2 = [] ∧
        (c.takeReady n lagSlots tip key).1.ledger = c.ledger) ∨
      ∃ next passed handed,
        (c.nextCheck = some next ∧ c.placement n tip = [] ∨
          c.nextCheck = none ∧ c.placement n tip = [next] ∧ n ∣ next) ∧
        (c.takeReady n lagSlots tip key).1.ledger = c.ledger.advance n next passed handed ∧
        (c.takeReady n lagSlots tip key).2.map SlotTask.slot =
          List.range' (next + n * passed) handed n ∧
        c.inFlight + handed < u32Size := by
  cases hcursor : (c.learnTip tip).cursor n tip with
  | none =>
    left
    unfold Course.takeReady Course.placement
    dsimp only
    rw [hcursor]
    refine ⟨?_, rfl, ledger_learnTip tip⟩
    split <;> rfl
  | some next =>
    right
    have hcases := c.cursor_cases hfit hcursor
    obtain ⟨-, passed, hadv⟩ := c.advances_takeReady hn hfit haligned hcursor key
    have hcount := hfit.inFlight next hcursor
    rw [hadv.jump] at hcount
    generalize c.takeReady n lagSlots tip key = r at hadv
    have hinFlight : (c.learnTip tip).inFlight = c.inFlight :=
      congrArg SlotLedger.inFlight (ledger_learnTip tip)
    have hfits : c.inFlight + r.2.length < u32Size := by
      cases hlen : r.2.length with
      | zero => exact hsmall
      | succ k =>
        have hk : k < maxTasksPerWindow := by
          have := hadv.length_le
          omega
        refine hcount k hk fun j hj => hadv.due j ?_
        omega
    refine ⟨next, passed, r.2.length, hcases, ?_, hadv.slots, hfits⟩
    have hflight := hadv.inFlight (by rw [hinFlight]; exact hsmall)
    rw [hinFlight, Nat.mod_eq_of_lt hfits] at hflight
    have hledger : r.1.ledger = (c.learnTip tip).ledger.advance n next passed r.2.length := by
      unfold Course.ledger SlotLedger.advance
      dsimp only
      rw [hadv.nextCheck, hflight, hadv.slotsUnchecked, hinFlight,
        congrArg Course.slotsChecked hadv.frame, congrArg Course.slotsSkipped hadv.frame]
    rw [hledger, ledger_learnTip]

/-- **A `take_ready` in which no count wraps moves the books of every window.** -/
theorem moves_takeReady {lagSlots tip : ℕ}
    (hfit : ∀ e ∈ a.windows.entries, e.2.toCourse.CountsFit a.sampleEvery lagSlots tip)
    (hbalanced : (account key a tasks log).Balanced a.sampleEvery) :
    ReflTransGen (Account.Moves a.sampleEvery) (account key a tasks log)
      (account key (a.takeReady lagSlots tip).1 ((a.takeReady lagSlots tip).2 ++ tasks)
        (log ++ (((a.placements tip).map fun p => .placed p.1 p.2) ++
          (a.takeReady lagSlots tip).2.map .handed))) := by
  rw [account_takeReady, filter_placements]
  unfold account
  dsimp only
  have hslots : slotsOf key (a.takeReady lagSlots tip).2 =
      ((a.course key).elim [] fun c => (c.takeReady a.sampleEvery lagSlots tip key).2).map
        SlotTask.slot := congrArg (List.map SlotTask.slot) (filter_takeReady lagSlots tip a key)
  rw [slotsOf_append, hslots, FilterAudit.course_takeReady]
  cases hc : a.course key with
  | none =>
    dsimp only [Option.map, Option.elim, List.map]
    rw [List.append_nil, List.append_nil, List.nil_append]
  | some c =>
    have horder := hbalanced.ledger c.ledger (by
      unfold account
      rw [hc]
      rfl)
    obtain ⟨w, hentry, rfl⟩ := FilterAudit.exists_entry_of_course hc
    have hready := Course.ledger_takeReady a.sampleEvery_pos (hfit _ hentry)
      (fun next hnext => (horder.ahead next hnext).1) horder.small key
    dsimp only [Option.map, Option.elim]
    rcases hready with ⟨hplaced, htasks, hledger⟩ |
      ⟨next, passed, handed, hcases, hledger, htasks, hfits⟩
    · rw [hplaced, htasks, hledger, List.map_nil, List.append_nil, List.append_nil, List.nil_append]
    · rw [htasks, hledger]
      refine ReflTransGen.single ?_
      rcases hcases with ⟨hcheck, hplaced⟩ | ⟨hcheck, hplaced, hdvd⟩
      · rw [hplaced, List.append_nil]
        exact Account.Moves.advance passed handed rfl hcheck hfits
      · rw [hplaced]
        exact Account.Moves.place passed handed rfl hcheck hdvd hfits

/-! ### Emitting windows -/

/-- Windows that are emitted are gone, with their ledgers finished. -/
lemma moves_emit {es : List FilterAudit.Emitted}
    (h : (a'.course key = a.course key ∧ (es.filter fun e => e.1 = key) = []) ∨
      ∃ w : Window, a.course key = some w.toCourse ∧ a'.course key = none ∧
        (es.filter fun e => e.1 = key) = [FilterAudit.emitted key w]) :
    ReflTransGen (Account.Moves n) (account key a tasks log)
      (account key a' tasks (log ++ es.map .emitted)) := by
  have hemitted : (es.map CheckEvent.emitted).filterMap (CheckEvent.emittedAt key) =
      (es.filter fun e => e.1 = key).map fun e => e.2.toCourse := by
    rw [List.filterMap_map, ← filterMap_ite_eq_map_filter]
    rfl
  have hother : account key a' tasks (log ++ es.map .emitted) =
      { account key a' tasks log with
        emitted := (account key a' tasks log).emitted ++
          ((es.filter fun e => e.1 = key).map fun e => e.2.toCourse.ledger) } := by
    unfold account
    dsimp only
    rw [List.filterMap_append (f := CheckEvent.emittedAt key), hemitted, List.map_append,
      List.map_map]
    simp only [List.filterMap_append, List.filterMap_map, Function.comp_def, CheckEvent.placedAt,
      CheckEvent.handedAt, CheckEvent.settledAt, List.filterMap_none, List.append_nil]
  rw [hother]
  rcases h with ⟨hcourse, hes⟩ | ⟨w, hw, hgone, hes⟩
  · rw [hes, List.map_nil, List.append_nil, account_congr (by rw [hcourse])]
  · rw [hes]
    unfold account
    dsimp only
    rw [hw, hgone]
    exact ReflTransGen.single (Account.Moves.emit (l := w.toCourse.ledger) rfl)

/-- What is emitted of some windows for one key. -/
lemma filter_emitted (key : WindowKey) (windows : AList fun _ : WindowKey => Window) :
    ((windows.entries.map fun e => FilterAudit.emitted e.1 e.2).filter fun e => e.1 = key) =
      ((windows.lookup key).map (FilterAudit.emitted key)).toList :=
  AList.filter_map_entries (fun _ _ => rfl) windows key

/-- The windows that `take_finished` emits. -/
theorem moves_takeFinished (tip floor : ℕ) (now : ℤ) (giveUpSecs : ℕ) :
    ReflTransGen (Account.Moves n) (account key a tasks log)
      (account key (a.takeFinished tip floor now giveUpSecs).1 tasks
        (log ++ (a.takeFinished tip floor now giveUpSecs).2.map .emitted)) := by
  refine moves_emit ?_
  have hes := filter_emitted key
    (a.windows.retain fun _ w => w.toCourse.Finished tip floor now giveUpSecs)
  rw [AList.lookup_retain] at hes
  have hcourse := FilterAudit.course_takeFinished (a := a) tip floor now giveUpSecs key
  unfold FilterAudit.takeFinished at hcourse ⊢
  dsimp only at hcourse ⊢
  rw [hcourse]
  unfold FilterAudit.course
  cases hw : a.windows.lookup key with
  | none =>
    left
    rw [hw] at hes
    exact ⟨rfl, hes⟩
  | some w =>
    rw [hw] at hes
    by_cases hfinished : w.toCourse.Finished tip floor now giveUpSecs
    · right
      refine ⟨w, rfl, ?_, hes.trans ?_⟩
      · simp [Option.filter, hfinished]
      · simp [Option.filter, hfinished]
    · left
      refine ⟨?_, hes.trans ?_⟩
      · simp [Option.filter, hfinished]
      · simp [Option.filter, hfinished]

/-- The windows that `take_all` emits. -/
theorem moves_takeAll :
    ReflTransGen (Account.Moves n) (account key a tasks log)
      (account key a.takeAll.1 tasks (log ++ a.takeAll.2.map .emitted)) := by
  refine moves_emit ?_
  have hes := filter_emitted key a.windows
  have hgone : a.takeAll.1.course key = none := FilterAudit.course_takeAll key
  rw [hgone]
  unfold FilterAudit.takeAll FilterAudit.course
  dsimp only
  cases hw : a.windows.lookup key with
  | none =>
    left
    rw [hw] at hes
    exact ⟨rfl, hes⟩
  | some w =>
    right
    rw [hw] at hes
    exact ⟨w, rfl, rfl, hes⟩

/-! ### The steps of the worker -/

/-- Putting a task to the others of its slot adds it. -/
lemma insertTask_perm (gs : List (ℕ × List SlotTask)) (t : SlotTask) :
    ((insertTask gs t).flatMap Prod.snd).Perm (t :: gs.flatMap Prod.snd) := by
  induction gs with
  | nil => exact List.Perm.refl _
  | cons g gs ih =>
    obtain ⟨slot, ts⟩ := g
    unfold insertTask
    split_ifs with hlt heq
    · exact List.Perm.refl _
    · rw [List.flatMap_cons, List.flatMap_cons, List.append_assoc, List.singleton_append]
      exact List.perm_middle
    · rw [List.flatMap_cons, List.flatMap_cons]
      exact (ih.append_left ts).trans List.perm_middle

/-- Grouping tasks by slot keeps them all. -/
theorem groupBySlot_perm (ts : List SlotTask) :
    ((groupBySlot ts).flatMap Prod.snd).Perm ts := by
  have hfold : ∀ (ts : List SlotTask) (gs : List (ℕ × List SlotTask)),
      ((ts.foldl insertTask gs).flatMap Prod.snd).Perm (gs.flatMap Prod.snd ++ ts) := by
    intro ts
    induction ts with
    | nil =>
      intro gs
      rw [List.append_nil]
      exact List.Perm.refl _
    | cons t ts ih =>
      intro gs
      refine (ih (insertTask gs t)).trans (((insertTask_perm gs t).append_right ts).trans ?_)
      rw [List.cons_append]
      exact List.perm_middle.symm
  exact hfold ts []

end Refinement

end ShredTools.Audit
