import Mathlib.Data.Finset.Basic
import ShredTools.Audit.FilterCheck
import ShredTools.Audit.FilterHandOut
import ShredTools.Library.Run

/-!
# Does a task carry everything that was delivered?

`AuditCall` is a call of the filter audit by a source or by the checker, and a run is any sequence
of calls.  A task is complete if its deliveries are those of its window for its slot, since the
window was opened (`Complete`).

The frontier of a window is the place below which no slot will be handed out any more.  What is
delivered below the frontier may be dropped; a task is incomplete only if a slot comes to lie ahead
of the frontier although a delivery for it was dropped.  `FilterAudit.Undropped` says for each call
that it does not do so: a delivery ahead of the frontier is kept, and the frontier does not move
back.  Every task that is handed out after such calls is complete
(`takeReady_complete_of_undropped`).

A window that was silent for a while breaks the rule.  The cursor is placed without a delivery, and
the first delivery then moves the start past slots that the cursor has yet to reach
(`not_complete_firstDelivery`).
-/

namespace ShredTools.Audit

/-- A call of the filter audit. -/
inductive AuditCall
  | openWindow (key : WindowKey) (info : WindowInfo)
  | subscribed (key : WindowKey) (tip : ℕ)
  | close (key : WindowKey) (tip : ℕ) (now : ℤ) (reason : String)
  | onDelivery (key : WindowKey) (slot : ℕ) (tx : TxView) (tags : List String)
      (serverIsVote : Option Bool)
  | takeReady (lagSlots tip : ℕ)
  | compare (task : SlotTask) (fetched : Fetched)
  | unchecked (task : SlotTask)
  | drainViolations
  | takeFinished (tip floor : ℕ) (now : ℤ) (giveUpSecs : ℕ)
  | takeAll

/-- What a call does, and the tasks that it hands out. -/
def FilterAudit.call (base58 : List UInt8 → String) (a : FilterAudit) :
    AuditCall → FilterAudit × List SlotTask
  | .openWindow key info => (a.openWindow key info, [])
  | .subscribed key tip => (a.subscribed key tip, [])
  | .close key tip now reason => (a.close key tip now reason, [])
  | .onDelivery key slot tx tags serverIsVote =>
    (a.onDelivery base58 key slot tx tags serverIsVote, [])
  | .takeReady lagSlots tip => a.takeReady lagSlots tip
  | .compare task fetched => (a.compare base58 task fetched, [])
  | .unchecked task => (a.unchecked task, [])
  | .drainViolations => (a.drainViolations.1, [])
  | .takeFinished tip floor now giveUpSecs => ((a.takeFinished tip floor now giveUpSecs).1, [])
  | .takeAll => (a.takeAll.1, [])

/-! ### What was delivered -/

/-- One more call, after which some signatures count as delivered in a window for a slot: votes are
left out if the blocks lack them, and opening the window starts afresh. -/
def deliveredStep (skipVotes : Bool) (key : WindowKey) (slot : ℕ) (sigs : Finset Signature) :
    AuditCall → Finset Signature
  | .openWindow key' _ => if key' = key then ∅ else sigs
  | .onDelivery key' slot' tx _ _ =>
    if key' = key ∧ slot' = slot ∧ (skipVotes && tx.isVote) = false then insert tx.signature sigs
    else sigs
  | _ => sigs

/-- The signatures of the deliveries of a window for a slot, since the window was opened. -/
def delivered (skipVotes : Bool) (key : WindowKey) (slot : ℕ) (calls : List AuditCall) :
    Finset Signature :=
  calls.foldl (deliveredStep skipVotes key slot) ∅

@[simp] theorem delivered_concat (skipVotes : Bool) (key : WindowKey) (slot : ℕ)
    (calls : List AuditCall) (call : AuditCall) :
    delivered skipVotes key slot (calls ++ [call]) =
      deliveredStep skipVotes key slot (delivered skipVotes key slot calls) call := by
  unfold delivered
  rw [List.foldl_append, List.foldl_cons, List.foldl_nil]

/-- A task carries exactly what its window delivered for its slot in the calls before. -/
def Complete (skipVotes : Bool) (calls : List AuditCall) (task : SlotTask) : Prop :=
  task.deliveries.keys.toFinset = delivered skipVotes task.key task.slot calls

instance (skipVotes : Bool) (calls : List AuditCall) (task : SlotTask) :
    Decidable (Complete skipVotes calls task) :=
  inferInstanceAs (Decidable (_ = _))

/-! ### The frontier of a window -/

namespace Course

/-- No slot below the frontier will be handed out: it is the cursor, and before there is one the
start as known from the first delivery. -/
def frontier (c : Course) : ℕ :=
  match c.nextCheck with
  | some next => next
  | none =>
    match c.firstDeliveredSlot with
    | some first => max (c.tipOpen.getD 0) first + startMargin
    | none => 0

/-- What was kept for every sampled slot from the frontier on is what was delivered for it. -/
structure Covered (n : ℕ) (sigs : ℕ → Finset Signature) (c : Course) : Prop where
  /-- Nothing is lost and nothing is added. -/
  exact : ∀ slot, n ∣ slot → c.frontier ≤ slot → (c.deliveriesFor slot).keys.toFinset = sigs slot
  /-- The cursor stands on a sampled slot. -/
  aligned : ∀ next ∈ c.nextCheck, n ∣ next

variable {n : ℕ} {sigs : ℕ → Finset Signature} {c c' : Course}

/-- Nothing is lost as long as the frontier does not move back and what was kept ahead of it
stays. -/
theorem Covered.mono (h : c.Covered n sigs) (hfrontier : c.frontier ≤ c'.frontier)
    (hkept : ∀ slot, c'.frontier ≤ slot → c'.deliveriesFor slot = c.deliveriesFor slot)
    (haligned : ∀ next ∈ c'.nextCheck, n ∣ next) : c'.Covered n sigs where
  exact slot hdvd hle := by
    rw [hkept slot hle]
    exact h.exact slot hdvd (hfrontier.trans hle)
  aligned := haligned

/-- A window starts with nothing. -/
lemma covered_new (info : WindowInfo) : (new info).Covered n fun _ => ∅ where
  exact _ _ _ := rfl
  aligned _ h := by cases h

/-- The frontier does not move back when the opening tip is filled. -/
lemma frontier_le_learnTip (slot : ℕ) (c : Course) : c.frontier ≤ (c.learnTip slot).frontier := by
  unfold learnTip
  split
  next h =>
    unfold frontier
    dsimp only
    rw [h.2.1]
    cases c.nextCheck with
    | some next => exact Nat.le_refl _
    | none =>
      cases c.firstDeliveredSlot with
      | none => exact Nat.le_refl _
      | some first =>
        dsimp only [Option.getD]
        omega
  next => exact Nat.le_refl _

/-- Filling the opening tip keeps a window covered. -/
theorem Covered.learnTip (h : c.Covered n sigs) (slot : ℕ) : (c.learnTip slot).Covered n sigs :=
  h.mono (frontier_le_learnTip slot c) (fun slot' _ => deliveriesFor_learnTip slot slot' c)
    (by
      rw [nextCheck_learnTip]
      exact h.aligned)

/-! ### A delivery -/

/-- Counting a delivery keeps a window covered: the first one sets the frontier, and later ones do
not move it. -/
theorem Covered.countDelivery (h : c.Covered n sigs) (slot : ℕ) :
    (c.countDelivery slot).Covered n sigs := by
  have hfirst : Covered n sigs
      { c with
        delivered := c.delivered + 1
        firstDeliveredSlot := some (c.firstDeliveredSlot.getD slot) } := by
    refine h.mono ?_ (fun _ _ => rfl) h.aligned
    unfold frontier
    cases c.nextCheck with
    | some next => exact Nat.le_refl _
    | none =>
      cases c.firstDeliveredSlot with
      | none => exact Nat.zero_le _
      | some first => exact Nat.le_refl _
  exact (hfirst.learnTip slot).mono (Nat.le_refl _) (fun _ _ => rfl) (hfirst.learnTip slot).aligned

/-- A delivery for a sampled slot is not dropped while its slot is still to come: it is kept, as the
window starts at its slot or before, or the slot lies behind the frontier. -/
def KeepsOrBehind (n : ℕ) (skipVotes : Bool) (slot : ℕ) (tx : TxView) (c : Course) : Prop :=
  Window.Sampled n skipVotes slot tx →
    (c.countDelivery slot).Keeps slot ∨ slot < (c.countDelivery slot).frontier

instance (n : ℕ) (skipVotes : Bool) (slot : ℕ) (tx : TxView) (c : Course) :
    Decidable (c.KeepsOrBehind n skipVotes slot tx) :=
  inferInstanceAs (Decidable (_ → _ ∨ _))

/-- Keeping a delivery adds its signature to those of its slot. -/
lemma deliveriesFor_keep (slot : ℕ) (signature : Signature) (mask : Mask) (c : Course)
    (slot' : ℕ) :
    ((c.keep slot signature mask).deliveriesFor slot').keys.toFinset =
      if slot' = slot then insert signature (c.deliveriesFor slot').keys.toFinset
      else (c.deliveriesFor slot').keys.toFinset := by
  unfold deliveriesFor keep
  dsimp only
  rw [AList.lookup_upsert]
  by_cases heq : slot' = slot
  · subst heq
    rw [if_pos rfl, if_pos rfl]
    ext s
    rw [Finset.mem_insert, List.mem_toFinset, List.mem_toFinset, ← AList.mem_keys, ← AList.mem_keys]
    exact AList.mem_insert _
  · rw [if_neg heq, if_neg heq]

/-- A delivery that is not dropped keeps a window covered, with the delivery counted in. -/
theorem Covered.deliver (h : c.Covered n sigs) {skipVotes : Bool} {slot : ℕ} {tx : TxView}
    (hkeep : c.KeepsOrBehind n skipVotes slot tx) (mask : Mask) :
    (c.deliver n skipVotes slot tx mask).Covered n fun slot' =>
      if slot = slot' ∧ (skipVotes && tx.isVote) = false then insert tx.signature (sigs slot')
      else sigs slot' := by
  have hcount := h.countDelivery slot
  unfold Course.deliver
  dsimp only
  by_cases hsampled : Window.Sampled n skipVotes slot tx
  · by_cases hkeeps : (c.countDelivery slot).Keeps slot
    · rw [if_pos ⟨hsampled, hkeeps⟩]
      refine ⟨fun slot' hdvd hle => ?_, hcount.aligned⟩
      rw [deliveriesFor_keep, hcount.exact slot' hdvd hle]
      by_cases heq : slot' = slot
      · rw [if_pos heq, if_pos ⟨heq.symm, hsampled.1⟩]
      · rw [if_neg heq, if_neg fun hand => heq hand.1.symm]
    · rw [if_neg fun hand => hkeeps hand.2]
      refine ⟨fun slot' hdvd hle => ?_, hcount.aligned⟩
      -- the delivery is dropped, and its slot lies behind the frontier
      have hlt : slot < (c.countDelivery slot).frontier := (hkeep hsampled).resolve_left hkeeps
      have hne : slot ≠ slot' := by omega
      rw [if_neg fun hand => hne hand.1]
      exact hcount.exact slot' hdvd hle
  · rw [if_neg fun hand => hsampled hand.1]
    refine ⟨fun slot' hdvd hle => ?_, hcount.aligned⟩
    have hnot : ¬ (slot = slot' ∧ (skipVotes && tx.isVote) = false) := by
      rintro ⟨rfl, hvote⟩
      exact hsampled ⟨hvote, hdvd⟩
    rw [if_neg hnot]
    exact hcount.exact slot' hdvd hle

/-! ### A hand-out -/

/-- No slot wraps in `take_ready`: not where the cursor is placed, and not where it moves from
there. -/
structure Fits (n lagSlots tip : ℕ) (c : Course) : Prop where
  /-- The start and its rounding do not wrap, if the cursor is placed there. -/
  place : c.nextCheck = none → (c.learnTip tip).startKnown tip →
    ∀ opened ∈ (c.learnTip tip).tipOpen,
      divCeil (max opened (c.firstDeliveredSlot.getD 0) + startMargin) n * n < u64Size
  /-- The cursor fits where it moves. -/
  move : ∀ next ∈ (c.learnTip tip).cursor n tip, CursorFits n lagSlots tip next (c.learnTip tip)

instance (n lagSlots tip : ℕ) (c : Course) : Decidable (c.Fits n lagSlots tip) :=
  decidable_of_iff
    ((c.nextCheck = none → (c.learnTip tip).startKnown tip →
      ∀ opened ∈ (c.learnTip tip).tipOpen,
        divCeil (max opened (c.firstDeliveredSlot.getD 0) + startMargin) n * n < u64Size) ∧
      ∀ next ∈ (c.learnTip tip).cursor n tip, CursorFits n lagSlots tip next (c.learnTip tip))
    ⟨fun h => ⟨h.1, h.2⟩, fun h => ⟨h.place, h.move⟩⟩

/-- The cursor is found or placed on a sampled slot at or above the frontier. -/
lemma Covered.frontier_le_cursor (hn : 0 < n) {tip next : ℕ} (h : c.Covered n sigs)
    (hplace : c.nextCheck = none → c.startKnown tip → ∀ opened ∈ c.tipOpen,
      divCeil (max opened (c.firstDeliveredSlot.getD 0) + startMargin) n * n < u64Size)
    (hnext : c.cursor n tip = some next) : c.frontier ≤ next ∧ n ∣ next := by
  unfold cursor at hnext
  split at hnext
  · cases hnext
  next hnot =>
    obtain ⟨start, hstart, rfl⟩ := Option.map_eq_some_iff.mp hnext
    cases hcheck : c.nextCheck with
    | some next =>
      refine ⟨?_, h.aligned next hcheck⟩
      unfold frontier
      rw [hcheck]
      exact Nat.le_refl _
    | none =>
      have hknown : c.startKnown tip := by
        by_contra hunknown
        exact hnot ⟨hcheck, hunknown⟩
      unfold startSlot at hstart
      obtain ⟨opened, hopened, rfl⟩ := Option.map_eq_some_iff.mp hstart
      have hfit := hplace hcheck hknown opened hopened
      have hsum : max opened (c.firstDeliveredSlot.getD 0) + startMargin < u64Size :=
        Nat.lt_of_le_of_lt (le_divCeil_mul hn) hfit
      dsimp only [Option.getD_none]
      rw [Nat.mod_eq_of_lt hsum]
      refine ⟨?_, dvd_roundUp hfit⟩
      refine Nat.le_trans ?_ (le_roundUp hn hfit)
      unfold frontier
      rw [hcheck, hopened]
      cases c.firstDeliveredSlot with
      | none => exact Nat.zero_le _
      | some first => exact Nat.le_refl _

/-- **A hand-out that does not wrap keeps a window covered, and its tasks are complete.** -/
theorem Covered.takeReady (hn : 0 < n) {lagSlots tip : ℕ} {key : WindowKey}
    (h : c.Covered n sigs) (hfit : c.Fits n lagSlots tip) :
    (c.takeReady n lagSlots tip key).1.Covered n sigs ∧
      ∀ t ∈ (c.takeReady n lagSlots tip key).2,
        t.key = key ∧ t.deliveries.keys.toFinset = sigs t.slot := by
  have hlearnt := h.learnTip tip
  have hplace := hfit.place
  have hmove := hfit.move
  rw [← nextCheck_learnTip tip c, ← firstDeliveredSlot_learnTip tip c] at hplace
  unfold Course.takeReady
  dsimp only
  generalize c.learnTip tip = d at hlearnt hplace hmove
  cases hcursor : d.cursor n tip with
  | none => exact ⟨hlearnt, fun t ht => absurd ht List.not_mem_nil⟩
  | some next =>
    -- the cursor never goes back behind what was recorded in full
    obtain ⟨hle, hdvd⟩ := hlearnt.frontier_le_cursor hn hplace hcursor
    obtain ⟨passed, hadv⟩ : ∃ passed, Advances n lagSlots tip next passed key d _ :=
      advances_advance hn hdvd (hmove next hcursor)
    dsimp only
    have hfrontier : (d.advance n lagSlots tip key next).1.frontier =
        next + n * (passed + (d.advance n lagSlots tip key next).2.length) := by
      unfold frontier
      rw [hadv.nextCheck]
    constructor
    · refine hlearnt.mono ?_ ?_ ?_
      · rw [hfrontier]
        omega
      · intro slot hslot
        rw [hfrontier] at hslot
        exact hadv.ahead slot hslot
      · rw [hadv.nextCheck]
        intro next' hmem
        rw [← Option.mem_some_iff.mp hmem]
        exact Nat.dvd_add hdvd (Nat.dvd_mul_right n _)
    · intro t ht
      have hslot : t.slot ∈ List.range' (next + n * passed)
          (d.advance n lagSlots tip key next).2.length n := by
        rw [← hadv.slots]
        exact List.mem_map_of_mem ht
      obtain ⟨i, -, hi⟩ := List.mem_range'.mp hslot
      have hkey : t.key = key := congrArg SlotTask.key (hadv.task t ht)
      have hdeliveries : t.deliveries = d.deliveriesFor t.slot :=
        congrArg SlotTask.deliveries (hadv.task t ht)
      have hsampled : n ∣ t.slot := by
        rw [hi]
        exact Nat.dvd_add (Nat.dvd_add hdvd (Nat.dvd_mul_right n _)) (Nat.dvd_mul_right n _)
      -- so what is handed out lies ahead, where every delivery was recorded
      have hahead : d.frontier ≤ t.slot := by omega
      refine ⟨hkey, ?_⟩
      rw [hdeliveries]
      exact hlearnt.exact t.slot hsampled hahead

/-! ### The other calls -/

/-- A subscription does not move the frontier back: where there is no cursor yet, but a delivery,
the tip is not below the tip known so far (nor the first delivery below it). -/
def SubscribesAhead (tip : ℕ) (c : Course) : Prop :=
  c.nextCheck = none → ∀ first ∈ c.firstDeliveredSlot, ∀ opened ∈ c.tipOpen, opened ≤ max tip first

instance (tip : ℕ) (c : Course) : Decidable (c.SubscribesAhead tip) :=
  inferInstanceAs (Decidable (_ → ∀ first ∈ c.firstDeliveredSlot, ∀ opened ∈ c.tipOpen,
    opened ≤ max tip first))

/-- Such a subscription keeps a window covered. -/
theorem Covered.subscribe (h : c.Covered n sigs) {tip : ℕ} (htip : c.SubscribesAhead tip) :
    (c.subscribe tip).Covered n sigs := by
  refine h.mono ?_ (fun _ _ => rfl) h.aligned
  unfold SubscribesAhead at htip
  unfold frontier Course.subscribe
  dsimp only
  cases hcheck : c.nextCheck with
  | some next => exact Nat.le_refl _
  | none =>
    cases hfirst : c.firstDeliveredSlot with
    | none => exact Nat.le_refl _
    | some first =>
      have hopened : c.tipOpen.getD 0 ≤ max tip first := by
        cases hopen : c.tipOpen with
        | none => exact Nat.zero_le _
        | some opened => exact htip hcheck first hfirst opened hopen
      have hnew : (if 0 < tip then some tip else none).getD 0 = tip := by
        split
        · rfl
        · simp only [Option.getD_none]
          omega
      dsimp only
      rw [hnew]
      omega

/-- Closing a window and settling a task keep it covered. -/
theorem Covered.close (h : c.Covered n sigs) (tip : ℕ) (now : ℤ) (reason : String) :
    (c.close tip now reason).Covered n sigs :=
  h.mono (Nat.le_refl _) (fun _ _ => rfl) h.aligned

theorem Covered.settle (h : c.Covered n sigs) (outcome : Outcome) :
    (c.settle outcome).Covered n sigs := by
  cases outcome <;> exact h.mono (Nat.le_refl _) (fun _ _ => rfl) h.aligned

end Course

/-! ### Runs -/

namespace FilterAudit

/-- The condition on a call under which no task can miss a delivery: a delivery for a sampled slot
is kept unless its slot lies behind the frontier, a subscription does not move the frontier back,
and in a hand-out no slot wraps. -/
def Undropped (a : FilterAudit) : AuditCall → Prop
  | .subscribed key tip => ∀ c ∈ a.course key, c.SubscribesAhead tip
  | .onDelivery key slot tx _ _ =>
    ∀ c ∈ a.course key, c.KeepsOrBehind a.sampleEvery a.skipVotes slot tx
  | .takeReady lagSlots tip => ∀ e ∈ a.windows.entries, e.2.toCourse.Fits a.sampleEvery lagSlots tip
  | _ => True

instance (a : FilterAudit) (call : AuditCall) : Decidable (a.Undropped call) :=
  match call with
  | .subscribed key tip => inferInstanceAs (Decidable (∀ c ∈ a.course key, c.SubscribesAhead tip))
  | .onDelivery key slot tx _ _ =>
    inferInstanceAs (Decidable (∀ c ∈ a.course key,
      c.KeepsOrBehind a.sampleEvery a.skipVotes slot tx))
  | .takeReady lagSlots tip =>
    inferInstanceAs (Decidable (∀ e ∈ a.windows.entries,
      e.2.toCourse.Fits a.sampleEvery lagSlots tip))
  | .openWindow _ _ | .close _ _ _ _ | .compare _ _ | .unchecked _ | .drainViolations
  | .takeFinished _ _ _ _ | .takeAll => isTrue trivial

variable (base58 : List UInt8 → String)

/-- A run of calls that all meet the condition. -/
def UndroppedRun : FilterAudit → List AuditCall → Prop
  | _, [] => True
  | a, call :: calls => a.Undropped call ∧ UndroppedRun (a.call base58 call).1 calls

instance decidableUndroppedRun (a : FilterAudit) :
    (calls : List AuditCall) → Decidable (a.UndroppedRun base58 calls)
  | [] => isTrue trivial
  | call :: calls =>
    have := decidableUndroppedRun (a.call base58 call).1 calls
    inferInstanceAs (Decidable (_ ∧ _))

/-- Every window is covered, given the calls so far. -/
def AllCovered (calls : List AuditCall) (a : FilterAudit) : Prop :=
  ∀ key, ∀ c ∈ a.course key,
    c.Covered a.sampleEvery fun slot => delivered a.skipVotes key slot calls

/-- The configuration never changes. -/
theorem config_call (a : FilterAudit) (call : AuditCall) :
    (a.call base58 call).1.sampleEvery = a.sampleEvery ∧
      (a.call base58 call).1.skipVotes = a.skipVotes := by
  cases call <;> exact ⟨rfl, rfl⟩

variable {base58}

/-- A call that updates the course of one window keeps all windows covered, if it keeps that one
covered and delivers nothing in others. -/
theorem AllCovered.of_update {calls : List AuditCall} {a : FilterAudit} {call : AuditCall}
    {key : WindowKey} {g : Course → Course} (h : a.AllCovered calls)
    (hcourse : ∀ key', (a.call base58 call).1.course key' =
      if key' = key then (a.course key).map g else a.course key')
    (hg : ∀ c ∈ a.course key,
      c.Covered a.sampleEvery (fun slot => delivered a.skipVotes key slot calls) →
        (g c).Covered a.sampleEvery fun slot =>
          deliveredStep a.skipVotes key slot (delivered a.skipVotes key slot calls) call)
    (hother : ∀ key', key' ≠ key →
      ∀ slot sigs, deliveredStep a.skipVotes key' slot sigs call = sigs) :
    (a.call base58 call).1.AllCovered (calls ++ [call]) := by
  intro key' c hc
  obtain ⟨hevery, hvotes⟩ := config_call base58 a call
  rw [hevery, hvotes]
  simp only [delivered_concat]
  rw [hcourse key'] at hc
  split at hc
  next heq =>
    subst heq
    obtain ⟨d, hd, rfl⟩ := Option.map_eq_some_iff.mp hc
    exact hg d hd (h key' d hd)
  next hne =>
    simp only [hother key' hne]
    exact h key' c hc

/-- A call that at most drops windows keeps the others covered. -/
lemma AllCovered.of_subset {calls : List AuditCall} {a : FilterAudit} {call : AuditCall}
    (h : a.AllCovered calls)
    (hcourse : ∀ key, ∀ c ∈ (a.call base58 call).1.course key, c ∈ a.course key)
    (hstep : ∀ key slot sigs, deliveredStep a.skipVotes key slot sigs call = sigs) :
    (a.call base58 call).1.AllCovered (calls ++ [call]) := by
  intro key c hc
  obtain ⟨hevery, hvotes⟩ := config_call base58 a call
  rw [hevery, hvotes]
  simp only [delivered_concat, hstep]
  exact h key c (hcourse key c hc)

/-- Opening a window keeps all windows covered. -/
theorem AllCovered.openWindow {calls : List AuditCall} {a : FilterAudit} (h : a.AllCovered calls)
    (key : WindowKey) (info : WindowInfo) :
    (a.openWindow key info).AllCovered (calls ++ [.openWindow key info]) := by
  intro key' c hc
  rw [course_openWindow] at hc
  simp only [delivered_concat, deliveredStep]
  by_cases heq : key' = key
  · subst heq
    rw [if_pos rfl, Option.mem_some_iff] at hc
    subst hc
    simp only [if_pos]
    exact Course.covered_new info
  · rw [if_neg heq] at hc
    simp only [if_neg (Ne.symm heq)]
    exact h key' c hc

/-- A hand-out in which no slot wraps keeps all windows covered, and its tasks are complete. -/
theorem AllCovered.takeReady {calls : List AuditCall} {a : FilterAudit} (h : a.AllCovered calls)
    {lagSlots tip : ℕ} (hfit : a.Undropped (.takeReady lagSlots tip)) :
    (a.takeReady lagSlots tip).1.AllCovered (calls ++ [.takeReady lagSlots tip]) ∧
      ∀ task ∈ (a.takeReady lagSlots tip).2, Complete a.skipVotes calls task := by
  constructor
  · intro key c hc
    rw [course_takeReady] at hc
    obtain ⟨d, hd, rfl⟩ := Option.map_eq_some_iff.mp hc
    obtain ⟨w, hentry, rfl⟩ := exists_entry_of_course hd
    simp only [delivered_concat, deliveredStep]
    exact ((h key _ hd).takeReady a.sampleEvery_pos (hfit _ hentry)).1
  · intro task htask
    unfold FilterAudit.takeReady at htask
    obtain ⟨e, hentry, htask⟩ := List.mem_flatMap.mp htask
    have hcourse : e.2.toCourse ∈ a.course e.1 :=
      Option.map_eq_some_iff.mpr ⟨e.2, AList.mem_entries_iff_lookup.mp hentry, rfl⟩
    obtain ⟨hkey, hdeliveries⟩ :=
      ((h e.1 _ hcourse).takeReady a.sampleEvery_pos (hfit e hentry)).2 task htask
    unfold Complete
    rw [hdeliveries, hkey]

/-- **A call that meets the condition keeps all windows covered.** -/
theorem AllCovered.call {calls : List AuditCall} {a : FilterAudit} {call : AuditCall}
    (h : a.AllCovered calls) (hcall : a.Undropped call) :
    (a.call base58 call).1.AllCovered (calls ++ [call]) := by
  cases call with
  | openWindow key info => exact h.openWindow key info
  | subscribed key tip =>
    exact h.of_update (fun key' => course_subscribed key tip key')
      (fun c hc hcovered => hcovered.subscribe (hcall c hc)) (fun _ _ _ _ => rfl)
  | close key tip now reason =>
    exact h.of_update (fun key' => course_close key tip now reason key')
      (fun c _ hcovered => hcovered.close tip now reason) (fun _ _ _ _ => rfl)
  | onDelivery key slot tx tags serverIsVote =>
    refine h.of_update (fun key' => course_onDelivery key slot tx tags serverIsVote key') ?_ ?_
    · intro c hc hcovered
      have hdeliver := hcovered.deliver (hcall c hc) (c.info.bundle.readTags tx tags).mask
      dsimp only [deliveredStep]
      simpa only [true_and] using hdeliver
    · intro key' hne slot' sigs
      dsimp only [deliveredStep]
      rw [if_neg fun hand => hne hand.1.symm]
  | takeReady lagSlots tip => exact (h.takeReady hcall).1
  | compare task fetched =>
    exact h.of_update (fun key' => course_compare base58 task fetched a key')
      (fun c _ hcovered => hcovered.settle fetched.outcome) (fun _ _ _ _ => rfl)
  | unchecked task =>
    exact h.of_update (fun key' => course_unchecked task a key')
      (fun c _ hcovered => hcovered.settle .unchecked) (fun _ _ _ _ => rfl)
  | drainViolations =>
    refine h.of_subset (fun key c hc => ?_) (fun _ _ _ => rfl)
    rwa [FilterAudit.call, course_drainViolations] at hc
  | takeFinished tip floor now giveUpSecs =>
    refine h.of_subset (fun key c hc => ?_) (fun _ _ _ => rfl)
    rw [FilterAudit.call, course_takeFinished] at hc
    exact (Option.filter_eq_some_iff.mp hc).1
  | takeAll =>
    refine h.of_subset (fun key c hc => ?_) (fun _ _ _ => rfl)
    rw [FilterAudit.call, course_takeAll] at hc
    cases hc

/-- The tasks that a call of a covered audit hands out are complete. -/
theorem AllCovered.complete {calls : List AuditCall} {a : FilterAudit} {call : AuditCall}
    (h : a.AllCovered calls) (hcall : a.Undropped call) :
    ∀ task ∈ (a.call base58 call).2, Complete a.skipVotes calls task := by
  cases call with
  | takeReady lagSlots tip => exact (h.takeReady hcall).2
  | _ => exact fun task htask => absurd htask List.not_mem_nil

/-- Along a run of calls that meet the condition every task is complete. -/
theorem AllCovered.run {calls before later : List AuditCall} {call : AuditCall} {a : FilterAudit}
    (h : a.AllCovered calls) (hrun : a.UndroppedRun base58 (before ++ call :: later)) :
    ∀ task ∈ ((Machine.finalState (FilterAudit.call base58) a before).call base58 call).2,
      Complete a.skipVotes (calls ++ before) task := by
  induction before generalizing calls a with
  | nil =>
    rw [List.append_nil]
    exact h.complete hrun.1
  | cons first before ih =>
    have hrest := ih (h.call hrun.1) hrun.2
    rw [(config_call base58 a first).2, List.append_assoc, List.singleton_append] at hrest
    exact hrest

/-- **Every task carries exactly what its window delivered for its slot**, in every run of calls
that all meet the condition: a delivery for a sampled slot is kept unless its slot lies behind the
frontier, a subscription does not move the frontier back, and in a hand-out no slot wraps. -/
theorem takeReady_complete_of_undropped {base58 : List UInt8 → String} {n : ℕ} (hn : 0 < n)
    (skipVotes : Bool) {calls : List AuditCall}
    (hrun : (new n hn skipVotes).UndroppedRun base58 calls) :
    ∀ before call later, calls = before ++ call :: later →
      ∀ task ∈ ((Machine.finalState (FilterAudit.call base58) (new n hn skipVotes) before).call
        base58 call).2, Complete skipVotes before task := by
  intro before call later hsplit
  have hstart : (new n hn skipVotes).AllCovered [] := by
    intro key c hc
    rw [course_new] at hc
    cases hc
  rw [hsplit] at hrun
  exact hstart.run hrun

end FilterAudit

/-! ### A window that was silent -/

section Examples

/-- A transaction with a signature of equal bytes, which is no vote. -/
def plainTx (byte : UInt8) : TxView where
  signature := Vector.replicate 64 byte
  numSignatures := 1
  legacy := false
  keys := []
  numStaticKeys := 0
  numInstructions := 0
  firstProgram := none
  failed := none

/-- A window goes live at tip 1000 and stays silent; at tip 1100 the checker takes its first slots,
which leaves the cursor at 1070.  Then the first deliveries come, for 1090 and 1150. -/
def silentCalls : List AuditCall :=
  [.openWindow (0, 0) ⟨"g", .grpcDeshred, none, Bundle.all⟩, .subscribed (0, 0) 1000,
    .takeReady 32 1100, .onDelivery (0, 0) 1090 (plainTx 1) [] none,
    .onDelivery (0, 0) 1150 (plainTx 2) [] none]

/-- The tasks handed out next are not complete: one is for 1090, and it lacks the delivery. -/
theorem not_complete_firstDelivery :
    ¬ ∀ task ∈ ((Machine.finalState (FilterAudit.call fun _ => "")
        (FilterAudit.new 10 (by decide) false) silentCalls).call (fun _ => "")
        (.takeReady 32 1150)).2, Complete false silentCalls task := by
  decide

/-- A window whose first delivery comes before its cursor is placed. -/
def promptCalls : List AuditCall :=
  [.openWindow (0, 0) ⟨"g", .grpcDeshred, none, Bundle.all⟩, .subscribed (0, 0) 1000,
    .onDelivery (0, 0) 1003 (plainTx 4) [] none, .onDelivery (0, 0) 1010 (plainTx 1) [] none,
    .onDelivery (0, 0) 1030 (plainTx 3) [] none]

/-- One slot is ready, and its task is complete. -/
theorem takeReady_complete_prompt :
    ((Machine.finalState (FilterAudit.call fun _ => "")
        (FilterAudit.new 10 (by decide) false) promptCalls).call (fun _ => "")
        (.takeReady 32 1042)).2.map SlotTask.slot = [1010] ∧
      ∀ task ∈ ((Machine.finalState (FilterAudit.call fun _ => "")
          (FilterAudit.new 10 (by decide) false) promptCalls).call (fun _ => "")
          (.takeReady 32 1042)).2, Complete false promptCalls task := by
  have hrun : (FilterAudit.new 10 (by decide) false).UndroppedRun (fun _ => "")
      (promptCalls ++ [.takeReady 32 1042]) := by
    decide
  constructor
  · decide
  · exact FilterAudit.takeReady_complete_of_undropped (by decide) false hrun promptCalls _ [] rfl

end Examples

end ShredTools.Audit
