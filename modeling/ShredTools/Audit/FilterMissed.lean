import ShredTools.Audit.FilterCompare
import ShredTools.Audit.FilterVerdicts

/-!
# Which transactions count as missed

A window keeps one mask for each signature of a sampled slot, and a transaction of the block counts
as missed for a filter if the mask lacks its bit.  A delivery that comes again writes the mask
again, so it is the mask of the last one (`lookup_deliveriesFor`).  A transaction that was delivered
for a filter is not missed for it exactly if its last delivery was for the filter, too
(`missed_only_if_undelivered_iff`).

The deliveries recorded for a slot are a part of those made: sampled slots only, without votes if
these are skipped, and none before the window begins (`Window.Records`).  `AllRecorded` says that
none of a signature is left out or dropped, so that the mask is that of the last delivery made.  The
runs at the end deliver one transaction for two filters, one after the other, in both orders.
-/

namespace ShredTools.Audit

/-! ### What is recorded -/

/-- One more call, after which some updates count as delivered with a signature in a window and
slot. -/
def updatesForStep (key : WindowKey) (slot : ℕ) (signature : Signature) (us : List Update) :
    AuditCall → List Update
  | .openWindow key' _ => if key' = key then [] else us
  | .onDelivery key' slot' tx tags _ =>
    if key' = key ∧ slot' = slot ∧ tx.signature = signature then us ++ [(tx, tags)] else us
  | _ => us

/-- The updates delivered with a signature in a window and slot, since the window was opened. -/
def updatesFor (key : WindowKey) (slot : ℕ) (signature : Signature) (calls : List AuditCall) :
    List Update :=
  calls.foldl (updatesForStep key slot signature) []

/-- Whether a window keeps a delivery for the check of its slot. -/
def Window.Records (n : ℕ) (skipVotes : Bool) (slot : ℕ) (tx : TxView) (w : Window) : Prop :=
  Window.Sampled n skipVotes slot tx ∧ (w.countDelivery slot).Keeps slot

instance (n : ℕ) (skipVotes : Bool) (slot : ℕ) (tx : TxView) (w : Window) :
    Decidable (w.Records n skipVotes slot tx) :=
  inferInstanceAs (Decidable (_ ∧ _))

section Run

variable (base58 : List UInt8 → String) (n : ℕ) (skipVotes : Bool) (key : WindowKey) (slot : ℕ)
  (signature : Signature)

/-- One more call, after which some of these updates are recorded: a delivery is if it is kept, and
none is once the slot was handed out or passed over. -/
def recordedStep (before : Option Window) (us : List Update) : AuditCall → List Update
  | .openWindow key' _ => if key' = key then [] else us
  | .onDelivery key' slot' tx tags _ =>
    if (key' = key ∧ slot' = slot ∧ tx.signature = signature) ∧
        before.any fun w => w.Records n skipVotes slot tx then us ++ [(tx, tags)]
    else us
  | .takeReady lagSlots tip =>
    if before.any fun w => slot ∈ (w.toCourse.takeReady n lagSlots tip key).1.sampled then us
    else []
  | _ => us

/-- The updates with a signature that are recorded in a window for a slot. -/
def recordedFor (calls : List AuditCall) : List Update :=
  trackedAt base58 n skipVotes key (recordedStep n skipVotes key slot signature) [] calls

lemma recordedFor_concat (calls : List AuditCall) (call : AuditCall) :
    recordedFor base58 n skipVotes key slot signature (calls ++ [call]) =
      recordedStep n skipVotes key slot signature (windowAt base58 n skipVotes key calls)
        (recordedFor base58 n skipVotes key slot signature calls) call :=
  trackedAt_concat base58 n skipVotes key _ _ calls call

end Run

/-! ### The mask that is kept -/

namespace Course

variable {n lagSlots tip : ℕ} {key : WindowKey} {slot : ℕ} {signature : Signature}

/-- What a delivery that is kept leaves for a signature: its mask. -/
lemma lookup_keep (slot' : ℕ) (signature' : Signature) (mask : Mask) (c : Course) :
    ((c.keep slot' signature' mask).deliveriesFor slot).lookup signature =
      if slot' = slot ∧ signature' = signature then some mask
      else (c.deliveriesFor slot).lookup signature := by
  unfold deliveriesFor keep
  dsimp only
  rw [AList.lookup_upsert]
  by_cases hslot : slot = slot'
  · subst hslot
    rw [if_pos rfl, Option.getD_some]
    by_cases hsig : signature' = signature
    · subst hsig
      rw [AList.lookup_insert, if_pos ⟨rfl, rfl⟩]
    · rw [AList.lookup_insert_ne (Ne.symm hsig), if_neg fun hand => hsig hand.2]
  · rw [if_neg hslot, if_neg fun hand => hslot hand.1.symm]

/-- Counting a delivery does not touch what is kept. -/
theorem deliveriesFor_countDelivery (slot' : ℕ) (c : Course) :
    (c.countDelivery slot').deliveriesFor slot = c.deliveriesFor slot := by
  unfold countDelivery
  exact deliveriesFor_learnTip slot' slot _

/-- What the loop of `take_ready` leaves was there before. -/
lemma lookup_sampled_handOut {last next room : ℕ} {c : Course} {m : Deliveries}
    (h : (handOut n lagSlots tip key last room next c).2.1.sampled.lookup slot = some m) :
    c.sampled.lookup slot = some m := by
  induction room generalizing next c with
  | zero => exact h
  | succ room ih =>
    unfold handOut at h
    split at h
    · have hone := ih h
      unfold handOne at hone
      by_cases hslot : slot = next
      · subst hslot
        rw [AList.lookup_erase] at hone
        cases hone
      · rwa [AList.lookup_erase_ne hslot] at hone
    · exact h

/-- **What `take_ready` leaves for a slot**: what was kept for it, or nothing. -/
theorem deliveriesFor_takeReady (c : Course) :
    (c.takeReady n lagSlots tip key).1.deliveriesFor slot =
      if slot ∈ (c.takeReady n lagSlots tip key).1.sampled then c.deliveriesFor slot else ∅ := by
  have hsub : ∀ m, (c.takeReady n lagSlots tip key).1.sampled.lookup slot = some m →
      (c.learnTip tip).sampled.lookup slot = some m := by
    intro m hm
    unfold takeReady at hm
    dsimp only at hm
    generalize c.learnTip tip = d at hm ⊢
    split at hm
    · exact hm
    · unfold advance moveCursor at hm
      dsimp only at hm
      rw [AList.lookup_retain] at hm
      have hhanded := lookup_sampled_handOut (Option.filter_eq_some_iff.mp hm).1
      have hcaught : ∀ next, (d.catchUp n lagSlots tip next).2.sampled = d.sampled := by
        have hcount : ∀ x, ({ d with slotsUnchecked := x } : Course).sampled = d.sampled :=
          fun _ => rfl
        intro next
        unfold catchUp
        dsimp only
        split
        · exact hcount _
        · rfl
      rw [hcaught] at hhanded
      exact hhanded
  split
  next hmem =>
    obtain ⟨m, hm⟩ := Option.isSome_iff_exists.mp (AList.lookup_isSome.mpr hmem)
    rw [← deliveriesFor_learnTip tip slot c]
    unfold deliveriesFor
    rw [hm, hsub m hm]
  next hmem =>
    unfold deliveriesFor
    rw [AList.lookup_eq_none.mpr hmem]
    rfl

end Course

section Mask

variable {base58 : List UInt8 → String} {n : ℕ} {skipVotes : Bool} {key : WindowKey} {slot : ℕ}
  {signature : Signature}

/-- What a delivery leaves for a signature in a slot: its mask, if it is recorded for it. -/
theorem Window.lookup_onDelivery (slot' : ℕ) (tx : TxView) (tags : List String)
    (serverIsVote : Option Bool) (w : Window) :
    ((w.onDelivery base58 n skipVotes slot' tx tags serverIsVote).deliveriesFor slot).lookup
        signature =
      if (slot' = slot ∧ tx.signature = signature) ∧ w.Records n skipVotes slot tx then
        some (w.info.bundle.readTags tx tags).mask
      else (w.deliveriesFor slot).lookup signature := by
  rw [toCourse_onDelivery]
  unfold Course.deliver
  dsimp only
  by_cases hslot : slot' = slot
  · subst hslot
    by_cases hrecords : Window.Sampled n skipVotes slot' tx ∧ (w.countDelivery slot').Keeps slot'
    · rw [if_pos hrecords, Course.lookup_keep, Course.deliveriesFor_countDelivery]
      by_cases hsig : tx.signature = signature
      · rw [if_pos ⟨rfl, hsig⟩, if_pos ⟨⟨rfl, hsig⟩, hrecords⟩]
      · rw [if_neg fun hand => hsig hand.2, if_neg fun hand => hsig hand.1.2]
    · rw [if_neg hrecords, Course.deliveriesFor_countDelivery, if_neg fun hand => hrecords hand.2]
  · have hnot : ¬ ((slot' = slot ∧ tx.signature = signature) ∧ w.Records n skipVotes slot tx) :=
      fun hand => hslot hand.1.1
    rw [if_neg hnot]
    split
    · rw [Course.lookup_keep, Course.deliveriesFor_countDelivery, if_neg fun hand => hslot hand.1]
    · rw [Course.deliveriesFor_countDelivery]

/-- The mask that a window keeps for a signature is that of the last update of `us`. -/
def Window.KeepsLast (slot : ℕ) (signature : Signature) (us : List Update) (w : Window) : Prop :=
  (w.deliveriesFor slot).lookup signature =
    us.getLast?.map fun u => (w.info.bundle.readTags u.1 u.2).mask

/-- Every call keeps it so, for the updates that are recorded. -/
theorem Window.KeepsLast.act {us : List Update} {w : Window} (h : w.KeepsLast slot signature us)
    {call : AuditCall} (hopens : ¬ call.Opens key) :
    (w.act base58 n skipVotes key call).KeepsLast slot signature
      (recordedStep n skipVotes key slot signature (some w) us call) := by
  have hkept : ∀ c : Course, c.sampled = w.sampled →
      (c.deliveriesFor slot).lookup signature =
        us.getLast?.map fun u => (w.info.bundle.readTags u.1 u.2).mask := by
    intro c hc
    unfold Course.deliveriesFor
    rw [hc]
    exact h
  unfold KeepsLast
  rw [info_act]
  have hsteers := w.act_of_steers base58 n skipVotes key call
  -- only a delivery to this window that it records changes what it holds for the signature
  cases call with
  | openWindow key' info =>
    have hne : key' ≠ key := hopens
    unfold recordedStep
    dsimp only
    rw [if_neg hne]
    exact h
  | onDelivery key' slot' tx tags serverIsVote =>
    unfold recordedStep Window.act
    dsimp only
    by_cases hkey : key' = key
    · rw [if_pos hkey, lookup_onDelivery]
      by_cases hrecords : (slot' = slot ∧ tx.signature = signature) ∧ w.Records n skipVotes slot tx
      · have hgiven : (key' = key ∧ slot' = slot ∧ tx.signature = signature) ∧
            (some w).any (fun w => w.Records n skipVotes slot tx) = true :=
          ⟨⟨hkey, hrecords.1⟩, decide_eq_true hrecords.2⟩
        rw [if_pos hrecords, if_pos hgiven, List.getLast?_concat]
        rfl
      · have hnot : ¬ ((key' = key ∧ slot' = slot ∧ tx.signature = signature) ∧
            (some w).any (fun w => w.Records n skipVotes slot tx) = true) :=
          fun hand => hrecords ⟨hand.1.2, of_decide_eq_true hand.2⟩
        rw [if_neg hrecords, if_neg hnot]
        exact h
    · rw [if_neg hkey, if_neg fun hand => hkey hand.1.1]
      exact h
  | takeReady lagSlots tip =>
    unfold recordedStep Window.act
    dsimp only
    rw [Course.deliveriesFor_takeReady]
    -- a slot that is handed out or passed over is forgotten, with the updates recorded for it
    simp only [Option.any_some, decide_eq_true_eq]
    split
    · exact h
    · rfl
  | compare task fetched =>
    unfold Window.act
    dsimp only
    split
    · apply hkept
      rw [toCourse_compared]
      unfold Course.settle
      cases fetched.outcome <;> rfl
    · exact h
  | subscribed _ _ | close _ _ _ _ | unchecked _ =>
    obtain ⟨c, -, hsampled, hact⟩ := hsteers trivial
    rw [hact]
    exact hkept c hsampled
  | _ => exact h

/-- **The mask that a window keeps for a signature is that of the last delivery recorded**, in every
run. -/
theorem lookup_deliveriesFor {calls : List AuditCall} {w : Window}
    (hw : windowAt base58 n skipVotes key calls = some w) :
    (w.deliveriesFor slot).lookup signature =
      (recordedFor base58 n skipVotes key slot signature calls).getLast?.map fun u =>
        (w.info.bundle.readTags u.1 u.2).mask := by
  refine windowAt_induction (P := fun calls w =>
    w.KeepsLast slot signature (recordedFor base58 n skipVotes key slot signature calls)) ?_ ?_ hw
  · intro calls info
    rw [recordedFor_concat]
    unfold recordedStep
    dsimp only
    rw [if_pos rfl]
    rfl
  · intro calls call w hopens hw h
    rw [recordedFor_concat, hw]
    exact h.act hopens

end Mask

/-! ### Which transactions are missed -/

section Missed

variable {base58 : List UInt8 → String} {task : SlotTask} {i : ℕ} {f : Filter} {tx : TxView}

/-- How many transactions of a block `compare` counts as missed for filter `i`. -/
def missedBy (base58 : List UInt8 → String) (task : SlotTask) (i : ℕ) (b : Block) : Option ℕ :=
  (compareFilters base58 task (.block b))[i]?.map fun found => found.totals.missed

/-- These are the transactions that the filter accepts and that the task does not have for it. -/
lemma missedBy_eq (hf : task.bundle.filters[i]? = some f) (b : Block) :
    missedBy base58 task i b =
      some ((b.expected f).countP fun tx => !task.Has i tx.signature) := by
  unfold missedBy compareFilters
  rw [List.getElem?_map, List.getElem?_zipIdx, hf, Option.map_some, Option.map_some,
    Option.map_some, Nat.zero_add, totals_compareFilter_block]

/-- `compare` counts a transaction as missed for filter `i`: a block with it has one more that is
missed than the block without it. -/
def CountsMissed (base58 : List UInt8 → String) (task : SlotTask) (i : ℕ) (tx : TxView) : Prop :=
  ∀ before after, missedBy base58 task i ⟨before ++ tx :: after⟩ =
    (missedBy base58 task i ⟨before ++ after⟩).map (· + 1)

/-- A transaction that the filter accepts is missed unless the task has it for the filter. -/
lemma countsMissed_iff (hf : task.bundle.filters[i]? = some f) (hmatch : f.matchesTx tx = true) :
    CountsMissed base58 task i tx ↔ task.Has i tx.signature = false := by
  have hmissed : ∀ before after, missedBy base58 task i ⟨before ++ tx :: after⟩ =
      (missedBy base58 task i ⟨before ++ after⟩).map
        (· + if task.Has i tx.signature then 0 else 1) := by
    intro before after
    rw [missedBy_eq hf, missedBy_eq hf, Option.map_some]
    unfold Block.expected
    dsimp only
    rw [List.filter_append, List.filter_append, List.filter_cons_of_pos hmatch,
      List.countP_append, List.countP_append, List.countP_cons]
    cases task.Has i tx.signature
    · simp
      omega
    · simp
  unfold CountsMissed
  constructor
  · intro h
    have hone := h [] []
    rw [hmissed, missedBy_eq hf, Option.map_some, Option.map_some, Option.some_inj] at hone
    cases hhas : task.Has i tx.signature with
    | false => rfl
    | true =>
      rw [hhas, if_pos rfl] at hone
      omega
  · intro hhas before after
    rw [hmissed, hhas]
    rfl

end Missed

/-- A task has the filters of its window. -/
theorem Course.bundle_of_mem_takeReady {n lagSlots tip : ℕ} {key : WindowKey} {c : Course}
    {t : SlotTask} (ht : t ∈ (c.takeReady n lagSlots tip key).2) : t.bundle = c.info.bundle := by
  obtain ⟨d, slot, hinfo, rfl⟩ := exists_of_mem_takeReady ht
  exact congrArg WindowInfo.bundle hinfo

/-- A task is handed out with all deliveries of a signature recorded: it carries what its window
kept for its slot, and of those deliveries none was left out or dropped. -/
structure AllRecorded (base58 : List UInt8 → String) (n : ℕ) (skipVotes : Bool)
    (calls : List AuditCall) (task : SlotTask) (signature : Signature) : Prop where
  /-- The task carries what was kept. -/
  carried : ∀ w ∈ windowAt base58 n skipVotes task.key calls,
    task.deliveries = w.deliveriesFor task.slot
  /-- All deliveries are recorded. -/
  recorded : recordedFor base58 n skipVotes task.key task.slot signature calls =
    updatesFor task.key task.slot signature calls

/-- What a task has for a signature whose deliveries are all recorded: the filters of the last. -/
lemma AllRecorded.has_eq {base58 : List UInt8 → String} {n : ℕ} {skipVotes : Bool}
    {calls : List AuditCall} {task : SlotTask} {signature : Signature}
    (h : AllRecorded base58 n skipVotes calls task signature) {w : Window}
    (hw : windowAt base58 n skipVotes task.key calls = some w)
    (hbundle : task.bundle = w.info.bundle) (i : ℕ) :
    task.Has i signature =
      (updatesFor task.key task.slot signature calls).getLast?.any fun u =>
        task.bundle.Carries i u.1 u.2 := by
  unfold SlotTask.Has
  rw [h.carried w hw, lookup_deliveriesFor hw, h.recorded, hbundle]
  cases (updatesFor task.key task.slot signature calls).getLast? with
  | none => rfl
  | some u =>
    dsimp only [Option.map_some, Option.any_some]
    rw [hasBit_eq, Bundle.getLsbD_readTags]

/-- **When a transaction that was delivered for a filter is not missed for it**: for every window,
every task that is handed out with its deliveries of the transaction recorded, and every filter that
accepts it, `compare` counts it as missed only if none of the deliveries carried the filter, exactly
if the last delivery carries the filter whenever some delivery does. -/
theorem missed_only_if_undelivered_iff (base58 : List UInt8 → String) {n : ℕ} (hn : 0 < n)
    (skipVotes : Bool) {calls : List AuditCall} {lagSlots tip : ℕ} {task : SlotTask}
    (htask : task ∈ ((Machine.finalState (FilterAudit.call base58)
      (FilterAudit.new n hn skipVotes) calls).takeReady lagSlots tip).2)
    {i : ℕ} {f : Filter} (hf : task.bundle.filters[i]? = some f) {tx : TxView}
    (hmatch : f.matchesTx tx = true)
    (hall : AllRecorded base58 n skipVotes calls task tx.signature) :
    (CountsMissed base58 task i tx →
        ∀ u ∈ updatesFor task.key task.slot tx.signature calls,
          task.bundle.Carries i u.1 u.2 = false) ↔
      ∀ u ∈ updatesFor task.key task.slot tx.signature calls,
        task.bundle.Carries i u.1 u.2 = true →
          ∃ last ∈ (updatesFor task.key task.slot tx.signature calls).getLast?,
            task.bundle.Carries i last.1 last.2 = true := by
  obtain ⟨⟨key, w⟩, hentry, hready⟩ := List.mem_flatMap.mp htask
  have hkey : task.key = key := Course.key_of_mem_takeReady hready
  subst hkey
  have hw : windowAt base58 n skipVotes task.key calls = some w := by
    rw [← FilterAudit.lookup_finalState n hn]
    exact AList.mem_entries_iff_lookup.mp hentry
  have hhas := hall.has_eq hw (Course.bundle_of_mem_takeReady hready) i
  rw [countsMissed_iff hf hmatch, hhas]
  generalize updatesFor task.key task.slot tx.signature calls = us
  constructor
  · intro h u hu hcarries
    cases hlast : us.getLast?.any fun u => task.bundle.Carries i u.1 u.2 with
    | true =>
      obtain ⟨last, hmem, hlast⟩ := (Option.any_eq_true _ _).mp hlast
      exact ⟨last, hmem, hlast⟩
    | false =>
      have hfalse := h hlast u hu
      rw [hcarries] at hfalse
      cases hfalse
  · intro h hlast u hu
    cases hcarries : task.bundle.Carries i u.1 u.2 with
    | false => rfl
    | true =>
      obtain ⟨last, hmem, hcarried⟩ := h u hu hcarries
      rw [Option.mem_def.mp hmem, Option.any_some, hcarried] at hlast
      cases hlast

/-! ### A transaction that comes once for each filter -/

/-- What was delivered for slot 1010, and a hand-out of it: the transaction comes once for each of
some lists of tags. -/
def repeatedCalls (tags : List (List String)) : List AuditCall :=
  [.openWindow (0, 0) ⟨"g", .grpcDeshred, none, pairBundle⟩, .subscribed (0, 0) 1000,
    .onDelivery (0, 0) 1003 (plainTx 4) ["a", "b"] none] ++
  tags.map (fun tags => .onDelivery (0, 0) 1010 (plainTx 1) tags none) ++
  [.onDelivery (0, 0) 1030 (plainTx 3) ["a", "b"] none]

/-- The windows after these calls. -/
def repeatedAudit (tags : List (List String)) : FilterAudit :=
  Machine.finalState (FilterAudit.call fun _ => "") (FilterAudit.new 10 (Nat.succ_pos 9) false)
    (repeatedCalls tags)

/-- A transaction that is delivered for the second filter, and then for the first, is not missed for
the first. -/
theorem missed_only_if_undelivered_bThenA :
    ((repeatedAudit [["b"], ["a"]]).takeReady 32 1042).2.map SlotTask.slot = [1010] ∧
      ∀ task ∈ ((repeatedAudit [["b"], ["a"]]).takeReady 32 1042).2,
        CountsMissed (fun _ => "") task 0 (plainTx 1) →
          ∀ u ∈ updatesFor task.key task.slot (plainTx 1).signature (repeatedCalls [["b"], ["a"]]),
            task.bundle.Carries 0 u.1 u.2 = false := by
  refine ⟨by decide, fun task htask => ?_⟩
  have hf : task.bundle.filters[0]? = some ⟨"a", ⟨none, none⟩, ∅, ∅, []⟩ := by
    cases List.mem_singleton.mp htask
    rfl
  have hall : AllRecorded (fun _ => "") 10 false (repeatedCalls [["b"], ["a"]]) task
      (plainTx 1).signature := by
    cases List.mem_singleton.mp htask
    refine ⟨fun w hw => ?_, by decide⟩
    cases hw
    rfl
  refine (missed_only_if_undelivered_iff (fun _ => "") (by decide) false htask hf rfl hall).mpr ?_
  cases List.mem_singleton.mp htask
  decide

/-- A transaction that is delivered for the first filter, and then for the second, is missed for the
first, although a delivery for it is recorded. -/
theorem not_missed_only_if_undelivered_aThenB :
    ¬ ∀ task ∈ ((repeatedAudit [["a"], ["b"]]).takeReady 32 1042).2,
        AllRecorded (fun _ => "") 10 false (repeatedCalls [["a"], ["b"]]) task
          (plainTx 1).signature →
        CountsMissed (fun _ => "") task 0 (plainTx 1) →
          ∀ u ∈ updatesFor task.key task.slot (plainTx 1).signature (repeatedCalls [["a"], ["b"]]),
            task.bundle.Carries 0 u.1 u.2 = false := by
  intro h
  obtain ⟨task, htask, hcarries⟩ :
      ∃ task, ((repeatedAudit [["a"], ["b"]]).takeReady 32 1042).2 = [task] ∧
        (AllRecorded (fun _ => "") 10 false (repeatedCalls [["a"], ["b"]]) task
            (plainTx 1).signature ∧
          CountsMissed (fun _ => "") task 0 (plainTx 1)) ∧
        ∃ u ∈ updatesFor task.key task.slot (plainTx 1).signature (repeatedCalls [["a"], ["b"]]),
          task.bundle.Carries 0 u.1 u.2 = true := by
    refine ⟨_, rfl, ⟨⟨fun w hw => ?_, by decide⟩, ?_⟩, (plainTx 1, ["a"]), by decide, by decide⟩
    · cases hw
      rfl
    · exact (countsMissed_iff (f := ⟨"a", ⟨none, none⟩, ∅, ∅, []⟩) rfl rfl).mpr (by decide)
  obtain ⟨⟨hall, hmissed⟩, u, hu, hcarried⟩ := hcarries
  rw [h task (by rw [htask]; exact List.mem_singleton_self task) hall hmissed u hu] at hcarried
  cases hcarried

end ShredTools.Audit
