import ShredTools.Audit.FilterCoverage

/-!
# The life of one window

What a run of calls makes of the window of one key depends on nothing but the window: the call that
opens it starts it afresh, the calls that concern it act on it one after the other, and the call
that emits it takes it away (`lookup_finalState`).  An invariant of windows is shown on a new window
and on the acts (`windowAt_induction`).

`Window.act` is what a call does to a window that is there, and `windowStep` adds how windows come
and go.  `trackedAt` follows a quantity of the history in the same way, for invariants that compare
a window with the calls made so far.  Most calls steer the course of a window only, and leave its
verdicts alone (`AuditCall.Steers`), so an invariant about verdicts has to look at deliveries and
comparisons.
-/

namespace ShredTools.Audit

/-- The windows that a call emits. -/
def FilterAudit.emits (a : FilterAudit) : AuditCall → List FilterAudit.Emitted
  | .takeFinished tip floor now giveUpSecs => (a.takeFinished tip floor now giveUpSecs).2
  | .takeAll => a.takeAll.2
  | _ => []

/-- Whether a call opens the window of a key. -/
def AuditCall.Opens (key : WindowKey) : AuditCall → Prop
  | .openWindow key' _ => key' = key
  | _ => False

section Life

variable (base58 : List UInt8 → String) (n : ℕ) (skipVotes : Bool) (key : WindowKey)

/-- What a call does to the window of a key that stays. -/
def Window.act (w : Window) : AuditCall → Window
  | .subscribed key' tip => if key' = key then { w with toCourse := w.subscribe tip } else w
  | .close key' tip now reason =>
    if key' = key then { w with toCourse := w.toCourse.close tip now reason } else w
  | .onDelivery key' slot tx tags serverIsVote =>
    if key' = key then w.onDelivery base58 n skipVotes slot tx tags serverIsVote else w
  | .takeReady lagSlots tip => { w with toCourse := (w.toCourse.takeReady n lagSlots tip key).1 }
  | .compare task fetched => if task.key = key then w.compared base58 task fetched else w
  | .unchecked task => if task.key = key then { w with toCourse := w.settle .unchecked } else w
  | .drainViolations => { w with violations := [] }
  | .openWindow _ _ | .takeFinished _ _ _ _ | .takeAll => w

/-- What a call makes of the window of a key, if there is one. -/
def windowStep (w : Option Window) : AuditCall → Option Window
  | .openWindow key' info => if key' = key then some (Window.new info) else w
  | .takeFinished tip floor now giveUpSecs =>
    w.filter fun w => ¬ w.toCourse.Finished tip floor now giveUpSecs
  | .takeAll => none
  | call => w.map fun w => w.act base58 n skipVotes key call

/-- The window of a key after some calls. -/
def windowAt (calls : List AuditCall) : Option Window :=
  calls.foldl (windowStep base58 n skipVotes key) none

lemma windowAt_concat (calls : List AuditCall) (call : AuditCall) :
    windowAt base58 n skipVotes key (calls ++ [call]) =
      windowStep base58 n skipVotes key (windowAt base58 n skipVotes key calls) call := by
  unfold windowAt
  rw [List.foldl_append, List.foldl_cons, List.foldl_nil]

section Tracked

variable {α : Type} (note : Option Window → α → AuditCall → α) (start : α)

/-- What is noted along a run of calls, each in view of the window before it. -/
def trackedAt (calls : List AuditCall) : α :=
  (calls.foldl (fun st call =>
    (windowStep base58 n skipVotes key st.1 call, note st.1 st.2 call)) (none, start)).2

theorem trackedAt_concat (calls : List AuditCall) (call : AuditCall) :
    trackedAt base58 n skipVotes key note start (calls ++ [call]) =
      note (windowAt base58 n skipVotes key calls)
        (trackedAt base58 n skipVotes key note start calls) call := by
  have hwindow : ∀ calls : List AuditCall, (calls.foldl (fun st call =>
      (windowStep base58 n skipVotes key st.1 call, note st.1 st.2 call))
      ((none, start) : Option Window × α)).1 = windowAt base58 n skipVotes key calls := by
    intro calls
    induction calls using List.reverseRecOn with
    | nil => rfl
    | append_singleton calls call ih =>
      rw [List.foldl_append, windowAt_concat, ← ih]
      rfl
  unfold trackedAt
  rw [List.foldl_append, ← hwindow]
  rfl

end Tracked

end Life

namespace FilterAudit

variable {base58 : List UInt8 → String} {a : FilterAudit} {key : WindowKey}

/-- The window of a key after an update of a window. -/
lemma lookup_withWindow (key' : WindowKey) (f : Window → Window) :
    (a.withWindow key' f).windows.lookup key =
      (a.windows.lookup key).map fun w => if key' = key then f w else w := by
  unfold withWindow
  dsimp only
  rw [AList.lookup_modify]
  by_cases heq : key = key'
  · subst heq
    simp
  · simp [heq, Ne.symm heq]

/-- What a call does to the table is, at each key, what it does to the window there. -/
theorem lookup_call (call : AuditCall) :
    (a.call base58 call).1.windows.lookup key =
      windowStep base58 a.sampleEvery a.skipVotes key (a.windows.lookup key) call := by
  cases call with
  | openWindow key' info =>
    unfold windowStep FilterAudit.call openWindow
    dsimp only
    by_cases heq : key' = key
    · subst heq
      rw [AList.lookup_insert, if_pos rfl]
    · rw [AList.lookup_insert_ne (Ne.symm heq), if_neg heq]
  | subscribed key' tip => exact lookup_withWindow key' _
  | close key' tip now reason => exact lookup_withWindow key' _
  | onDelivery key' slot tx tags serverIsVote => exact lookup_withWindow key' _
  | takeReady lagSlots tip => exact AList.lookup_mapValues _ _ _
  | compare task fetched => exact lookup_withWindow task.key _
  | unchecked task => exact lookup_withWindow task.key _
  | drainViolations => exact AList.lookup_mapValues _ _ _
  | takeFinished tip floor now giveUpSecs => exact AList.lookup_retain _ _ _
  | takeAll => exact AList.lookup_empty _

/-- **A run makes of each window what its calls make of it alone.** -/
theorem lookup_finalState (n : ℕ) (hn : 0 < n) (skipVotes : Bool) (calls : List AuditCall) :
    (Machine.finalState (FilterAudit.call base58) (new n hn skipVotes) calls).windows.lookup key =
      windowAt base58 n skipVotes key calls := by
  have hall : ∀ calls,
      let a := Machine.finalState (FilterAudit.call base58) (new n hn skipVotes) calls
      a.sampleEvery = n ∧ a.skipVotes = skipVotes ∧
        a.windows.lookup key = windowAt base58 n skipVotes key calls := by
    intro calls
    induction calls using List.reverseRecOn with
    | nil => exact ⟨rfl, rfl, AList.lookup_empty _⟩
    | append_singleton calls call ih =>
      obtain ⟨hevery, hvotes, hlookup⟩ := ih
      rw [Machine.finalState_concat]
      obtain ⟨hevery', hvotes'⟩ := config_call base58
        (Machine.finalState (FilterAudit.call base58) (new n hn skipVotes) calls) call
      refine ⟨hevery'.trans hevery, hvotes'.trans hvotes, ?_⟩
      rw [lookup_call, hevery, hvotes, hlookup, windowAt_concat]
  exact (hall calls).2.2

/-- What a call emits was the window of its key before, and is only finished. -/
theorem exists_of_mem_emits {call : AuditCall} {e : Emitted} (he : e ∈ a.emits call) :
    ∃ w, a.windows.lookup e.1 = some w ∧ e.2 = { w with toCourse := w.toCourse.finished } := by
  cases call with
  | takeFinished tip floor now giveUpSecs =>
    obtain ⟨entry, hentry, rfl⟩ := List.mem_map.mp he
    refine ⟨entry.2, ?_, rfl⟩
    have hlookup := AList.mem_entries_iff_lookup.mp hentry
    rw [AList.lookup_retain] at hlookup
    exact (Option.filter_eq_some_iff.mp hlookup).1
  | takeAll =>
    obtain ⟨entry, hentry, rfl⟩ := List.mem_map.mp he
    exact ⟨entry.2, AList.mem_entries_iff_lookup.mp hentry, rfl⟩
  | _ => exact absurd he List.not_mem_nil

end FilterAudit

/-! ### What a window was opened with -/

namespace Course

@[simp] theorem info_deliver (n : ℕ) (skipVotes : Bool) (slot : ℕ) (tx : TxView) (mask : Mask)
    (c : Course) : (c.deliver n skipVotes slot tx mask).info = c.info := by
  have hcount : (c.countDelivery slot).info = c.info := info_learnTip slot _
  unfold deliver
  dsimp only
  split
  · exact hcount
  · exact hcount

@[simp] theorem info_settle (outcome : Outcome) (c : Course) :
    (c.settle outcome).info = c.info := by
  unfold settle
  cases outcome <;> rfl

end Course

/-- Whether a call only steers the course of a window. -/
def AuditCall.Steers : AuditCall → Prop
  | .subscribed _ _ | .close _ _ _ _ | .unchecked _ => True
  | _ => False

/-- A call that steers leaves what a window counted, and what it was opened with and sampled. -/
theorem Window.act_of_steers (base58 : List UInt8 → String) (n : ℕ) (skipVotes : Bool)
    (key : WindowKey) (w : Window) (call : AuditCall) (h : call.Steers) :
    ∃ c : Course, c.info = w.info ∧ c.sampled = w.sampled ∧
      w.act base58 n skipVotes key call = { w with toCourse := c } := by
  cases call with
  | subscribed key' tip =>
    unfold act
    dsimp only
    split
    · exact ⟨w.subscribe tip, rfl, rfl, rfl⟩
    · exact ⟨w.toCourse, rfl, rfl, rfl⟩
  | close key' tip now reason =>
    unfold act
    dsimp only
    split
    · exact ⟨w.toCourse.close tip now reason, rfl, rfl, rfl⟩
    · exact ⟨w.toCourse, rfl, rfl, rfl⟩
  | unchecked task =>
    unfold act
    dsimp only
    split
    · exact ⟨w.settle .unchecked, rfl, rfl, rfl⟩
    · exact ⟨w.toCourse, rfl, rfl, rfl⟩
  | _ => cases h

/-- No call changes what a window was opened with. -/
@[simp] theorem Window.info_act (base58 : List UInt8 → String) (n : ℕ) (skipVotes : Bool)
    (key : WindowKey) (w : Window) (call : AuditCall) :
    (w.act base58 n skipVotes key call).info = w.info := by
  have hsteers := w.act_of_steers base58 n skipVotes key call
  cases call with
  | takeReady lagSlots tip =>
    unfold act
    dsimp only
    rw [Course.info_takeReady]
  | onDelivery key' slot tx tags serverIsVote =>
    unfold act
    dsimp only
    split
    · rw [Window.toCourse_onDelivery, Course.info_deliver]
    · rfl
  | compare task fetched =>
    unfold act
    dsimp only
    split
    · rw [Window.toCourse_compared, Course.info_settle]
    · rfl
  | subscribed _ _ | close _ _ _ _ | unchecked _ =>
    obtain ⟨c, hinfo, -, hact⟩ := hsteers trivial
    rw [hact]
    exact hinfo
  | _ => rfl

section Induction

variable {base58 : List UInt8 → String} {n : ℕ} {skipVotes : Bool} {key : WindowKey}

/-- A window is there because the call opened it, or it was there before and the call acts on it. -/
theorem exists_of_windowStep {before : Option Window} {call : AuditCall} {w : Window}
    (h : windowStep base58 n skipVotes key before call = some w) :
    (∃ info, call = .openWindow key info ∧ w = Window.new info) ∨
      (¬ call.Opens key ∧ ∃ v, before = some v ∧ w = v.act base58 n skipVotes key call) := by
  cases call with
  | openWindow key' info =>
    unfold windowStep at h
    dsimp only at h
    by_cases heq : key' = key
    · subst heq
      rw [if_pos rfl] at h
      exact Or.inl ⟨info, rfl, (Option.some.inj h).symm⟩
    · rw [if_neg heq] at h
      exact Or.inr ⟨heq, w, h, rfl⟩
  | takeFinished tip floor now giveUpSecs =>
    exact Or.inr ⟨id, w, (Option.filter_eq_some_iff.mp h).1, rfl⟩
  | takeAll => cases h
  | _ =>
    obtain ⟨v, hv, rfl⟩ := Option.map_eq_some_iff.mp h
    exact Or.inr ⟨id, v, hv, rfl⟩

/-- **Invariants of windows**: what holds of a window when it is opened, and is kept by every other
call, holds of it as long as it is there. -/
theorem windowAt_induction {P : List AuditCall → Window → Prop}
    (hopen : ∀ calls info, P (calls ++ [.openWindow key info]) (Window.new info))
    (hact : ∀ calls call w, ¬ call.Opens key → windowAt base58 n skipVotes key calls = some w →
      P calls w → P (calls ++ [call]) (w.act base58 n skipVotes key call))
    {calls : List AuditCall} {w : Window} (hw : windowAt base58 n skipVotes key calls = some w) :
    P calls w := by
  induction calls using List.reverseRecOn generalizing w with
  | nil => cases hw
  | append_singleton calls call ih =>
    rw [windowAt_concat] at hw
    rcases exists_of_windowStep hw with ⟨info, rfl, rfl⟩ | ⟨hopens, v, hv, rfl⟩
    · exact hopen calls info
    · exact hact calls call v hopens hv (ih hv)

end Induction

end ShredTools.Audit
