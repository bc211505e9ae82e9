import ShredTools.Audit.CheckerPace

/-!
# What the checker upholds

Let a property of the windows and one of the tasks be such that comparing a task with what the
cluster confirmed for its slot, giving a task up, draining the reports and taking windows away keep
the first.  Then the checker upholds both, along all steps of a tick, as long as the node answers
what the cluster confirmed, if it answers: the blocks in the cache are confirmed, a task is compared
with the block of its slot, and tasks that wait are the same but for their attempts.
-/

namespace ShredTools.Audit

/-- What the cluster confirms for each slot: a block, or none. -/
abbrev Chain := ℕ → Option Block

/-- What was fetched for a slot is what the cluster confirmed. -/
def Fetched.Confirmed (chain : Chain) (slot : ℕ) : Fetched → Prop
  | .block b => chain slot = some b
  | .skipped => chain slot = none

/-- What the node answers for a slot, if it answers, is what the cluster confirmed. -/
def BlockReply.Confirmed (chain : Chain) (slot : ℕ) (reply : BlockReply) : Prop :=
  ∀ result, getBlock reply = .fetched result → result.Confirmed chain slot

/-- The slot that has its turn in a tick. -/
def Phase.turn : Phase → Option ℕ
  | ticking _ ((slot, _) :: _) => some slot
  | _ => none

/-- A property of the windows and one of the tasks that the calls of the checker keep. -/
structure Upheld (base58 : List UInt8 → String) (chain : Chain) (P : FilterAudit → Prop)
    (Q : SlotTask → Prop) : Prop where
  /-- A comparison with what is confirmed keeps the property of the windows. -/
  compare : ∀ a task fetched, P a → Q task → fetched.Confirmed chain task.slot →
    P (a.compare base58 task fetched)
  /-- Giving up a task keeps it. -/
  unchecked : ∀ a task, P a → P (a.unchecked task)
  /-- Draining the reports keeps it. -/
  drainViolations : ∀ a : FilterAudit, P a → P a.drainViolations.1
  /-- Taking windows away keeps it. -/
  takeFinished : ∀ (a : FilterAudit) tip floor now, P a →
    P (a.takeFinished tip floor now giveUpSecs).1
  takeAll : ∀ a : FilterAudit, P a → P a.takeAll.1
  /-- The property of a task does not depend on its attempts. -/
  attempts : ∀ task attempts, Q task → Q { task with attempts := attempts }

/-- The checker has a property of the windows, and all tasks have one of tasks. -/
structure Worker.Upholds (chain : Chain) (P : FilterAudit → Prop) (Q : SlotTask → Prop)
    (w : Worker) : Prop where
  /-- The windows have the property. -/
  windows : P w.audit
  /-- All tasks have their property. -/
  tasks : ∀ t ∈ w.tasks, Q t
  /-- The tasks of a group are for its slot. -/
  grouped : ∀ calls groups, w.phase = .ticking calls groups →
    ∀ g ∈ groups, ∀ t ∈ g.2, t.slot = g.1
  /-- The cache holds blocks of the chain. -/
  cached : ∀ c ∈ w.cache, chain c.1 = some c.2

namespace Worker

variable {base58 : List UInt8 → String} {chain : Chain} {P : FilterAudit → Prop}
  {Q : SlotTask → Prop} {w : Worker}

/-- The windows may come to have another property. -/
theorem Upholds.withAudit (h : w.Upholds chain P Q) {P' : FilterAudit → Prop} {a : FilterAudit}
    (ha : P' a) : { w with audit := a }.Upholds chain P' Q :=
  ⟨ha, h.tasks, h.grouped, h.cached⟩

/-- What is fetched is confirmed, and the cache stays so. -/
theorem Upholds.fetch (h : w.Upholds chain P Q) {slot : ℕ} {r : Readings}
    (hreply : r.reply.Confirmed chain slot) :
    (w.fetch slot r).1.Upholds chain P Q ∧
      ∀ result ∈ (w.fetch slot r).2, result.Confirmed chain slot := by
  unfold Worker.fetch
  split
  next cached hfind =>
    have hslot : cached.1 = slot := by
      have hbeq := List.find?_some hfind
      exact beq_iff_eq.mp hbeq
    refine ⟨h, fun result hresult => ?_⟩
    rw [← Option.mem_some_iff.mp hresult, ← hslot]
    exact h.cached cached (List.mem_of_find?_eq_some hfind)
  · split
    next b hblock =>
      have hb : chain slot = some b := hreply _ hblock
      have hcache : ∀ c ∈ w.cache ++ [(slot, b)], chain c.1 = some c.2 := by
        intro c hc
        rcases List.mem_append.mp hc with hc | hc
        · exact h.cached c hc
        · rw [List.mem_singleton.mp hc]
          exact hb
      refine ⟨⟨h.windows, h.tasks, h.grouped, fun c hc => ?_⟩, fun result hresult => ?_⟩
      · dsimp only at hc
        split at hc
        · exact hcache c (List.mem_of_mem_tail hc)
        · exact hcache c hc
      · rw [← Option.mem_some_iff.mp hresult]
        exact hb
    next hskipped =>
      refine ⟨⟨h.windows, h.tasks, h.grouped, h.cached⟩, fun result hresult => ?_⟩
      rw [← Option.mem_some_iff.mp hresult]
      exact hreply _ hskipped
    · exact ⟨h, fun result hresult => by cases hresult⟩
    · exact ⟨⟨h.windows, h.tasks, h.grouped, h.cached⟩, fun result hresult => by cases hresult⟩

/-- Tasks with the property can be put back. -/
theorem Upholds.putBack (h : w.Upholds chain P Q) {ts : List SlotTask} (hts : ∀ t ∈ ts, Q t)
    (notBefore : ℕ → ℕ) : (w.putBack ts notBefore).Upholds chain P Q where
  windows := h.windows
  tasks t ht := by
    rcases List.mem_append.mp ((tasks_putBack ts notBefore w).mem_iff.mp ht) with ht | ht
    · exact hts t ht
    · exact h.tasks t ht
  grouped := h.grouped
  cached := h.cached

/-- Tasks with the property can be compared with what is confirmed. -/
theorem Upholds.compareAll (hup : Upheld base58 chain P Q) (h : w.Upholds chain P Q) {slot : ℕ}
    {ts : List SlotTask} (hts : ∀ t ∈ ts, Q t ∧ t.slot = slot) {fetched : Fetched}
    (hfetched : fetched.Confirmed chain slot) :
    (w.compareAll base58 ts fetched).Upholds chain P Q := by
  have hfold : ∀ (ts : List SlotTask), (∀ t ∈ ts, Q t ∧ t.slot = slot) → ∀ a, P a →
      P (ts.foldl (fun a t => a.compare base58 t fetched) a) := by
    intro ts
    induction ts with
    | nil => exact fun _ a ha => ha
    | cons t ts ih =>
      intro hts a ha
      obtain ⟨⟨ht, hslot⟩, hts⟩ := List.forall_mem_cons.mp hts
      rw [← hslot] at hfetched
      exact ih hts _ (hup.compare a t fetched ha ht hfetched)
  exact h.withAudit (hfold ts hts w.audit h.windows)

/-- Tasks with the property can be given up. -/
theorem Upholds.uncheckAll (hup : Upheld base58 chain P Q) (h : w.Upholds chain P Q)
    (ts : List SlotTask) : (w.uncheckAll ts).Upholds chain P Q := by
  have hfold : ∀ (ts : List SlotTask) (a : FilterAudit), P a →
      P (ts.foldl (fun a t => a.unchecked t) a) := by
    intro ts
    induction ts with
    | nil => exact fun a ha => ha
    | cons t ts ih => exact fun a ha => ih _ (hup.unchecked a t ha)
  exact h.withAudit (hfold ts w.audit h.windows)

/-- A slot that has its turn, with its tasks in hand. -/
theorem Upholds.attempt (hup : Upheld base58 chain P Q) (h : w.Upholds chain P Q) {slot : ℕ}
    {ts : List SlotTask} (hts : ∀ t ∈ ts, Q t ∧ t.slot = slot) {r : Readings}
    (hreply : r.reply.Confirmed chain slot) :
    (w.attempt base58 slot ts r).1.Upholds chain P Q := by
  obtain ⟨hfetch, hconfirmed⟩ := h.fetch hreply
  unfold Worker.attempt
  dsimp only
  split
  next result hresult => exact hfetch.compareAll hup hts (hconfirmed result hresult)
  · split
    · refine hfetch.putBack (fun t ht => ?_) fun i => r.retriedAt i + retryAfter
      obtain ⟨t', ht', rfl⟩ := List.mem_map.mp ht
      exact hup.attempts t' _ (hts t' ht').1
    · exact hfetch.uncheckAll hup ts

theorem Upholds.handleGroup (hup : Upheld base58 chain P Q) (h : w.Upholds chain P Q)
    {r : Readings} (hreply : ∀ slot ∈ w.phase.turn, r.reply.Confirmed chain slot) :
    (w.handleGroup base58 r).1.Upholds chain P Q := by
  unfold Worker.handleGroup
  split
  next calls slot ts rest hphase =>
    have hperm := tasks_take hphase
    have hts : ∀ t ∈ ts, Q t ∧ t.slot = slot := fun t ht =>
      ⟨h.tasks t (hperm.mem_iff.mpr (List.mem_append_left _ ht)),
        h.grouped _ _ hphase _ List.mem_cons_self t ht⟩
    have hconfirmed : r.reply.Confirmed chain slot := by
      refine hreply slot ?_
      rw [hphase]
      rfl
    -- the tasks of the slot are in hand
    have htaken : ∀ calls', { w with phase := .ticking calls' rest }.Upholds chain P Q := by
      refine fun calls' => ⟨h.windows, fun t ht => ?_, fun calls'' groups hticking g hg => ?_,
        h.cached⟩
      · exact h.tasks t (hperm.mem_iff.mpr (List.mem_append_right _ ht))
      · cases hticking
        exact h.grouped _ _ hphase g (List.mem_cons_of_mem _ hg)
    split
    · exact (htaken calls).attempt hup hts hconfirmed
    · dsimp only
      split
      · exact (htaken calls).putBack (fun t ht => (hts t ht).1) fun _ => _
      · exact (htaken (calls + 1)).attempt hup hts hconfirmed
  next => exact h

/-- A tick begins: the tasks that are ready have the property, too. -/
theorem Upholds.beginTick (h : w.Upholds chain P Q) {P' : FilterAudit → Prop} {tip now : ℕ}
    (hidle : w.phase = .idle → P' (w.audit.takeReady w.lagSlots tip).1 ∧
      ∀ t ∈ (w.audit.takeReady w.lagSlots tip).2, Q t)
    (hbusy : w.phase ≠ .idle → P' w.audit) : (w.beginTick tip now).1.Upholds chain P' Q := by
  by_cases hphase : w.phase = .idle
  · obtain ⟨haudit, hready⟩ := hidle hphase
    have hperm := tasks_beginTick tip now hphase
    unfold Worker.beginTick at hperm ⊢
    rw [hphase] at hperm ⊢
    refine ⟨haudit, fun t ht => ?_, fun calls groups hticking => ?_, h.cached⟩
    · rcases List.mem_append.mp (hperm.mem_iff.mp ht) with ht | ht
      · exact hready t ht
      · exact h.tasks t ht
    · cases hticking
      exact slot_of_mem_groupBySlot _
  · have hsame : (w.beginTick tip now).1 = w := by
      unfold Worker.beginTick
      split
      next hidle => exact absurd hidle hphase
      next => rfl
    rw [hsame]
    exact h.withAudit (hbusy hphase)

/-- A tick ends, and takes windows away that had the property. -/
theorem Upholds.endTick (hup : Upheld base58 chain P Q) (h : w.Upholds chain P Q) (tip floor : ℕ)
    (now : ℤ) :
    (w.endTick tip floor now).1.Upholds chain P Q ∧
      ∀ e, .emitted e ∈ (w.endTick tip floor now).2 →
        ∃ a call, P a ∧ e ∈ FilterAudit.emits a call := by
  unfold Worker.endTick
  split
  next calls hphase =>
    have hdrained : P w.audit.drainViolations.1 := hup.drainViolations _ h.windows
    have htasks : w.tasks = w.retries.map Retry.task ++ [] := by
      unfold Worker.tasks
      rw [hphase]
      rfl
    have hbefore := h.tasks
    rw [htasks] at hbefore
    refine ⟨⟨hup.takeFinished _ tip floor now hdrained, hbefore,
      fun _ _ hticking => (by cases hticking), h.cached⟩, fun e he => ?_⟩
    obtain ⟨e', he', heq⟩ := List.mem_map.mp he
    cases heq
    exact ⟨_, .takeFinished tip floor now giveUpSecs, hdrained, he'⟩
  next => exact ⟨h, fun e he => absurd he List.not_mem_nil⟩

/-- The end of the run keeps the property, too. -/
theorem Upholds.shutdown (hup : Upheld base58 chain P Q) (h : w.Upholds chain P Q) :
    w.shutdown.1.Upholds chain P Q ∧
      ∀ e, .emitted e ∈ w.shutdown.2 → ∃ a call, P a ∧ e ∈ FilterAudit.emits a call := by
  unfold Worker.shutdown
  split
  next hphase =>
    have hleft : { w with retries := [] }.Upholds chain P Q := by
      refine ⟨h.windows, fun t ht => ?_, h.grouped, h.cached⟩
      unfold Worker.tasks at ht
      rw [hphase] at ht
      exact absurd ht List.not_mem_nil
    have hgiven := hleft.uncheckAll hup (w.retries.map Retry.task)
    have hdrained := hup.drainViolations _ hgiven.windows
    refine ⟨⟨hup.takeAll _ hdrained, fun t ht => absurd ht List.not_mem_nil,
      fun _ _ hticking => (by cases hticking), h.cached⟩, fun e he => ?_⟩
    rcases List.mem_append.mp he with he | he
    · obtain ⟨t, -, heq⟩ := List.mem_map.mp he
      cases heq
    · obtain ⟨e', he', heq⟩ := List.mem_map.mp he
      cases heq
      exact ⟨_, .takeAll, hdrained, he'⟩
  next => exact ⟨h, fun e he => absurd he List.not_mem_nil⟩

/-! ### What no window is emitted by -/

/-- The beginning of a tick emits no window. -/
theorem not_emitted_beginTick (tip now : ℕ) (e : FilterAudit.Emitted) :
    .emitted e ∉ (w.beginTick tip now).2 := by
  unfold Worker.beginTick
  intro he
  split at he
  · rcases List.mem_append.mp he with he | he
    · obtain ⟨p, -, heq⟩ := List.mem_map.mp he
      cases heq
    · obtain ⟨t, -, heq⟩ := List.mem_map.mp he
      cases heq
  · cases he

/-- The turn of a slot emits no window. -/
lemma not_emitted_attempt (slot : ℕ) (ts : List SlotTask) (r : Readings)
    (e : FilterAudit.Emitted) : .emitted e ∉ (w.attempt base58 slot ts r).2 := by
  have hsettled : .emitted e ∉ ts.map CheckEvent.settled := by
    intro he
    obtain ⟨t, -, heq⟩ := List.mem_map.mp he
    cases heq
  unfold Worker.attempt
  dsimp only
  split
  · exact hsettled
  · split
    · exact List.not_mem_nil
    · exact hsettled

theorem not_emitted_handleGroup (r : Readings) (e : FilterAudit.Emitted) :
    .emitted e ∉ (w.handleGroup base58 r).2 := by
  unfold Worker.handleGroup
  split
  · split
    · exact not_emitted_attempt _ _ r e
    · dsimp only
      split
      · exact List.not_mem_nil
      · exact not_emitted_attempt _ _ r e
  · exact List.not_mem_nil

end Worker

end ShredTools.Audit
