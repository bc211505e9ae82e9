import ShredTools.Audit.FilterAccounting
import ShredTools.Library.Run

/-!
# Runs of the checker

`FilterSystem` is the checker with its windows, and the sources that open, feed and close them, in
any interleaving with the steps of a tick.  Every step moves the books of each window
(`moves_step`), so the books balance along every run in which no count wraps
(`sampled_slots_accounted`).

A count can wrap.  The tip is what a source reports, and at the greatest 64-bit tip the cursor wraps
to a slot near zero, that the window then hands out (`not_accounted_greatestTip`).

A tick of the checker is several steps here: it begins, handles one slot after the other, and ends,
and the sources may act in between.  `FilterSystem.Exact` is the condition on a step, on the state
before it, and `ExactRun` asks for it along a run.  `SlotsAccounted` is what the balanced books mean
to a reader: what is handed out and settled, slot by slot, and what the counts of an emitted window
come to.
-/

namespace ShredTools.Audit

open Relation

/-- The tasks that a phase of the checker holds. -/
def Phase.tasks : Phase → List SlotTask
  | ticking _ groups => groups.flatMap Prod.snd
  | _ => []

namespace Worker

/-- The tasks that the checker holds. -/
def tasks (w : Worker) : List SlotTask := w.retries.map Retry.task ++ w.phase.tasks

/-- The books of a window, by the checker and the events so far. -/
def account (key : WindowKey) (w : Worker) (log : List CheckEvent) : Account :=
  Audit.account key w.audit w.tasks log

variable {n : ℕ} {key : WindowKey} {w : Worker} {log : List CheckEvent}

/-- Where nothing changes, the books do not move. -/
lemma moves_nil :
    ReflTransGen (Account.Moves n) (w.account key log) (w.account key (log ++ [])) := by
  rw [List.append_nil]

/-- The beginning of a tick takes in what is ready. -/
theorem tasks_beginTick (tip now : ℕ) (hphase : w.phase = .idle) :
    (w.beginTick tip now).1.tasks.Perm ((w.audit.takeReady w.lagSlots tip).2 ++ w.tasks) := by
  have hsplit : (w.retries.filter (fun r => r.notBefore ≤ now) ++
      w.retries.filter fun r => !decide (r.notBefore ≤ now)).Perm w.retries :=
    List.filter_append_perm _ w.retries
  have hgroups := groupBySlot_perm ((w.audit.takeReady w.lagSlots tip).2 ++
    (w.retries.filter fun r => r.notBefore ≤ now).map Retry.task)
  have hretries := hsplit.map Retry.task
  rw [List.map_append] at hretries
  unfold beginTick tasks
  rw [hphase]
  dsimp only [Phase.tasks]
  rw [List.append_nil]
  simp only [decide_not]
  -- the tasks that wait on, then those of the tick
  refine (hgroups.append_left _).trans ?_
  refine List.perm_append_comm.trans ?_
  rw [List.append_assoc]
  exact hretries.append_left _

/-- The beginning of a tick moves the books, if no count wraps in it. -/
lemma moves_beginTick {tip now : ℕ}
    (hfit : w.phase.isIdle = true → ∀ e ∈ w.audit.windows.entries,
      e.2.toCourse.CountsFit w.audit.sampleEvery w.lagSlots tip)
    (hbalanced : (w.account key log).Balanced w.audit.sampleEvery) :
    ReflTransGen (Account.Moves w.audit.sampleEvery) (w.account key log)
      ((w.beginTick tip now).1.account key (log ++ (w.beginTick tip now).2)) := by
  cases hphase : w.phase with
  | ticking calls groups =>
    unfold beginTick
    rw [hphase]
    exact moves_nil
  | stopped =>
    unfold beginTick
    rw [hphase]
    exact moves_nil
  | idle =>
    have htasks := tasks_beginTick tip now hphase
    refine (moves_takeReady (hfit (by rw [hphase]; rfl)) hbalanced).trans ?_
    unfold beginTick at htasks ⊢
    rw [hphase] at htasks ⊢
    exact moves_reorder (slotsOf_perm htasks.symm)

/-- A fetch changes neither the windows nor the tasks. -/
theorem fetch_frame (slot : ℕ) (r : Readings) (w : Worker) :
    (w.fetch slot r).1.audit = w.audit ∧ (w.fetch slot r).1.retries = w.retries ∧
      (w.fetch slot r).1.phase = w.phase := by
  unfold fetch
  split
  · exact ⟨rfl, rfl, rfl⟩
  · split <;> exact ⟨rfl, rfl, rfl⟩

/-- Putting tasks back keeps them. -/
lemma moves_putBack {ts : List SlotTask} {rest : List (ℕ × List SlotTask)} {calls : ℕ}
    (f : SlotTask → SlotTask) (hkey : ∀ t, (f t).key = t.key) (hslot : ∀ t, (f t).slot = t.slot)
    (notBefore : ℕ → ℕ) (hphase : w.phase = .ticking calls rest) :
    ReflTransGen (Account.Moves n)
      (Audit.account key w.audit (w.retries.map Retry.task ++ (ts ++ rest.flatMap Prod.snd)) log)
      ((w.putBack (ts.map f) notBefore).account key (log ++ [])) := by
  rw [List.append_nil]
  refine moves_reorder ?_
  have hphase' : (w.putBack (ts.map f) notBefore).phase = .ticking calls rest := hphase
  unfold tasks
  rw [map_task_putBack, hphase']
  dsimp only [Phase.tasks]
  rw [← List.append_assoc, slotsOf_append, slotsOf_append, slotsOf_append, slotsOf_append,
    slotsOf_map hkey hslot]

/-- Deferring tasks as they are keeps them, too. -/
lemma moves_defer {ts : List SlotTask} {rest : List (ℕ × List SlotTask)} {calls : ℕ}
    (notBefore : ℕ → ℕ) (hphase : w.phase = .ticking calls rest) :
    ReflTransGen (Account.Moves n)
      (Audit.account key w.audit (w.retries.map Retry.task ++ (ts ++ rest.flatMap Prod.snd)) log)
      ((w.putBack ts notBefore).account key (log ++ [])) := by
  have h : ReflTransGen (Account.Moves n)
      (Audit.account key w.audit (w.retries.map Retry.task ++ (ts ++ rest.flatMap Prod.snd)) log)
      ((w.putBack (ts.map id) notBefore).account key (log ++ [])) :=
    moves_putBack id (fun _ => rfl) (fun _ => rfl) notBefore hphase
  rwa [List.map_id] at h

/-- Settling the tasks of a slot one after the other moves the books. -/
lemma moves_settleGroup {f : FilterAudit → SlotTask → FilterAudit} {outcome : Outcome}
    (hcourse : ∀ a t key, (f a t).course key =
      if key = t.key then (a.course t.key).map (Course.settle outcome) else a.course key)
    {ts : List SlotTask} {rest : List (ℕ × List SlotTask)} {calls : ℕ}
    (hphase : w.phase = .ticking calls rest) :
    ReflTransGen (Account.Moves n)
      (Audit.account key w.audit (w.retries.map Retry.task ++ (ts ++ rest.flatMap Prod.snd)) log)
      (account key { w with audit := ts.foldl f w.audit } (log ++ ts.map .settled)) := by
  have hperm : (w.retries.map Retry.task ++ (ts ++ rest.flatMap Prod.snd)).Perm
      (ts ++ (w.retries.map Retry.task ++ rest.flatMap Prod.snd)) := by
    rw [← List.append_assoc, ← List.append_assoc]
    exact List.perm_append_comm.append_right _
  refine (moves_reorder (slotsOf_perm hperm)).trans ?_
  unfold account tasks
  rw [hphase]
  exact moves_settleAll hcourse ts

/-- The turn of a slot moves the books: its tasks are settled, or put back. -/
lemma moves_attempt (base58 : List UInt8 → String) (slot : ℕ) {ts : List SlotTask} (r : Readings)
    {rest : List (ℕ × List SlotTask)} {calls : ℕ} (hphase : w.phase = .ticking calls rest) :
    ReflTransGen (Account.Moves n)
      (Audit.account key w.audit (w.retries.map Retry.task ++ (ts ++ rest.flatMap Prod.snd)) log)
      ((w.attempt base58 slot ts r).1.account key (log ++ (w.attempt base58 slot ts r).2)) := by
  obtain ⟨haudit, hretries, hphase'⟩ := fetch_frame slot r w
  rw [← haudit, ← hretries]
  rw [← hphase'] at hphase
  unfold attempt
  dsimp only
  generalize (ts.map SlotTask.attempts).foldl max 0 + 1 = attempts
  cases (w.fetch slot r).2 with
  | some result =>
    exact moves_settleGroup
      (fun a t key => FilterAudit.course_compare base58 t result a key) hphase
  | none =>
    dsimp only
    split
    · exact moves_putBack (fun task => { task with attempts := attempts }) (fun _ => rfl)
        (fun _ => rfl) _ hphase
    · exact moves_settleGroup (fun a t key => FilterAudit.course_unchecked t a key) hphase

/-- The turn of the next slot moves the books. -/
lemma moves_handleGroup (base58 : List UInt8 → String) (r : Readings) :
    ReflTransGen (Account.Moves n) (w.account key log)
      ((w.handleGroup base58 r).1.account key (log ++ (w.handleGroup base58 r).2)) := by
  unfold handleGroup
  split
  next calls slot ts rest hphase =>
    have hstart : w.account key log = Audit.account key w.audit
        (w.retries.map Retry.task ++ (ts ++ rest.flatMap Prod.snd)) log := by
      unfold account tasks
      rw [hphase]
      rfl
    rw [hstart]
    split
    · exact moves_attempt (w := { w with phase := .ticking calls rest }) base58 slot r rfl
    · dsimp only
      split
      · exact moves_defer (w := { w with phase := .ticking calls rest }) _ rfl
      · exact moves_attempt (w := { w with phase := .ticking (calls + 1) rest }) base58 slot r rfl
  next => exact moves_nil

/-- The end of a tick moves the books. -/
lemma moves_endTick (tip floor : ℕ) (now : ℤ) :
    ReflTransGen (Account.Moves n) (w.account key log)
      ((w.endTick tip floor now).1.account key (log ++ (w.endTick tip floor now).2)) := by
  unfold endTick
  split
  next calls hphase =>
    have hstart : w.account key log =
        Audit.account key w.audit.drainViolations.1 (w.retries.map Retry.task ++ []) log := by
      unfold account tasks
      rw [hphase]
      exact (account_congr (by rw [FilterAudit.course_drainViolations])).symm
    rw [hstart]
    exact moves_takeFinished tip floor now giveUpSecs
  next => exact moves_nil

/-- The end of the run moves the books. -/
lemma moves_shutdown :
    ReflTransGen (Account.Moves n) (w.account key log)
      (w.shutdown.1.account key (log ++ w.shutdown.2)) := by
  unfold shutdown
  split
  next hphase =>
    have hstart : w.account key log =
        Audit.account key w.audit (w.retries.map Retry.task ++ []) log := by
      unfold account tasks
      rw [hphase]
      rfl
    rw [hstart]
    dsimp only
    rw [← List.append_assoc]
    refine (moves_settleAll (fun a t key => FilterAudit.course_unchecked t a key) _).trans ?_
    have hdrained : ∀ (a : FilterAudit) (log : List CheckEvent),
        Audit.account key a.drainViolations.1 [] log = Audit.account key a [] log := fun a log =>
      account_congr (by rw [FilterAudit.course_drainViolations])
    rw [← hdrained]
    exact moves_takeAll
  next => exact moves_nil

/-- The sample distance does not change when tasks are settled. -/
lemma sampleEvery_foldl {f : FilterAudit → SlotTask → FilterAudit}
    (hf : ∀ a t, (f a t).sampleEvery = a.sampleEvery) (ts : List SlotTask) (a : FilterAudit) :
    (ts.foldl f a).sampleEvery = a.sampleEvery := by
  induction ts generalizing a with
  | nil => rfl
  | cons t ts ih => rw [List.foldl_cons, ih, hf]

lemma sampleEvery_compareAll (base58 : List UInt8 → String) (ts : List SlotTask)
    (fetched : Fetched) (w : Worker) :
    (w.compareAll base58 ts fetched).audit.sampleEvery = w.audit.sampleEvery :=
  sampleEvery_foldl (f := fun a t => a.compare base58 t fetched) (fun _ _ => rfl) ts w.audit

lemma sampleEvery_uncheckAll (ts : List SlotTask) (w : Worker) :
    (w.uncheckAll ts).audit.sampleEvery = w.audit.sampleEvery :=
  sampleEvery_foldl (f := fun a t => a.unchecked t) (fun _ _ => rfl) ts w.audit

/-- The sample distance does not change when a slot has its turn. -/
lemma sampleEvery_attempt (base58 : List UInt8 → String) (slot : ℕ) (ts : List SlotTask)
    (r : Readings) (w : Worker) :
    (w.attempt base58 slot ts r).1.audit.sampleEvery = w.audit.sampleEvery := by
  rw [← (fetch_frame slot r w).1]
  unfold attempt
  dsimp only
  split
  · exact sampleEvery_compareAll base58 ts _ _
  · split
    · rfl
    · exact sampleEvery_uncheckAll ts _

end Worker

/-! ### The system -/

/-- The checker with its windows, and the sources. -/
structure FilterSystem where
  /-- The checker. -/
  worker : Worker
  /-- The number of the next connection of every source. -/
  connections : ℕ → ℕ

/-- A step of the system: a source acts on its window, or the checker goes on. -/
inductive FilterStep
  | connect (sid : ℕ) (info : WindowInfo)
  | subscribed (key : WindowKey) (tip : ℕ)
  | onDelivery (key : WindowKey) (slot : ℕ) (tx : TxView) (tags : List String)
      (serverIsVote : Option Bool)
  | close (key : WindowKey) (tip : ℕ) (now : ℤ) (reason : String)
  | beginTick (tip now : ℕ)
  | handleGroup (readings : Readings)
  | endTick (tip floor : ℕ) (now : ℤ)
  | shutdown

namespace FilterSystem

/-- Before anything is connected. -/
def new (n : ℕ) (hn : 0 < n) (skipVotes : Bool) (lagSlots : ℕ) : FilterSystem where
  worker := Worker.new (FilterAudit.new n hn skipVotes) lagSlots
  connections _ := 0

/-- A call of a source. -/
def withAudit (f : FilterAudit → FilterAudit) (s : FilterSystem) : FilterSystem :=
  { s with worker := { s.worker with audit := f s.worker.audit } }

/-- A step of the checker. -/
def withWorker (s : FilterSystem) (r : Worker × List CheckEvent) :
    FilterSystem × List CheckEvent :=
  ({ s with worker := r.1 }, r.2)

/-- What a step does, and what it reports.  A source opens a window for each of its connections,
which it numbers. -/
def step (base58 : List UInt8 → String) (s : FilterSystem) :
    FilterStep → FilterSystem × List CheckEvent
  | .connect sid info =>
    ({ s.withAudit (FilterAudit.openWindow (sid, s.connections sid) info) with
        connections := Function.update s.connections sid ((s.connections sid + 1) % u32Size) },
      [])
  | .subscribed key tip => (s.withAudit (FilterAudit.subscribed key tip), [])
  | .onDelivery key slot tx tags serverIsVote =>
    (s.withAudit (FilterAudit.onDelivery base58 key slot tx tags serverIsVote), [])
  | .close key tip now reason => (s.withAudit (FilterAudit.close key tip now reason), [])
  | .beginTick tip now => s.withWorker (s.worker.beginTick tip now)
  | .handleGroup readings => s.withWorker (s.worker.handleGroup base58 readings)
  | .endTick tip floor now => s.withWorker (s.worker.endTick tip floor now)
  | .shutdown => s.withWorker s.worker.shutdown

/-- The condition on a step under which the books balance: no number of a connection wraps, and no
count of a window does in a `take_ready`. -/
def Exact (s : FilterSystem) : FilterStep → Prop
  | .connect sid _ => s.connections sid + 1 < u32Size
  | .beginTick tip _ =>
    s.worker.phase.isIdle = true → ∀ e ∈ s.worker.audit.windows.entries,
      e.2.toCourse.CountsFit s.worker.audit.sampleEvery s.worker.lagSlots tip
  | _ => True

instance (s : FilterSystem) (step : FilterStep) : Decidable (s.Exact step) :=
  match step with
  | .connect sid _ => inferInstanceAs (Decidable (s.connections sid + 1 < u32Size))
  | .beginTick tip _ =>
    inferInstanceAs (Decidable (s.worker.phase.isIdle = true →
      ∀ e ∈ s.worker.audit.windows.entries,
        e.2.toCourse.CountsFit s.worker.audit.sampleEvery s.worker.lagSlots tip))
  | .subscribed _ _ | .onDelivery _ _ _ _ _ | .close _ _ _ _ | .handleGroup _ | .endTick _ _ _
  | .shutdown => isTrue trivial

variable (base58 : List UInt8 → String)

/-- A run of steps that all meet the condition. -/
def ExactRun : FilterSystem → List FilterStep → Prop
  | _, [] => True
  | s, step :: steps => s.Exact step ∧ ExactRun (s.step base58 step).1 steps

instance decidableExactRun (s : FilterSystem) :
    (steps : List FilterStep) → Decidable (s.ExactRun base58 steps)
  | [] => isTrue trivial
  | step :: steps =>
    have := decidableExactRun (s.step base58 step).1 steps
    inferInstanceAs (Decidable (_ ∧ _))

/-- The books of all windows balance, and those of connections to come are blank. -/
structure Balanced (n : ℕ) (s : FilterSystem) (log : List CheckEvent) : Prop where
  /-- The sample distance. -/
  every : s.worker.audit.sampleEvery = n
  /-- The books balance. -/
  balanced : ∀ key, (s.worker.account key log).Balanced n
  /-- No connection was numbered in advance. -/
  fresh : ∀ key, s.connections key.1 ≤ key.2 → s.worker.account key log = Account.blank

variable {base58} {n : ℕ} {s : FilterSystem} {log : List CheckEvent}

/-- The sample distance never changes. -/
lemma sampleEvery_step (step : FilterStep) :
    (s.step base58 step).1.worker.audit.sampleEvery = s.worker.audit.sampleEvery := by
  cases step with
  | beginTick tip now =>
    unfold FilterSystem.step withWorker Worker.beginTick
    dsimp only
    split <;> rfl
  | handleGroup readings =>
    unfold FilterSystem.step withWorker Worker.handleGroup
    dsimp only
    split
    · split
      · exact Worker.sampleEvery_attempt base58 _ _ readings _
      · split
        · rfl
        · exact Worker.sampleEvery_attempt base58 _ _ readings _
    · rfl
  | endTick tip floor now =>
    unfold FilterSystem.step withWorker Worker.endTick
    dsimp only
    split <;> rfl
  | shutdown =>
    unfold FilterSystem.step withWorker Worker.shutdown
    dsimp only
    split
    · exact Worker.sampleEvery_uncheckAll _ { s.worker with retries := [] }
    · rfl
  | _ => rfl

/-- A call of a source that keeps the ledgers does not move the books. -/
lemma moves_withAudit {f : FilterAudit → FilterAudit} {key key' : WindowKey} {g : Course → Course}
    (hcourse : ∀ key, (f s.worker.audit).course key =
      if key = key' then (s.worker.audit.course key').map g else s.worker.audit.course key)
    (hledger : ∀ c, (g c).ledger = c.ledger) :
    ReflTransGen (Account.Moves n) (s.worker.account key log)
      ((s.withAudit f).worker.account key (log ++ [])) := by
  have haccount : (s.withAudit f).worker.account key log = s.worker.account key log :=
    account_congr (ledger_of_update hcourse hledger)
  rw [List.append_nil, haccount]

/-- **Every step but the opening of a window moves the books of each window.** -/
theorem moves_step (base58 : List UInt8 → String) {step : FilterStep} (hstep : s.Exact step)
    (hconnect : ∀ sid info, step ≠ .connect sid info) (key : WindowKey)
    (hbalanced : (s.worker.account key log).Balanced s.worker.audit.sampleEvery) :
    ReflTransGen (Account.Moves s.worker.audit.sampleEvery) (s.worker.account key log)
      ((s.step base58 step).1.worker.account key (log ++ (s.step base58 step).2)) := by
  cases step with
  | connect sid info => exact absurd rfl (hconnect sid info)
  | subscribed key' tip =>
    exact moves_withAudit (fun key => FilterAudit.course_subscribed key' tip key) fun _ => rfl
  | onDelivery key' slot tx tags serverIsVote =>
    exact moves_withAudit
      (fun key => FilterAudit.course_onDelivery key' slot tx tags serverIsVote key)
      fun _ => ledger_deliver _ _ _ _ _
  | close key' tip now reason =>
    exact moves_withAudit (fun key => FilterAudit.course_close key' tip now reason key) fun _ => rfl
  | beginTick tip now => exact Worker.moves_beginTick hstep hbalanced
  | handleGroup readings => exact Worker.moves_handleGroup base58 readings
  | endTick tip floor now => exact Worker.moves_endTick tip floor now
  | shutdown => exact Worker.moves_shutdown

/-- Opening a window opens its books, and leaves the others alone. -/
lemma account_connect (sid : ℕ) (info : WindowInfo) (key : WindowKey) :
    (s.step base58 (.connect sid info)).1.worker.account key log =
      if key = (sid, s.connections sid) then
        { s.worker.account key log with ledger := some SlotLedger.new }
      else s.worker.account key log := by
  have hcourse := FilterAudit.course_openWindow (a := s.worker.audit) (sid, s.connections sid)
    info key
  unfold FilterSystem.step withAudit Worker.account Worker.tasks account
  dsimp only
  rw [hcourse]
  split <;> rfl

/-- **Every step that meets the condition keeps the books of all windows balanced.** -/
theorem Balanced.step (h : s.Balanced n log) (hn : 0 < n) {step : FilterStep}
    (hstep : s.Exact step) :
    (s.step base58 step).1.Balanced n (log ++ (s.step base58 step).2) := by
  have hevery : (s.step base58 step).1.worker.audit.sampleEvery = n :=
    (sampleEvery_step step).trans h.every
  by_cases hconnect : ∃ sid info, step = .connect sid info
  · obtain ⟨sid, info, rfl⟩ := hconnect
    have hlog : log ++ (s.step base58 (.connect sid info)).2 = log := List.append_nil log
    have hblank : s.worker.account (sid, s.connections sid) log = Account.blank :=
      h.fresh (sid, s.connections sid) (Nat.le_refl _)
    rw [hlog]
    refine ⟨hevery, fun key => ?_, fun key hkey => ?_⟩
    · rw [account_connect]
      split
      next heq =>
        rw [heq, hblank]
        exact Account.balanced_opened
      next => exact h.balanced key
    · dsimp only [FilterSystem.step] at hkey
      rw [Nat.mod_eq_of_lt hstep, Function.update_apply] at hkey
      rw [account_connect]
      split
      next heq =>
        subst heq
        rw [if_pos rfl] at hkey
        exact absurd hkey (Nat.not_succ_le_self _)
      next hne =>
        refine h.fresh key ?_
        split at hkey
        next hsid =>
          rw [hsid]
          omega
        next => exact hkey
  · have hmoves : ∀ key, ReflTransGen (Account.Moves n) (s.worker.account key log)
        ((s.step base58 step).1.worker.account key (log ++ (s.step base58 step).2)) := by
      intro key
      have hmove := moves_step base58 hstep (fun sid info heq => hconnect ⟨sid, info, heq⟩) key
        (h.every ▸ h.balanced key)
      rw [h.every] at hmove
      exact hmove
    have hconnections : (s.step base58 step).1.connections = s.connections := by
      cases step with
      | connect sid info => exact absurd ⟨sid, info, rfl⟩ hconnect
      | _ => rfl
    refine ⟨hevery, fun key => (h.balanced key).reflTransGen hn (hmoves key), fun key hkey => ?_⟩
    rw [hconnections] at hkey
    exact Account.eq_blank_of_reflTransGen (hmoves key) (h.fresh key hkey)

/-- Along a run of steps that meet the condition the books balance. -/
theorem Balanced.run (h : s.Balanced n log) (hn : 0 < n) {steps : List FilterStep}
    (hrun : s.ExactRun base58 steps) :
    (Machine.finalState (FilterSystem.step base58) s steps).Balanced n
      (log ++ (Machine.outputs (FilterSystem.step base58) s steps).flatten) := by
  refine (Machine.log_induction (FilterSystem.step base58)
    (P := fun s steps log => ExactRun base58 s steps ∧ Balanced n s log) ?_ ⟨hrun, h⟩).2
  intro s step steps log ⟨hrun, h⟩
  exact ⟨hrun.2, h.step hn hrun.1⟩

/-- Where the cursor of a window was first placed. -/
def placements (key : WindowKey) (log : List CheckEvent) : List ℕ :=
  log.filterMap (CheckEvent.placedAt key)

/-- The slots handed out for a window, in order. -/
def handedSlots (key : WindowKey) (log : List CheckEvent) : List ℕ :=
  log.filterMap (CheckEvent.handedAt key)

/-- The slots of the tasks of a window that were compared or given up, in order. -/
def settledSlots (key : WindowKey) (log : List CheckEvent) : List ℕ :=
  log.filterMap (CheckEvent.settledAt key)

/-- The sampled slots of a window are accounted for exactly, given the events so far. -/
structure SlotsAccounted (n : ℕ) (key : WindowKey) (s : FilterSystem) (log : List CheckEvent) :
    Prop where
  /-- The slots handed out are strictly increasing. -/
  handed_increasing : (handedSlots key log).Pairwise (· < ·)
  /-- The slots handed out are multiples of the sample distance. -/
  handed_sampled : ∀ slot ∈ handedSlots key log, n ∣ slot
  /-- No task is settled twice. -/
  settled_once : (settledSlots key log).Nodup
  /-- Only tasks are settled that were handed out. -/
  settled_handed : ∀ slot ∈ settledSlots key log, slot ∈ handedSlots key log
  /-- Between two ticks the tasks in flight are those that wait for a retry. -/
  inFlight : s.worker.phase.isIdle = true → ∀ c ∈ s.worker.audit.course key,
    c.inFlight = (s.worker.retries.filter fun r => r.task.key = key).length
  /-- When the window is emitted, all slots that the cursor has left behind are counted. -/
  emitted : ∀ c ∈ log.filterMap (CheckEvent.emittedAt key),
    match c.nextCheck with
    | some last => ∃ initial, placements key log = [initial] ∧ initial ≤ last ∧
        c.slotsChecked + c.slotsSkipped + c.slotsUnchecked = (last - initial) / n
    | none => placements key log = [] ∧ c.slotsChecked + c.slotsSkipped + c.slotsUnchecked = 0

/-- The number of a window's tasks among some retries. -/
lemma length_slotsOf_retries (key : WindowKey) (retries : List Retry) :
    (slotsOf key (retries.map Retry.task)).length =
      (retries.filter fun r => r.task.key = key).length := by
  unfold slotsOf
  rw [List.length_map, List.filter_map, List.length_map]
  rfl

/-- Books that balance account for all slots. -/
lemma Balanced.slotsAccounted (h : s.Balanced n log) (hn : 0 < n) (key : WindowKey) :
    SlotsAccounted n key s log := by
  have hbooks := h.balanced key
  have hnodup : (handedSlots key log).Nodup := hbooks.increasing.imp fun hlt => Nat.ne_of_lt hlt
  have hboth : (settledSlots key log ++ slotsOf key s.worker.tasks).Nodup :=
    hbooks.settled.nodup_iff.mp hnodup
  refine
    { handed_increasing := hbooks.increasing
      handed_sampled := hbooks.sampled
      settled_once := (List.nodup_append.mp hboth).1
      settled_handed := fun slot hslot =>
        hbooks.settled.mem_iff.mpr (List.mem_append_left _ hslot)
      inFlight := fun hidle c hc => ?_
      emitted := fun c hc => ?_ }
  · have hledger : c.ledger ∈ (s.worker.account key log).ledger :=
      Option.map_eq_some_iff.mpr ⟨c, hc, rfl⟩
    have htasks : s.worker.tasks = s.worker.retries.map Retry.task := by
      unfold Worker.tasks
      cases hphase : s.worker.phase with
      | ticking calls groups =>
        rw [hphase] at hidle
        cases hidle
      | idle => exact List.append_nil _
      | stopped => exact List.append_nil _
    have hinFlight : c.inFlight = (slotsOf key s.worker.tasks).length :=
      (hbooks.ledger _ hledger).inFlight
    rw [hinFlight, htasks, length_slotsOf_retries]
  · have hcounts := hbooks.emitted c.ledger (List.mem_map_of_mem hc)
    cases hlast : c.nextCheck with
    | none => exact (Account.countsAll_of_none (l := c.ledger) hlast).mp hcounts
    | some last =>
      obtain ⟨initial, hplaced, hsum⟩ :=
        (Account.countsAll_of_some (l := c.ledger) hlast).mp hcounts
      refine ⟨initial, hplaced, by omega, ?_⟩
      rw [hsum, Nat.add_sub_cancel_left, Nat.mul_div_cancel_left _ hn]
      rfl

/-- The books balance before anything is connected. -/
theorem balanced_new (n : ℕ) (hn : 0 < n) (skipVotes : Bool) (lagSlots : ℕ) :
    (new n hn skipVotes lagSlots).Balanced n [] := by
  have hblank : ∀ key, (new n hn skipVotes lagSlots).worker.account key [] = Account.blank := by
    intro key
    unfold Worker.account account
    have hcourse : (new n hn skipVotes lagSlots).worker.audit.course key = none :=
      FilterAudit.course_new n hn skipVotes key
    rw [hcourse]
    rfl
  refine ⟨rfl, fun key => ?_, fun key _ => hblank key⟩
  rw [hblank key]
  exact Account.balanced_blank

/-- **The sampled slots of every window are accounted for exactly**, in every run of the checker and
its sources in which no count wraps. -/
theorem sampled_slots_accounted {base58 : List UInt8 → String} {n : ℕ} (hn : 0 < n)
    (skipVotes : Bool) (lagSlots : ℕ) {steps : List FilterStep}
    (hrun : (new n hn skipVotes lagSlots).ExactRun base58 steps) (key : WindowKey) :
    SlotsAccounted n key
      (Machine.finalState (FilterSystem.step base58) (new n hn skipVotes lagSlots) steps)
      (Machine.outputs (FilterSystem.step base58) (new n hn skipVotes lagSlots) steps).flatten := by
  have hstart := balanced_new n hn skipVotes lagSlots
  exact (hstart.run hn hrun).slotsAccounted hn key

/-- A window that is subscribed and then closed, with a block that is skipped and a last slot that
is still not available when the checker stops. -/
def plainSteps : List FilterStep :=
  [.connect 0 ⟨"g", .grpcDeshred, none, Bundle.all⟩, .subscribed (0, 0) 1000,
    .beginTick 1062 0, .handleGroup ⟨0, 0, 0, fun _ => 0, .block []⟩,
    .handleGroup ⟨0, 0, 0, fun _ => 0, .rpcError (-32007)⟩,
    .handleGroup ⟨0, 0, 0, fun _ => 0, .rpcError (-32004)⟩,
    .endTick 1062 0 0, .close (0, 0) 1062 0 "rotated", .shutdown]

/-- The slots of the window are accounted for. -/
theorem sampled_slots_accounted_plain :
    SlotsAccounted 10 (0, 0)
      (Machine.finalState (FilterSystem.step fun _ => "") (new 10 (by decide) false 32) plainSteps)
      (Machine.outputs (FilterSystem.step fun _ => "") (new 10 (by decide) false 32)
        plainSteps).flatten := by
  have hrun : (new 10 (by decide) false 32).ExactRun (fun _ => "") plainSteps := by
    decide
  exact sampled_slots_accounted (by decide) false 32 hrun (0, 0)

/-- A source reports the greatest slot there is, which becomes the tip. -/
def greatestTipSteps : List FilterStep :=
  [.connect 0 ⟨"g", .grpcDeshred, none, Bundle.all⟩, .subscribed (0, 0) 18446744073709551500,
    .beginTick 18446744073709551615 0]

/-- The slots of the window are not accounted for: the cursor wraps, and slot 4 is handed out. -/
theorem not_accounted_greatestTip :
    ¬ SlotsAccounted 10 (0, 0)
      (Machine.finalState (FilterSystem.step fun _ => "") (new 10 (by decide) false 32)
        greatestTipSteps)
      (Machine.outputs (FilterSystem.step fun _ => "") (new 10 (by decide) false 32)
        greatestTipSteps).flatten := by
  intro h
  have hslot : 4 ∈ handedSlots (0, 0)
      (Machine.outputs (FilterSystem.step fun _ => "") (new 10 (by decide) false 32)
        greatestTipSteps).flatten := by
    decide
  exact absurd (h.handed_sampled 4 hslot) (by decide)

end FilterSystem

end ShredTools.Audit
