import ShredTools.Audit.FilterCheckRun
import ShredTools.Audit.WindowLife

/-!
# The pace of the checker

The checker asks the node for one block after the other, and has to spare it.  `report` says what
each turn of a tick does: a call of the node, tasks that wait on, tasks that are compared, and tasks
that are given up.  The log of these events in any run, with any windows and any answers, shows that
a tick makes a few calls only, that no call is made during a pause, that a task waits on with the
attempts that it had, and that a task is given up only after its slot failed often enough
(`checker_holds_back`).
-/

namespace ShredTools.Audit

/-! ### What happens in a tick -/

/-- How a call of the node ends. -/
inductive CallOutcome
  /-- There is a block, or the slot was skipped. -/
  | fetched
  /-- The block is not available yet. -/
  | notAvailable
  /-- The call failed, and the checker pauses. -/
  | failed (pausedUntil : ℕ)
  deriving DecidableEq

namespace CallOutcome

/-- Whether a fetch has failed. -/
def fails : CallOutcome → Bool
  | fetched => false
  | _ => true

/-- Until when the checker pauses after a call. -/
def pause (before : Option ℕ) : CallOutcome → Option ℕ
  | fetched => none
  | notAvailable => before
  | failed pausedUntil => some pausedUntil

end CallOutcome

/-- An event of a tick. -/
inductive TickEvent
  /-- A tick begins, and takes what is ready. -/
  | began (ready : List SlotTask)
  /-- The node is called for the block of a slot. -/
  | called (slot pausedAt : ℕ) (outcome : CallOutcome)
  /-- A task waits on, for a pause or for the next tick. -/
  | deferred (task : SlotTask)
  /-- A task is compared with what was fetched. -/
  | compared (task : SlotTask) (fetched : Fetched)
  /-- A task is declared unchecked. -/
  | gaveUp (task : SlotTask)

namespace TickEvent

/-- The calls of a tick so far, after one more event. -/
def countCall (calls : ℕ) : TickEvent → ℕ
  | began _ => 0
  | called _ _ _ => calls + 1
  | _ => calls

/-- Until when the checker pauses, after one more event. -/
def pause (before : Option ℕ) : TickEvent → Option ℕ
  | called _ _ outcome => outcome.pause before
  | _ => before

/-- Whether an event is a call for a slot that failed. -/
def failsFor (slot : ℕ) : TickEvent → Bool
  | called slot' _ outcome => slot' == slot && outcome.fails
  | _ => false

/-- The tasks that an event takes in. -/
def taken : TickEvent → List SlotTask
  | began ready => ready
  | _ => []

/-- The tasks that an event ends. -/
def ended : TickEvent → List SlotTask
  | compared task _ => [task]
  | gaveUp task => [task]
  | _ => []

/-- Whether an event only says what becomes of a task in hand. -/
def isFate : TickEvent → Bool
  | began _ => false
  | called _ _ _ => false
  | _ => true

/-- What an event does to the windows. -/
def applyTo (base58 : List UInt8 → String) (a : FilterAudit) : TickEvent → FilterAudit
  | compared task fetched => a.compare base58 task fetched
  | gaveUp task => a.unchecked task
  | _ => a

end TickEvent

/-- The calls since the last tick began. -/
def callsInTick (log : List TickEvent) : ℕ := log.foldl TickEvent.countCall 0

/-- Until when the checker pauses. -/
def pauseAfter (log : List TickEvent) : Option ℕ := log.foldl TickEvent.pause none

/-- How many fetches of a slot have failed. -/
def failures (slot : ℕ) (log : List TickEvent) : ℕ := log.countP (TickEvent.failsFor slot)

namespace Worker

/-- How a call of the node ends. -/
def callOutcome (r : Readings) (w : Worker) : CallOutcome :=
  match getBlock r.reply with
  | .fetched _ => .fetched
  | .notAvailable => .notAvailable
  | .error => .failed (r.failedAt + w.backoff.elim backoffMin Prod.snd)

/-- What `attempt` does with the tasks of a slot. -/
def attemptReport (slot : ℕ) (tasks : List SlotTask) (r : Readings) (w : Worker) :
    List TickEvent :=
  match (w.fetch slot r).2 with
  | some result => tasks.map fun task => .compared task result
  | none =>
    if (tasks.map SlotTask.attempts).foldl max 0 + 1 < maxAttempts then []
    else tasks.map .gaveUp

/-- What `handleGroup` does. -/
def report (r : Readings) (w : Worker) : List TickEvent :=
  match w.phase with
  | .ticking calls ((slot, tasks) :: rest) =>
    if w.isCached slot then
      { w with phase := .ticking calls rest }.attemptReport slot tasks r
    else
      let paused := w.backoff.filter fun b => r.pausedAt < b.1
      if paused.isSome ∨ maxCallsPerTick ≤ calls then tasks.map .deferred
      else
        .called slot r.pausedAt (w.callOutcome r) ::
          { w with phase := .ticking (calls + 1) rest }.attemptReport slot tasks r
  | _ => []

/-- What is reported is what is done to the windows. -/
lemma audit_attempt (base58 : List UInt8 → String) (slot : ℕ) (tasks : List SlotTask)
    (r : Readings) (w : Worker) :
    (w.attempt base58 slot tasks r).1.audit =
      (w.attemptReport slot tasks r).foldl (TickEvent.applyTo base58) w.audit := by
  have haudit := (fetch_frame slot r w).1
  unfold attempt attemptReport
  dsimp only
  cases (w.fetch slot r).2 with
  | some result =>
    unfold compareAll
    dsimp only
    rw [haudit, List.foldl_map]
    rfl
  | none =>
    dsimp only
    split
    · exact haudit
    · unfold uncheckAll
      dsimp only
      rw [haudit, List.foldl_map]
      rfl

/-- What a turn does, and what it reports. -/
inductive Turn (base58 : List UInt8 → String) (r : Readings) (w : Worker) :
    Worker → List TickEvent → Prop
  /-- No slot waits for its turn. -/
  | idle : Turn base58 r w w []
  /-- The block is in the cache. -/
  | cached {calls slot : ℕ} {tasks : List SlotTask} {rest : List (ℕ × List SlotTask)}
      (hphase : w.phase = .ticking calls ((slot, tasks) :: rest))
      (hcached : w.isCached slot = true) :
      Turn base58 r w ({ w with phase := .ticking calls rest }.attempt base58 slot tasks r).1
        ({ w with phase := .ticking calls rest }.attemptReport slot tasks r)
  /-- The checker pauses, or has made its calls. -/
  | deferred {calls slot : ℕ} {tasks : List SlotTask} {rest : List (ℕ × List SlotTask)}
      (hphase : w.phase = .ticking calls ((slot, tasks) :: rest)) (notBefore : ℕ) :
      Turn base58 r w ({ w with phase := .ticking calls rest }.putBack tasks fun _ => notBefore)
        (tasks.map .deferred)
  /-- The node is called. -/
  | called {calls slot : ℕ} {tasks : List SlotTask} {rest : List (ℕ × List SlotTask)}
      (hphase : w.phase = .ticking calls ((slot, tasks) :: rest))
      (hcached : w.isCached slot = false) (hpause : ∀ b ∈ w.backoff, b.1 ≤ r.pausedAt)
      (hcalls : calls < maxCallsPerTick) :
      Turn base58 r w
        ({ w with phase := .ticking (calls + 1) rest }.attempt base58 slot tasks r).1
        (.called slot r.pausedAt (w.callOutcome r) ::
          { w with phase := .ticking (calls + 1) rest }.attemptReport slot tasks r)

/-- **Every turn is one of these.** -/
theorem turn_handleGroup (base58 : List UInt8 → String) (r : Readings) (w : Worker) :
    Turn base58 r w (w.handleGroup base58 r).1 (w.report r) := by
  unfold handleGroup report
  cases hphase : w.phase with
  | ticking calls groups =>
    cases groups with
    | nil => exact Turn.idle
    | cons g rest =>
      obtain ⟨slot, tasks⟩ := g
      dsimp only
      by_cases hcached : w.isCached slot = true
      · rw [if_pos hcached, if_pos hcached]
        exact Turn.cached hphase hcached
      · rw [if_neg hcached, if_neg hcached]
        split
        next => exact Turn.deferred hphase _
        next hfree =>
          rw [not_or, Nat.not_le] at hfree
          refine Turn.called hphase (Bool.eq_false_of_not_eq_true hcached) (fun b hb => ?_) hfree.2
          by_contra hlt
          apply hfree.1
          rw [Option.mem_def.mp hb]
          simp [Option.filter, Nat.lt_of_not_le hlt]
  | idle => exact Turn.idle
  | stopped => exact Turn.idle

/-- **A turn does to the windows what it reports**: it compares tasks and declares tasks unchecked,
and nothing else. -/
theorem audit_handleGroup (base58 : List UInt8 → String) (r : Readings) (w : Worker) :
    (w.handleGroup base58 r).1.audit =
      (w.report r).foldl (TickEvent.applyTo base58) w.audit := by
  have hturn := turn_handleGroup base58 r w
  generalize (w.handleGroup base58 r).1 = w' at hturn ⊢
  generalize w.report r = events at hturn ⊢
  cases hturn with
  | idle => rfl
  | cached hphase hcached => exact audit_attempt base58 _ _ r _
  | @deferred calls slot tasks rest hphase notBefore =>
    rw [List.foldl_map]
    exact (List.foldl_fixed tasks).symm
  | called hphase hcached hpause hcalls => exact audit_attempt base58 _ _ r _

end Worker

/-! ### Runs of the checker -/

/-- A step of the checker; the sources may do anything to the windows. -/
inductive CheckerStep
  | sources (audit : FilterAudit)
  | beginTick (tip now : ℕ)
  | handleGroup (readings : Readings)
  | endTick (tip floor : ℕ) (now : ℤ)

/-- What a step of the checker does, and what it reports. -/
def Worker.go (base58 : List UInt8 → String) (w : Worker) :
    CheckerStep → Worker × List TickEvent
  | .sources audit => ({ w with audit := audit }, [])
  | .beginTick tip now =>
    ((w.beginTick tip now).1,
      if w.phase.isIdle then [.began (w.audit.takeReady w.lagSlots tip).2] else [])
  | .handleGroup r => ((w.handleGroup base58 r).1, w.report r)
  | .endTick tip floor now => ((w.endTick tip floor now).1, [])

/-- A task as it was when it was handed out. -/
def SlotTask.fresh (task : SlotTask) : SlotTask := { task with attempts := 0 }

/-- What holds of each event of a run, in view of those before it. -/
def HoldsBack (before : List TickEvent) : TickEvent → Prop
  | .called _ pausedAt _ =>
    callsInTick before < maxCallsPerTick ∧
      ∀ pausedUntil ∈ pauseAfter before, pausedUntil ≤ pausedAt
  | .gaveUp task => maxAttempts ≤ failures task.slot before
  | _ => True

/-- The checker keeps its pace, with the events so far, and the tasks that it has in hand. -/
structure Paced (w : Worker) (log : List TickEvent) (inHand : List SlotTask) : Prop where
  /-- Calls are few and outside of pauses, and tasks are not given up early. -/
  along : log.Along HoldsBack
  /-- The pause is that of the last call. -/
  pause : w.backoff.map Prod.fst = pauseAfter log
  /-- The calls of the tick are counted. -/
  calls : ∀ calls groups, w.phase = .ticking calls groups → callsInTick log = calls
  /-- The tasks of a group are for its slot. -/
  slots : ∀ calls groups, w.phase = .ticking calls groups →
    ∀ g ∈ groups, ∀ t ∈ g.2, t.slot = g.1
  /-- The attempts of a task are failed fetches of its slot. -/
  attempts : ∀ t ∈ inHand ++ w.tasks, t.attempts ≤ failures t.slot log
  /-- No task is lost. -/
  conserved : ((log.flatMap TickEvent.taken).map SlotTask.fresh).Perm
    ((inHand ++ w.tasks ++ log.flatMap TickEvent.ended).map SlotTask.fresh)

section Logs

variable {log : List TickEvent} {slot : ℕ}

lemma callsInTick_append (es : List TickEvent) :
    callsInTick (log ++ es) = es.foldl TickEvent.countCall (callsInTick log) :=
  List.foldl_append

lemma pauseAfter_append (es : List TickEvent) :
    pauseAfter (log ++ es) = es.foldl TickEvent.pause (pauseAfter log) :=
  List.foldl_append

/-- Failures stay. -/
lemma failures_le_append (es : List TickEvent) :
    failures slot log ≤ failures slot (log ++ es) := by
  unfold failures
  rw [List.countP_append]
  exact Nat.le_add_right _ _

/-- A failed call for a slot is one more failure. -/
lemma failures_append_called (pausedAt : ℕ) {outcome : CallOutcome} (h : outcome.fails = true) :
    failures slot (log ++ [.called slot pausedAt outcome]) = failures slot log + 1 := by
  have hfails : TickEvent.failsFor slot (.called slot pausedAt outcome) = true := by
    unfold TickEvent.failsFor
    dsimp only
    rw [h, Bool.and_true]
    exact beq_self_eq_true slot
  unfold failures
  rw [List.countP_append, List.countP_singleton, if_pos hfails]

/-- What does not change by saying what becomes of a task stays along a log that says no more. -/
lemma foldl_fate {α : Type} {step : α → TickEvent → α} {x : α}
    (hstep : ∀ e : TickEvent, e.isFate = true → step x e = x) {es : List TickEvent}
    (h : ∀ e ∈ es, e.isFate = true) : es.foldl step x = x := by
  induction es with
  | nil => rfl
  | cons e es ih =>
    obtain ⟨he, hes⟩ := List.forall_mem_cons.mp h
    rw [List.foldl_cons, hstep e he]
    exact ih hes

/-- Saying what becomes of a task is no call. -/
lemma callsInTick_append_fate {es : List TickEvent} (h : ∀ e ∈ es, e.isFate = true) :
    callsInTick (log ++ es) = callsInTick log := by
  rw [callsInTick_append]
  apply foldl_fate _ h
  intro e he
  cases e with
  | began ready => cases he
  | called slot pausedAt outcome => cases he
  | _ => rfl

/-- Saying what becomes of a task does not change the pause. -/
lemma pauseAfter_append_fate {es : List TickEvent} (h : ∀ e ∈ es, e.isFate = true) :
    pauseAfter (log ++ es) = pauseAfter log := by
  rw [pauseAfter_append]
  apply foldl_fate _ h
  intro e he
  cases e with
  | called slot pausedAt outcome => cases he
  | _ => rfl

/-- Saying what becomes of a task takes nothing in. -/
lemma taken_append_fate {es : List TickEvent} (h : ∀ e ∈ es, e.isFate = true) :
    (log ++ es).flatMap TickEvent.taken = log.flatMap TickEvent.taken := by
  have hnil : es.flatMap TickEvent.taken = [] := by
    rw [List.flatMap_eq_nil_iff]
    intro e he
    have hfate := h e he
    cases e with
    | began ready => cases hfate
    | _ => rfl
  rw [List.flatMap_append, hnil, List.append_nil]

end Logs

/-- An attempt counts from the greatest number of attempts so far. -/
lemma foldl_max_le {k : ℕ} (l : List ℕ) (init : ℕ) (h : ∀ a ∈ l, a ≤ k) (hinit : init ≤ k) :
    l.foldl max init ≤ k := by
  induction l generalizing init with
  | nil => exact hinit
  | cons a l ih =>
    obtain ⟨ha, hl⟩ := List.forall_mem_cons.mp h
    exact ih (max init a) hl (Nat.max_le.mpr ⟨hinit, ha⟩)

/-- A call of the node sets the pause, and its result is missing only if it failed. -/
lemma Worker.fetch_of_not_cached {w : Worker} {slot : ℕ} (h : w.isCached slot = false)
    (r : Readings) :
    (w.fetch slot r).1.backoff.map Prod.fst =
        (w.callOutcome r).pause (w.backoff.map Prod.fst) ∧
      ((w.fetch slot r).2 = none → (w.callOutcome r).fails = true) := by
  have hfind : w.cache.find? (·.1 == slot) = none := by
    rw [List.find?_eq_none]
    exact List.any_eq_false.mp h
  unfold fetch callOutcome
  rw [hfind]
  dsimp only
  cases getBlock r.reply with
  | fetched result =>
    cases result with
    | block b => exact ⟨rfl, fun hnone => by cases hnone⟩
    | skipped => exact ⟨rfl, fun hnone => by cases hnone⟩
  | notAvailable => exact ⟨rfl, fun _ => rfl⟩
  | error => exact ⟨rfl, fun _ => rfl⟩

/-- A block in the cache is no failure. -/
lemma Worker.fetch_of_cached {w : Worker} {slot : ℕ} (h : w.isCached slot = true)
    (r : Readings) : (w.fetch slot r).1 = w ∧ (w.fetch slot r).2 ≠ none := by
  unfold fetch
  cases hfind : w.cache.find? (·.1 == slot) with
  | none =>
    have hnot := List.find?_eq_none.mp hfind
    obtain ⟨x, hx, hslot⟩ := List.any_eq_true.mp h
    exact absurd hslot (hnot x hx)
  | some cached => exact ⟨rfl, Option.some_ne_none _⟩

/-- The tasks of a group are for its slot. -/
theorem slot_of_mem_groupBySlot (ts : List SlotTask) :
    ∀ g ∈ groupBySlot ts, ∀ t ∈ g.2, t.slot = g.1 := by
  have hinsert : ∀ (gs : List (ℕ × List SlotTask)) (t : SlotTask),
      (∀ g ∈ gs, ∀ t ∈ g.2, t.slot = g.1) → ∀ g ∈ insertTask gs t, ∀ t ∈ g.2, t.slot = g.1 := by
    intro gs t
    induction gs with
    | nil =>
      intro _ g hg t' ht'
      cases List.mem_singleton.mp hg
      rw [List.mem_singleton.mp ht']
    | cons g gs ih =>
      obtain ⟨slot, ts⟩ := g
      intro h
      obtain ⟨hg, hgs⟩ := List.forall_mem_cons.mp h
      unfold insertTask
      split_ifs with hlt heq
      · refine List.forall_mem_cons.mpr ⟨fun t' ht' => ?_, h⟩
        rw [List.mem_singleton.mp ht']
      · refine List.forall_mem_cons.mpr ⟨fun t' ht' => ?_, hgs⟩
        rcases List.mem_append.mp ht' with ht' | ht'
        · exact hg t' ht'
        · rw [List.mem_singleton.mp ht']
          exact heq
      · exact List.forall_mem_cons.mpr ⟨hg, ih hgs⟩
  have hfold : ∀ (ts : List SlotTask) (gs : List (ℕ × List SlotTask)),
      (∀ g ∈ gs, ∀ t ∈ g.2, t.slot = g.1) →
        ∀ g ∈ ts.foldl insertTask gs, ∀ t ∈ g.2, t.slot = g.1 := by
    intro ts
    induction ts with
    | nil => exact fun gs h => h
    | cons t ts ih => exact fun gs h => ih _ (hinsert gs t h)
  exact hfold ts [] fun g hg => absurd hg List.not_mem_nil

/-- A task is handed out without attempts. -/
lemma attempts_of_mem_takeReady {a : FilterAudit} {lagSlots tip : ℕ} {t : SlotTask}
    (ht : t ∈ (a.takeReady lagSlots tip).2) : t.attempts = 0 := by
  obtain ⟨e, -, ht⟩ := List.mem_flatMap.mp ht
  obtain ⟨d, slot, -, rfl⟩ := Course.exists_of_mem_takeReady ht
  rfl

/-- A slot that has its turn leaves the other tasks as they are. -/
theorem Worker.tasks_take {w : Worker} {slot calls : ℕ} {ts : List SlotTask}
    {rest : List (ℕ × List SlotTask)} (hphase : w.phase = .ticking calls ((slot, ts) :: rest)) :
    w.tasks.Perm (ts ++ { w with phase := .ticking calls rest }.tasks) := by
  unfold tasks
  rw [hphase]
  dsimp only [Phase.tasks]
  rw [List.flatMap_cons, ← List.append_assoc, ← List.append_assoc]
  exact List.perm_append_comm.append_right _

/-- What is put back is in hand no longer. -/
theorem Worker.tasks_putBack (ts : List SlotTask) (notBefore : ℕ → ℕ) (w : Worker) :
    ((w.putBack ts notBefore).tasks).Perm (ts ++ w.tasks) := by
  unfold tasks
  rw [map_task_putBack, ← List.append_assoc]
  exact List.perm_append_comm.append_right _

namespace Paced

variable {base58 : List UInt8 → String} {w : Worker} {log : List TickEvent}
  {inHand : List SlotTask} {r : Readings} {slot : ℕ}

/-- Before the first tick. -/
theorem new (audit : FilterAudit) (lagSlots : ℕ) : Paced (Worker.new audit lagSlots) [] [] where
  along := List.along_nil _
  pause := rfl
  calls _ _ h := by cases h
  slots _ _ h := by cases h
  attempts _ h := absurd h List.not_mem_nil
  conserved := List.Perm.nil

/-- The tasks in hand end, or are put back. -/
theorem settle (h : Paced w log inHand) {w' : Worker} {es : List TickEvent}
    (hfate : ∀ e ∈ es, e.isFate = true) (hphase : w'.phase = w.phase)
    (hbackoff : w'.backoff = w.backoff) (halong : es.Along fun before => HoldsBack (log ++ before))
    (hattempts : ∀ t ∈ w'.tasks, t.attempts ≤ failures t.slot log)
    (htasks : ((inHand ++ w.tasks).map SlotTask.fresh).Perm
      ((w'.tasks ++ es.flatMap TickEvent.ended).map SlotTask.fresh)) :
    Paced w' (log ++ es) [] where
  along := h.along.append halong
  pause := by
    rw [hbackoff, pauseAfter_append_fate hfate]
    exact h.pause
  calls calls groups hticking := by
    rw [hphase] at hticking
    rw [callsInTick_append_fate hfate]
    exact h.calls calls groups hticking
  slots calls groups hticking := by
    rw [hphase] at hticking
    exact h.slots calls groups hticking
  attempts t ht := Nat.le_trans (hattempts t ht) (failures_le_append es)
  conserved := by
    have hbefore := h.conserved
    have hended : ((w'.tasks ++ es.flatMap TickEvent.ended) ++ log.flatMap TickEvent.ended).Perm
        (w'.tasks ++ (log ++ es).flatMap TickEvent.ended) := by
      rw [List.flatMap_append, List.append_assoc]
      exact List.perm_append_comm.append_left _
    rw [List.map_append] at hbefore
    rw [taken_append_fate hfate, List.nil_append]
    refine hbefore.trans ((htasks.append_right _).trans ?_)
    rw [← List.map_append]
    exact hended.map _

/-- A slot has its turn: its tasks are in hand. -/
theorem take (h : Paced w log []) {calls : ℕ} {ts : List SlotTask}
    {rest : List (ℕ × List SlotTask)} (hphase : w.phase = .ticking calls ((slot, ts) :: rest)) :
    Paced { w with phase := .ticking calls rest } log ts ∧ ∀ t ∈ ts, t.slot = slot := by
  have hperm := Worker.tasks_take hphase
  refine ⟨⟨h.along, h.pause, ?_, ?_, ?_, ?_⟩, h.slots _ _ hphase _ List.mem_cons_self⟩
  · intro calls' groups hticking
    cases hticking
    exact h.calls _ _ hphase
  · intro calls' groups hticking g hg
    cases hticking
    exact h.slots _ _ hphase g (List.mem_cons_of_mem _ hg)
  · exact fun t ht => h.attempts t (hperm.mem_iff.mpr ht)
  · exact h.conserved.trans ((hperm.append_right _).map _)

/-- The node is called, as the checker neither pauses nor has made its calls. -/
theorem call (h : Paced w log inHand) {calls : ℕ} {rest : List (ℕ × List SlotTask)}
    (hphase : w.phase = .ticking calls rest) (hcached : w.isCached slot = false)
    (hpause : ∀ b ∈ w.backoff, b.1 ≤ r.pausedAt) (hcalls : calls < maxCallsPerTick) :
    Paced ({ w with phase := .ticking (calls + 1) rest }.fetch slot r).1
      (log ++ [.called slot r.pausedAt (w.callOutcome r)]) inHand := by
  obtain ⟨-, hretries, hphase'⟩ :=
    Worker.fetch_frame slot r { w with phase := .ticking (calls + 1) rest }
  obtain ⟨hbackoff, -⟩ := Worker.fetch_of_not_cached
    (w := { w with phase := .ticking (calls + 1) rest }) hcached r
  have htasks : ({ w with phase := .ticking (calls + 1) rest }.fetch slot r).1.tasks = w.tasks := by
    unfold Worker.tasks
    rw [hretries, hphase', hphase]
    rfl
  refine ⟨h.along.append ?_, ?_, ?_, ?_, ?_, ?_⟩
  · apply List.along_singleton
    rw [List.append_nil]
    refine ⟨?_, fun pausedUntil hpaused => ?_⟩
    · rw [h.calls _ _ hphase]
      exact hcalls
    · rw [← h.pause] at hpaused
      obtain ⟨b, hb, rfl⟩ := Option.mem_map.mp hpaused
      exact hpause b hb
  · rw [hbackoff, pauseAfter_append, ← h.pause]
    rfl
  · intro calls' groups hticking
    rw [hphase'] at hticking
    cases hticking
    rw [callsInTick_append, h.calls _ _ hphase]
    rfl
  · intro calls' groups hticking
    rw [hphase'] at hticking
    cases hticking
    exact h.slots _ _ hphase
  · rw [htasks]
    exact fun t ht => Nat.le_trans (h.attempts t ht) (failures_le_append _)
  · rw [htasks, List.flatMap_append, List.flatMap_append]
    simpa [TickEvent.taken, TickEvent.ended] using h.conserved

/-- Deferring leaves the tasks in hand as they are. -/
lemma defer (h : Paced w log inHand) (notBefore : ℕ) :
    Paced (w.putBack inHand fun _ => notBefore) (log ++ inHand.map .deferred) [] := by
  have hfate : ∀ e ∈ inHand.map TickEvent.deferred, e.isFate = true := by
    intro e he
    obtain ⟨t, -, rfl⟩ := List.mem_map.mp he
    rfl
  have hended : (inHand.map TickEvent.deferred).flatMap TickEvent.ended = [] := by
    rw [List.flatMap_map, List.flatMap_eq_nil_iff]
    exact fun _ _ => rfl
  have hperm := Worker.tasks_putBack inHand (fun _ => notBefore) w
  refine h.settle hfate rfl rfl (List.along_of_forall fun e he before => ?_) (fun t ht => ?_) ?_
  · obtain ⟨t, -, rfl⟩ := List.mem_map.mp he
    trivial
  · exact h.attempts t (hperm.mem_iff.mp ht)
  · rw [hended, List.append_nil]
    exact (hperm.symm).map _

/-- Ending all tasks in hand leaves the others as they are. -/
lemma endAll (h : Paced w log inHand) (audit : FilterAudit) {f : SlotTask → TickEvent}
    (hfate : ∀ t, (f t).isFate = true) (hended : ∀ t, (f t).ended = [t])
    (halong : ∀ t ∈ inHand, ∀ before, HoldsBack (log ++ before) (f t)) :
    Paced { w with audit := audit } (log ++ inHand.map f) [] := by
  have hall : (inHand.map f).flatMap TickEvent.ended = inHand := by
    rw [List.flatMap_map, List.flatMap_congr fun t _ => hended t]
    exact List.flatMap_singleton' inHand
  refine h.settle ?_ rfl rfl (List.along_of_forall fun e he before => ?_) (fun t ht => ?_) ?_
  · intro e he
    obtain ⟨t, -, rfl⟩ := List.mem_map.mp he
    exact hfate t
  · obtain ⟨t, ht, rfl⟩ := List.mem_map.mp he
    exact halong t ht before
  · exact h.attempts t (List.mem_append_right _ ht)
  · rw [hall]
    exact List.perm_append_comm.map _

/-- The tasks in hand are compared, put back with one more attempt, or given up: that only if their
slot failed as often as this. -/
theorem attempt (hfetch : Paced (w.fetch slot r).1 log inHand)
    (hslots : ∀ t ∈ inHand, t.slot = slot) {k : ℕ}
    (hfailed : (w.fetch slot r).2 = none →
      k + 1 ≤ failures slot log ∧ ∀ t ∈ inHand, t.attempts ≤ k) :
    Paced (w.attempt base58 slot inHand r).1 (log ++ w.attemptReport slot inHand r) [] := by
  unfold Worker.attempt Worker.attemptReport
  dsimp only
  cases hresult : (w.fetch slot r).2 with
  | some result => exact hfetch.endAll _ (fun _ => rfl) (fun _ => rfl) fun _ _ _ => trivial
  | none =>
    obtain ⟨hfailures, hattempts⟩ := hfailed hresult
    -- the tasks in hand have failed no more often than calls for their slot did
    have hmax : (inHand.map SlotTask.attempts).foldl max 0 + 1 ≤ failures slot log := by
      refine Nat.le_trans (Nat.succ_le_succ (foldl_max_le _ 0 (fun a ha => ?_) (Nat.zero_le k)))
        hfailures
      obtain ⟨t, ht, rfl⟩ := List.mem_map.mp ha
      exact hattempts t ht
    dsimp only
    generalize (inHand.map SlotTask.attempts).foldl max 0 + 1 = attempts at hmax ⊢
    split
    next =>
      have hperm := Worker.tasks_putBack
        (inHand.map fun task => { task with attempts := attempts })
        (fun i => r.retriedAt i + retryAfter) (w.fetch slot r).1
      refine hfetch.settle (fun e he => absurd he List.not_mem_nil) rfl rfl (List.along_nil _)
        (fun t ht => ?_) ?_
      · rcases List.mem_append.mp (hperm.mem_iff.mp ht) with ht | ht
        · obtain ⟨t', ht', rfl⟩ := List.mem_map.mp ht
          dsimp only
          rw [hslots t' ht']
          exact hmax
        · exact hfetch.attempts t (List.mem_append_right _ ht)
      · rw [List.flatMap_nil, List.append_nil]
        refine List.Perm.trans ?_ (hperm.symm.map _)
        rw [List.map_append, List.map_append, List.map_map]
        exact List.Perm.refl _
    next hle =>
      refine hfetch.endAll _ (fun _ => rfl) (fun _ => rfl) fun t ht before => ?_
      have hgiven : maxAttempts ≤ failures t.slot (log ++ before) := by
        rw [hslots t ht]
        exact Nat.le_trans (Nat.le_trans (Nat.le_of_not_lt hle) hmax) (failures_le_append before)
      exact hgiven

/-- **Every turn keeps the pace.** -/
theorem turn (h : Paced w log []) {w' : Worker} {es : List TickEvent}
    (hturn : Worker.Turn base58 r w w' es) : Paced w' (log ++ es) [] := by
  cases hturn with
  | idle =>
    rw [List.append_nil]
    exact h
  | @cached calls slot tasks rest hphase hcached =>
    obtain ⟨htaken, hslots⟩ := h.take hphase
    obtain ⟨hsame, hfetched⟩ := Worker.fetch_of_cached
      (w := { w with phase := .ticking calls rest }) hcached r
    rw [← hsame] at htaken
    exact htaken.attempt (k := 0) hslots fun hnone => absurd hnone hfetched
  | @deferred calls slot tasks rest hphase notBefore =>
    exact (h.take hphase).1.defer notBefore
  | @called calls slot tasks rest hphase hcached hpause hcalls =>
    obtain ⟨htaken, hslots⟩ := h.take hphase
    have hcall := htaken.call rfl hcached hpause hcalls
    obtain ⟨-, hfails⟩ := Worker.fetch_of_not_cached
      (w := { w with phase := .ticking (calls + 1) rest }) hcached r
    rw [List.append_cons]
    refine hcall.attempt (k := failures slot log) hslots fun hnone => ⟨?_, fun t ht => ?_⟩
    · have hfailed : (w.callOutcome r).fails = true := hfails hnone
      exact Nat.le_of_eq (failures_append_called r.pausedAt hfailed).symm
    · rw [← hslots t ht]
      exact htaken.attempts t (List.mem_append_left _ ht)

/-- A tick begins: what is ready is taken in. -/
theorem beginTick (h : Paced w log []) (tip now : ℕ) :
    Paced (w.beginTick tip now).1
      (log ++ if w.phase.isIdle then [.began (w.audit.takeReady w.lagSlots tip).2] else []) [] := by
  by_cases hphase : w.phase = .idle
  -- the tasks in hand are those that were left over and those of this tick
  · have hperm := Worker.tasks_beginTick tip now hphase
    have hidle : w.phase.isIdle = true := by
      rw [hphase]
      rfl
    have hbackoff : (w.beginTick tip now).1.backoff = w.backoff := by
      unfold Worker.beginTick
      rw [hphase]
    have hticking : ∀ calls groups, (w.beginTick tip now).1.phase = .ticking calls groups →
        calls = 0 ∧ ∃ ts, groups = groupBySlot ts := by
      unfold Worker.beginTick
      rw [hphase]
      intro calls groups hticking
      cases hticking
      exact ⟨rfl, _, rfl⟩
    rw [if_pos hidle]
    refine ⟨h.along.append (List.along_singleton trivial), ?_, ?_, ?_, fun t ht => ?_, ?_⟩
    · rw [hbackoff, pauseAfter_append]
      exact h.pause
    · intro calls groups hphase'
      rw [callsInTick_append, (hticking calls groups hphase').1]
      rfl
    · intro calls groups hphase'
      obtain ⟨-, ts, rfl⟩ := hticking calls groups hphase'
      exact slot_of_mem_groupBySlot ts
    · refine Nat.le_trans ?_ (failures_le_append _)
      rcases List.mem_append.mp (hperm.mem_iff.mp ht) with ht | ht
      · rw [attempts_of_mem_takeReady ht]
        exact Nat.zero_le _
      · exact h.attempts t ht
    · rw [List.flatMap_append, List.flatMap_append, List.nil_append]
      simp only [TickEvent.taken, TickEvent.ended, List.flatMap_cons, List.flatMap_nil,
        List.append_nil]
      have hbefore := h.conserved
      rw [List.nil_append] at hbefore
      rw [List.map_append]
      refine (List.perm_append_comm.trans (hbefore.append_left _)).trans ?_
      rw [← List.map_append, ← List.append_assoc]
      exact (hperm.symm.append_right _).map _
  · have hidle : ¬ w.phase.isIdle = true := by
      cases hcases : w.phase with
      | idle => exact absurd hcases hphase
      | ticking calls groups => exact Bool.false_ne_true
      | stopped => exact Bool.false_ne_true
    have hsame : (w.beginTick tip now).1 = w := by
      unfold Worker.beginTick
      cases hcases : w.phase with
      | idle => exact absurd hcases hphase
      | ticking calls groups => rfl
      | stopped => rfl
    rw [if_neg hidle, List.append_nil, hsame]
    exact h

/-- A tick ends, with no task left in it. -/
theorem endTick (h : Paced w log []) (tip floor : ℕ) (now : ℤ) :
    Paced (w.endTick tip floor now).1 log [] := by
  unfold Worker.endTick
  split
  next calls hphase =>
    have htasks : w.tasks = w.retries.map Retry.task ++ [] := by
      unfold Worker.tasks
      rw [hphase]
      rfl
    have hattempts := h.attempts
    have hconserved := h.conserved
    rw [htasks] at hattempts hconserved
    exact ⟨h.along, h.pause, fun _ _ hticking => (by cases hticking),
      fun _ _ hticking => (by cases hticking), hattempts, hconserved⟩
  next => exact h

/-- **Every step keeps the pace.** -/
theorem go (h : Paced w log []) (step : CheckerStep) :
    Paced (w.go base58 step).1 (log ++ (w.go base58 step).2) [] := by
  cases step with
  | sources audit =>
    have hsame : Paced { w with audit := audit } log [] :=
      ⟨h.along, h.pause, h.calls, h.slots, h.attempts, h.conserved⟩
    rw [← List.append_nil log] at hsame
    exact hsame
  | beginTick tip now => exact h.beginTick tip now
  | handleGroup r => exact h.turn (Worker.turn_handleGroup base58 r w)
  | endTick tip floor now =>
    have hended := h.endTick tip floor now
    rw [← List.append_nil log] at hended
    exact hended

/-- Along every run the checker keeps its pace. -/
theorem run (base58 : List UInt8 → String) (audit : FilterAudit) (lagSlots : ℕ)
    (steps : List CheckerStep) :
    Paced (Machine.finalState (Worker.go base58) (Worker.new audit lagSlots) steps)
      (Machine.outputs (Worker.go base58) (Worker.new audit lagSlots) steps).flatten [] := by
  refine Machine.run_induction (Worker.go base58)
    (P := fun _ w outputs => Paced w outputs.flatten []) (new audit lagSlots) ?_ steps
  intro _ step w outputs h
  rw [List.flatten_append, List.flatten_singleton]
  exact h.go step

end Paced

/-- A checker that holds back makes a few calls in each tick. -/
lemma callsInTick_le {log : List TickEvent} (h : log.Along HoldsBack) :
    callsInTick log ≤ maxCallsPerTick := by
  induction log using List.reverseRecOn with
  | nil => exact Nat.zero_le _
  | append_singleton log e ih =>
    rw [callsInTick_append, List.foldl_cons, List.foldl_nil]
    cases e with
    | began ready => exact Nat.zero_le _
    | called slot pausedAt outcome => exact (h log _ [] rfl).1
    | _ => exact ih h.left

/-- A turn that defers tasks keeps them all, as they are, and has them wait. -/
lemma Worker.keeps_deferred {base58 : List UInt8 → String} {r : Readings} {w : Worker}
    {t : SlotTask} (ht : .deferred t ∈ w.report r) :
    (∃ notBefore, ⟨t, notBefore⟩ ∈ (w.handleGroup base58 r).1.retries) ∧
      (w.handleGroup base58 r).1.tasks.Perm w.tasks := by
  have hattempt : ∀ (w : Worker) (slot : ℕ) (ts : List SlotTask),
      .deferred t ∉ w.attemptReport slot ts r := by
    intro w slot ts hmem
    unfold attemptReport at hmem
    split at hmem
    · obtain ⟨_, -, heq⟩ := List.mem_map.mp hmem
      cases heq
    · split at hmem
      · cases hmem
      · obtain ⟨_, -, heq⟩ := List.mem_map.mp hmem
        cases heq
  have hturn := turn_handleGroup base58 r w
  generalize (w.handleGroup base58 r).1 = w' at hturn ⊢
  generalize w.report r = events at hturn ht
  cases hturn with
  | idle => cases ht
  | cached hphase hcached => exact absurd ht (hattempt _ _ _)
  | @deferred calls slot tasks rest hphase notBefore =>
    obtain ⟨t', ht', heq⟩ := List.mem_map.mp ht
    cases heq
    have hback : t ∈ ({ w with phase := .ticking calls rest }.putBack tasks
        (fun _ => notBefore)).retries.map Retry.task := by
      rw [map_task_putBack]
      exact List.mem_append_right _ ht'
    obtain ⟨retry, hretry, rfl⟩ := List.mem_map.mp hback
    refine ⟨⟨retry.notBefore, hretry⟩, ?_⟩
    exact (Worker.tasks_putBack tasks (fun _ => notBefore) _).trans (Worker.tasks_take hphase).symm
  | called hphase hcached hpause hcalls =>
    rcases List.mem_cons.mp ht with heq | ht
    · cases heq
    · exact absurd ht (hattempt _ _ _)

/-- A fetch of a cached block does not depend on what the node answers. -/
lemma Worker.fetch_withReply {w : Worker} {slot : ℕ} (hcached : w.isCached slot = true)
    (r : Readings) (reply : BlockReply) :
    w.fetch slot { r with reply := reply } = w.fetch slot r := by
  unfold fetch
  cases hfind : w.cache.find? (·.1 == slot) with
  | some cached => rfl
  | none =>
    rw [List.find?_eq_none] at hfind
    obtain ⟨cached, hmem, hslot⟩ := List.any_eq_true.mp hcached
    exact absurd hslot (hfind cached hmem)

/-- A turn that reports no call makes none: it does not depend on what the node answers. -/
lemma Worker.handleGroup_withReply {base58 : List UInt8 → String} {r : Readings} {w : Worker}
    (h : ∀ slot pausedAt outcome, .called slot pausedAt outcome ∉ w.report r)
    (reply : BlockReply) :
    w.handleGroup base58 { r with reply := reply } = w.handleGroup base58 r := by
  unfold report at h
  unfold handleGroup
  split
  next calls slot tasks rest hphase =>
    rw [hphase] at h
    dsimp only at h ⊢
    by_cases hcached : w.isCached slot = true
    · rw [if_pos hcached, if_pos hcached]
      unfold attempt
      rw [@fetch_withReply { w with phase := .ticking calls rest } slot hcached]
    · rw [if_neg hcached] at h ⊢
      rw [if_neg hcached]
      split
      · rfl
      next hfree =>
        -- here the call would be reported
        rw [if_neg hfree] at h
        exact absurd List.mem_cons_self (h slot r.pausedAt (w.callOutcome r))
  next => rfl

/-- **The checker neither floods nor gives up early**, in every run, whatever is ready, and whatever
the clock and the node say: a tick makes a few calls of the node only, and none during a pause; a
task is declared unchecked only if its slot failed often enough; no task is lost.  Every turn is one
of the four that there are, with what it reports: it does to the windows just that; one that reports
no call takes nothing from the node; and one that defers tasks keeps them all with their
attempts. -/
theorem checker_holds_back (base58 : List UInt8 → String) (audit : FilterAudit) (lagSlots : ℕ)
    (steps : List CheckerStep) :
    let w := Machine.finalState (Worker.go base58) (Worker.new audit lagSlots) steps
    let log := (Machine.outputs (Worker.go base58) (Worker.new audit lagSlots) steps).flatten
    callsInTick log ≤ maxCallsPerTick ∧
      (∀ before slot pausedAt outcome after,
        log = before ++ .called slot pausedAt outcome :: after →
          ∀ pausedUntil ∈ pauseAfter before, pausedUntil ≤ pausedAt) ∧
      (∀ before task after, log = before ++ .gaveUp task :: after →
        maxAttempts ≤ failures task.slot before) ∧
      ((log.flatMap TickEvent.taken).map SlotTask.fresh).Perm
        ((w.tasks ++ log.flatMap TickEvent.ended).map SlotTask.fresh) ∧
      ∀ r, Worker.Turn base58 r w (w.handleGroup base58 r).1 (w.report r) ∧
        (w.handleGroup base58 r).1.audit =
          (w.report r).foldl (TickEvent.applyTo base58) w.audit ∧
        ((∀ slot pausedAt outcome, .called slot pausedAt outcome ∉ w.report r) →
          ∀ reply, w.handleGroup base58 { r with reply := reply } = w.handleGroup base58 r) ∧
        ∀ task, .deferred task ∈ w.report r →
          (∃ notBefore, ⟨task, notBefore⟩ ∈ (w.handleGroup base58 r).1.retries) ∧
            (w.handleGroup base58 r).1.tasks.Perm w.tasks := by
  have h := Paced.run base58 audit lagSlots steps
  refine ⟨callsInTick_le h.along, ?_, ?_, h.conserved, fun r =>
    ⟨Worker.turn_handleGroup base58 r _, Worker.audit_handleGroup base58 r _,
      Worker.handleGroup_withReply, fun task => Worker.keeps_deferred⟩⟩
  · intro before slot pausedAt outcome after hlog
    exact (h.along before _ after hlog).2
  · intro before task after hlog
    exact h.along before _ after hlog

/-- A block that is not available in five ticks: the task is given up in the last of them. -/
example :
    let audit := ((FilterAudit.new 10 (by decide) false).openWindow (0, 0)
      ⟨"g", .grpcDeshred, none, Bundle.all⟩).subscribed (0, 0) 1000
    let tick : List CheckerStep :=
      [.beginTick 1042 4000, .handleGroup ⟨0, 0, 0, fun _ => 0, .rpcError (-32004)⟩,
        .endTick 1042 0 0]
    let log := (Machine.outputs (Worker.go fun _ => "") (Worker.new audit 32)
      (List.replicate 5 tick).flatten).flatten
    failures 1010 log = 5 ∧ (log.flatMap TickEvent.ended).map SlotTask.slot = [1010] := by
  decide

end ShredTools.Audit
