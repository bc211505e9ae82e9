import Mathlib.Data.List.Perm.Subperm
import ShredTools.Library.Run

/-!
# The writer of audit rows

The checker sends its rows through a bounded channel to a thread of its own, which gathers them into
batches and writes each batch in one transaction.  A row that finds the channel full is counted in
`dropped`.  A batch that could not be written is kept, and tried again on a new connection.

The last handle counts `dropped` and is then given up, which closes the channel; the writer goes on
until the channel is empty.  With the channel closed, though, it does not try again: rows still
pending go down with it, and nothing counts them.  So every row is accounted for exactly if, after
the close, no batch meets a pause between two connections, a connection that fails or a write that
fails (`rows_accounted_iff`).  No row is committed twice, whatever happens.
-/

namespace ShredTools.Audit

/-- `QUEUE_DEPTH` -/
def queueDepth : ℕ := 20000

/-- `RETRY_CAP` -/
def retryCap : ℕ := 50000

/-- `BATCH_MAX` -/
def batchMax : ℕ := 2000

/-- `RECONNECT_EVERY`, in nanoseconds. -/
def reconnectEvery : ℕ := 10 * 1000000000

/-- Where `writer_loop` is. -/
inductive WriterPhase
  /-- In the inner loop, waiting for a row. -/
  | gathering
  /-- After the inner loop. -/
  | writing
  /-- The writer has returned. -/
  | returned
  deriving DecidableEq

/-- The channel, the counter and the writer, with what was sent and committed so far. -/
structure DbWriter (Row : Type) where
  /-- The rows in the channel, the oldest first. -/
  queue : List Row
  /-- Whether all handles are gone. -/
  hungUp : Bool
  /-- `dropped` -/
  dropped : ℕ
  /-- Where the writer is. -/
  phase : WriterPhase
  /-- Whether there is a `client`. -/
  connected : Bool
  /-- `last_attempt` -/
  lastAttempt : Option ℕ
  /-- `pending` -/
  pending : List Row
  /-- `closed` -/
  closed : Bool
  /-- The rows sent. -/
  sent : List Row
  /-- The batches committed. -/
  committed : List (List Row)
  deriving DecidableEq

/-- What the writer finds after it has gathered rows. -/
structure Turn where
  /-- The time at which it asks how long ago the last attempt was. -/
  now : ℕ
  /-- The time of its attempt to connect. -/
  attemptedAt : ℕ
  /-- Whether it can connect. -/
  connects : Bool
  /-- Whether it can write the batch; if not, the batch is rolled back. -/
  writes : Bool
  /-- The time after a write that failed. -/
  failedAt : ℕ
  deriving DecidableEq

/-- What happens to the writer and its channel. -/
inductive WriterEvent (Row : Type)
  /-- `DbHandle::send` -/
  | send (row : Row)
  /-- The last handle is given up. -/
  | hangUp
  /-- `recv_timeout` returns a row, or finds the channel closed. -/
  | receive
  /-- `recv_timeout` gives up waiting. -/
  | timeout
  /-- The writer goes on with the rows gathered. -/
  | turn (t : Turn)

namespace DbWriter

variable {Row : Type}

section Loop

variable (w : DbWriter Row)

/-- The head of the inner loop of `writer_loop`. -/
def gather : DbWriter Row :=
  if w.pending.length < batchMax ∧ w.closed = false then { w with phase := .gathering }
  else { w with phase := .writing }

/-- The head of the outer loop of `writer_loop`. -/
def loopHead : DbWriter Row :=
  if w.closed = false ∨ w.pending ≠ [] then w.gather else { w with phase := .returned }

/-- `if closed { break }`, or else `continue`. -/
def breakIfClosed : DbWriter Row :=
  if w.closed then { w with phase := .returned } else w.loopHead

/-- The oldest rows are given up if there are more than `RETRY_CAP`. -/
def capPending : DbWriter Row :=
  if w.pending.length > retryCap then
    { w with pending := w.pending.drop (w.pending.length - retryCap) }
  else w

/-- The end of the loop of `writer_loop`, with a client. -/
def writeBatch (t : Turn) : DbWriter Row :=
  if t.writes then { w with committed := w.committed ++ [w.pending], pending := [] }.loopHead
  else { w with connected := false, lastAttempt := some t.failedAt }.breakIfClosed

/-- `writer_loop` is between two attempts to connect. -/
def Paused (t : Turn) : Prop := ∃ attempt ∈ w.lastAttempt, t.now - attempt < reconnectEvery

instance (t : Turn) : Decidable (w.Paused t) :=
  inferInstanceAs (Decidable (∃ attempt ∈ w.lastAttempt, _))

/-- The loop of `writer_loop` after the inner loop. -/
def handleRows (t : Turn) : DbWriter Row :=
  if w.pending = [] then w.loopHead
  else
    let w := w.capPending
    if w.connected then w.writeBatch t
    else if w.Paused t then w.breakIfClosed
    else
      let w := { w with lastAttempt := some t.attemptedAt }
      if t.connects then { w with connected := true }.writeBatch t else w.breakIfClosed

/-- `recv_timeout`, when it does not give up waiting. -/
def receive : DbWriter Row :=
  match w.queue with
  | row :: queue => { w with queue := queue, pending := w.pending ++ [row] }.gather
  | [] => if w.hungUp then { w with closed := true }.gather else w

/-- `DbHandle::send` -/
def send (row : Row) : DbWriter Row :=
  if w.phase = .returned ∨ queueDepth ≤ w.queue.length then
    { w with dropped := w.dropped + 1, sent := w.sent ++ [row] }
  else { w with queue := w.queue ++ [row], sent := w.sent ++ [row] }

/-- One event; those that cannot happen change nothing. -/
def step : WriterEvent Row → DbWriter Row
  | .send row => if w.hungUp then w else w.send row
  | .hangUp => { w with hungUp := true }
  | .receive => if w.phase = .gathering then w.receive else w
  | .timeout =>
    if w.phase = .gathering ∧ w.queue = [] ∧ w.hungUp = false then { w with phase := .writing }
    else w
  | .turn t => if w.phase = .writing then w.handleRows t else w

end Loop

/-- `spawn_writer` -/
def spawnWriter : DbWriter Row where
  queue := []
  hungUp := false
  dropped := 0
  phase := .gathering
  connected := false
  lastAttempt := none
  pending := []
  closed := false
  sent := []
  committed := []

/-- The writer after some events. -/
def after (events : List (WriterEvent Row)) : DbWriter Row := events.foldl step spawnWriter

/-- Every row sent was committed or counted, and none was committed twice. -/
structure Accounted (w : DbWriter Row) : Prop where
  /-- A row is committed no more often than it was sent. -/
  once : w.committed.flatten.Subperm w.sent
  /-- The rows that were not committed are counted. -/
  counted : ∃ rows, w.sent.Perm (w.committed.flatten ++ rows) ∧ rows.length = w.dropped

/-- After the close, the batch of a turn is written: there is a connection, or one can be made at
once, and the write succeeds. -/
def LandsAfterClose (w : DbWriter Row) : WriterEvent Row → Prop
  | .turn t =>
    w.phase = .writing → w.closed = true → w.pending ≠ [] →
      (w.connected = true ∨ ¬ w.Paused t ∧ t.connects = true) ∧ t.writes = true
  | _ => True

/-! ### What one step keeps -/

/-- Rows are in one place only, and the channel is empty once it is closed. -/
structure Stored (w : DbWriter Row) : Prop where
  /-- Each row is committed, counted, pending or in the channel. -/
  conserved : ∃ counted, counted.length = w.dropped ∧
    w.sent.Perm (w.committed.flatten ++ counted ++ w.pending ++ w.queue)
  /-- A batch is never longer than it may be. -/
  short : w.pending.length ≤ batchMax
  /-- A closed channel is empty. -/
  closed : w.closed = true → w.hungUp = true ∧ w.queue = []

/-- What holds of the writer at all times, also of where it is. -/
structure Kept (w : DbWriter Row) : Prop extends Stored w where
  /-- The writer waits only for rows that it has room for. -/
  gathering : w.phase = .gathering → w.pending.length < batchMax ∧ w.closed = false
  /-- The writer returns only after the close. -/
  returned : w.phase = .returned → w.closed = true

variable {w : DbWriter Row}

/-- A batch is too short for rows to be given up. -/
lemma capPending_eq (h : w.pending.length ≤ batchMax) : w.capPending = w := by
  refine if_neg ?_
  unfold batchMax at h
  unfold retryCap
  omega

/-- At the head of the inner loop the writer waits if it may. -/
theorem Stored.gather (h : w.Stored) : w.gather.Kept := by
  unfold DbWriter.gather
  by_cases hroom : w.pending.length < batchMax ∧ w.closed = false
  · rw [if_pos hroom]
    exact { conserved := h.conserved, short := h.short, closed := h.closed
            gathering := fun _ => hroom, returned := by simp }
  · rw [if_neg hroom]
    exact { conserved := h.conserved, short := h.short, closed := h.closed
            gathering := by simp, returned := by simp }

/-- A writer that returns after the close keeps what it has. -/
theorem Stored.return (h : w.Stored) (hclosed : w.closed = true) :
    { w with phase := .returned }.Kept :=
  { conserved := h.conserved, short := h.short, closed := h.closed
    gathering := by simp, returned := fun _ => hclosed }

/-- At the head of the outer loop it returns if the channel is closed and nothing is pending. -/
lemma Stored.loopHead (h : w.Stored) : w.loopHead.Kept := by
  unfold DbWriter.loopHead
  by_cases hopen : w.closed = false ∨ w.pending ≠ []
  · rw [if_pos hopen]
    exact h.gather
  · rw [if_neg hopen]
    refine h.return ?_
    rw [← Bool.not_eq_false]
    exact fun hfalse => hopen (.inl hfalse)

lemma Stored.breakIfClosed (h : w.Stored) : w.breakIfClosed.Kept := by
  unfold DbWriter.breakIfClosed
  by_cases hclosed : w.closed = true
  · rw [if_pos hclosed]
    exact h.return hclosed
  · rw [if_neg hclosed]
    exact h.loopHead

/-- Neither the connection nor the time of the last attempt matters to what is stored. -/
lemma Stored.withClient (h : w.Stored) (connected : Bool) (lastAttempt : Option ℕ) :
    { w with connected := connected, lastAttempt := lastAttempt }.Stored :=
  { conserved := h.conserved, short := h.short, closed := h.closed }

/-- A batch that is committed is not pending any more. -/
lemma Stored.commit (h : w.Stored) :
    { w with committed := w.committed ++ [w.pending], pending := [] }.Stored := by
  obtain ⟨counted, hcounted, hperm⟩ := h.conserved
  refine ⟨⟨counted, hcounted, hperm.trans ?_⟩, Nat.zero_le _, h.closed⟩
  dsimp only
  rw [List.flatten_append, List.flatten_singleton]
  refine List.Perm.append_right _ ?_
  rw [List.append_nil, List.append_assoc, List.append_assoc]
  exact List.perm_append_comm.append_left _

/-- **What a turn does with rows pending**: it commits them, if there is a connection or one can be
made at once and the write succeeds, and otherwise it keeps them, or leaves them if the channel is
closed. -/
theorem handleRows_cases (h : w.pending.length ≤ batchMax) (hpending : w.pending ≠ []) (t : Turn) :
    ∃ connected lastAttempt,
      (((w.connected = true ∨ ¬ w.Paused t ∧ t.connects = true) ∧ t.writes = true) ∧
        w.handleRows t =
          { w with
            connected := connected
            lastAttempt := lastAttempt
            committed := w.committed ++ [w.pending]
            pending := [] }.loopHead) ∨
      (¬ ((w.connected = true ∨ ¬ w.Paused t ∧ t.connects = true) ∧ t.writes = true) ∧
        w.handleRows t =
          { w with connected := connected, lastAttempt := lastAttempt }.breakIfClosed) := by
  unfold handleRows
  rw [if_neg hpending, capPending_eq h]
  by_cases hconnected : w.connected = true
  · rw [if_pos hconnected]
    unfold writeBatch
    by_cases hwrites : t.writes = true
    · rw [if_pos hwrites]
      exact ⟨w.connected, w.lastAttempt, .inl ⟨⟨.inl hconnected, hwrites⟩, rfl⟩⟩
    · rw [if_neg hwrites]
      exact ⟨false, some t.failedAt, .inr ⟨fun hlands => hwrites hlands.2, rfl⟩⟩
  · rw [if_neg hconnected]
    by_cases hpaused : w.Paused t
    · rw [if_pos hpaused]
      refine ⟨w.connected, w.lastAttempt, .inr ⟨?_, rfl⟩⟩
      exact fun hlands => hlands.1.elim hconnected fun hmade => hmade.1 hpaused
    · rw [if_neg hpaused]
      by_cases hconnects : t.connects = true
      · dsimp only
        rw [if_pos hconnects]
        unfold writeBatch
        by_cases hwrites : t.writes = true
        · rw [if_pos hwrites]
          exact ⟨true, some t.attemptedAt, .inl ⟨⟨.inr ⟨hpaused, hconnects⟩, hwrites⟩, rfl⟩⟩
        · rw [if_neg hwrites]
          exact ⟨false, some t.failedAt, .inr ⟨fun hlands => hwrites hlands.2, rfl⟩⟩
      · dsimp only
        rw [if_neg hconnects]
        refine ⟨w.connected, some t.attemptedAt, .inr ⟨?_, rfl⟩⟩
        exact fun hlands => hlands.1.elim hconnected fun hmade => hconnects hmade.2

lemma Stored.handleRows (h : w.Stored) (t : Turn) : (w.handleRows t).Kept := by
  by_cases hpending : w.pending = []
  · unfold DbWriter.handleRows
    rw [if_pos hpending]
    exact h.loopHead
  · obtain ⟨connected, lastAttempt, ⟨-, heq⟩ | ⟨-, heq⟩⟩ := handleRows_cases h.short hpending t
    · rw [heq]
      exact (h.withClient connected lastAttempt).commit.loopHead
    · rw [heq]
      exact (h.withClient connected lastAttempt).breakIfClosed

/-- A row sent is in the channel or counted. -/
theorem Kept.send (h : w.Kept) (hopen : w.hungUp = false) (row : Row) : (w.send row).Kept := by
  obtain ⟨counted, hcounted, hperm⟩ := h.conserved
  have hnot : w.closed ≠ true := fun hclosed =>
    Bool.false_ne_true (hopen.symm.trans (h.closed hclosed).1)
  unfold DbWriter.send
  by_cases hfull : w.phase = .returned ∨ queueDepth ≤ w.queue.length
  · rw [if_pos hfull]
    refine { h with conserved := ⟨counted ++ [row], ?_, ?_⟩ }
    · rw [List.length_append, hcounted, List.length_singleton]
    · refine (hperm.append_right [row]).trans ?_
      simp only [List.append_assoc]
      refine List.Perm.append_left _ (List.Perm.append_left _ ?_)
      rw [← List.append_assoc]
      exact List.perm_append_comm
  · rw [if_neg hfull]
    refine { h with conserved := ⟨counted, hcounted, ?_⟩, closed := fun hc => (hnot hc).elim }
    refine (hperm.append_right [row]).trans ?_
    rw [List.append_assoc _ w.queue]

/-- What the writer receives becomes pending, and it learns of the close only from an empty
channel. -/
theorem Kept.receive (h : w.Kept) (hphase : w.phase = .gathering) : w.receive.Kept := by
  obtain ⟨counted, hcounted, hperm⟩ := h.conserved
  obtain ⟨hroom, hopen⟩ := h.gathering hphase
  unfold DbWriter.receive
  split
  next row queue hqueue =>
    rw [hqueue] at hperm
    refine Stored.gather ⟨⟨counted, hcounted, hperm.trans ?_⟩, ?_, ?_⟩
    · rw [← List.append_assoc, List.append_assoc _ [row], List.singleton_append]
    · rw [List.length_append, List.length_singleton]
      exact hroom
    · exact fun hclosed => (Bool.false_ne_true (hopen.symm.trans hclosed)).elim
  next hqueue =>
    by_cases hgone : w.hungUp = true
    · rw [if_pos hgone]
      exact Stored.gather ⟨h.conserved, h.short, fun _ => ⟨hgone, hqueue⟩⟩
    · rw [if_neg hgone]
      exact h

/-- **One event keeps every row in its place.** -/
theorem Kept.step (h : w.Kept) (e : WriterEvent Row) : (w.step e).Kept := by
  cases e with
  | send row =>
    rw [DbWriter.step]
    by_cases hgone : w.hungUp = true
    · rw [if_pos hgone]
      exact h
    · rw [if_neg hgone]
      exact h.send (Bool.not_eq_true _ ▸ hgone) row
  | hangUp => exact { h with closed := fun hclosed => ⟨rfl, (h.closed hclosed).2⟩ }
  | receive =>
    rw [DbWriter.step]
    by_cases hphase : w.phase = .gathering
    · rw [if_pos hphase]
      exact h.receive hphase
    · rw [if_neg hphase]
      exact h
  | timeout =>
    rw [DbWriter.step]
    by_cases hwait : w.phase = .gathering ∧ w.queue = [] ∧ w.hungUp = false
    · rw [if_pos hwait]
      exact { h with gathering := by simp, returned := by simp }
    · rw [if_neg hwait]
      exact h
  | turn t =>
    rw [DbWriter.step]
    by_cases hphase : w.phase = .writing
    · rw [if_pos hphase]
      exact h.handleRows t
    · rw [if_neg hphase]
      exact h

/-! ### Rows that are lost -/

/-- The writer has returned with rows that it had received. -/
def Lost (w : DbWriter Row) : Prop := w.phase = .returned ∧ w.pending ≠ []

/-- Going on in the inner loop is not returning. -/
lemma not_lost_gather : ¬ w.gather.Lost := by
  unfold gather
  by_cases hroom : w.pending.length < batchMax ∧ w.closed = false
  · rw [if_pos hroom]
    simp [Lost]
  · rw [if_neg hroom]
    simp [Lost]

/-- The loop ends by itself only when nothing is pending. -/
lemma not_lost_loopHead : ¬ w.loopHead.Lost := by
  unfold loopHead
  by_cases hopen : w.closed = false ∨ w.pending ≠ []
  · rw [if_pos hopen]
    exact not_lost_gather
  · rw [if_neg hopen]
    exact fun hlost => hopen (.inr hlost.2)

/-- A `break` loses what is pending. -/
lemma lost_breakIfClosed_iff (h : w.pending ≠ []) :
    w.breakIfClosed.Lost ↔ w.closed = true := by
  unfold breakIfClosed
  by_cases hclosed : w.closed = true
  · rw [if_pos hclosed]
    exact iff_of_true ⟨rfl, h⟩ hclosed
  · rw [if_neg hclosed]
    exact iff_of_false not_lost_loopHead hclosed

/-- A turn loses rows exactly if it does not land after the close. -/
lemma lost_handleRows_iff (h : w.pending.length ≤ batchMax) (hphase : w.phase = .writing)
    (t : Turn) : (w.handleRows t).Lost ↔ ¬ w.LandsAfterClose (.turn t) := by
  by_cases hpending : w.pending = []
  · have heq : w.handleRows t = w.loopHead := if_pos hpending
    rw [heq]
    exact iff_of_false not_lost_loopHead fun hnot => hnot fun _ _ hne => (hne hpending).elim
  · obtain ⟨connected, lastAttempt, ⟨hlands, heq⟩ | ⟨hmisses, heq⟩⟩ :=
      handleRows_cases h hpending t
    · rw [heq]
      exact iff_of_false not_lost_loopHead fun hnot => hnot fun _ _ _ => hlands
    · rw [heq]
      refine (lost_breakIfClosed_iff ?_).trans ?_
      · exact hpending
      · constructor
        · exact fun hclosed hland => hmisses (hland hphase hclosed hpending)
        · intro hnot
          by_contra hopen
          exact hnot fun _ hclosed => (hopen hclosed).elim

/-- Once it has returned, the writer stays as it is. -/
lemma Kept.step_of_returned (h : w.Kept) (hreturned : w.phase = .returned)
    (e : WriterEvent Row) : (w.step e).phase = .returned ∧ (w.step e).pending = w.pending := by
  have hgone : w.hungUp = true := (h.closed (h.returned hreturned)).1
  cases e with
  | send row =>
    rw [DbWriter.step, if_pos hgone]
    exact ⟨hreturned, rfl⟩
  | hangUp => exact ⟨hreturned, rfl⟩
  | receive =>
    rw [DbWriter.step, if_neg (by simp [hreturned])]
    exact ⟨hreturned, rfl⟩
  | timeout =>
    rw [DbWriter.step, if_neg (by simp [hreturned])]
    exact ⟨hreturned, rfl⟩
  | turn t =>
    rw [DbWriter.step, if_neg (by simp [hreturned])]
    exact ⟨hreturned, rfl⟩

/-- While the writer runs, only a turn makes it return. -/
lemma lost_step_iff_of_running (h : w.Kept) (hrunning : w.phase ≠ .returned)
    (e : WriterEvent Row) : (w.step e).Lost ↔ ¬ w.LandsAfterClose e := by
  -- only a turn that writes can end the writer
  cases e with
  | send row =>
    refine iff_of_false (fun hlost => hrunning ?_) (fun hnot => hnot trivial)
    rw [← hlost.1, DbWriter.step]
    unfold DbWriter.send
    by_cases hgone : w.hungUp = true
    · rw [if_pos hgone]
    · rw [if_neg hgone]
      split <;> rfl
  | hangUp => exact iff_of_false (fun hlost => hrunning hlost.1) fun hnot => hnot trivial
  | receive =>
    refine iff_of_false (fun hlost => ?_) (fun hnot => hnot trivial)
    rw [DbWriter.step] at hlost
    by_cases hphase : w.phase = .gathering
    · rw [if_pos hphase] at hlost
      unfold DbWriter.receive at hlost
      split at hlost
      next => exact not_lost_gather hlost
      next =>
        by_cases hgone : w.hungUp = true
        · rw [if_pos hgone] at hlost
          exact not_lost_gather hlost
        · rw [if_neg hgone] at hlost
          exact hrunning hlost.1
    · rw [if_neg hphase] at hlost
      exact hrunning hlost.1
  | timeout =>
    refine iff_of_false (fun hlost => ?_) (fun hnot => hnot trivial)
    rw [DbWriter.step] at hlost
    by_cases hwait : w.phase = .gathering ∧ w.queue = [] ∧ w.hungUp = false
    · rw [if_pos hwait] at hlost
      simp [Lost] at hlost
    · rw [if_neg hwait] at hlost
      exact hrunning hlost.1
  | turn t =>
    rw [DbWriter.step]
    by_cases hphase : w.phase = .writing
    · rw [if_pos hphase]
      exact lost_handleRows_iff h.short hphase t
    · rw [if_neg hphase]
      refine iff_of_false (fun hlost => hrunning hlost.1) fun hnot => hnot fun hwriting => ?_
      exact (hphase hwriting).elim

/-- **One event loses rows exactly if it is a turn that does not land after the close.** -/
theorem Kept.lost_step_iff (h : w.Kept) (e : WriterEvent Row) :
    (w.step e).Lost ↔ w.Lost ∨ ¬ w.LandsAfterClose e := by
  by_cases hreturned : w.phase = .returned
  · obtain ⟨hphase, hpending⟩ := h.step_of_returned hreturned e
    have hlands : w.LandsAfterClose e := by
      cases e with
      | turn t =>
        intro hwriting
        simp [hreturned] at hwriting
      | _ => trivial
    unfold Lost
    rw [hpending, iff_true_intro hphase, iff_true_intro hreturned]
    exact (or_iff_left (not_not_intro hlands)).symm
  · rw [lost_step_iff_of_running h hreturned]
    exact (or_iff_right fun hlost => hreturned hlost.1).symm

/-! ### Runs of the writer -/

/-- The writer starts with nothing. -/
lemma kept_spawnWriter : (spawnWriter : DbWriter Row).Kept where
  conserved := ⟨[], rfl, List.Perm.refl _⟩
  short := Nat.zero_le _
  closed := by simp [spawnWriter]
  gathering _ := ⟨Nat.succ_pos 1999, rfl⟩
  returned := by simp [spawnWriter]

/-- One more event is one more step. -/
theorem after_concat (events : List (WriterEvent Row)) (e : WriterEvent Row) :
    after (events ++ [e]) = (after events).step e := by
  unfold after
  rw [List.foldl_append, List.foldl_cons, List.foldl_nil]

/-- Rows are in their places along every run. -/
lemma kept_after (events : List (WriterEvent Row)) : (after events).Kept := by
  induction events using List.reverseRecOn with
  | nil => exact kept_spawnWriter
  | append_singleton events e ih =>
    rw [after_concat]
    exact ih.step e

/-- **A run loses rows exactly if one of its turns does not land after the close.** -/
theorem lost_after_iff (events : List (WriterEvent Row)) :
    (after events).Lost ↔ ∃ before e later, events = before ++ e :: later ∧
      ¬ (after before).LandsAfterClose e := by
  induction events using List.reverseRecOn with
  | nil =>
    refine iff_of_false (fun hlost => hlost.2 rfl) ?_
    rintro ⟨before, e, later, hsplit, -⟩
    exact List.append_ne_nil_of_right_ne_nil before (List.cons_ne_nil e later) hsplit.symm
  | append_singleton events e ih =>
    rw [after_concat, (kept_after events).lost_step_iff e, ih]
    exact (List.exists_split_concat events e).symm

/-- When the writer has returned, the rows are accounted for if it had none left. -/
lemma accounted_iff (h : w.Kept) (hreturned : w.phase = .returned) :
    w.Accounted ↔ w.pending = [] := by
  obtain ⟨counted, hcounted, hperm⟩ := h.conserved
  rw [(h.closed (h.returned hreturned)).2, List.append_nil] at hperm
  constructor
  · intro haccounted
    obtain ⟨rows, hrows, hlength⟩ := haccounted.counted
    have hsizes := hrows.length_eq.symm.trans hperm.length_eq
    rw [List.length_append, List.length_append, List.length_append, hlength, hcounted] at hsizes
    exact List.eq_nil_of_length_eq_zero (by omega)
  · intro hnone
    rw [hnone, List.append_nil] at hperm
    refine ⟨?_, counted, hperm, hcounted⟩
    exact (List.sublist_append_left _ counted).subperm.trans hperm.symm.subperm

/-- **No row is committed twice**: each is committed no more often than it was sent, whatever
happens. -/
theorem committed_subperm_sent (events : List (WriterEvent Row)) :
    (after events).committed.flatten.Subperm (after events).sent := by
  obtain ⟨counted, -, hperm⟩ := (kept_after events).conserved
  rw [List.append_assoc, List.append_assoc] at hperm
  exact (List.sublist_append_left _ _).subperm.trans hperm.symm.subperm

/-- **When no row disappears**: in a run after which the writer has returned, every row sent was
committed once or is counted exactly if, after the close, each turn with rows pending has a
connection, or makes one at once, and writes them. -/
theorem rows_accounted_iff (events : List (WriterEvent Row))
    (hreturned : (after events).phase = .returned) :
    (after events).Accounted ↔ events.Along fun before e => (after before).LandsAfterClose e := by
  rw [accounted_iff (kept_after events) hreturned]
  have hlost : (after events).Lost ↔ (after events).pending ≠ [] :=
    and_iff_right hreturned
  rw [← not_iff_not, ← ne_eq, ← hlost, lost_after_iff]
  unfold List.Along
  push Not
  rfl

/-- The database is there all the time. -/
def landing : Turn := ⟨0, 0, true, true, 0⟩

/-- Two rows, the second of which is received after the last handle is gone. -/
theorem rows_accounted_iff_landing :
    (after [.send "a", .receive, .send "b", .hangUp, .receive, .receive,
      .turn landing]).Accounted := by
  have hbefore : ([.send "a", .receive, .send "b", .hangUp, .receive, .receive] :
      List (WriterEvent String)).Along fun before e => (after before).LandsAfterClose e :=
    List.along_of_forall (by simp [LandsAfterClose])
  have hlast : (after ([.send "a", .receive, .send "b", .hangUp, .receive, .receive] :
      List (WriterEvent String))).LandsAfterClose (.turn landing) :=
    fun _ _ _ => ⟨.inr ⟨by decide, rfl⟩, rfl⟩
  exact (rows_accounted_iff _ (by decide)).mpr (hbefore.append (List.along_singleton hlast))

/-- The database cannot be reached when the channel is closed, and the row received is neither
committed nor counted. -/
theorem not_accounted_unreachable :
    ¬ ∀ (Row : Type) (events : List (WriterEvent Row)), (after events).phase = .returned →
      (after events).Accounted := by
  intro hall
  have haccounted := hall String
    [.send "a", .hangUp, .receive, .receive, .turn { landing with connects := false }] (by decide)
  obtain ⟨rows, hrows, hlength⟩ := haccounted.counted
  have hnone : rows = [] := List.eq_nil_of_length_eq_zero hlength
  rw [hnone] at hrows
  exact absurd hrows.length_eq (by decide)

end DbWriter

end ShredTools.Audit
