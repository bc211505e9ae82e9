import Mathlib.Data.List.Perm.Basic

/-!
# Bounded channels

A channel holds at most `cap` values.  A sender that finds it full keeps its value (`trySend` is
`none`), and the receiver takes the oldest one.

`Traffic` is the account of a channel: of the values sent, each was taken, is queued or was lost,
and none twice; and values are taken in the order in which they were sent.  It starts balanced, and
each use of the channel keeps it so (`Traffic.accept`, `Traffic.lose`, `Traffic.take`).

A broadcast channel keeps the last `capacity` values for all its receivers.  A receiver that is
farther behind learns how many it missed and goes on with the oldest value that is kept
(`Broadcast.recv`).
-/

/-- A channel for `cap` values. -/
structure Channel (α : Type*) (cap : ℕ) where
  /-- The values that wait, the oldest first. -/
  queued : List α
  /-- There is room for no more than `cap`. -/
  bounded : queued.length ≤ cap

namespace Channel

variable {α : Type*} {cap : ℕ}

/-- The channel that nothing was sent to. -/
def empty (α : Type*) (cap : ℕ) : Channel α cap := ⟨[], Nat.zero_le cap⟩

/-- Send a value, if there is room. -/
def trySend (c : Channel α cap) (a : α) : Option (Channel α cap) :=
  if h : c.queued.length < cap then
    some ⟨c.queued ++ [a], by rwa [List.length_append, List.length_singleton]⟩
  else none

/-- Take the oldest value, if there is one. -/
def recv (c : Channel α cap) : Option (α × Channel α cap) :=
  match h : c.queued with
  | [] => none
  | a :: rest =>
    some (a, ⟨rest, by
      have hle := c.bounded
      rw [h, List.length_cons] at hle
      exact Nat.le_of_succ_le hle⟩)

@[simp] lemma queued_empty : (empty α cap).queued = [] := rfl

/-- A value sent is the last of the queue. -/
lemma queued_of_trySend {c c' : Channel α cap} {a : α} (h : c.trySend a = some c') :
    c'.queued = c.queued ++ [a] := by
  unfold trySend at h
  split at h
  · exact (congrArg queued (Option.some.inj h)).symm
  · cases h

/-- The value taken was the first of the queue. -/
lemma queued_of_recv {c c' : Channel α cap} {a : α} (h : c.recv = some (a, c')) :
    c.queued = a :: c'.queued := by
  unfold recv at h
  split at h
  · cases h
  · next hq =>
    cases h
    exact hq

/-- The account of a channel. -/
structure Traffic (sent taken lost : List α) (c : Channel α cap) : Prop where
  /-- What was sent was taken, is queued or was lost. -/
  account : sent.Perm (taken ++ c.queued ++ lost)
  /-- What was taken and what is queued come in the order of sending. -/
  fifo : (taken ++ c.queued).Sublist sent

namespace Traffic

variable {sent taken lost : List α} {c c' : Channel α cap} {a : α}

/-- Nothing was sent yet. -/
theorem start : Traffic [] [] [] (empty α cap) := ⟨List.Perm.refl _, List.Sublist.refl _⟩

/-- A value that there is room for is queued. -/
theorem accept (h : Traffic sent taken lost c) (hsend : c.trySend a = some c') :
    Traffic (sent ++ [a]) taken lost c' := by
  have hqueued := queued_of_trySend hsend
  constructor
  · rw [hqueued, ← List.append_assoc, List.append_assoc]
    refine (h.account.append_right [a]).trans ?_
    rw [List.append_assoc]
    exact List.perm_append_comm.append_left _
  · rw [hqueued, ← List.append_assoc]
    exact h.fifo.append (List.Sublist.refl _)

/-- A value that there is no room for is lost. -/
theorem lose (h : Traffic sent taken lost c) (a : α) :
    Traffic (sent ++ [a]) taken (lost ++ [a]) c := by
  constructor
  · rw [← List.append_assoc]
    exact h.account.append_right [a]
  · exact h.fifo.trans (List.sublist_append_left _ _)

/-- The oldest value is taken. -/
theorem take (h : Traffic sent taken lost c) (hrecv : c.recv = some (a, c')) :
    Traffic sent (taken ++ [a]) lost c' := by
  have hqueued := queued_of_recv hrecv
  constructor
  · rw [List.append_assoc taken, List.singleton_append, ← hqueued]
    exact h.account
  · rw [List.append_assoc taken, List.singleton_append, ← hqueued]
    exact h.fifo

/-- As many values are counted in one way or another as were sent, of any kind. -/
theorem countP (h : Traffic sent taken lost c) (p : α → Bool) :
    sent.countP p = taken.countP p + c.queued.countP p + lost.countP p := by
  rw [h.account.countP_eq, List.countP_append, List.countP_append]

end Traffic

end Channel

namespace Broadcast

/-- What a receiver of a broadcast channel gets. -/
inductive Reception
  /-- The value with this number. -/
  | value (k : ℕ)
  /-- Some values were missed. -/
  | lagged (missed : ℕ)

/-- What the receiver gets whose next value is the one with number `next`, after so many values were
sent: nothing if there is none yet. -/
def recv (capacity sent next : ℕ) : Option Reception :=
  if sent ≤ next then none
  else if capacity < sent - next then some (.lagged (sent - capacity - next))
  else some (.value next)

/-- The next value is received if it is there and still kept. -/
theorem recv_eq_value_iff {capacity sent next k : ℕ} :
    recv capacity sent next = some (.value k) ↔
      next < sent ∧ sent - next ≤ capacity ∧ k = next := by
  unfold recv
  split_ifs with hnone hlagged <;> simp <;> omega

/-- Values are missed by a receiver that is farther behind. -/
theorem recv_eq_lagged_iff {capacity sent next missed : ℕ} :
    recv capacity sent next = some (.lagged missed) ↔
      capacity < sent - next ∧ missed = sent - capacity - next := by
  unfold recv
  split_ifs with hnone hlagged <;> simp <;> omega

end Broadcast
