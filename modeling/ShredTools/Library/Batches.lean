import Mathlib.Algebra.BigOperators.Group.Finset.Basic
import Mathlib.Algebra.BigOperators.Group.List.Basic
import Mathlib.Data.List.Induction
import Mathlib.Logic.Function.Basic

/-!
# Batches of items under keys

Items arrive under keys, and those of one key are collected until its batch is closed.  `pending` is
the batch that each key has open, and `closed` lists the closed ones in the order of closing.

Nothing is lost and nothing is taken twice: the closed batches of a key, one after another, and then
the open one are what arrived under the key (`arrived_add`, `arrived_closeAll`).  When every batch
is closed, a quantity summed over the batches is one of what arrived: in general if it is additive
(`sum_closed_key`), and for any quantity if no key has two batches (`sum_closed`).
-/

universe u v

/-- The open batch of every key, and the closed batches. -/
structure Batches (K : Type u) (C : Type v) where
  /-- The items of the open batch of each key. -/
  pending : K → List C
  /-- The closed batches with their keys, the first one closed first. -/
  closed : List (K × List C)

namespace Batches

variable {K : Type u} {C : Type v} [DecidableEq K]

/-- Nothing arrived. -/
def empty : Batches K C := ⟨fun _ => [], []⟩

/-- One more item of a key. -/
def add (b : Batches K C) (k : K) (c : C) : Batches K C :=
  { b with pending := Function.update b.pending k (b.pending k ++ [c]) }

/-- Close the batch of a key. -/
def close (b : Batches K C) (k : K) : Batches K C where
  pending := Function.update b.pending k []
  closed := b.closed ++ [(k, b.pending k)]

/-- Close the batches of several keys. -/
def closeAll (b : Batches K C) (ks : List K) : Batches K C := ks.foldl close b

/-- The items of the closed batches of a key. -/
def settled (b : Batches K C) (k : K) : List C :=
  (b.closed.filter fun e => e.1 = k).flatMap Prod.snd

/-- What arrived under a key. -/
def arrived (b : Batches K C) (k : K) : List C := b.settled k ++ b.pending k

/-! ### One operation -/

theorem pending_add (b : Batches K C) (k : K) (c : C) (k' : K) :
    (b.add k c).pending k' = if k' = k then b.pending k ++ [c] else b.pending k' := by
  unfold add
  dsimp only
  rw [Function.update_apply]

@[simp] theorem closed_add (b : Batches K C) (k : K) (c : C) : (b.add k c).closed = b.closed := rfl

theorem pending_close (b : Batches K C) (k k' : K) :
    (b.close k).pending k' = if k' = k then [] else b.pending k' := by
  unfold close
  dsimp only
  rw [Function.update_apply]

/-- Adding an item adds it to what arrived under its key. -/
theorem arrived_add (b : Batches K C) (k : K) (c : C) (k' : K) :
    (b.add k c).arrived k' = if k' = k then b.arrived k ++ [c] else b.arrived k' := by
  unfold arrived settled
  rw [pending_add, closed_add]
  by_cases hk : k' = k
  · rw [if_pos hk, if_pos hk, hk, List.append_assoc]
  · rw [if_neg hk, if_neg hk]

/-- Closing a batch moves its items from the open batch to the closed ones. -/
lemma settled_close (b : Batches K C) (k k' : K) :
    (b.close k).settled k' = if k' = k then b.arrived k else b.settled k' := by
  unfold arrived settled close
  rw [List.filter_append, List.flatMap_append]
  by_cases hk : k' = k
  · subst hk
    simp
  · have hne : ¬ k = k' := fun h => hk h.symm
    simp [hk, hne]

/-- Closing a batch loses nothing. -/
@[simp] lemma arrived_close (b : Batches K C) (k k' : K) :
    (b.close k).arrived k' = b.arrived k' := by
  have hdef : (b.close k).arrived k' = (b.close k).settled k' ++ (b.close k).pending k' := rfl
  rw [hdef, settled_close, pending_close]
  by_cases hk : k' = k
  · rw [if_pos hk, if_pos hk, List.append_nil, hk]
  · rw [if_neg hk, if_neg hk]
    rfl

@[simp] lemma closeAll_nil (b : Batches K C) : b.closeAll [] = b := rfl

@[simp] theorem closeAll_cons (b : Batches K C) (k : K) (ks : List K) :
    b.closeAll (k :: ks) = (b.close k).closeAll ks := rfl

/-- Closing batches loses nothing. -/
@[simp] lemma arrived_closeAll (b : Batches K C) (ks : List K) (k : K) :
    (b.closeAll ks).arrived k = b.arrived k := by
  induction ks generalizing b with
  | nil => rfl
  | cons k' ks ih => rw [closeAll_cons, ih, arrived_close]

/-- The keys whose batches are closed start with empty ones. -/
theorem pending_closeAll (b : Batches K C) (ks : List K) (k : K) :
    (b.closeAll ks).pending k = if k ∈ ks then [] else b.pending k := by
  induction ks generalizing b with
  | nil => simp
  | cons k' ks ih =>
    rw [closeAll_cons, ih, pending_close]
    by_cases hk : k = k'
    · simp [hk]
    · simp [hk]

/-- Closing the batches of distinct keys appends them as they were. -/
theorem closed_closeAll (b : Batches K C) {ks : List K} (hnd : ks.Nodup) :
    (b.closeAll ks).closed = b.closed ++ ks.map fun k => (k, b.pending k) := by
  induction ks generalizing b with
  | nil => simp
  | cons k ks ih =>
    obtain ⟨hfresh, hnd⟩ := List.nodup_cons.mp hnd
    rw [closeAll_cons, ih _ hnd, List.map_cons]
    have hsame : (ks.map fun k' => (k', (b.close k).pending k')) =
        ks.map fun k' => (k', b.pending k') := by
      refine List.map_congr_left fun k' hk' => ?_
      have hne : k' ≠ k := fun h => hfresh (h ▸ hk')
      rw [pending_close, if_neg hne]
    rw [hsame]
    simp [close]

/-- The items of a closed batch are among those of the closed batches of its key. -/
theorem mem_settled {b : Batches K C} {e : K × List C} (he : e ∈ b.closed) {c : C} (hc : c ∈ e.2) :
    c ∈ b.settled e.1 :=
  List.mem_flatMap.mpr ⟨e, List.mem_filter.mpr ⟨he, decide_eq_true rfl⟩, hc⟩

/-- A closed batch is no longer than what arrived under its key. -/
theorem length_le_arrived {b : Batches K C} {e : K × List C} (he : e ∈ b.closed) :
    e.2.length ≤ (b.arrived e.1).length := by
  have hmem : e ∈ b.closed.filter fun e' => e'.1 = e.1 :=
    List.mem_filter.mpr ⟨he, decide_eq_true rfl⟩
  unfold arrived settled
  rw [List.length_append]
  exact (List.sublist_flatten_of_mem (List.mem_map_of_mem hmem)).length_le.trans
    (Nat.le_add_right _ _)

/-! ### All batches closed -/

/-- An additive quantity, summed over the closed batches of a key, is that of all their items. -/
theorem sum_closed_key {M : Type*} [AddCommMonoid M] {g : List C → M} (hnil : g [] = 0)
    (happend : ∀ xs ys, g (xs ++ ys) = g xs + g ys) (b : Batches K C) (k : K) :
    (b.closed.map fun e => if e.1 = k then g e.2 else 0).sum = g (b.settled k) := by
  unfold settled
  induction b.closed with
  | nil => exact hnil.symm
  | cons e es ih =>
    rw [List.map_cons, List.sum_cons, ih]
    by_cases hk : e.1 = k
    · rw [if_pos hk, List.filter_cons_of_pos (by simpa using hk), List.flatMap_cons, happend]
    · rw [if_neg hk, List.filter_cons_of_neg (by simpa using hk), zero_add]

/-- If no key has two closed batches, each batch is all that was closed of its key. -/
lemma settled_of_mem {b : Batches K C} (hnd : (b.closed.map Prod.fst).Nodup) {e : K × List C}
    (he : e ∈ b.closed) : b.settled e.1 = e.2 := by
  unfold settled
  generalize b.closed = es at hnd he
  induction es with
  | nil => simp at he
  | cons e' es ih =>
    obtain ⟨hfresh, hnd⟩ := List.nodup_cons.mp hnd
    rcases List.mem_cons.mp he with rfl | he
    · have hnone : es.filter (fun e' => e'.1 = e.1) = [] := by
        refine List.filter_eq_nil_iff.mpr fun e' he' => ?_
        have hne : ¬ e'.1 = e.1 := fun h => hfresh (h ▸ List.mem_map_of_mem he')
        simpa using hne
      rw [List.filter_cons_of_pos (by simp), hnone]
      simp
    · have hne : ¬ e'.1 = e.1 := fun h => hfresh (h ▸ List.mem_map_of_mem he)
      rw [List.filter_cons_of_neg (by simpa using hne)]
      exact ih hnd he

/-- With all batches closed and no key with two of them, a quantity summed over the batches is its
sum over the keys of what arrived under each. -/
theorem sum_closed {M : Type*} [AddCommMonoid M] (f : K → List C → M) {b : Batches K C}
    (hdone : ∀ k, b.pending k = []) (hnd : (b.closed.map Prod.fst).Nodup) :
    (b.closed.map fun e => f e.1 e.2).sum =
      ∑ k ∈ (b.closed.map Prod.fst).toFinset, f k (b.arrived k) := by
  have harrived : ∀ e ∈ b.closed, f e.1 e.2 = f e.1 (b.arrived e.1) := by
    intro e he
    rw [arrived, hdone, List.append_nil, settled_of_mem hnd he]
  rw [List.map_congr_left harrived, List.sum_toFinset _ hnd, List.map_map]
  rfl

end Batches
