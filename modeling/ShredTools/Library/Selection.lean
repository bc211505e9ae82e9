import Mathlib.Data.List.MinMax
import Mathlib.Data.List.Pairwise
import Mathlib.Data.List.Sort

/-!
# Selecting from a list

`firstsBy key l` keeps the first element of each key, in order, as a loop with a set of the keys
seen does.  `IsKthSmallest l k t` says what a selection algorithm returns: at most `k - 1` elements
lie below `t`, and `k` at or below it.  Sorting and picking by number selects so
(`getElem?_insertionSort_eq_some_iff`).  The least and the greatest element, as a loop that keeps an
optional extremum finds them, are those of Mathlib, with one more element at the end.

Neither depends on the order in which equal elements stand: `IsKthSmallest` is invariant under
permutation (`IsKthSmallest.perm`), and `firstsBy` keeps at most one element for each key
(`nodup_map_firstsBy`) and one for each key that occurs (`exists_mem_firstsBy_iff`).
-/

universe u v

namespace List

/-! ### The first of each key -/

section Firsts

variable {α : Type u} {κ : Type v} [DecidableEq κ]

/-- The elements that are the first ones of their keys. -/
def firstsBy (key : α → κ) (l : List α) : List α :=
  (l.reverse.pwFilter fun a b => key a ≠ key b).reverse

variable (key : α → κ)

@[simp] lemma firstsBy_nil : firstsBy key [] = [] := rfl

/-- The first ones come in order. -/
theorem firstsBy_sublist (l : List α) : (firstsBy key l).Sublist l := by
  have h := (pwFilter_sublist (R := fun a b => key a ≠ key b) l.reverse).reverse
  rwa [reverse_reverse] at h

/-- Every key of the list has a first element. -/
theorem exists_mem_firstsBy_iff {l : List α} {k : κ} :
    (∃ a ∈ firstsBy key l, key a = k) ↔ ∃ a ∈ l, key a = k := by
  constructor
  · intro ⟨a, ha, hk⟩
    exact ⟨a, (firstsBy_sublist key l).subset ha, hk⟩
  · intro ⟨a, ha, hk⟩
    by_contra hnone
    have hdiffers : ∀ b ∈ l.reverse.pwFilter fun a b => key a ≠ key b, key a ≠ key b := by
      intro b hb heq
      exact hnone ⟨b, mem_reverse.mpr hb, heq.symm.trans hk⟩
    rw [forall_mem_pwFilter] at hdiffers
    · exact hdiffers a (mem_reverse.mpr ha) rfl
    · intro x y z hxz
      by_cases hxy : key x = key y
      · exact Or.inr (hxy ▸ hxz)
      · exact Or.inl hxy

/-- One more element is a first one unless its key has come before. -/
theorem firstsBy_concat (l : List α) (a : α) :
    firstsBy key (l ++ [a]) =
      if ∃ b ∈ l, key b = key a then firstsBy key l else firstsBy key l ++ [a] := by
  have hfresh : (∀ b ∈ l.reverse.pwFilter fun a b => key a ≠ key b, key a ≠ key b) ↔
      ¬ ∃ b ∈ l, key b = key a := by
    rw [← exists_mem_firstsBy_iff]
    constructor
    · intro h ⟨b, hb, heq⟩
      exact h b (mem_reverse.mp hb) heq.symm
    · intro h b hb heq
      exact h ⟨b, mem_reverse.mpr hb, heq.symm⟩
  unfold firstsBy
  rw [reverse_append, reverse_singleton, singleton_append]
  by_cases hold : ∃ b ∈ l, key b = key a
  · rw [if_pos hold, pwFilter_cons_of_neg (mt hfresh.mp (not_not.mpr hold))]
  · rw [if_neg hold, pwFilter_cons_of_pos (hfresh.mpr hold), reverse_cons]

/-- No two first elements share a key. -/
theorem nodup_map_firstsBy (l : List α) : ((firstsBy key l).map key).Nodup := by
  rw [firstsBy, map_reverse, nodup_reverse, Nodup, pairwise_map]
  exact pairwise_pwFilter _

/-- Elements with different keys are all first ones. -/
theorem firstsBy_eq_self {l : List α} (h : (l.map key).Nodup) : firstsBy key l = l := by
  have hpairwise : l.reverse.Pairwise fun a b => key a ≠ key b := by
    rw [← pairwise_map (R := (· ≠ ·)), map_reverse]
    exact nodup_reverse.mpr h
  rw [firstsBy, hpairwise.pwFilter, reverse_reverse]

end Firsts

/-! ### The `k`-th smallest -/

section KthSmallest

variable {α : Type u} [LinearOrder α]

/-- Fewer than `k` elements lie below `t`, and at least `k` at or below it. -/
structure IsKthSmallest (l : List α) (k : ℕ) (t : α) : Prop where
  /-- The choice is one of the elements. -/
  mem : t ∈ l
  /-- Few elements lie below. -/
  countP_lt : l.countP (· < t) < k
  /-- Enough lie at or below. -/
  le_countP : k ≤ l.countP (· ≤ t)

/-- In a sorted list the element with number `k - 1` is the `k`-th smallest. -/
lemma SortedLE.isKthSmallest_getElem {l : List α} (hl : l.SortedLE) {i : ℕ} (hi : i < l.length) :
    IsKthSmallest l (i + 1) l[i] := by
  refine ⟨getElem_mem hi, ?_, ?_⟩
  · have hdrop : (l.drop i).countP (· < l[i]) = 0 := by
      rw [countP_eq_zero]
      intro x hx
      obtain ⟨j, hj, rfl⟩ := mem_iff_getElem.mp hx
      rw [getElem_drop, decide_eq_true_eq, not_lt]
      exact hl.getElem_le_getElem_of_le (Nat.le_add_right i j)
    have hcount : ∀ p : α → Bool, l.countP p = (l.take i).countP p + (l.drop i).countP p := by
      intro p
      rw [← countP_append, take_append_drop]
    rw [hcount, hdrop, Nat.add_zero]
    have htake := countP_le_length (p := (· < l[i])) (l := l.take i)
    rw [length_take] at htake
    omega
  · have hle : ∀ x ∈ l.take (i + 1), decide (x ≤ l[i]) = true := by
      intro x hx
      obtain ⟨j, hj, rfl⟩ := mem_iff_getElem.mp hx
      rw [length_take] at hj
      rw [getElem_take, decide_eq_true_eq]
      exact hl.getElem_le_getElem_of_le (by omega)
    have htake : (l.take (i + 1)).countP (· ≤ l[i]) = i + 1 := by
      rw [countP_eq_length.mpr hle, length_take]
      omega
    have hsub := (take_sublist (i + 1) l).countP_le (p := (· ≤ l[i]))
    rw [htake] at hsub
    exact hsub

/-- There is only one `k`-th smallest. -/
lemma IsKthSmallest.eq {l : List α} {k : ℕ} {t t' : α} (h : IsKthSmallest l k t)
    (h' : IsKthSmallest l k t') : t = t' := by
  -- of two different ones, what lies at or below the smaller one lies below the larger one
  have hnot : ∀ {a b : α}, IsKthSmallest l k a → IsKthSmallest l k b → ¬ a < b := by
    intro a b ha hb hlt
    have hmono : l.countP (· ≤ a) ≤ l.countP (· < b) := by
      apply countP_mono_left
      intro x _ hx
      rw [decide_eq_true_eq] at hx ⊢
      exact hx.trans_lt hlt
    have hle := ha.le_countP
    have hfew := hb.countP_lt
    omega
  exact le_antisymm (not_lt.mp (hnot h' h)) (not_lt.mp (hnot h h'))

/-- The order of the elements does not matter. -/
theorem IsKthSmallest.perm {l l' : List α} {k : ℕ} {t : α} (h : IsKthSmallest l k t)
    (hperm : l.Perm l') : IsKthSmallest l' k t where
  mem := hperm.mem_iff.mp h.mem
  countP_lt := hperm.countP_eq _ ▸ h.countP_lt
  le_countP := hperm.countP_eq _ ▸ h.le_countP

/-- Sorting and picking by number selects the `k`-th smallest. -/
lemma getElem?_insertionSort_eq_some_iff {l : List α} {k : ℕ} (hk : 0 < k) {t : α} :
    (l.insertionSort (· ≤ ·))[k - 1]? = some t ↔ k ≤ l.length ∧ IsKthSmallest l k t := by
  have hpick : ∀ hlt : k - 1 < (l.insertionSort (· ≤ ·)).length,
      IsKthSmallest l k (l.insertionSort (· ≤ ·))[k - 1] := by
    intro hlt
    have h := (sortedLE_iff_pairwise.mpr
      (pairwise_insertionSort (· ≤ ·) l)).isKthSmallest_getElem hlt
    rw [Nat.sub_add_cancel hk] at h
    exact h.perm (perm_insertionSort (· ≤ ·) l)
  rw [getElem?_eq_some_iff]
  constructor
  · intro ⟨hlt, heq⟩
    have hlength := length_insertionSort (· ≤ ·) l
    exact ⟨by omega, heq ▸ hpick hlt⟩
  · intro ⟨hle, hkth⟩
    have hlt : k - 1 < (l.insertionSort (· ≤ ·)).length := by
      rw [length_insertionSort]
      omega
    exact ⟨hlt, (hpick hlt).eq hkth⟩

end KthSmallest

/-! ### Extrema with one more element -/

section Extrema

variable {α : Type u} [LinearOrder α]

/-- The least element of a list and one more. -/
lemma min?_concat (l : List α) (a : α) : (l ++ [a]).min? = some (l.min?.elim a (min · a)) := by
  cases l with
  | nil => rfl
  | cons b l => rw [cons_append, min?_cons', min?_cons', foldl_append]; rfl

/-- The greatest element of a list and one more. -/
lemma max?_concat (l : List α) (a : α) : (l ++ [a]).max? = some (l.max?.elim a (max · a)) := by
  cases l with
  | nil => rfl
  | cons b l => rw [cons_append, max?_cons', max?_cons', foldl_append]; rfl

/-- The order of the elements does not matter to the least one. -/
lemma Perm.min?_eq {l l' : List α} (h : l.Perm l') : l.min? = l'.min? := by
  apply Option.ext
  intro a
  rw [min?_eq_some_iff, min?_eq_some_iff, h.mem_iff]
  exact and_congr_right fun _ => forall_congr' fun b => by rw [h.mem_iff]

/-- The order of the elements does not matter to the greatest one. -/
lemma Perm.max?_eq {l l' : List α} (h : l.Perm l') : l.max? = l'.max? := by
  apply Option.ext
  intro a
  rw [max?_eq_some_iff, max?_eq_some_iff, h.mem_iff]
  exact and_congr_right fun _ => forall_congr' fun b => by rw [h.mem_iff]

end Extrema

end List
