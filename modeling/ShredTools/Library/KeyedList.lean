import Mathlib.Data.List.Induction
import Mathlib.Data.List.Nodup
import Mathlib.Data.List.Perm.Basic

/-!
# Lists with distinct keys

A growable array whose elements have distinct keys serves as a small map.  Two updates of it at an
index are described by the members of the result: `swapRemove` drops the element at the index by
moving the last one into its place, and `modify` replaces it.

Both cost the order of the list, or keep it, but never its keys: `nodup_map_swapRemove` and
`map_modify_of_key` say that they stay distinct, so that a search by key still finds at most one
element.  `swapRemove_set` drops an element that was changed just before.
-/

namespace List

variable {α : Type*}

/-- Remove the element at `i` by putting the last one in its place. -/
def swapRemove (l : List α) (i : ℕ) : List α :=
  match l.getLast? with
  | some x => (l.set i x).dropLast
  | none => l

/-- Removal by swapping is, up to order, removal of the element at the index. -/
lemma swapRemove_perm {l : List α} {i : ℕ} (hi : i < l.length) :
    (l.swapRemove i).Perm (l.eraseIdx i) := by
  induction l using List.reverseRecOn with
  | nil => simp at hi
  | append_singleton l x _ =>
    unfold swapRemove
    rw [List.getLast?_concat]
    dsimp only
    rcases Nat.lt_or_ge i l.length with h | h
    · rw [List.set_append_left _ _ h, List.dropLast_concat, List.eraseIdx_append_of_lt_length h]
      exact (set_perm_cons_eraseIdx h x).trans (List.perm_append_singleton x _).symm
    · have hil : i = l.length := by
        rw [List.length_append, List.length_singleton] at hi
        omega
      subst hil
      rw [List.set_append_right _ _ (Nat.le_refl _),
        List.eraseIdx_append_of_length_le (Nat.le_refl _)]
      simp

/-- The element that is removed does not matter. -/
theorem swapRemove_set (l : List α) (i : ℕ) (x : α) :
    (l.set i x).swapRemove i = l.swapRemove i := by
  induction l using List.reverseRecOn with
  | nil => rfl
  | append_singleton l y _ =>
    unfold swapRemove
    rcases Nat.lt_trichotomy i l.length with h | rfl | h
    · have h' : i < (l.set i x).length := by simpa using h
      simp [List.set_append_left _ _ h, List.set_append_left _ _ h']
    · simp
    · have h' : l.length + 1 ≤ i := h
      rw [List.set_eq_of_length_le (by simpa using h')]

/-- Removal by swapping keeps keys distinct. -/
theorem nodup_map_swapRemove {β : Type*} {f : α → β} {l : List α} (hnd : (l.map f).Nodup) {i : ℕ}
    (hi : i < l.length) : ((l.swapRemove i).map f).Nodup := by
  have hperm : ((l.swapRemove i).map f).Perm ((l.eraseIdx i).map f) := (swapRemove_perm hi).map f
  rw [hperm.nodup_iff]
  exact hnd.sublist ((List.eraseIdx_sublist l i).map f)

/-- Among elements with distinct keys, removal by swapping drops exactly the element with the key
of the index. -/
theorem mem_swapRemove_iff {β : Type*} {f : α → β} {l : List α} (hnd : (l.map f).Nodup) {i : ℕ}
    (hi : i < l.length) {x : α} : x ∈ l.swapRemove i ↔ x ∈ l ∧ f x ≠ f l[i] := by
  rw [(swapRemove_perm hi).mem_iff, List.mem_eraseIdx_iff_getElem]
  constructor
  · rintro ⟨j, hj, hne, rfl⟩
    refine ⟨List.getElem_mem hj, fun heq => hne ?_⟩
    have hi' : i < (l.map f).length := by simpa using hi
    have hj' : j < (l.map f).length := by simpa using hj
    have hkey : (l.map f)[j] = (l.map f)[i] ↔ j = i := hnd.getElem_inj_iff
    simpa [heq] using hkey
  · rintro ⟨hmem, hne⟩
    obtain ⟨j, hj, rfl⟩ := List.getElem_of_mem hmem
    exact ⟨j, hj, fun h => hne (by subst h; rfl), rfl⟩

/-- Among elements with distinct keys, modifying at an index replaces exactly the element with
the key of the index. -/
theorem mem_modify_iff_of_keys {β : Type*} {f : α → β} {l : List α} (hnd : (l.map f).Nodup) {i : ℕ}
    (hi : i < l.length) {g : α → α} {x : α} :
    x ∈ l.modify i g ↔ (x ∈ l ∧ f x ≠ f l[i]) ∨ x = g l[i] := by
  have hkey : ∀ j (hj : j < l.length), f l[j] = f l[i] ↔ j = i := by
    intro j hj
    have hi' : i < (l.map f).length := by simpa using hi
    have hj' : j < (l.map f).length := by simpa using hj
    have heq : (l.map f)[j] = (l.map f)[i] ↔ j = i := hnd.getElem_inj_iff
    simpa using heq
  constructor
  · intro hx
    obtain ⟨j, hj, rfl⟩ := List.getElem_of_mem hx
    rw [List.length_modify] at hj
    rw [List.getElem_modify]
    by_cases hji : i = j
    · subst hji
      exact Or.inr (if_pos rfl)
    · rw [if_neg hji]
      exact Or.inl ⟨List.getElem_mem hj, fun h => hji ((hkey j hj).mp h).symm⟩
  · rintro (⟨hx, hne⟩ | rfl)
    · obtain ⟨j, hj, rfl⟩ := List.getElem_of_mem hx
      have hji : i ≠ j := fun h => hne (by subst h; rfl)
      have hj' : j < (l.modify i g).length := by simpa using hj
      have heq : (l.modify i g)[j] = l[j] := by rw [List.getElem_modify, if_neg hji]
      rw [← heq]
      exact List.getElem_mem _
    · have hi' : i < (l.modify i g).length := by simpa using hi
      have heq : (l.modify i g)[i] = g l[i] := by rw [List.getElem_modify, if_pos rfl]
      rw [← heq]
      exact List.getElem_mem _

/-- Modifying an element without changing its key keeps the keys. -/
theorem map_modify_of_key {β : Type*} {f : α → β} {g : α → α} (hg : ∀ x, f (g x) = f x)
    (l : List α) (i : ℕ) : (l.modify i g).map f = l.map f := by
  refine List.ext_getElem? fun j => ?_
  rw [List.getElem?_map, List.getElem?_modify, List.getElem?_map]
  cases l[j]? with
  | none => rfl
  | some x =>
    by_cases h : i = j
    · simp [h, hg]
    · simp [h]

end List
