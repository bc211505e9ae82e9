import Mathlib.Data.List.Dedup
import Mathlib.Data.List.ReduceOption
import ShredTools.Library.Segments

/-!
# Tables filled in place by place

A table starts empty, and writes of values at indices fill it in; writes beyond its end are dropped.
The table is full exactly if every index is written (`full_placeAll_iff`).  Counting the writes that
are not dropped is no test for that, unless no index is written twice (`nodup_iff_forall_mem`).

`placeAll` makes the writes in their order, so that a later one wins.  The table keeps its length
(`length_placeAll`), an index that is written is filled (`isSome_placeAll_of_mem`), and the value
found there is one that was written.  That as many different indices as there are places are all of
them is the pigeonhole argument behind the test by counting.
-/

namespace Placement

variable {α : Type*}

/-- The table after a write; beyond the end nothing happens. -/
def place (table : List (Option α)) (w : ℕ × α) : List (Option α) := table.set w.1 (some w.2)

/-- The table after some writes. -/
def placeAll (table : List (Option α)) (ws : List (ℕ × α)) : List (Option α) := ws.foldl place table

@[simp] theorem length_placeAll (table : List (Option α)) (ws : List (ℕ × α)) :
    (placeAll table ws).length = table.length := by
  unfold placeAll
  induction ws generalizing table with
  | nil => rfl
  | cons w ws ih => rw [List.foldl_cons, ih, place, List.length_set]

/-- What stands in the table was there or is written. -/
lemma mem_of_getElem?_placeAll {table : List (Option α)} {ws : List (ℕ × α)} {i : ℕ} {a : α}
    (h : (placeAll table ws)[i]? = some (some a)) : table[i]? = some (some a) ∨ (i, a) ∈ ws := by
  unfold placeAll at h
  induction ws generalizing table with
  | nil => exact Or.inl h
  | cons w ws ih =>
    rcases ih h with hplaced | hmem
    · unfold place at hplaced
      rw [List.getElem?_set] at hplaced
      split at hplaced
      next heq =>
        split at hplaced
        · have ha : w.2 = a := Option.some.inj (Option.some.inj hplaced)
          exact Or.inr (by rw [← heq, ← ha]; exact List.mem_cons_self)
        · cases hplaced
      next => exact Or.inl hplaced
    · exact Or.inr (List.mem_cons_of_mem _ hmem)

/-- A place that is filled in stays so. -/
lemma isSome_placeAll {table : List (Option α)} (ws : List (ℕ × α)) {i : ℕ}
    (h : ∃ a, table[i]? = some (some a)) : ∃ a, (placeAll table ws)[i]? = some (some a) := by
  unfold placeAll
  induction ws generalizing table with
  | nil => exact h
  | cons w ws ih =>
    apply ih
    obtain ⟨a, ha⟩ := h
    obtain ⟨hi, -⟩ := List.getElem?_eq_some_iff.mp ha
    unfold place
    rw [List.getElem?_set]
    split
    next heq => exact ⟨w.2, if_pos (heq ▸ hi)⟩
    next => exact ⟨a, ha⟩

/-- Every place inside the table that is written is filled in. -/
theorem isSome_placeAll_of_mem {table : List (Option α)} {ws : List (ℕ × α)} {i : ℕ} {a : α}
    (hi : i < table.length) (h : (i, a) ∈ ws) : ∃ b, (placeAll table ws)[i]? = some (some b) := by
  obtain ⟨before, after, rfl⟩ := List.append_of_mem h
  have hsplit : placeAll table (before ++ (i, a) :: after) =
      placeAll (place (placeAll table before) (i, a)) after := by
    unfold placeAll
    rw [List.foldl_append, List.foldl_cons]
  rw [hsplit]
  refine isSome_placeAll after ⟨a, ?_⟩
  have hlt : i < (placeAll table before).length := by rwa [length_placeAll]
  unfold place
  rw [List.getElem?_set_self hlt]

/-- **A table is full exactly if every index is written.** -/
theorem full_placeAll_iff {n : ℕ} {ws : List (ℕ × α)} :
    (placeAll (List.replicate n none) ws).reduceOption.length = n ↔
      ∀ i < n, ∃ a, (i, a) ∈ ws := by
  have hlength : (placeAll (List.replicate n none) ws).length = n := by simp
  have hfull : (placeAll (List.replicate n none) ws).reduceOption.length = n ↔
      ∀ o ∈ placeAll (List.replicate n none) ws, o.isSome = true := by
    rw [← List.reduceOption_length_eq_iff, hlength]
  rw [hfull]
  constructor
  · intro h i hi
    have hlt : i < (placeAll (List.replicate n none) ws).length := by rwa [hlength]
    obtain ⟨a, ha⟩ := Option.isSome_iff_exists.mp (h _ (List.getElem_mem hlt))
    have hget : (placeAll (List.replicate n none) ws)[i]? = some (some a) := by
      rw [List.getElem?_eq_getElem hlt, ha]
    rcases mem_of_getElem?_placeAll hget with hempty | hmem
    · rw [List.getElem?_replicate, if_pos hi] at hempty
      cases hempty
    · exact ⟨a, hmem⟩
  · intro h o ho
    obtain ⟨i, hi, rfl⟩ := List.mem_iff_getElem.mp ho
    obtain ⟨a, ha⟩ := h i (hlength ▸ hi)
    have hlt : i < (List.replicate n (none : Option α)).length := by
      rw [List.length_replicate]
      exact hlength ▸ hi
    obtain ⟨b, hb⟩ := isSome_placeAll_of_mem hlt ha
    rw [List.getElem?_eq_getElem hi] at hb
    rw [Option.some.inj hb]
    rfl

/-- As many indices as there are places cover the table exactly if none comes twice. -/
theorem nodup_iff_forall_mem {is : List ℕ} {n : ℕ} (hlt : ∀ i ∈ is, i < n)
    (hlength : is.length = n) :
    is.Nodup ↔ ∀ i < n, i ∈ is := by
  constructor
  · exact fun hnodup i hi => hnodup.mem_of_length_eq hlt hlength hi
  · intro h
    have hsub : (List.range n).Subperm is :=
      List.nodup_range.subperm fun i hi => h i (List.mem_range.mp hi)
    have hperm := hsub.perm_of_length_le (by rw [List.length_range, hlength])
    exact hperm.nodup_iff.mp List.nodup_range

end Placement
