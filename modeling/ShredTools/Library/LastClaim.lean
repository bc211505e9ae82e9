import Mathlib.Data.List.Induction
import ShredTools.Library.KeyedTable

/-!
# Tables filled by claims

Claimants go through a table in order, and each puts its own value at all of its keys.  A key then
has the value of the last claimant that has it among its keys (`lookup_fill_eq_some_iff`), so a
claimant that comes earlier may be left with no key at all.

`LastAt` says which claimant that is: it claims the key, and none after it does.  There is at most
one (`LastAt.unique`), and none exactly if nobody claims the key (`lookup_fill_eq_none_iff`).  The
table is filled in by insertion, so nothing depends on how it is represented.
-/

namespace List

variable {α : Type*}

/-- The property `p` holds at the index `i` of a list and at no later one. -/
def LastAt (p : α → Prop) (l : List α) (i : ℕ) : Prop :=
  ∃ a, l[i]? = some a ∧ p a ∧ ∀ j b, i < j → l[j]? = some b → ¬ p b

theorem LastAt.lt_length {p : α → Prop} {l : List α} {i : ℕ} (h : l.LastAt p i) : i < l.length := by
  obtain ⟨a, ha, -, -⟩ := h
  exact (List.getElem?_eq_some_iff.mp ha).1

/-- There is one last index. -/
theorem LastAt.unique {p : α → Prop} {l : List α} {i j : ℕ} (hi : l.LastAt p i)
    (hj : l.LastAt p j) : i = j := by
  obtain ⟨a, ha, hpa, hlasta⟩ := hi
  obtain ⟨b, hb, hpb, hlastb⟩ := hj
  rcases Nat.lt_trichotomy i j with hlt | rfl | hlt
  · exact absurd hpb (hlasta j b hlt hb)
  · rfl
  · exact absurd hpa (hlastb i a hlt ha)

/-- The last index with a property is one after which no element has it. -/
theorem lastAt_iff_drop {p : α → Prop} {l : List α} {i : ℕ} {a : α} (ha : l[i]? = some a) :
    l.LastAt p i ↔ p a ∧ ∀ b ∈ l.drop (i + 1), ¬ p b := by
  have hlater : ∀ b, b ∈ l.drop (i + 1) ↔ ∃ j, i < j ∧ l[j]? = some b := by
    intro b
    rw [List.mem_iff_getElem?]
    simp only [List.getElem?_drop]
    constructor
    · rintro ⟨j, hj⟩
      exact ⟨i + 1 + j, by omega, hj⟩
    · rintro ⟨j, hij, hj⟩
      exact ⟨j - (i + 1), by rwa [Nat.add_sub_cancel' hij]⟩
  unfold LastAt
  simp only [ha, hlater, Option.some.injEq, exists_eq_left']
  refine and_congr_right fun _ => ⟨?_, ?_⟩
  · rintro hlast b ⟨j, hij, hj⟩
    exact hlast j b hij hj
  · intro hlast j b hij hj
    exact hlast b ⟨j, hij, hj⟩

/-- What stands at the indices of a list with one more element. -/
lemma getElem?_concat_eq_some_iff {l : List α} {a b : α} {j : ℕ} :
    (l ++ [a])[j]? = some b ↔ l[j]? = some b ∨ (j = l.length ∧ a = b) := by
  rcases Nat.lt_trichotomy j l.length with hj | rfl | hj
  · rw [List.getElem?_append_left hj]
    simp [Nat.ne_of_lt hj]
  · simp
  · have hnone : (l ++ [a])[j]? = none := by
      rw [List.getElem?_eq_none_iff, List.length_append, List.length_singleton]
      omega
    rw [hnone, List.getElem?_eq_none_iff.mpr (Nat.le_of_lt hj)]
    simp [Nat.ne_of_gt hj]

/-- One more element is the last one with the property, or does not have it. -/
lemma lastAt_concat {p : α → Prop} {l : List α} {a : α} {i : ℕ} :
    (l ++ [a]).LastAt p i ↔ (p a ∧ i = l.length) ∨ (¬ p a ∧ l.LastAt p i) := by
  unfold LastAt
  simp only [getElem?_concat_eq_some_iff]
  constructor
  · rintro ⟨b, hb | ⟨rfl, rfl⟩, hpb, hlast⟩
    · have hi : i < l.length := (List.getElem?_eq_some_iff.mp hb).1
      exact Or.inr ⟨hlast l.length a hi (Or.inr ⟨rfl, rfl⟩), b, hb, hpb,
        fun j c hj hc => hlast j c hj (Or.inl hc)⟩
    · exact Or.inl ⟨hpb, rfl⟩
  · rintro (⟨hpa, rfl⟩ | ⟨hpa, b, hb, hpb, hlast⟩)
    · refine ⟨a, Or.inr ⟨rfl, rfl⟩, hpa, fun j c hj hc => ?_⟩
      rcases hc with hc | ⟨rfl, -⟩
      · have hlt : j < l.length := (List.getElem?_eq_some_iff.mp hc).1
        omega
      · exact absurd hj (Nat.lt_irrefl _)
    · refine ⟨b, Or.inl hb, hpb, fun j c hj hc => ?_⟩
      rcases hc with hc | ⟨-, rfl⟩
      · exact hlast j c hj hc
      · exact hpa

end List

namespace AList

variable {α K V : Type*} [DecidableEq K]

/-- Put a value at every key of a list. -/
def insertAll (ks : List K) (v : V) (m : AList fun _ : K => V) : AList fun _ : K => V :=
  ks.foldl (fun m k => m.insert k v) m

lemma lookup_insertAll (ks : List K) (v : V) (m : AList fun _ : K => V) (k : K) :
    (m.insertAll ks v).lookup k = if k ∈ ks then some v else m.lookup k := by
  unfold insertAll
  induction ks generalizing m with
  | nil => simp
  | cons k' ks ih =>
    rw [List.foldl_cons, ih]
    rcases eq_or_ne k k' with rfl | hne
    · simp
    · simp [hne]

/-- The table that the claimants `l` fill, each with the value of its index. -/
def fill (keys : α → List K) (value : ℕ → V) (l : List α) : AList fun _ : K => V :=
  l.zipIdx.foldl (fun m c => m.insertAll (keys c.1) (value c.2)) ∅

theorem fill_concat (keys : α → List K) (value : ℕ → V) (l : List α) (a : α) :
    fill keys value (l ++ [a]) = (fill keys value l).insertAll (keys a) (value l.length) := by
  unfold fill
  rw [List.zipIdx_append, List.foldl_append, Nat.zero_add]
  rfl

/-- **The last claim counts**: a key has the value of the last claimant that claims it. -/
theorem lookup_fill_eq_some_iff {keys : α → List K} {value : ℕ → V} {l : List α} {k : K} {v : V} :
    (fill keys value l).lookup k = some v ↔
      ∃ i, l.LastAt (fun a => k ∈ keys a) i ∧ value i = v := by
  induction l using List.reverseRecOn with
  | nil => simp [fill, List.LastAt]
  | append_singleton l a ih =>
    rw [fill_concat, lookup_insertAll]
    simp only [List.lastAt_concat]
    by_cases hk : k ∈ keys a
    · simp [hk]
    · simp [hk, ih]

/-- A key has no value if no claimant claims it. -/
theorem lookup_fill_eq_none_iff {keys : α → List K} {value : ℕ → V} {l : List α} {k : K} :
    (fill keys value l).lookup k = none ↔ ∀ a ∈ l, k ∉ keys a := by
  induction l using List.reverseRecOn with
  | nil => simp [fill]
  | append_singleton l a ih =>
    rw [fill_concat, lookup_insertAll]
    by_cases hk : k ∈ keys a
    · simp only [hk, if_true]
      simp [hk]
    · simp only [hk, if_false, ih]
      simp [or_imp, forall_and, hk]

end AList
