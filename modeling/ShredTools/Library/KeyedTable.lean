import Mathlib.Algebra.BigOperators.Group.List.Basic
import Mathlib.Data.List.AList

/-!
# Keyed tables

Operations that hash maps and tree maps of imperative code have and `AList` lacks: `retain` keeps
the entries that pass a test, `upsert` is the `entry(k).or_insert(d)` idiom followed by an update
in place, `modify` updates the value of a key if it is there, and `mapValues` updates all values.
Each comes with its value at every key, which is all that later proofs use.  `total` sums a quantity
over the entries, and changes with an operation by what the operation takes away and puts in.

A list whose elements have distinct keys can be matched with a table.  Matches can then be counted
from either side: going through the list and looking each key up in the table, or going through the
table and finding each key in the list (`countP_lookup_eq_countP_find`).
-/

namespace AList

universe u v

variable {K : Type u} {V : Type v} [DecidableEq K]

/-- Keep the entries that pass the test `p`. -/
def retain (p : K → V → Bool) (m : AList fun _ : K => V) : AList fun _ : K => V :=
  ⟨m.entries.filter fun e => p e.1 e.2, m.nodupKeys.sublist List.filter_sublist⟩

/-- Update the value at `k` by `f`, starting from `d` where the key is absent. -/
def upsert (k : K) (d : V) (f : V → V) (m : AList fun _ : K => V) : AList fun _ : K => V :=
  m.insert k (f ((m.lookup k).getD d))

/-- Apply `f` to every value, keeping the keys. -/
def mapValues {W : Type*} (f : K → V → W) (m : AList fun _ : K => V) : AList fun _ : K => W :=
  ⟨m.entries.map fun e => ⟨e.1, f e.1 e.2⟩, by
    have h := m.nodupKeys
    unfold List.NodupKeys List.keys at h ⊢
    rw [List.map_map]
    exact h⟩

/-- Retaining entries filters the value found at each key. -/
@[simp] theorem lookup_retain (p : K → V → Bool) (m : AList fun _ : K => V) (k : K) :
    (m.retain p).lookup k = (m.lookup k).filter (p k) := by
  ext v
  have h : v ∈ (m.retain p).lookup k ↔ v ∈ m.lookup k ∧ p k v = true := by
    rw [mem_lookup_iff, mem_lookup_iff]
    simp only [retain, List.mem_filter]
  simpa [Option.filter_eq_some_iff] using h

/-- An upsert changes the value at its own key only. -/
theorem lookup_upsert (k : K) (d : V) (f : V → V) (m : AList fun _ : K => V) (k' : K) :
    (m.upsert k d f).lookup k' =
      if k' = k then some (f ((m.lookup k).getD d)) else m.lookup k' := by
  unfold upsert
  by_cases h : k' = k
  · subst h
    simp
  · rw [lookup_insert_ne h, if_neg h]

/-- The value at the upserted key. -/
@[simp] theorem lookup_upsert_self (k : K) (d : V) (f : V → V) (m : AList fun _ : K => V) :
    (m.upsert k d f).lookup k = some (f ((m.lookup k).getD d)) := by
  rw [lookup_upsert, if_pos rfl]

/-- An upsert leaves the other keys alone. -/
theorem lookup_upsert_ne {k k' : K} (h : k' ≠ k) (d : V) (f : V → V)
    (m : AList fun _ : K => V) : (m.upsert k d f).lookup k' = m.lookup k' := by
  rw [lookup_upsert, if_neg h]

/-- An upsert adds its key. -/
theorem mem_upsert {k k' : K} {d : V} {f : V → V} {m : AList fun _ : K => V} :
    k' ∈ m.upsert k d f ↔ k' = k ∨ k' ∈ m := by
  unfold upsert
  exact mem_insert m

/-- Mapping the values maps the value found at each key. -/
@[simp] theorem lookup_mapValues {W : Type*} (f : K → V → W) (m : AList fun _ : K => V) (k : K) :
    (m.mapValues f).lookup k = (m.lookup k).map (f k) := by
  ext w
  have h : w ∈ (m.mapValues f).lookup k ↔ ∃ v ∈ m.lookup k, f k v = w := by
    rw [mem_lookup_iff]
    simp only [mapValues, List.mem_map, mem_lookup_iff]
    constructor
    · rintro ⟨⟨k', v⟩, hmem, heq⟩
      cases heq
      exact ⟨v, hmem, rfl⟩
    · rintro ⟨v, hmem, rfl⟩
      exact ⟨⟨k, v⟩, hmem, rfl⟩
  simpa [Option.map_eq_some_iff] using h

/-- Update the value at `k` by `f`, if the key is there. -/
def modify (k : K) (f : V → V) (m : AList fun _ : K => V) : AList fun _ : K => V :=
  match m.lookup k with
  | some v => m.insert k (f v)
  | none => m

/-- A modification maps the value found at its own key. -/
theorem lookup_modify (k : K) (f : V → V) (m : AList fun _ : K => V) (k' : K) :
    (m.modify k f).lookup k' = if k' = k then (m.lookup k).map f else m.lookup k' := by
  unfold modify
  split
  next v hv =>
    rw [hv]
    by_cases h : k' = k
    · subst h
      rw [lookup_insert, if_pos rfl]
      rfl
    · rw [lookup_insert_ne h, if_neg h]
  next hnone =>
    rw [hnone]
    by_cases h : k' = k
    · subst h
      rw [if_pos rfl, hnone]
      rfl
    · rw [if_neg h]

/-- The keys that a loop inserts are there, each with its value, next to the others. -/
theorem lookup_foldl_insert {α : Type*} (key : α → K) (v : V) (l : List α)
    (m : AList fun _ : K => V) (k : K) :
    (l.foldl (fun m a => m.insert (key a) v) m).lookup k =
      if k ∈ l.map key then some v else m.lookup k := by
  induction l generalizing m with
  | nil => simp
  | cons a l ih =>
    rw [List.foldl_cons, ih, List.map_cons]
    by_cases hk : k = key a
    · subst hk
      simp
    · rw [lookup_insert_ne hk]
      simp [hk]

/-- A loop that modifies the values of some keys goes, at each key, through the items that concern
it. -/
theorem lookup_foldl_modify {α : Type*} (key : α → K) (f : V → α → V) (l : List α)
    (m : AList fun _ : K => V) (k : K) :
    (l.foldl (fun m a => m.modify (key a) (f · a)) m).lookup k =
      (m.lookup k).map fun v => (l.filter fun a => key a = k).foldl f v := by
  induction l generalizing m with
  | nil => simp
  | cons a l ih =>
    rw [List.foldl_cons, ih, lookup_modify]
    by_cases hk : k = key a
    · subst hk
      rw [if_pos rfl, List.filter_cons_of_pos (by simp), Option.map_map]
      rfl
    · rw [if_neg hk, List.filter_cons_of_neg (by simpa using Ne.symm hk)]

/-- What the entries of a table contribute for one key is what its own value contributes. -/
theorem filter_flatMap_entries {B : Type*} {f : K → V → List B} {key : B → K}
    (hkey : ∀ k v, ∀ b ∈ f k v, key b = k) (m : AList fun _ : K => V) (k : K) :
    (m.entries.flatMap fun e => f e.1 e.2).filter (fun b => key b = k) =
      (m.lookup k).elim [] (f k) := by
  have hsame : ∀ v, (f k v).filter (fun b => key b = k) = f k v := fun v =>
    List.filter_eq_self.mpr fun b hb => decide_eq_true (hkey k v b hb)
  have hother : ∀ k' v, k' ≠ k → (f k' v).filter (fun b => key b = k) = [] := fun k' v hne =>
    List.filter_eq_nil_iff.mpr fun b hb => by simp [hkey k' v b hb, hne]
  obtain ⟨l, hnd⟩ := m
  unfold lookup
  dsimp only
  induction l with
  | nil => rfl
  | cons e l ih =>
    obtain ⟨k', v⟩ := e
    obtain ⟨hfresh, hnd⟩ := List.nodupKeys_cons.mp hnd
    rw [List.flatMap_cons, List.filter_append, ih hnd]
    rcases eq_or_ne k k' with rfl | hne
    · rw [hsame, List.dlookup_cons_eq, List.dlookup_eq_none.mpr hfresh]
      exact List.append_nil _
    · rw [hother k' v hne.symm, List.nil_append, List.dlookup_cons_ne _ _ hne]

/-- The same where every entry contributes one element. -/
theorem filter_map_entries {B : Type*} {f : K → V → B} {key : B → K}
    (hkey : ∀ k v, key (f k v) = k) (m : AList fun _ : K => V) (k : K) :
    (m.entries.map fun e => f e.1 e.2).filter (fun b => key b = k) =
      ((m.lookup k).map (f k)).toList := by
  have h := filter_flatMap_entries (f := fun k v => [f k v])
    (fun k v b hb => by rw [List.mem_singleton.mp hb]; exact hkey k v) m k
  rw [List.map_eq_flatMap, h]
  cases m.lookup k <;> rfl

/-- A key is present exactly when a value is found at it. -/
theorem mem_keys_iff_lookup {m : AList fun _ : K => V} {k : K} :
    k ∈ m.keys ↔ ∃ v, m.lookup k = some v := by
  rw [← mem_keys, ← lookup_isSome, Option.isSome_iff_exists]

/-- The entries of a table are the pairs of a key and the value found at it. -/
theorem mem_entries_iff_lookup {m : AList fun _ : K => V} {e : Sigma fun _ : K => V} :
    e ∈ m.entries ↔ m.lookup e.1 = some e.2 :=
  mem_lookup_iff.symm

/-! ### Totals -/

section Total

variable {M : Type*} [AddCommMonoid M]

/-- The sum of a quantity over the entries of a table. -/
def total (f : K → V → M) (m : AList fun _ : K => V) : M := (m.entries.map fun e => f e.1 e.2).sum

omit [DecidableEq K] in
@[simp] theorem total_empty (f : K → V → M) : (∅ : AList fun _ : K => V).total f = 0 := rfl

/-- An entry contributes to the total next to the rest of the table. -/
theorem total_erase_add (f : K → V → M) (m : AList fun _ : K => V) (k : K) :
    (m.erase k).total f + (m.lookup k).elim 0 (f k) = m.total f := by
  obtain ⟨l, hnd⟩ := m
  unfold total erase lookup
  dsimp only
  induction l with
  | nil => exact add_zero _
  | cons e l ih =>
    obtain ⟨k', v⟩ := e
    obtain ⟨hfresh, hnd⟩ := List.nodupKeys_cons.mp hnd
    rcases eq_or_ne k k' with rfl | hne
    · have herased : List.kerase k (⟨k, v⟩ :: l) = l := List.kerase_cons_eq rfl
      rw [herased, List.dlookup_cons_eq, List.map_cons, List.sum_cons, add_comm]
      rfl
    · rw [List.kerase_cons_ne hne, List.dlookup_cons_ne _ _ hne, List.map_cons, List.sum_cons,
        List.map_cons, List.sum_cons, ← ih hnd, add_assoc]

/-- An inserted entry contributes to the total in place of the one that its key had. -/
theorem total_insert_add (f : K → V → M) (m : AList fun _ : K => V) (k : K) (v : V) :
    (m.insert k v).total f + (m.lookup k).elim 0 (f k) = m.total f + f k v := by
  have hinsert : (m.insert k v).total f = f k v + (m.erase k).total f := by
    unfold total
    rw [entries_insert, List.map_cons, List.sum_cons]
    rfl
  rw [hinsert, add_assoc, total_erase_add, add_comm]

end Total

/-- A quantity bounded at every key is bounded in total. -/
theorem total_le {f : K → V → ℕ} {m : AList fun _ : K => V} {b : ℕ}
    (h : ∀ k v, m.lookup k = some v → f k v ≤ b) : m.total f ≤ m.keys.length * b := by
  have hle : ∀ e ∈ m.entries, f e.1 e.2 ≤ b := fun e he => h e.1 e.2 (mem_entries_iff_lookup.mp he)
  have hlength : m.keys.length = m.entries.length := List.length_map ..
  rw [hlength]
  unfold total
  generalize m.entries = l at hle
  induction l with
  | nil => simp
  | cons e l ih =>
    have hl := ih fun e' he' => hle e' (List.mem_cons_of_mem _ he')
    rw [List.map_cons, List.sum_cons, List.length_cons, Nat.succ_mul, add_comm]
    exact Nat.add_le_add hl (hle e List.mem_cons_self)

end AList

/-! ### Matching a list with a table -/

namespace AList

variable {K V α : Type*} [DecidableEq K]

/-- The entries at one key that pass a test are one or none. -/
lemma countP_entries_eq (q : V → Bool) (m : AList fun _ : K => V) (k : K) :
    m.entries.countP (fun e => decide (e.1 = k) && q e.2) =
      if (m.lookup k).any q then 1 else 0 := by
  have hmap : ((m.entries.map fun e => (e.1, e.2)).filter fun b => b.1 = k) =
      ((m.lookup k).map fun v => (k, v)).toList :=
    filter_map_entries (fun _ _ => rfl) m k
  have hcount : m.entries.countP (fun e => decide (e.1 = k) && q e.2) =
      ((m.entries.map fun e => (e.1, e.2)).filter fun b => b.1 = k).countP fun b => q b.2 := by
    rw [List.countP_filter, List.countP_map]
    refine List.countP_congr fun e _ => ?_
    simp [and_comm]
  rw [hcount, hmap]
  cases m.lookup k with
  | none => rfl
  | some v => simp [List.countP_cons]

/-- **Matches can be counted from either side.** -/
theorem countP_lookup_eq_countP_find {key : α → K} {l : List α} (hnd : (l.map key).Nodup)
    (p : α → Bool) (q : V → Bool) (m : AList fun _ : K => V) :
    l.countP (fun a => p a && (m.lookup (key a)).any q) =
      m.entries.countP fun e => q e.2 && (l.find? fun a => decide (key a = e.1)).any p := by
  induction l with
  | nil => simp
  | cons a l ih =>
    obtain ⟨hfresh, hnd⟩ := List.nodup_cons.mp hnd
    -- an entry at the key of `a` finds `a`, and nothing in the rest of the list
    have hrest : ∀ e : Sigma fun _ : K => V, e.1 = key a →
        (l.find? fun b => decide (key b = e.1)) = none := by
      intro e he
      rw [List.find?_eq_none]
      intro b hb
      rw [he, decide_eq_true_eq]
      intro hkey
      exact hfresh (hkey ▸ List.mem_map_of_mem hb)
    have hsplit : m.entries.countP (fun e =>
          q e.2 && ((a :: l).find? fun b => decide (key b = e.1)).any p) =
        m.entries.countP (fun e => decide (e.1 = key a) && (p a && q e.2)) +
          m.entries.countP fun e => q e.2 && (l.find? fun b => decide (key b = e.1)).any p := by
      induction m.entries with
      | nil => rfl
      | cons e es ihes =>
        simp only [List.countP_cons, ihes]
        by_cases he : e.1 = key a
        · rw [hrest e he]
          simp [he, and_comm]
          omega
        · have hne : key a ≠ e.1 := fun h => he h.symm
          simp [he, hne]
          omega
    rw [List.countP_cons, ih hnd, hsplit, countP_entries_eq fun v => p a && q v]
    cases p a with
    | false => cases m.lookup (key a) <;> simp
    | true => rw [Nat.add_comm]; simp

end AList
