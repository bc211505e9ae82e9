import Mathlib.Data.List.Induction
import ShredTools.Library.KeyedTable

/-!
# Interning

An interner gives every distinct key the index of a value: the one that came with the key first.
It is the idiom of a map from keys to indices beside a growable array of values.  That every index
in the map lies inside the array is part of the type.

`Represents.intern` and `Represents.getElem?_index` say what a history of keys and values makes of
it: a key leads to the value of its first entry.

`first` picks the value that came first with a key out of such a history, and is what the map is
compared with.  A key that comes again changes nothing (`first_append_of_mem`), so values that
differ under one key are lost but the first: whether that matters is for the user of an interner to
say.
-/

universe u v

/-- A map from keys to indices, and the values at the indices. -/
structure Interner (K : Type u) (V : Type v) [DecidableEq K] where
  /-- The index of each key seen. -/
  index : AList fun _ : K => ℕ
  /-- The values. -/
  values : List V
  /-- Indices lie inside the array. -/
  bounded : ∀ key i, index.lookup key = some i → i < values.length

namespace Interner

variable {K : Type u} {V : Type v} [DecidableEq K]

/-- Nothing seen. -/
def empty : Interner K V := ⟨∅, [], fun key i h => by simp at h⟩

/-- The index of a key; a key not seen before is appended with its value. -/
def intern (t : Interner K V) (key : K) (value : V) : Interner K V × ℕ :=
  match h : t.index.lookup key with
  | some i => (t, i)
  | none =>
    ({ index := t.index.insert key t.values.length
       values := t.values ++ [value]
       bounded := by
        intro key' i hi
        rw [List.length_append, List.length_singleton]
        by_cases hkey : key' = key
        · rw [hkey, AList.lookup_insert] at hi
          rw [← Option.some.inj hi]
          exact Nat.lt_succ_self _
        · rw [AList.lookup_insert_ne hkey] at hi
          exact Nat.lt_succ_of_lt (t.bounded key' i hi) }, t.values.length)

/-- The value that a key leads to. -/
def resolve (t : Interner K V) (key : K) : Option V :=
  (t.index.lookup key).bind fun i => t.values[i]?

/-- What interning a key does: it keeps a value that was there, and brings the given one else. -/
theorem intern_spec (t : Interner K V) (key : K) (value : V) :
    (t.intern key value).1.resolve key = some ((t.resolve key).getD value) ∧
      (∀ key', key' ≠ key → (t.intern key value).1.resolve key' = t.resolve key') ∧
      (t.intern key value).1.index.lookup key = some (t.intern key value).2 ∧
      ∃ more, (t.intern key value).1.values = t.values ++ more := by
  unfold intern
  split
  · rename_i i hi
    have hlt : i < t.values.length := t.bounded key i hi
    refine ⟨?_, fun _ _ => rfl, hi, [], (List.append_nil _).symm⟩
    have hresolve : t.resolve key = some t.values[i] := by
      rw [resolve, hi, Option.bind_some, List.getElem?_eq_getElem hlt]
    rw [hresolve, Option.getD_some]
  · rename_i hnone
    refine ⟨?_, ?_, AList.lookup_insert t.index, [value], rfl⟩
    · have hresolve : t.resolve key = none := by rw [resolve, hnone, Option.bind_none]
      rw [hresolve, Option.getD_none, resolve, AList.lookup_insert, Option.bind_some,
        List.getElem?_concat_length]
    · intro key' hkey
      unfold resolve
      dsimp only
      rw [AList.lookup_insert_ne hkey]
      cases hi : t.index.lookup key' with
      | none => rfl
      | some i =>
        rw [Option.bind_some, Option.bind_some,
          List.getElem?_append_left (t.bounded key' i hi)]

/-- The value at an index stays while more is interned. -/
lemma getElem?_intern {t : Interner K V} {i : ℕ} (hi : i < t.values.length) (key : K)
    (value : V) : (t.intern key value).1.values[i]? = t.values[i]? := by
  obtain ⟨-, -, -, more, hmore⟩ := t.intern_spec key value
  rw [hmore, List.getElem?_append_left hi]

/-- The value that a history of keys and values brings for a key: that of its first entry. -/
def first (entries : List (K × V)) (key : K) : Option V :=
  (entries.find? fun entry => entry.1 = key).map Prod.snd

/-- One more entry matters for its key only, and only if the key is new. -/
lemma first_concat (entries : List (K × V)) (entry : K × V) (key : K) :
    first (entries ++ [entry]) key =
      if key = entry.1 then some ((first entries key).getD entry.2) else first entries key := by
  unfold first
  rw [List.find?_append]
  by_cases hkey : key = entry.1
  · rw [if_pos hkey]
    cases entries.find? fun other => other.1 = key <;> simp [hkey]
  · rw [if_neg hkey]
    have hne : ¬ entry.1 = key := fun h => hkey h.symm
    cases entries.find? fun other => other.1 = key <;> simp [hne]

/-- An interner represents a history if every key leads to the value of its first entry. -/
def Represents (t : Interner K V) (entries : List (K × V)) : Prop :=
  ∀ key, t.resolve key = first entries key

/-- Nothing represents nothing. -/
theorem represents_empty : (empty : Interner K V).Represents [] := fun _ => rfl

/-- Interning one more entry represents the longer history. -/
theorem Represents.intern {t : Interner K V} {entries : List (K × V)} (h : t.Represents entries)
    (key : K) (value : V) : (t.intern key value).1.Represents (entries ++ [(key, value)]) := by
  obtain ⟨hsame, hother, -, -⟩ := t.intern_spec key value
  intro key'
  rw [first_concat]
  by_cases hkey : key' = key
  · rw [if_pos hkey, hkey, hsame, h key]
  · rw [if_neg hkey, hother key' hkey, h key']

/-- The index that interning gives leads to the value of the first entry of the key. -/
lemma Represents.getElem?_index {t : Interner K V} {entries : List (K × V)}
    (h : t.Represents entries) (key : K) (value : V) :
    (t.intern key value).1.values[(t.intern key value).2]? =
      first (entries ++ [(key, value)]) key := by
  obtain ⟨-, -, hindex, -⟩ := t.intern_spec key value
  have hresolve := h.intern key value key
  rw [resolve, hindex, Option.bind_some] at hresolve
  exact hresolve

/-- The first entry of a key stays its first entry. -/
theorem first_append_of_mem {entries : List (K × V)} {entry : K × V} (hmem : entry ∈ entries)
    (more : List (K × V)) : first (entries ++ more) entry.1 = first entries entry.1 := by
  unfold first
  rw [List.find?_append]
  cases hfind : entries.find? fun other => other.1 = entry.1 with
  | none =>
    have hnot := List.find?_eq_none.mp hfind entry hmem
    simp at hnot
  | some found => rfl

end Interner
