import Mathlib.Algebra.BigOperators.Group.Finset.Piecewise
import ShredTools.Library.KeyedTable

/-!
# Grouping the items of a list by a key

`groups` collects the items of each key in a table.  A quantity summed over the groups is one of the
list (`sum_groups`), whatever the order of the groups; if the quantity does not depend on the order
in a group, its sum does not depend on that of the list (`groupTotal_perm`); and it adds up over
parts of the list that share no key (`groupTotal_flatten`).

The sum over the groups is `groupTotal`.  It is additive in the quantity as well (`groupTotal_sum`),
so a table of columns can be summed column by column.  `sum_filter_keys` is the same exchange for a
list and the keys that occur in it.
-/

namespace List

variable {α κ M : Type*} [DecidableEq κ] [AddCommMonoid M] (key : α → κ)

/-- The items of each key, in their order. -/
def groups (l : List α) : AList fun _ : κ => List α :=
  l.foldl (fun m a => m.upsert (key a) [] (· ++ [a])) ∅

/-- A quantity of groups, summed over the keys of a list. -/
def groupTotal (g : List α → M) (l : List α) : M :=
  ∑ k ∈ (l.map key).toFinset, g (l.filter fun a => key a = k)

/-- What a table of groups has at each key after some more items. -/
lemma lookup_foldl_upsert (l : List α) (m : AList fun _ : κ => List α) (k : κ) :
    (l.foldl (fun m a => m.upsert (key a) [] (· ++ [a])) m).lookup k =
      if k ∈ l.map key then some ((m.lookup k).getD [] ++ l.filter fun a => key a = k)
      else m.lookup k := by
  induction l generalizing m with
  | nil => simp
  | cons a l ih =>
    rw [foldl_cons, ih, AList.lookup_upsert]
    by_cases hk : k = key a
    · subst hk
      simp
    · have hk' : ¬ key a = k := fun h => hk h.symm
      simp [hk, hk']

/-- The group of a key. -/
lemma lookup_groups (l : List α) (k : κ) :
    (groups key l).lookup k =
      if k ∈ l.map key then some (l.filter fun a => key a = k) else none := by
  unfold groups
  rw [lookup_foldl_upsert, AList.lookup_empty]
  rfl

/-- A quantity summed over the groups. -/
theorem sum_groups (g : List α → M) (l : List α) :
    ((groups key l).entries.map fun e => g e.2).sum = groupTotal key g l := by
  have hgroup : ∀ e ∈ (groups key l).entries, g e.2 = g (l.filter fun a => key a = e.1) := by
    intro e he
    have hlookup := AList.mem_entries_iff_lookup.mp he
    rw [lookup_groups] at hlookup
    split at hlookup
    · rw [← Option.some.inj hlookup]
    · cases hlookup
  have hkeys : (groups key l).keys.toFinset = (l.map key).toFinset := by
    ext k
    rw [mem_toFinset, mem_toFinset, AList.mem_keys_iff_lookup]
    simp only [lookup_groups]
    split
    next h => simp [h]
    next h => simp [h]
  have hnodup : (groups key l).keys.Nodup := (groups key l).keys_nodup
  unfold groupTotal
  rw [map_congr_left hgroup, ← hkeys, sum_toFinset _ hnodup]
  unfold AList.keys keys
  rw [map_map]
  rfl

variable {key}

/-- The order of the list does not matter for a quantity that does not depend on the order in a
group. -/
theorem groupTotal_perm {g : List α → M} (hg : ∀ l l', l.Perm l' → g l = g l') {l l' : List α}
    (h : l.Perm l') : groupTotal key g l = groupTotal key g l' := by
  unfold groupTotal
  rw [toFinset_eq_of_perm _ _ (h.map key)]
  exact Finset.sum_congr rfl fun k _ => hg _ _ (h.filter _)

/-- A quantity adds up over two lists that share no key. -/
lemma groupTotal_append (g : List α → M) {l l' : List α}
    (h : ∀ a ∈ l, ∀ b ∈ l', key a ≠ key b) :
    groupTotal key g (l ++ l') = groupTotal key g l + groupTotal key g l' := by
  have hdisjoint : ∀ ⦃k⦄, k ∈ (l.map key).toFinset → k ∉ (l'.map key).toFinset := by
    intro k hk hk'
    obtain ⟨a, ha, rfl⟩ := mem_map.mp (mem_toFinset.mp hk)
    obtain ⟨b, hb, heq⟩ := mem_map.mp (mem_toFinset.mp hk')
    exact h a ha b hb heq.symm
  unfold groupTotal
  rw [map_append, toFinset_append, Finset.sum_union (Finset.disjoint_left.mpr hdisjoint)]
  congr 1
  · refine Finset.sum_congr rfl fun k hk => ?_
    obtain ⟨a, ha, rfl⟩ := mem_map.mp (mem_toFinset.mp hk)
    have hnone : l'.filter (fun b => key b = key a) = [] :=
      filter_eq_nil_iff.mpr fun b hb => by simpa using (h a ha b hb).symm
    rw [filter_append, hnone, append_nil]
  · refine Finset.sum_congr rfl fun k hk => ?_
    obtain ⟨b, hb, rfl⟩ := mem_map.mp (mem_toFinset.mp hk)
    have hnone : l.filter (fun a => key a = key b) = [] :=
      filter_eq_nil_iff.mpr fun a ha => by simpa using h a ha b hb
    rw [filter_append, hnone, nil_append]

/-- A quantity adds up over parts of which no two share a key. -/
theorem groupTotal_flatten (g : List α → M) {parts : List (List α)}
    (h : parts.Pairwise fun l l' => ∀ a ∈ l, ∀ b ∈ l', key a ≠ key b) :
    groupTotal key g parts.flatten = (parts.map (groupTotal key g)).sum := by
  induction parts with
  | nil => rfl
  | cons l parts ih =>
    obtain ⟨hl, hparts⟩ := pairwise_cons.mp h
    have hapart : ∀ a ∈ l, ∀ b ∈ parts.flatten, key a ≠ key b := by
      intro a ha b hb
      obtain ⟨l', hl', hb⟩ := mem_flatten.mp hb
      exact hl l' hl' a ha b hb
    rw [flatten_cons, groupTotal_append g hapart, ih hparts, map_cons, sum_cons]

/-- A quantity that sums over the items of a group sums over those of the list. -/
theorem groupTotal_sum (f : α → M) (l : List α) :
    groupTotal key (fun group => (group.map f).sum) l = (l.map f).sum := by
  have hcover : ∀ (l : List α) (s : Finset κ), (∀ a ∈ l, key a ∈ s) →
      ∑ k ∈ s, ((l.filter fun a => key a = k).map f).sum = (l.map f).sum := by
    intro l s
    induction l with
    | nil => simp
    | cons a l ih =>
      intro hs
      have hsplit : ∀ k, (((a :: l).filter fun a => key a = k).map f).sum =
          (if key a = k then f a else 0) + ((l.filter fun a => key a = k).map f).sum := by
        intro k
        by_cases hk : key a = k
        · simp [hk]
        · simp [hk]
      rw [Finset.sum_congr rfl fun k _ => hsplit k, Finset.sum_add_distrib,
        ih fun b hb => hs b (mem_cons_of_mem _ hb), Finset.sum_ite_eq,
        if_pos (hs a mem_cons_self), map_cons, sum_cons]
  exact hcover l _ fun a ha => mem_toFinset.mpr (mem_map_of_mem ha)

/-- What the items of some keys contribute, one key after the other, is what all of them do. -/
theorem sum_filter_keys (f : α → M) (l : List α) {ks : List κ} (hks : ks.Nodup) :
    (ks.map fun k => ((l.filter fun a => key a = k).map f).sum).sum =
      ((l.filter fun a => key a ∈ ks).map f).sum := by
  induction ks with
  | nil => simp
  | cons k ks ih =>
    obtain ⟨hk, hks⟩ := nodup_cons.mp hks
    rw [map_cons, sum_cons, ih hks]
    clear ih
    induction l with
    | nil => simp
    | cons a l ih =>
      by_cases hak : key a = k
      · have hmem : key a ∉ ks := by rwa [hak]
        rw [filter_cons_of_pos (by simpa using hak), filter_cons_of_neg (by simpa using hmem),
          filter_cons_of_pos (by simp [hak]), map_cons, sum_cons, map_cons, sum_cons, ← ih,
          add_assoc]
      · rw [filter_cons_of_neg (by simpa using hak)]
        by_cases hmem : key a ∈ ks
        · rw [filter_cons_of_pos (by simpa using hmem), filter_cons_of_pos (by simp [hmem]),
            map_cons, sum_cons, map_cons, sum_cons, ← ih, add_left_comm]
        · rw [filter_cons_of_neg (by simpa using hmem),
            filter_cons_of_neg (by simp [hak, hmem]), ih]

end List
