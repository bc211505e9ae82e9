import Mathlib.Data.List.Nodup
import ShredTools.Audit.Bundles
import ShredTools.Audit.WindowLife

/-!
# The tags of deliveries

An update names the filters that it was delivered for, by tags.  `on_delivery` turns the tags into a
mask with one bit for each filter: the filters that the tags name, or the only filter, or, if an
update for several filters comes without tags, those that match.  `getLsbD_readTags` says which bits
are set.

An update without tags is ambiguous for several filters only, and so `Inferred` says when the mask
has to be made up from the transaction.  `Carries` is the relation between an update and a filter
that the rest of the development uses: the filter is named, or is the only one, or matches.  Names
that are not among those of the bundle set no bit (`not_carries_of_le`).
-/

namespace ShredTools.Audit

/-- The bit of filter `i`, and no other. -/
lemma getLsbD_filterBit (i j : ℕ) : (filterBit i).getLsbD j = decide (i = j ∧ j < 32) := by
  unfold filterBit
  rw [BitVec.getLsbD_shiftLeft]
  rcases Nat.lt_trichotomy i j with h | rfl | h
  · have hne : i ≠ j := Nat.ne_of_lt h
    have hsub : j - i ≠ 0 := by omega
    simp [hne, hsub]
  · by_cases hi : i < 32 <;> simp [hi]
  · have hne : i ≠ j := Nat.ne_of_gt h
    simp [hne, h]

/-- The test of `compare` reads the bit of the filter. -/
theorem hasBit_eq (i : ℕ) (mask : Mask) : hasBit i mask = mask.getLsbD i := by
  have hand : ∀ j, (mask &&& filterBit i).getLsbD j =
      (mask.getLsbD i && decide (i = j ∧ j < 32)) := by
    intro j
    rw [BitVec.getLsbD_and, getLsbD_filterBit]
    by_cases hij : i = j
    · rw [hij]
    · simp [hij]
  rw [Bool.eq_iff_iff]
  unfold hasBit
  rw [bne_iff_ne]
  constructor
  · intro hne
    by_contra hbit
    refine hne (BitVec.eq_of_getLsbD_eq fun j _ => ?_)
    rw [hand, Bool.eq_false_of_not_eq_true hbit]
    simp
  · intro hbit hzero
    have hj := hand i
    rw [hzero, hbit] at hj
    have hi : i < 32 := BitVec.lt_of_getLsbD hbit
    simp [hi] at hj

namespace Bundle

variable {bundle : Bundle}

/-- Whether the filters of an update are only inferred. -/
def Inferred (bundle : Bundle) (tags : List String) : Bool :=
  tags.isEmpty && decide (1 < bundle.filters.length)

/-- Whether an update carries filter `i`: by its tags, or as the only filter, or, if the filters are
inferred, by a match. -/
def Carries (bundle : Bundle) (i : ℕ) (tx : TxView) (tags : List String) : Bool :=
  if bundle.Inferred tags then (bundle.filters[i]?).any fun f => f.matchesTx tx
  else if tags.isEmpty then i == 0
  else tags.any fun tag => bundle.indexOf tag == some i

/-- The bits of the filters that match. -/
lemma getLsbD_localMask (i : ℕ) (tx : TxView) :
    (bundle.localMask tx).getLsbD i = (bundle.filters[i]?).any fun f => f.matchesTx tx := by
  have hfold : ∀ fs : List Filter, fs.length ≤ 32 →
      (fs.zipIdx.foldl (fun m f => if f.1.matchesTx tx then m ||| filterBit f.2 else m)
        (0 : Mask)).getLsbD i = (fs[i]?).any fun f => f.matchesTx tx := by
    intro fs
    induction fs using List.reverseRecOn with
    | nil => simp
    | append_singleton fs f ih =>
      intro hlen
      rw [List.length_append, List.length_singleton] at hlen
      have hlt : fs.length < 32 := hlen
      have ih := ih (Nat.le_of_lt hlt)
      rw [List.zipIdx_append, List.foldl_append, Nat.zero_add]
      simp only [List.zipIdx_singleton, List.foldl_cons, List.foldl_nil]
      rcases Nat.lt_trichotomy i fs.length with hi | rfl | hi
      · have hne : fs.length ≠ i := Nat.ne_of_gt hi
        rw [List.getElem?_append_left hi, ← ih]
        split <;> simp [getLsbD_filterBit, hne]
      · rw [List.getElem?_eq_none (Nat.le_refl _)] at ih
        rw [List.getElem?_concat_length]
        split
        next hmatch => simp [getLsbD_filterBit, hmatch, hlt]
        next hmatch => simpa [hmatch] using ih
      · have hne : fs.length ≠ i := Nat.ne_of_lt hi
        have hnone : (fs ++ [f])[i]? = none := by
          rw [List.getElem?_eq_none_iff, List.length_append, List.length_singleton]
          exact hi
        rw [List.getElem?_eq_none (Nat.le_of_lt hi)] at ih
        rw [hnone]
        split
        · simpa [getLsbD_filterBit, hne] using ih
        · simpa using ih
  exact hfold bundle.filters bundle.length_le

/-- A tag resolves to a filter of the bundle. -/
lemma lt_of_indexOf {tag : String} {i : ℕ} (h : bundle.indexOf tag = some i) :
    i < bundle.filters.length := by
  unfold indexOf at h
  exact (List.findIdx?_eq_some_iff_getElem.mp h).1

/-- The bits of the filters that are named. -/
lemma getLsbD_tagMask (i : ℕ) (tags : List String) :
    (bundle.tagMask tags).getLsbD i = tags.any fun tag => bundle.indexOf tag == some i := by
  unfold tagMask
  induction tags using List.reverseRecOn with
  | nil => simp
  | append_singleton tags tag ih =>
    rw [List.foldl_append, List.foldl_cons, List.foldl_nil, List.any_append, ← ih]
    cases hindex : bundle.indexOf tag with
    | none => simp [hindex]
    | some j =>
      have hj : j < 32 := Nat.lt_of_lt_of_le (lt_of_indexOf hindex) bundle.length_le
      by_cases hij : j = i
      · subst hij
        simp [hindex, getLsbD_filterBit, hj]
      · simp [hindex, getLsbD_filterBit, hij]

/-- **Which bits the mask of an update has**, in each of the three ways it is computed. -/
theorem getLsbD_readTags (i : ℕ) (tx : TxView) (tags : List String) :
    (bundle.readTags tx tags).mask.getLsbD i = bundle.Carries i tx tags := by
  unfold readTags Carries Inferred
  by_cases htags : tags = []
  · subst htags
    by_cases hmany : 1 < bundle.filters.length
    · simp [hmany, getLsbD_localMask]
    · have hone : (1 : Mask).getLsbD i = (i == 0) := by
        rw [beq_eq_decide]
        simp
      rw [if_pos rfl, if_neg hmany, hone]
      simp [hmany]
  · simp [htags, getLsbD_tagMask]

/-- The filters of an update are inferred exactly if a bundle of several filters has no tags. -/
theorem inferred_readTags (tx : TxView) (tags : List String) :
    (bundle.readTags tx tags).inferred = bundle.Inferred tags := by
  unfold readTags Inferred
  by_cases htags : tags = []
  · subst htags
    by_cases hmany : 1 < bundle.filters.length <;> simp [hmany]
  · simp [htags]

/-- If names are distinct, a tag resolves to the filter that has it for a name. -/
lemma indexOf_eq_some_iff (hnd : (bundle.filters.map Filter.name).Nodup) {i : ℕ} {f : Filter}
    (hf : bundle.filters[i]? = some f) {tag : String} :
    bundle.indexOf tag = some i ↔ f.name = tag := by
  obtain ⟨hi, rfl⟩ := List.getElem?_eq_some_iff.mp hf
  unfold indexOf
  rw [List.findIdx?_eq_some_iff_getElem]
  constructor
  · intro h
    exact beq_iff_eq.mp h.2.1
  · intro hname
    refine ⟨hi, beq_iff_eq.mpr hname, fun j hj => ?_⟩
    have hj' : j < bundle.filters.length := Nat.lt_trans hj hi
    have hne : bundle.filters[j].name ≠ bundle.filters[i].name :=
      List.pairwise_iff_getElem.mp (List.pairwise_map.mp hnd) j i hj' hi hj
    rw [beq_iff_eq, ← hname]
    exact hne

/-- With tags an update carries the filters whose names are among them, however often, and whatever
other tags there are. -/
theorem carries_iff_mem (hnd : (bundle.filters.map Filter.name).Nodup) {i : ℕ} {f : Filter}
    (hf : bundle.filters[i]? = some f) {tx : TxView} {tags : List String} (htags : tags ≠ []) :
    bundle.Carries i tx tags = true ↔ f.name ∈ tags := by
  unfold Carries Inferred
  simp only [List.isEmpty_eq_false_iff.mpr htags, Bool.false_and, Bool.false_eq_true, if_false,
    List.any_eq_true, beq_iff_eq, indexOf_eq_some_iff hnd hf]
  constructor
  · rintro ⟨tag, htag, rfl⟩
    exact htag
  · intro hmem
    exact ⟨f.name, hmem, rfl⟩

/-- Beyond the filters no bit is ever set. -/
theorem not_carries_of_le {i : ℕ} (hi : bundle.filters.length ≤ i) (tx : TxView)
    (tags : List String) : bundle.Carries i tx tags = false := by
  have hpos : 0 < bundle.filters.length := List.length_pos_of_ne_nil bundle.nonempty
  unfold Carries
  split
  · rw [List.getElem?_eq_none hi]
    rfl
  · split
    · rw [beq_eq_false_iff_ne]
      omega
    · rw [List.any_eq_false]
      intro tag _ heq
      have hlt := lt_of_indexOf (beq_iff_eq.mp heq)
      omega

end Bundle

end ShredTools.Audit
