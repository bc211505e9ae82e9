import Mathlib.Data.Finset.Card
import Mathlib.Data.List.Nodup
import ShredTools.Deshred.SlotState

/-!
# Well-formed blocks

The block of a slot as its leader makes it: data shreds `0, …, L`, cut into consecutive FEC sets,
each with coding shreds that name the set and its size; a data set ends only where a FEC set ends,
and exactly the last data shred closes the slot.  `Block` carries these conditions as fields.

`Present` is what can be known of a block from the shreds received so far: an index is present if
its shred was received, or if enough shreds of its FEC set were for recovery to rebuild it.
-/

namespace ShredTools.Deshred

/-- A FEC set of a block. -/
structure FecSet where
  /-- The index of its first data shred. -/
  start : ℕ
  /-- The number of its data shreds. -/
  numData : ℕ
  /-- The coding shreds of the set. -/
  coding : List Shred
  /-- The set has a data shred. -/
  numData_pos : 0 < numData

/-- The data index `i` belongs to the FEC set. -/
def FecSet.Has (set : FecSet) (i : ℕ) : Prop := set.start ≤ i ∧ i < set.start + set.numData

instance (set : FecSet) (i : ℕ) : Decidable (set.Has i) := inferInstanceAs (Decidable (_ ∧ _))

/-- A well-formed block. -/
structure Block where
  /-- The slot. -/
  slot : ℕ
  /-- The data shreds in order. -/
  data : List Shred
  /-- The FEC sets in order. -/
  fecSets : List FecSet
  /-- The FEC sets are consecutive and cover the data indices. -/
  tiles : fecSets.flatMap (fun set => List.range' set.start set.numData) = List.range data.length
  /-- Data shreds stand at their index. -/
  data_index : ∀ (i : ℕ) (shred : Shred), data[i]? = some shred → shred.index = i
  /-- The shreds of `data` are data shreds. -/
  data_isData : ∀ shred ∈ data, shred.isData = true
  /-- The data shreds are of the slot. -/
  data_slot : ∀ shred ∈ data, shred.slot = slot
  /-- The data shreds name their FEC set. -/
  data_fecSetIndex : ∀ set ∈ fecSets, ∀ shred ∈ data, set.Has shred.index →
    shred.fecSetIndex = set.start
  /-- Coding shreds are not data shreds. -/
  coding_isData : ∀ set ∈ fecSets, ∀ shred ∈ set.coding, shred.isData = false
  /-- The coding shreds are of the slot. -/
  coding_slot : ∀ set ∈ fecSets, ∀ shred ∈ set.coding, shred.slot = slot
  /-- The coding shreds name their FEC set. -/
  coding_fecSetIndex : ∀ set ∈ fecSets, ∀ shred ∈ set.coding, shred.fecSetIndex = set.start
  /-- The coding shreds say the size of their FEC set. -/
  coding_numData : ∀ set ∈ fecSets, ∀ shred ∈ set.coding,
    numDataShreds shred.payload = some set.numData
  /-- Coding shreds of one FEC set differ in their index. -/
  coding_index : ∀ set ∈ fecSets, ∀ shred ∈ set.coding, ∀ other ∈ set.coding,
    shred.index = other.index → shred = other
  /-- A data set ends only where a FEC set ends. -/
  dataComplete : ∀ shred ∈ data, shred.dataComplete = true →
    ∃ set ∈ fecSets, shred.index + 1 = set.start + set.numData
  /-- Exactly the last data shred is the last of the slot. -/
  lastInSlot : ∀ shred ∈ data, shred.lastInSlot = true ↔ shred.index + 1 = data.length

namespace Block

variable (b : Block)

/-- The shreds of the block. -/
def shreds : Set Shred := {shred | shred ∈ b.data ∨ ∃ set ∈ b.fecSets, shred ∈ set.coding}

/-- A data set of the block ends at index `i`. -/
def EndsAt (i : ℕ) : Prop := ∃ shred, b.data[i]? = some shred ∧ shred.dataComplete = true

/-- The data shred of index `i` was received. -/
def Received (received : List Shred) (i : ℕ) : Prop :=
  ∃ shred ∈ received, shred.isData = true ∧ shred.index = i

/-- The number of distinct shreds of a FEC set that were received. -/
def count (received : List Shred) (set : FecSet) : ℕ :=
  (received.toFinset.filter fun shred => shred.fecSetIndex = set.start).card

/-- The data shred of index `i` was received, or enough shreds of its FEC set were. -/
def Present (received : List Shred) (i : ℕ) : Prop :=
  Received received i ∨ ∃ set ∈ b.fecSets, set.Has i ∧ set.numData ≤ count received set

variable {b}

/-! ### Indices and FEC sets -/

/-- A data shred stands at its own index. -/
lemma getElem?_index {shred : Shred} (h : shred ∈ b.data) :
    b.data[shred.index]? = some shred := by
  obtain ⟨i, hi, rfl⟩ := List.getElem_of_mem h
  have hget : b.data[i]? = some b.data[i] := List.getElem?_eq_getElem hi
  rw [b.data_index i _ hget, hget]

/-- A shred of the block that is a data shred stands at its index. -/
theorem mem_data_of_isData {shred : Shred} (h : shred ∈ b.shreds) (hdata : shred.isData = true) :
    shred ∈ b.data := by
  rcases h with h | ⟨set, hset, hmem⟩
  · exact h
  · rw [b.coding_isData set hset shred hmem] at hdata
    exact Bool.noConfusion hdata

/-- A data index belongs to a FEC set, and only data indices do. -/
theorem exists_has_iff {i : ℕ} : (∃ set ∈ b.fecSets, set.Has i) ↔ i < b.data.length := by
  rw [← List.mem_range, ← b.tiles, List.mem_flatMap]
  simp only [List.mem_range'_1, FecSet.Has]

/-- A data index belongs to one FEC set only. -/
lemma has_unique {set other : FecSet} (hset : set ∈ b.fecSets) (hother : other ∈ b.fecSets)
    {i : ℕ} (hi : set.Has i) (hi' : other.Has i) : set = other := by
  have hnodup : (b.fecSets.flatMap fun set => List.range' set.start set.numData).Nodup := by
    rw [b.tiles]
    exact List.nodup_range
  by_contra hne
  have : Std.Symm (Function.onFun List.Disjoint
      fun set : FecSet => List.range' set.start set.numData) := ⟨fun _ _ h => h.symm⟩
  have hdisjoint := (List.nodup_flatMap.mp hnodup).2.forall hset hother hne
  exact hdisjoint (List.mem_range'_1.mpr hi) (List.mem_range'_1.mpr hi')

/-- A FEC set is known by its first index. -/
theorem start_unique {set other : FecSet} (hset : set ∈ b.fecSets) (hother : other ∈ b.fecSets)
    (h : set.start = other.start) : set = other := by
  have := set.numData_pos
  have := other.numData_pos
  exact has_unique hset hother (i := set.start) ⟨le_rfl, by omega⟩ ⟨by omega, by omega⟩

/-- Every shred of the block names a FEC set of the block. -/
theorem exists_fecSet {shred : Shred} (h : shred ∈ b.shreds) :
    ∃ set ∈ b.fecSets, shred.fecSetIndex = set.start ∧ (shred.isData = true → set.Has shred.index) ∧
      (shred.isData = false → shred ∈ set.coding) := by
  rcases h with h | ⟨set, hset, hmem⟩
  · have hlt := (List.getElem?_eq_some_iff.mp (getElem?_index h)).1
    obtain ⟨set, hset, hhas⟩ := exists_has_iff.mpr hlt
    refine ⟨set, hset, b.data_fecSetIndex set hset shred h hhas, fun _ => hhas, fun hf => ?_⟩
    rw [b.data_isData shred h] at hf
    exact Bool.noConfusion hf
  · refine ⟨set, hset, b.coding_fecSetIndex set hset shred hmem, fun ht => ?_, fun _ => hmem⟩
    rw [b.coding_isData set hset shred hmem] at ht
    exact Bool.noConfusion ht

/-- A data shred that names a FEC set belongs to it. -/
theorem has_of_fecSetIndex {set : FecSet} (hset : set ∈ b.fecSets) {shred : Shred}
    (h : shred ∈ b.shreds) (hdata : shred.isData = true) (hname : shred.fecSetIndex = set.start) :
    set.Has shred.index := by
  obtain ⟨other, hother, hname', hhas, -⟩ := exists_fecSet h
  rw [start_unique hset hother (hname.symm.trans hname')]
  exact hhas hdata

/-- A coding shred that names a FEC set belongs to it. -/
theorem coding_of_fecSetIndex {set : FecSet} (hset : set ∈ b.fecSets) {shred : Shred}
    (h : shred ∈ b.shreds) (hcoding : shred.isData = false)
    (hname : shred.fecSetIndex = set.start) :
    shred ∈ set.coding := by
  obtain ⟨other, hother, hname', -, hmem⟩ := exists_fecSet h
  rw [start_unique hset hother (hname.symm.trans hname')]
  exact hmem hcoding

/-- The shreds of the block are of its slot. -/
theorem slot_eq {shred : Shred} (h : shred ∈ b.shreds) : shred.slot = b.slot := by
  rcases h with h | ⟨set, hset, hmem⟩
  · exact b.data_slot shred h
  · exact b.coding_slot set hset shred hmem

/-- The indices of a block are `u32`, so the data range of a FEC set does not wrap. -/
theorem mem_dataRange {set : FecSet} (hset : set ∈ b.fecSets) {i : ℕ} :
    i ∈ rangeInclusive set.start (dataRangeEnd set.start set.numData) ↔ set.Has i := by
  have hpos := set.numData_pos
  have hlt : set.start + set.numData - 1 < b.data.length :=
    exists_has_iff.mp ⟨set, hset, by omega, by omega⟩
  have hindex := b.data_index _ _ (List.getElem?_eq_getElem hlt)
  have hbound := (b.data[set.start + set.numData - 1]).index_lt
  rw [mem_rangeInclusive, dataRangeEnd, Nat.mod_eq_of_lt (by omega), FecSet.Has]
  omega

/-- A data set ends at the last index of a FEC set. -/
theorem EndsAt.last {i : ℕ} (h : b.EndsAt i) {set : FecSet} (hset : set ∈ b.fecSets)
    (hi : set.Has i) : i + 1 = set.start + set.numData := by
  obtain ⟨shred, hget, hcomplete⟩ := h
  obtain ⟨other, hother, heq⟩ := b.dataComplete shred (List.mem_of_getElem? hget) hcomplete
  have hpos := other.numData_pos
  rw [b.data_index i shred hget] at heq
  rw [has_unique hset hother hi ⟨by omega, by omega⟩]
  exact heq

/-- A data set that has an index of a FEC set has all of it. -/
theorem has_subset_segment {s e i j : ℕ} (hseg : Segment b.EndsAt s e) {set : FecSet}
    (hset : set ∈ b.fecSets) (hi : set.Has i) (hj : set.Has j) (hsi : s ≤ i) (hie : i ≤ e) :
    s ≤ j ∧ j ≤ e := by
  have hiHas := hi
  obtain ⟨h1, h2⟩ := hi
  obtain ⟨h3, h4⟩ := hj
  constructor
  · by_contra hlt
    rcases hseg.starts with h0 | hend
    · omega
    · have := hend.last hset ⟨by omega, by omega⟩
      omega
  · by_contra hgt
    have := hseg.ends.last hset ⟨by omega, by omega⟩
    omega

/-! ### What was received -/

/-- One more shred counts for its own FEC set only. -/
lemma count_append_of_ne {received : List Shred} {shred : Shred} {set : FecSet}
    (h : shred.fecSetIndex ≠ set.start) : count (received ++ [shred]) set = count received set := by
  unfold count
  congr 1
  ext other
  simp only [Finset.mem_filter, List.mem_toFinset, List.mem_append, List.mem_singleton]
  constructor
  · rintro ⟨hmem | rfl, hname⟩
    · exact ⟨hmem, hname⟩
    · exact absurd hname h
  · rintro ⟨hmem, hname⟩
    exact ⟨Or.inl hmem, hname⟩

/-- Counts only grow. -/
lemma count_le_append (received : List Shred) (shred : Shred) (set : FecSet) :
    count received set ≤ count (received ++ [shred]) set := by
  refine Finset.card_le_card fun other h => ?_
  simp only [Finset.mem_filter, List.mem_toFinset, List.mem_append] at h ⊢
  exact ⟨Or.inl h.1, h.2⟩

/-- What was received stays received. -/
theorem Received.append {received : List Shred} {i : ℕ} (h : Received received i) (shred : Shred) :
    Received (received ++ [shred]) i := by
  obtain ⟨other, hmem, hdata, hindex⟩ := h
  exact ⟨other, List.mem_append_left _ hmem, hdata, hindex⟩

/-- What is present stays present. -/
theorem Present.append {received : List Shred} {i : ℕ} (h : b.Present received i) (shred : Shred) :
    b.Present (received ++ [shred]) i := by
  rcases h with h | ⟨set, hset, hhas, hle⟩
  · exact Or.inl (h.append shred)
  · exact Or.inr ⟨set, hset, hhas, hle.trans (count_le_append received shred set)⟩

/-- An index received belongs to the block. -/
lemma Received.getElem? {received : List Shred} (hreceived : ∀ shred ∈ received, shred ∈ b.shreds)
    {i : ℕ} (h : Received received i) : ∃ shred ∈ received, b.data[i]? = some shred := by
  obtain ⟨shred, hmem, hdata, rfl⟩ := h
  exact ⟨shred, hmem, getElem?_index (mem_data_of_isData (hreceived shred hmem) hdata)⟩

/-- An index that is present belongs to the block. -/
theorem Present.lt {received : List Shred} (hreceived : ∀ shred ∈ received, shred ∈ b.shreds)
    {i : ℕ} (h : b.Present received i) : i < b.data.length := by
  rcases h with h | ⟨set, hset, hhas, -⟩
  · obtain ⟨shred, -, hget⟩ := h.getElem? hreceived
    exact (List.getElem?_eq_some_iff.mp hget).1
  · exact exists_has_iff.mp ⟨set, hset, hhas⟩

/-- Nothing is present before a shred is received. -/
theorem not_present_nil (i : ℕ) : ¬ b.Present [] i := by
  rintro (⟨_, h, -⟩ | ⟨set, -, -, hle⟩)
  · exact absurd h List.not_mem_nil
  · have := set.numData_pos
    simp only [count, List.toFinset_nil, Finset.filter_empty, Finset.card_empty] at hle
    omega

/-- Inside a FEC set with too few shreds, present means received. -/
theorem present_iff_received {received : List Shred} {set : FecSet} (hset : set ∈ b.fecSets)
    (hfew : count received set < set.numData) {i : ℕ} (hi : set.Has i) :
    b.Present received i ↔ Received received i := by
  constructor
  · rintro (h | ⟨other, hother, hhas, hle⟩)
    · exact h
    · rw [has_unique hset hother hi hhas] at hfew
      omega
  · exact Or.inl

/-- A shred of one FEC set makes nothing present outside it. -/
theorem present_append_other {received : List Shred} {shred : Shred} {set : FecSet}
    (hset : set ∈ b.fecSets) (hname : shred.fecSetIndex = set.start) (h : shred ∈ b.shreds)
    {i : ℕ} (hi : ¬ set.Has i) (hpresent : b.Present (received ++ [shred]) i) :
    b.Present received i := by
  rcases hpresent with ⟨other, hmem, hdata, rfl⟩ | ⟨other, hother, hhas, hle⟩
  · rcases List.mem_append.mp hmem with hmem | hmem
    · exact Or.inl ⟨other, hmem, hdata, rfl⟩
    · rw [List.mem_singleton] at hmem
      subst hmem
      exact absurd (has_of_fecSetIndex hset h hdata hname) hi
  · refine Or.inr ⟨other, hother, hhas, ?_⟩
    rwa [count_append_of_ne] at hle
    intro heq
    rw [start_unique hset hother (hname.symm.trans heq)] at hi
    exact hi hhas

end Block

end ShredTools.Deshred
