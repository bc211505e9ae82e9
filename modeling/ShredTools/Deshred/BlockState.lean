import Mathlib.Order.Interval.Finset.Nat
import ShredTools.Deshred.Block
import ShredTools.Deshred.Deshredder

/-!
# A slot state in agreement with a block

When only shreds of one well-formed block arrive, the slot state agrees with the block.  The
agreement has two parts.  `Block.Places` ties every place of the slot state to the block: a place
is missing exactly when its index is not present, a held shred is the block's, an emitted place is
covered by a data set taken.  `Block.Codes` says of every FEC set that still misses data that its
coding set holds exactly its coding shreds received so far.

An insertion moves both from the shreds received before to those received now, in two moves:
`insert_known` for the shred itself, and `recover_present` for the recovery that follows.
-/

namespace ShredTools.Deshred

variable {Entry : Type*}

/-- Recovery of the block's FEC sets, as the shred library promises it: given at least as many
distinct shreds of a FEC set as it has data shreds, `recover` returns exactly the data shreds
of the set that were not among them (and maybe coding shreds). -/
def Agave.Recovers (agave : Agave Entry) (b : Block) : Prop :=
  ∀ set ∈ b.fecSets, ∀ input : List Shred, input.Nodup →
    (∀ shred ∈ input, shred ∈ b.shreds ∧ shred.fecSetIndex = set.start) →
    set.numData ≤ input.length →
    ∃ output, agave.recover input = some output ∧
      ∀ shred, (some shred ∈ output ∧ shred.isData = true) ↔
        (shred ∈ b.data ∧ set.Has shred.index ∧ shred ∉ input)

namespace Block

variable {b : Block} {agave : Agave Entry}

/-- A data set taken is one of the block's, given that the indices of `P` are present. -/
structure TakenOk (b : Block) (agave : Agave Entry) (P : ℕ → Prop)
    (dataSet : TakenDataSet Entry) : Prop where
  /-- The range is a data set of the block. -/
  segment : Segment b.EndsAt dataSet.startShredIndex dataSet.endShredIndex
  /-- All its indices are present. -/
  present : ∀ i, dataSet.startShredIndex ≤ i → i ≤ dataSet.endShredIndex → P i
  /-- The last index of the data set before it is present, if there is one. -/
  before : dataSet.startShredIndex = 0 ∨ P (dataSet.startShredIndex - 1)
  /-- The data set is of the slot of the block. -/
  slot : dataSet.slot = b.slot
  /-- The data set consists of the shreds of its range in order. -/
  dataShreds : dataSet.dataShreds = (b.data.drop dataSet.startShredIndex).take
    (dataSet.endShredIndex + 1 - dataSet.startShredIndex)
  /-- The data set is decoded from these shreds. -/
  completed : dataSet.completed = decode agave b.slot dataSet.startShredIndex
    dataSet.endShredIndex dataSet.dataShreds

/-- The places of a slot state agree with the block, the indices of `P` being present and the data
sets `taken` having been taken. -/
structure Places (b : Block) (agave : Agave Entry) (P : ℕ → Prop)
    (taken : List (TakenDataSet Entry)) (st : SlotState) : Prop where
  /-- The state is of the block's slot. -/
  slot : st.slot = b.slot
  /-- The slot is not finished. -/
  unfinished : st.finished = false
  /-- Exactly the indices that are not present are missing. -/
  missing_iff : ∀ i, st.dataShred i = .missing ↔ ¬ P i
  /-- Shreds held are the block's. -/
  held : ∀ i shred, st.dataShred i = .held shred → b.data[i]? = some shred
  /-- Exactly the indices of data sets taken are emitted. -/
  emitted : ∀ i, st.dataShred i = .emitted ↔ SlotState.Covers taken i
  /-- The end markers are those of the indices present. -/
  ends : ∀ i, HasBit st.dataSetEnds i ↔ P i ∧ b.EndsAt i
  /-- The last index is known once it is present. -/
  last : ∀ i, st.lastShredIndex = some i ↔ i + 1 = b.data.length ∧ P i
  /-- The emitted shreds are counted. -/
  emittedShreds : st.emittedShreds = SlotState.shredCount taken
  /-- The data sets taken are the block's. -/
  sets : ∀ dataSet ∈ taken, b.TakenOk agave P dataSet
  /-- No position was taken twice. -/
  apart : taken.Pairwise TakenDataSet.Apart

/-- An index of the FEC set is not present. -/
def Lacks (P : ℕ → Prop) (set : FecSet) : Prop := ∃ i, set.Has i ∧ ¬ P i

/-- The coding sets of a slot state agree with the shreds received. -/
structure Codes (b : Block) (received : List Shred) (P : ℕ → Prop) (st : SlotState) : Prop where
  /-- A FEC set has one coding set at most. -/
  keys : st.codingKeys.Nodup
  /-- A coding set of a FEC set that lacks data holds its coding shreds, and was not tried yet. -/
  sound : ∀ c ∈ st.codingSets, ∃ set ∈ b.fecSets, c.fecSetIndex = set.start ∧
    c.numDataShreds = set.numData ∧ (Lacks P set → c.recoveryAttempts = 0 ∧ c.codingShreds.Nodup ∧
      ∀ shred, shred ∈ c.codingShreds ↔
        shred ∈ received ∧ shred.isData = false ∧ shred.fecSetIndex = set.start)
  /-- A FEC set that lacks data and has a coding shred has a coding set. -/
  complete : ∀ set ∈ b.fecSets, Lacks P set → ∀ shred ∈ received, shred.isData = false →
    shred.fecSetIndex = set.start → set.start ∈ st.codingKeys

/-! ### Filling places -/

/-- More indices may be present. -/
theorem TakenOk.mono {P Q : ℕ → Prop} {dataSet : TakenDataSet Entry}
    (h : b.TakenOk agave P dataSet) (hpq : ∀ i, P i → Q i) : b.TakenOk agave Q dataSet :=
  { h with
    present := fun i h1 h2 => hpq i (h.present i h1 h2)
    before := h.before.imp id (hpq _) }

/-- The end markers after places were filled with data shreds of the block. -/
lemma Places.fills_ends {P : ℕ → Prop} {taken : List (TakenDataSet Entry)} {st st' : SlotState}
    {new : Set Shred} (h : b.Places agave P taken st) (hfills : SlotState.Fills new st st')
    (hnew : ∀ shred ∈ new, shred ∈ b.data) (i : ℕ) :
    HasBit st'.dataSetEnds i ↔ (P i ∨ ∃ shred ∈ new, shred.index = i) ∧ b.EndsAt i := by
  rw [hfills.ends, h.ends]
  constructor
  · rintro (⟨hi, hend⟩ | ⟨hm, shred, hheld, hcomplete⟩)
    · exact ⟨Or.inl hi, hend⟩
    · obtain ⟨hmem, hindex⟩ := hfills.mem_of_held hm hheld
      exact ⟨Or.inr ⟨shred, hmem, hindex⟩, shred, hindex ▸ getElem?_index (hnew shred hmem),
        hcomplete⟩
  · rintro ⟨hi, hend⟩
    by_cases hP : P i
    · exact Or.inl ⟨hP, hend⟩
    · -- the shred put in is the one of the block, so it has the marker of the block
      have hm := (h.missing_iff i).mpr hP
      obtain ⟨other, hother, rfl⟩ := hi.resolve_left hP
      obtain ⟨shred, hmem, hindex, hheld⟩ := hfills.exists_held hother hm
      obtain ⟨ending, hget, hcomplete⟩ := hend
      rw [← hindex, getElem?_index (hnew shred hmem)] at hget
      rw [← Option.some.inj hget] at hcomplete
      exact Or.inr ⟨hm, shred, hheld, hcomplete⟩

/-- The last index after places were filled with data shreds of the block. -/
lemma Places.fills_last {P : ℕ → Prop} {taken : List (TakenDataSet Entry)} {st st' : SlotState}
    {new : Set Shred} (h : b.Places agave P taken st) (hfills : SlotState.Fills new st st')
    (hnew : ∀ shred ∈ new, shred ∈ b.data) (i : ℕ) :
    st'.lastShredIndex = some i ↔
      i + 1 = b.data.length ∧ (P i ∨ ∃ shred ∈ new, shred.index = i) := by
  rcases hfills.last with ⟨heq, hnone⟩ | ⟨j, shred, hm, hheld, hlast, heq⟩
  · rw [heq, h.last]
    refine and_congr_right fun hlen => ⟨Or.inl, fun hi => ?_⟩
    by_contra hP
    have hm := (h.missing_iff i).mpr hP
    obtain ⟨other, hother, rfl⟩ := hi.resolve_left hP
    obtain ⟨shred, hmem, hindex, hheld⟩ := hfills.exists_held hother hm
    have hlast := hnone other.index shred hm hheld
    rw [(b.lastInSlot shred (hnew shred hmem)).mpr (by rw [hindex, hlen])] at hlast
    exact Bool.noConfusion hlast
  · obtain ⟨hmem, hindex⟩ := hfills.mem_of_held hm hheld
    have hlen := (b.lastInSlot shred (hnew shred hmem)).mp hlast
    rw [heq, Option.some.injEq]
    constructor
    · rintro rfl
      exact ⟨by rw [← hindex, hlen], Or.inr ⟨shred, hmem, hindex⟩⟩
    · rintro ⟨hlen', -⟩
      omega

/-- Filling places with data shreds of the block makes their indices present. -/
theorem Places.fills {P : ℕ → Prop} {taken : List (TakenDataSet Entry)} {st st' : SlotState}
    {new : Set Shred} (h : b.Places agave P taken st) (hfills : SlotState.Fills new st st')
    (hnew : ∀ shred ∈ new, shred ∈ b.data) :
    b.Places agave (fun i => P i ∨ ∃ shred ∈ new, shred.index = i) taken st' := by
  refine
    { slot := hfills.slot.trans h.slot
      unfinished := hfills.finished.trans h.unfinished
      missing_iff := fun i => ⟨fun hm => ?_, fun hi => ?_⟩
      held := fun i shred hheld => ?_
      emitted := fun i => ?_
      ends := h.fills_ends hfills hnew
      last := h.fills_last hfills hnew
      emittedShreds := hfills.emittedShreds.trans h.emittedShreds
      sets := fun dataSet hmem => (h.sets dataSet hmem).mono fun _ => Or.inl
      apart := h.apart }
  · rintro (hi | ⟨shred, hmem, rfl⟩)
    · exact (h.missing_iff i).mp (hfills.missing_of_missing hm) hi
    · exact hfills.filled shred hmem hm
  · rw [not_or] at hi
    rcases hfills.place i with heq | ⟨-, shred, hmem, hindex, -⟩
    · exact heq.trans ((h.missing_iff i).mpr hi.1)
    · exact absurd ⟨shred, hmem, hindex⟩ hi.2
  · rcases hfills.place i with heq | ⟨hm, -⟩
    · exact h.held i shred (heq.symm.trans hheld)
    · obtain ⟨hmem, hindex⟩ := hfills.mem_of_held hm hheld
      rw [← hindex]
      exact getElem?_index (hnew shred hmem)
  · rw [← h.emitted]
    rcases hfills.place i with heq | ⟨hm, shred, -, -, hheld⟩
    · rw [heq]
    · rw [hm, hheld]
      exact ⟨fun hf => DataShred.noConfusion hf, fun hf => DataShred.noConfusion hf⟩

/-- Presence counts only up to equivalence. -/
theorem Places.congr {P Q : ℕ → Prop} {taken : List (TakenDataSet Entry)} {st : SlotState}
    (h : b.Places agave P taken st) (hpq : ∀ i, P i ↔ Q i) : b.Places agave Q taken st := by
  rwa [show Q = P from funext fun i => propext (hpq i).symm]

/-! ### Coding sets -/

/-- A FEC set that lacks an index later on lacked it before. -/
lemma Lacks.anti {P Q : ℕ → Prop} {set : FecSet} (h : Lacks Q set) (hpq : ∀ i, P i → Q i) :
    Lacks P set := by
  obtain ⟨i, hi, hq⟩ := h
  exact ⟨i, hi, mt (hpq i) hq⟩

/-- Whether a FEC set lacks data is what `missing_data_shreds` finds out. -/
theorem Places.missing_ne_zero_iff {P : ℕ → Prop} {taken : List (TakenDataSet Entry)}
    {st : SlotState} (h : b.Places agave P taken st) {set : FecSet} (hset : set ∈ b.fecSets) :
    missingDataShreds st.dataShreds
      (rangeInclusive set.start (dataRangeEnd set.start set.numData)) ≠ 0 ↔ Lacks P set := by
  rw [Ne, SlotState.missingDataShreds_eq_zero_iff]
  simp only [mem_dataRange hset, ne_eq, h.missing_iff, not_forall, not_not, Lacks, exists_prop]

/-- Coding sets that do not change agree with one more shred that is no coding shred of a FEC set
that lacks data. -/
theorem Codes.append {received : List Shred} {P Q : ℕ → Prop} {st st' : SlotState}
    (h : b.Codes received P st) (hpq : ∀ i, P i → Q i) (hsets : st'.codingSets = st.codingSets)
    {shred : Shred} (hother : ∀ set ∈ b.fecSets, Lacks Q set →
      ¬ (shred.isData = false ∧ shred.fecSetIndex = set.start)) :
    b.Codes (received ++ [shred]) Q st' where
  keys := by
    rw [SlotState.codingKeys, hsets]
    exact h.keys
  sound c hc := by
    rw [hsets] at hc
    obtain ⟨set, hset, hkey, hnum, hholds⟩ := h.sound c hc
    refine ⟨set, hset, hkey, hnum, fun hlacks => ?_⟩
    obtain ⟨hattempts, hnodup, hmem⟩ := hholds (hlacks.anti hpq)
    refine ⟨hattempts, hnodup, fun other => ?_⟩
    rw [hmem, List.mem_append, List.mem_singleton]
    constructor
    · rintro ⟨hreceived, hcoding⟩
      exact ⟨Or.inl hreceived, hcoding⟩
    · rintro ⟨hreceived | rfl, hcoding⟩
      · exact ⟨hreceived, hcoding⟩
      · exact absurd hcoding (hother set hset hlacks)
  complete set hset hlacks other hmem hcoding hname := by
    rw [SlotState.codingKeys, hsets]
    rcases List.mem_append.mp hmem with hmem | hmem
    · exact h.complete set hset (hlacks.anti hpq) other hmem hcoding hname
    · rw [List.mem_singleton] at hmem
      subst hmem
      exact absurd ⟨hcoding, hname⟩ (hother set hset hlacks)

/-- Pushing a coding shred of the FEC set to a coding set that holds those received before. -/
lemma push_holds {received : List Shred} (hreceived : ∀ shred ∈ received, shred ∈ b.shreds)
    {set : FecSet} (hset : set ∈ b.fecSets) {shred : Shred} (hmem : shred ∈ set.coding)
    {c : CodingSet} (hnodup : c.codingShreds.Nodup)
    (hholds : ∀ other, other ∈ c.codingShreds ↔
      other ∈ received ∧ other.isData = false ∧ other.fecSetIndex = set.start) :
    (c.push shred).codingShreds.Nodup ∧ ∀ other, other ∈ (c.push shred).codingShreds ↔
      other ∈ received ++ [shred] ∧ other.isData = false ∧ other.fecSetIndex = set.start := by
  have hcoding := b.coding_isData set hset shred hmem
  have hname := b.coding_fecSetIndex set hset shred hmem
  unfold CodingSet.push
  split_ifs with hany
  · -- The coding shred of this index is the shred itself, so it was received before.
    obtain ⟨held, hheld, hindex⟩ := List.any_eq_true.mp hany
    rw [beq_iff_eq] at hindex
    obtain ⟨hheldReceived, hheldCoding, hheldName⟩ := (hholds held).mp hheld
    have heq : held = shred := b.coding_index set hset held
      (coding_of_fecSetIndex hset (hreceived held hheldReceived) hheldCoding hheldName)
      shred hmem hindex
    subst heq
    refine ⟨hnodup, fun other => ?_⟩
    rw [hholds, List.mem_append, List.mem_singleton]
    constructor
    · rintro ⟨h, h'⟩
      exact ⟨Or.inl h, h'⟩
    · rintro ⟨h | rfl, h'⟩
      · exact ⟨h, h'⟩
      · exact ⟨hheldReceived, h'⟩
  · have hnew : shred ∉ c.codingShreds := by
      intro hin
      exact hany (List.any_eq_true.mpr ⟨shred, hin, beq_self_eq_true _⟩)
    refine ⟨List.nodup_append.mpr ⟨hnodup, List.nodup_singleton _, ?_⟩, fun other => ?_⟩
    · rintro other hother _ hs rfl
      rw [List.mem_singleton] at hs
      exact hnew (hs ▸ hother)
    · rw [List.mem_append, List.mem_singleton, hholds, List.mem_append, List.mem_singleton]
      constructor
      · rintro (⟨h, h'⟩ | rfl)
        · exact ⟨Or.inl h, h'⟩
        · exact ⟨Or.inr rfl, hcoding, hname⟩
      · rintro ⟨h | rfl, h'⟩
        · exact Or.inl ⟨h, h'⟩
        · exact Or.inr rfl

/-- Inserting a coding shred of the block. -/
lemma Codes.insertCoding {received : List Shred} {P : ℕ → Prop}
    {taken : List (TakenDataSet Entry)} {st : SlotState} (h : b.Codes received P st)
    (hplaces : b.Places agave P taken st) (hreceived : ∀ shred ∈ received, shred ∈ b.shreds)
    {shred : Shred} (hmem : shred ∈ b.shreds) (hcoding : shred.isData = false) :
    b.Codes (received ++ [shred]) P (st.insertCodingShred shred) := by
  obtain ⟨set, hset, hname, -, hmemSet⟩ := exists_fecSet hmem
  replace hmemSet := hmemSet hcoding
  have hnum := b.coding_numData set hset shred hmemSet
  by_cases hlacks : Lacks P set
  · -- The coding set of the FEC set is found or created, and the shred is pushed to it.
    have hmissing := (hplaces.missing_ne_zero_iff hset).mpr hlacks
    rw [← hname] at hmissing
    obtain ⟨hkeys, c, hkey, hold, hafter⟩ :=
      SlotState.insertCodingShred_kept h.keys hnum hmissing
    have hc : c.numDataShreds = set.numData ∧ c.recoveryAttempts = 0 ∧ c.codingShreds.Nodup ∧
        ∀ other, other ∈ c.codingShreds ↔
          other ∈ received ∧ other.isData = false ∧ other.fecSetIndex = set.start := by
      rcases hold with hold | ⟨hnone, rfl⟩
      · obtain ⟨other, hother, hkey', hnum', hholds⟩ := h.sound c hold
        obtain rfl : set = other := start_unique hset hother (by rw [← hname, ← hkey, hkey'])
        exact ⟨hnum', hholds hlacks⟩
      · refine ⟨rfl, rfl, List.nodup_nil, fun other => ⟨fun hf => absurd hf List.not_mem_nil, ?_⟩⟩
        rintro ⟨hreceived', hcoding', hname'⟩
        have := h.complete set hset hlacks other hreceived' hcoding' hname'
        exact absurd (hname ▸ this) hnone
    obtain ⟨hcnum, hattempts, hnodup, hholds⟩ := hc
    have hpushed : (c.push shred).fecSetIndex = set.start ∧
        (c.push shred).numDataShreds = set.numData ∧ (c.push shred).recoveryAttempts = 0 := by
      unfold CodingSet.push
      split_ifs <;> exact ⟨by rw [hkey, hname], hcnum, hattempts⟩
    refine { keys := hkeys, sound := fun c' hc' => ?_, complete := ?_ }
    · rcases (hafter c').mp hc' with ⟨hc', hne⟩ | rfl
      · obtain ⟨other, hother, hkey', hnum', hholds'⟩ := h.sound c' hc'
        refine ⟨other, hother, hkey', hnum', fun hlacks' => ?_⟩
        obtain ⟨hattempts', hnodup', hmem'⟩ := hholds' hlacks'
        refine ⟨hattempts', hnodup', fun shred' => ?_⟩
        rw [hmem', List.mem_append, List.mem_singleton]
        constructor
        · rintro ⟨h1, h2⟩
          exact ⟨Or.inl h1, h2⟩
        · rintro ⟨h1 | rfl, h2⟩
          · exact ⟨h1, h2⟩
          · exact absurd (hkey'.trans h2.2.symm) hne
      · exact ⟨set, hset, hpushed.1, hpushed.2.1, fun _ =>
          ⟨hpushed.2.2, push_holds hreceived hset hmemSet hnodup hholds⟩⟩
    · intro other hother hlacks' shred' hmem' hcoding' hname'
      rw [SlotState.codingKeys, List.mem_map]
      by_cases heq : other.start = set.start
      · exact ⟨c.push shred, (hafter _).mpr (Or.inr rfl), by rw [heq, hpushed.1]⟩
      · have hmem'' : shred' ∈ received := by
          rcases List.mem_append.mp hmem' with hmem' | hmem'
          · exact hmem'
          · rw [List.mem_singleton] at hmem'
            rw [hmem', hname] at hname'
            exact absurd hname'.symm heq
        obtain ⟨c', hc', hkey'⟩ :=
          List.mem_map.mp (h.complete other hother hlacks' shred' hmem'' hcoding' hname')
        refine ⟨c', (hafter c').mpr (Or.inl ⟨hc', ?_⟩), hkey'⟩
        rw [hkey', hname]
        exact heq
  · -- The data of the FEC set is all there, and the shred is turned away.
    have hzero := mt (hplaces.missing_ne_zero_iff hset).mp hlacks
    rw [not_not, ← hname] at hzero
    rw [SlotState.insertCodingShred_ignored fun num hnum' => by
      rw [hnum] at hnum'
      rw [← Option.some.inj hnum']
      exact hzero]
    refine h.append (fun _ => id) rfl fun other hother hlacks' hboth => hlacks ?_
    rwa [start_unique hset hother (hname.symm.trans hboth.2)]

/-! ### Inserting the shred -/

/-- The indices present before recovery: those present before the insertion, and those received. -/
def Known (b : Block) (received : List Shred) (shred : Shred) (i : ℕ) : Prop :=
  b.Present received i ∨ Received (received ++ [shred]) i

/-- The first move: the shred takes its place, or joins the coding shreds. -/
theorem insert_known {received : List Shred} {taken : List (TakenDataSet Entry)} {st : SlotState}
    (hreceived : ∀ shred ∈ received, shred ∈ b.shreds)
    (hplaces : b.Places agave (b.Present received) taken st)
    (hcodes : b.Codes received (b.Present received) st) {shred : Shred} (hmem : shred ∈ b.shreds) :
    b.Places agave (b.Known received shred) taken (st.insert shred).1 ∧
      b.Codes (received ++ [shred]) (b.Known received shred) (st.insert shred).1 ∧
      ∀ i, b.Known received shred i → ¬ b.Present received i →
        (st.insert shred).2 = some (i, i) := by
  have hknown : ∀ i, b.Known received shred i ↔
      b.Present received i ∨ (shred.isData = true ∧ shred.index = i) := by
    intro i
    refine or_congr_right' fun hnot => ?_
    constructor
    · rintro ⟨other, hother, hdata, hindex⟩
      rcases List.mem_append.mp hother with hother | hother
      · exact absurd (Or.inl ⟨other, hother, hdata, hindex⟩) hnot
      · rw [List.mem_singleton] at hother
        exact ⟨hother ▸ hdata, hother ▸ hindex⟩
    · rintro ⟨hdata, hindex⟩
      exact ⟨shred, List.mem_append_right _ (List.mem_singleton_self _), hdata, hindex⟩
  unfold SlotState.insert
  -- a data shred takes its place, a coding shred joins the coding set of its FEC set
  cases hdata : shred.isData with
  | true =>
    have hfills := st.fills_insertDataShred shred
    refine ⟨?_, ?_, ?_⟩
    · refine (hplaces.fills hfills ?_).congr fun i => ?_
      · rintro _ rfl
        exact mem_data_of_isData hmem hdata
      · rw [hknown]
        simp [hdata]
    · refine hcodes.append (fun i => Or.inl) (st.codingSets_insertDataShred shred) ?_
      rintro set - - ⟨hcoding, -⟩
      rw [hdata] at hcoding
      exact Bool.noConfusion hcoding
    · intro i hi hnot
      obtain ⟨-, rfl⟩ := ((hknown i).mp hi).resolve_left hnot
      have hsnd := (st.insertDataShred_snd shred).mpr ((hplaces.missing_iff _).mpr hnot)
      simp [hsnd]
  | false =>
    have hsame : ∀ i, b.Present received i ↔ b.Known received shred i := by
      intro i
      rw [hknown, hdata]
      simp
    have hfills := st.fills_insertCodingShred shred
    refine ⟨?_, ?_, ?_⟩
    · refine (hplaces.fills hfills fun _ hf => absurd hf (Set.notMem_empty _)).congr fun i => ?_
      rw [← hsame]
      simp
    · have hcodes' := hcodes.insertCoding hplaces hreceived hmem hdata
      rwa [show b.Known received shred = b.Present received from
        funext fun i => propext (hsame i).symm]
    · intro i hi hnot
      exact absurd ((hsame i).mpr hi) hnot

/-! ### Recovery -/

/-- No place of a FEC set that lacks data is emitted. -/
lemma Places.not_emitted {P : ℕ → Prop} {taken : List (TakenDataSet Entry)} {st : SlotState}
    (h : b.Places agave P taken st) {set : FecSet} (hset : set ∈ b.fecSets) (hlacks : Lacks P set)
    {i : ℕ} (hi : set.Has i) : st.dataShred i ≠ .emitted := by
  intro hemitted
  obtain ⟨dataSet, hmem, h1, h2⟩ := (h.emitted i).mp hemitted
  obtain ⟨j, hj, hnot⟩ := hlacks
  have hok := h.sets dataSet hmem
  obtain ⟨h3, h4⟩ := has_subset_segment hok.segment hset hi hj h1 h2
  exact hnot (hok.present j h3 h4)

/-- The shreds handed to recovery of a FEC set that lacks data are those received of it. -/
lemma recoveryInput_spec {received : List Shred} {P : ℕ → Prop}
    {taken : List (TakenDataSet Entry)} {st : SlotState}
    (hreceived : ∀ shred ∈ received, shred ∈ b.shreds) (hplaces : b.Places agave P taken st)
    {set : FecSet} (hset : set ∈ b.fecSets) (hlacks : Lacks P set)
    (hP : ∀ i, set.Has i → (P i ↔ Received received i)) {c : CodingSet}
    (hkey : c.fecSetIndex = set.start) (hnum : c.numDataShreds = set.numData)
    (hnodup : c.codingShreds.Nodup)
    (hholds : ∀ shred, shred ∈ c.codingShreds ↔
      shred ∈ received ∧ shred.isData = false ∧ shred.fecSetIndex = set.start) :
    (st.recoveryInput c).Nodup ∧ (st.recoveryInput c).length = count received set ∧
      ∀ shred, shred ∈ st.recoveryInput c ↔
        shred ∈ received ∧ shred.fecSetIndex = set.start := by
  -- the data shreds held in the range of the set are those received of it
  have hheld : ∀ shred, shred ∈ c.dataRange.filterMap st.heldShred ↔
      shred ∈ received ∧ shred.isData = true ∧ shred.fecSetIndex = set.start := by
    intro shred
    rw [List.mem_filterMap]
    constructor
    · rintro ⟨i, hi, hst⟩
      rw [CodingSet.dataRange, hkey, hnum, mem_dataRange hset] at hi
      rw [SlotState.heldShred_eq_some_iff] at hst
      have hget := hplaces.held i shred hst
      have hpresent : P i := by
        by_contra hnot
        rw [(hplaces.missing_iff i).mpr hnot] at hst
        exact DataShred.noConfusion hst
      obtain ⟨other, hother, hget'⟩ := ((hP i hi).mp hpresent).getElem? hreceived
      rw [hget] at hget'
      rw [← Option.some.inj hget'] at hother
      have hmem := List.mem_of_getElem? hget
      refine ⟨hother, b.data_isData shred hmem, b.data_fecSetIndex set hset shred hmem ?_⟩
      rwa [b.data_index i shred hget]
    · rintro ⟨hmem, hdata, hname⟩
      have hhas := has_of_fecSetIndex hset (hreceived shred hmem) hdata hname
      have hget := getElem?_index (mem_data_of_isData (hreceived shred hmem) hdata)
      refine ⟨shred.index, ?_, ?_⟩
      · rwa [CodingSet.dataRange, hkey, hnum, mem_dataRange hset]
      · rw [SlotState.heldShred_eq_some_iff]
        cases hst : st.dataShred shred.index with
        | missing =>
          exact absurd ((hP _ hhas).mpr ⟨shred, hmem, hdata, rfl⟩)
            ((hplaces.missing_iff _).mp hst)
        | emitted => exact absurd hst (hplaces.not_emitted hset hlacks hhas)
        | held other =>
          have := hplaces.held _ other hst
          rw [hget] at this
          rw [Option.some.inj this]
  have hmemInput : ∀ shred, shred ∈ st.recoveryInput c ↔
      shred ∈ received ∧ shred.fecSetIndex = set.start := by
    intro shred
    rw [SlotState.recoveryInput, List.mem_append, hheld, hholds]
    cases shred.isData <;> simp
  have hnodupInput : (st.recoveryInput c).Nodup := by
    refine List.nodup_append.mpr ⟨?_, hnodup, ?_⟩
    · refine List.Nodup.filterMap ?_ (nodup_rangeInclusive _ _)
      intro i j shred hi hj
      rw [Option.mem_def, SlotState.heldShred_eq_some_iff] at hi hj
      rw [← b.data_index i shred (hplaces.held i shred hi),
        ← b.data_index j shred (hplaces.held j shred hj)]
    · rintro shred hdata _ hcoding rfl
      have h1 := ((hheld shred).mp hdata).2.1
      rw [((hholds shred).mp hcoding).2.1] at h1
      exact Bool.noConfusion h1
  refine ⟨hnodupInput, ?_, hmemInput⟩
  -- no shred is in it twice, so it has as many as were received
  rw [← List.toFinset_card_of_nodup hnodupInput, count]
  congr 1
  ext shred
  rw [List.mem_toFinset, hmemInput, Finset.mem_filter, List.mem_toFinset]

/-- Dropping the coding set of a FEC set that lacks nothing. -/
theorem Codes.swapRemove {received : List Shred} {P Q : ℕ → Prop} {st st' : SlotState}
    (h : b.Codes received P st) (hpq : ∀ i, P i → Q i) {set : FecSet} (hset : set ∈ b.fecSets)
    {position : Fin st.codingSets.length}
    (hkey : (st.codingSets.get position).fecSetIndex = set.start) (hfull : ¬ Lacks Q set)
    (hsets : st'.codingSets = st.codingSets.swapRemove position) : b.Codes received Q st' where
  keys := by
    rw [SlotState.codingKeys, hsets]
    exact List.nodup_map_swapRemove h.keys position.isLt
  sound c hc := by
    rw [hsets, List.mem_swapRemove_iff h.keys position.isLt] at hc
    obtain ⟨other, hother, hkey', hnum, hholds⟩ := h.sound c hc.1
    exact ⟨other, hother, hkey', hnum, fun hlacks => hholds (hlacks.anti hpq)⟩
  complete other hother hlacks shred hmem hcoding hname := by
    have hne : other.start ≠ set.start := by
      intro heq
      exact hfull (start_unique hother hset heq ▸ hlacks)
    obtain ⟨c, hc, hkey'⟩ :=
      List.mem_map.mp (h.complete other hother (hlacks.anti hpq) shred hmem hcoding hname)
    rw [SlotState.codingKeys, hsets, List.mem_map]
    refine ⟨c, (List.mem_swapRemove_iff h.keys position.isLt).mpr ⟨hc, ?_⟩, hkey'⟩
    rw [hkey']
    exact fun heq => hne (heq.trans hkey)

/-- Without coding shreds, as many shreds as a FEC set has data leave nothing of it out. -/
lemma count_lt_of_no_coding {received : List Shred}
    (hreceived : ∀ shred ∈ received, shred ∈ b.shreds) {set : FecSet} (hset : set ∈ b.fecSets)
    (hdata : ∀ shred ∈ received, shred.fecSetIndex = set.start → shred.isData = true) {i : ℕ}
    (hi : set.Has i) (hnot : ¬ Received received i) : count received set < set.numData := by
  have hinto : Set.MapsTo Shred.index
      (received.toFinset.filter fun shred => shred.fecSetIndex = set.start : Finset Shred)
      (((Finset.Ico set.start (set.start + set.numData)).erase i : Finset ℕ) : Set ℕ) := by
    intro shred hmem
    simp only [Finset.coe_filter, List.mem_toFinset, Set.mem_ofPred_eq] at hmem
    have hhas := has_of_fecSetIndex hset (hreceived shred hmem.1)
      (hdata shred hmem.1 hmem.2) hmem.2
    rw [Finset.mem_coe, Finset.mem_erase, Finset.mem_Ico]
    refine ⟨fun heq => hnot ⟨shred, hmem.1, hdata shred hmem.1 hmem.2, heq⟩, hhas⟩
  have hinj : Set.InjOn Shred.index
      (received.toFinset.filter fun shred => shred.fecSetIndex = set.start : Finset Shred) := by
    intro shred hmem other hmem' heq
    simp only [Finset.coe_filter, List.mem_toFinset, Set.mem_ofPred_eq] at hmem hmem'
    have h1 := getElem?_index
      (mem_data_of_isData (hreceived shred hmem.1) (hdata shred hmem.1 hmem.2))
    have h2 := getElem?_index
      (mem_data_of_isData (hreceived other hmem'.1) (hdata other hmem'.1 hmem'.2))
    rw [heq, h2] at h1
    exact (Option.some.inj h1).symm
  have hle := Finset.card_le_card_of_injOn _ hinto hinj
  rw [Finset.card_erase_of_mem (Finset.mem_Ico.mpr hi), Nat.card_Ico] at hle
  have := set.numData_pos
  unfold count
  omega

/-- What is known is present. -/
theorem Known.present {received : List Shred} {shred : Shred} {i : ℕ}
    (h : b.Known received shred i) : b.Present (received ++ [shred]) i := by
  rcases h with h | h
  · exact h.append shred
  · exact Or.inl h

/-- In a FEC set that lacks data, known means received. -/
lemma Lacks.known_iff_received {received : List Shred} {shred : Shred} {set : FecSet}
    (h : Lacks (b.Known received shred) set) (hset : set ∈ b.fecSets) {i : ℕ} (hi : set.Has i) :
    b.Known received shred i ↔ Received (received ++ [shred]) i := by
  obtain ⟨j, hj, hnot⟩ := h
  have hfew : count received set < set.numData := by
    by_contra hge
    exact hnot (Or.inl (Or.inr ⟨set, hset, hj, not_lt.mp hge⟩))
  refine ⟨?_, Or.inr⟩
  rintro (h | h)
  · exact ((present_iff_received hset hfew hi).mp h).append shred
  · exact h

/-- Where the shreds of the FEC set of the last shred are still too few, or it lacks nothing, all
that is present is known. -/
lemma known_eq_present {received : List Shred} {shred : Shred} {set : FecSet}
    (hset : set ∈ b.fecSets) (hname : shred.fecSetIndex = set.start) (hmem : shred ∈ b.shreds)
    (hfew : Lacks (b.Known received shred) set →
      count (received ++ [shred]) set < set.numData) :
    b.Known received shred = b.Present (received ++ [shred]) := by
  funext i
  refine propext ⟨Known.present, fun hi => ?_⟩
  by_cases hhas : set.Has i
  · by_contra hnot
    have hlacks : Lacks (b.Known received shred) set := ⟨i, hhas, hnot⟩
    rw [present_iff_received hset (hfew hlacks) hhas] at hi
    exact hnot ((hlacks.known_iff_received hset hhas).mpr hi)
  · exact Or.inl (present_append_other hset hname hmem hhas hi)

/-- With enough shreds of the FEC set of the last shred, the rest of it is rebuilt. -/
lemma known_or_rebuilt_iff {received : List Shred} {shred : Shred} {set : FecSet}
    (hset : set ∈ b.fecSets) (hname : shred.fecSetIndex = set.start) (hmem : shred ∈ b.shreds)
    (hcount : set.numData ≤ count (received ++ [shred]) set) {input : List Shred}
    {rebuilt : Set Shred} (hinput : ∀ other ∈ input, other ∈ received ++ [shred])
    (hrebuilt : ∀ other, other ∈ rebuilt ↔
      other ∈ b.data ∧ set.Has other.index ∧ other ∉ input) (i : ℕ) :
    (b.Known received shred i ∨ ∃ other ∈ rebuilt, other.index = i) ↔
      b.Present (received ++ [shred]) i := by
  constructor
  · rintro (h | ⟨other, h, rfl⟩)
    · exact h.present
    · exact Or.inr ⟨set, hset, ((hrebuilt other).mp h).2.1, hcount⟩
  · intro h
    by_cases hhas : set.Has i
    · have hlt := exists_has_iff.mp ⟨set, hset, hhas⟩
      have hget := List.getElem?_eq_getElem hlt
      have hdata := List.mem_of_getElem? hget
      have hindex := b.data_index i _ hget
      by_cases hin : b.data[i] ∈ input
      · exact Or.inl (Or.inr ⟨b.data[i], hinput _ hin, b.data_isData _ hdata, hindex⟩)
      · refine Or.inr ⟨b.data[i], (hrebuilt _).mpr ⟨hdata, ?_, hin⟩, hindex⟩
        rwa [hindex]
    · exact Or.inl (Or.inl (present_append_other hset hname hmem hhas h))

/-- What the recovery after `shred`, of the FEC set `set`, leads to. -/
structure AfterRecovery (b : Block) (agave : Agave Entry) (received : List Shred) (shred : Shred)
    (set : FecSet) (taken : List (TakenDataSet Entry))
    (result : SlotState × Option RecoveryStats) : Prop where
  /-- Exactly the indices that are present are not missing. -/
  places : b.Places agave (b.Present (received ++ [shred])) taken result.1
  /-- The coding sets hold what was received. -/
  codes : b.Codes (received ++ [shred]) (b.Present (received ++ [shred])) result.1
  /-- An index that only became present now is counted. -/
  counted : ∀ i, b.Present (received ++ [shred]) i → ¬ b.Known received shred i →
    ∃ stats, result.2 = some stats ∧ 0 < stats.recoveredShreds
  /-- The range reported has all of the FEC set. -/
  range : ∀ stats, result.2 = some stats → ∀ i, set.Has i →
    stats.rangeStart ≤ i ∧ i ≤ stats.rangeEnd

section AfterRecovery

variable {received : List Shred} {shred : Shred} {set : FecSet}
  {taken : List (TakenDataSet Entry)} {st : SlotState}

/-- Where nothing is left to rebuild, no recovery is needed. -/
lemma AfterRecovery.unneeded {result : SlotState × Option RecoveryStats}
    (hknown : b.Known received shred = b.Present (received ++ [shred]))
    (hplaces : b.Places agave (b.Known received shred) taken result.1)
    (hcodes : b.Codes (received ++ [shred]) (b.Known received shred) result.1)
    (hnone : result.2 = none) : b.AfterRecovery agave received shred set taken result where
  places := hknown ▸ hplaces
  codes := hknown ▸ hcodes
  counted _ hi hnot := absurd (hknown ▸ hi) hnot
  range stats hstats := absurd (hnone.symm.trans hstats) (Option.some_ne_none stats).symm

/-- Where enough shreds were received, the recovery brings the rest of the FEC set. -/
theorem AfterRecovery.rebuilt (hset : set ∈ b.fecSets) (hname : shred.fecSetIndex = set.start)
    (hmem : shred ∈ b.shreds) (hplaces : b.Places agave (b.Known received shred) taken st)
    (hcodes : b.Codes (received ++ [shred]) (b.Known received shred) st)
    {position : Fin st.codingSets.length}
    (hkey : (st.codingSets.get position).fecSetIndex = set.start)
    (hnum : (st.codingSets.get position).numDataShreds = set.numData)
    (hcount : set.numData ≤ count (received ++ [shred]) set)
    (hinput : ∀ other ∈ st.recoveryInput (st.codingSets.get position),
      other ∈ received ++ [shred])
    (hrebuilt : ∀ other, other ∈ SlotState.rebuiltData
        ((agave.recover (st.recoveryInput (st.codingSets.get position))).getD []) ↔
      other ∈ b.data ∧ set.Has other.index ∧
        other ∉ st.recoveryInput (st.codingSets.get position))
    {st' : SlotState} {stats : RecoveryStats}
    (hrecovered : SlotState.Recovered agave st position st' stats) :
    b.AfterRecovery agave received shred set taken (st', some stats) := by
  have hrange : ∀ i, i ∈ (st.codingSets.get position).dataRange ↔ set.Has i := by
    intro i
    rw [CodingSet.dataRange, hkey, hnum, mem_dataRange hset]
  have hplaces' := hplaces.fills hrecovered.fills fun other h => ((hrebuilt other).mp h).1
  have hpresent := hplaces'.congr (known_or_rebuilt_iff hset hname hmem hcount hinput hrebuilt)
  have hfull : ¬ Lacks (b.Present (received ++ [shred])) set := by
    rintro ⟨i, hi, hnot⟩
    exact hnot (Or.inr ⟨set, hset, hi, hcount⟩)
  refine ⟨hpresent, ?_, fun i hi hnot => ⟨stats, rfl, ?_⟩, ?_⟩
  · have hzero := not_not.mp (mt (hpresent.missing_ne_zero_iff hset).mp hfull)
    refine hcodes.swapRemove (fun _ => Known.present) hset hkey hfull ?_
    rw [hrecovered.codingSets, if_pos]
    rw [CodingSet.dataRange, hkey, hnum]
    exact hzero
  · refine Nat.pos_of_ne_zero fun hf => ?_
    have := hrecovered.unchanged hf i
    rw [(hplaces.missing_iff i).mpr hnot] at this
    exact (hpresent.missing_iff i).mp this hi
  · intro stats' hstats i hi
    obtain rfl : stats = stats' := Option.some.inj hstats
    rw [hrecovered.rangeStart, hrecovered.rangeEnd, ← mem_rangeInclusive]
    exact (hrange i).mpr hi

/-- **The second move.**  After recovery exactly the indices that are present are not missing. -/
theorem recover_present (hrec : agave.Recovers b)
    (hreceived : ∀ other ∈ received ++ [shred], other ∈ b.shreds)
    (hplaces : b.Places agave (b.Known received shred) taken st)
    (hcodes : b.Codes (received ++ [shred]) (b.Known received shred) st)
    (hset : set ∈ b.fecSets) (hname : shred.fecSetIndex = set.start) :
    b.AfterRecovery agave received shred set taken (st.recover agave shred.fecSetIndex) := by
  have hmem := hreceived shred (List.mem_append_right _ (List.mem_singleton_self _))
  rcases st.recover_cases agave shred.fecSetIndex with ⟨hnokey, heq⟩ | ⟨position, hkey, hcase⟩
  · -- Without a coding set the FEC set lacks nothing, or has too few shreds.
    have hfew : Lacks (b.Known received shred) set →
        count (received ++ [shred]) set < set.numData := by
      rintro ⟨i, hi, hnot⟩
      refine count_lt_of_no_coding hreceived hset (fun other hmem' hname' => ?_) hi
        (mt (Lacks.known_iff_received ⟨i, hi, hnot⟩ hset hi).mpr hnot)
      by_contra hcoding
      rw [Bool.not_eq_true] at hcoding
      exact hnokey (hname ▸ hcodes.complete set hset ⟨i, hi, hnot⟩ other hmem' hcoding hname')
    rw [heq]
    exact .unneeded (known_eq_present hset hname hmem hfew) hplaces hcodes rfl
  · replace hkey := hkey.trans hname
    obtain ⟨other, hother', hkey', hnum, hholds⟩ :=
      hcodes.sound _ (List.getElem_mem position.isLt)
    obtain rfl : set = other := start_unique hset hother' (hkey.symm.trans hkey')
    have hrange : (st.codingSets.get position).dataRange =
        rangeInclusive set.start (dataRangeEnd set.start set.numData) := by
      rw [CodingSet.dataRange, hkey]
      exact congrArg (fun num => rangeInclusive set.start (dataRangeEnd set.start num)) hnum
    rw [hrange] at hcase
    rcases hcase with ⟨hzero, heq⟩ | ⟨hmissing, hcase⟩
    · -- The data of the FEC set is all there, and its coding set is dropped.
      have hfull : ¬ Lacks (b.Known received shred) set :=
        mt (hplaces.missing_ne_zero_iff hset).mpr (not_not.mpr hzero)
      have hknown := known_eq_present hset hname hmem fun h => absurd h hfull
      rw [heq]
      exact .unneeded hknown { hplaces with }
        (hcodes.swapRemove (fun _ => id) hset hkey hfull rfl) rfl
    · have hlacks := (hplaces.missing_ne_zero_iff hset).mp hmissing
      obtain ⟨hattempts, hnodup, hholds⟩ := hholds hlacks
      obtain ⟨hinputNodup, hlength, hinput⟩ := recoveryInput_spec hreceived hplaces hset hlacks
        (fun _ => hlacks.known_iff_received hset) hkey' hnum hnodup hholds
      rcases hcase with ⟨hfew, heq⟩ | ⟨henough, -, st', stats, heq, hrecovered⟩
      · -- Too few shreds: it was not tried before, so that is the only reason.
        have hcount : count (received ++ [shred]) set < set.numData := by
          rw [← hlength]
          rcases hfew with hfew | hfew
          · exact hnum ▸ hfew
          · have : maxRecoveryAttempts ≤ 0 := hattempts ▸ hfew
            exact absurd this (by decide)
        rw [heq]
        exact .unneeded (known_eq_present hset hname hmem fun _ => hcount) hplaces hcodes rfl
      · -- Recovery brings the rest of the FEC set.
        have hcount : set.numData ≤ count (received ++ [shred]) set := by
          rw [← hlength]
          exact hnum ▸ henough
        obtain ⟨output, houtput, hdata⟩ := hrec set hset _ hinputNodup
          (fun other h => ⟨hreceived other ((hinput other).mp h).1, ((hinput other).mp h).2⟩)
          (hlength ▸ hcount)
        rw [heq]
        refine .rebuilt hset hname hmem hplaces hcodes hkey hnum hcount
          (fun other h => ((hinput other).mp h).1) (fun other => ?_) hrecovered
        have : agave.recover (st.recoveryInput (st.codingSets.get position)) = some output :=
          houtput
        rw [this]
        exact hdata other

end AfterRecovery

end Block

end ShredTools.Deshred
