import Mathlib.Data.BitVec
import Mathlib.Order.Bounds.Basic
import Mathlib.Tactic.NormNum
import Mathlib.Tactic.Positivity

/-!
# The end-marker bitset

`SlotState` marks the indices whose shred closes a data set in a vector of 64-bit words.  This
file has the three functions that write and search it, word for word as in the source, and their
meaning: a bitset stands for the set of indices `i` with `HasBit bits i`, `setBit` inserts an
index, `lastBitBefore` finds the greatest member below an index and `nextBitFrom` the least member
at or above it.

Both searches index the vector through a proof that the word is in range, so that an access out of
bounds cannot be written down, and both are structurally recursive in the words left to look at.
-/

namespace ShredTools.Deshred

/-- Index `i` is a member of the bitset. -/
def HasBit (bits : List (BitVec 64)) (i : ℕ) : Prop :=
  (bits.getD (i / 64) 0#64).getLsbD (i % 64) = true

instance (bits : List (BitVec 64)) (i : ℕ) : Decidable (HasBit bits i) :=
  inferInstanceAs (Decidable (_ = true))

/-- `set_bit`: grow the vector up to the word of `index` and set the bit there. -/
def setBit (bits : List (BitVec 64)) (index : ℕ) : List (BitVec 64) :=
  let word := index / 64
  let bits := if word ≥ bits.length then bits ++ List.replicate (word + 1 - bits.length) 0#64
    else bits
  bits.modify word fun w => w ||| (1#64 <<< (index % 64))

/-- The loop of `last_bit_before`: the highest set bit of `mask`, taken as part of word `word`,
or else of the words below it. -/
def lastBitLoop (bits : List (BitVec 64)) : (word : ℕ) → word ≤ bits.length → BitVec 64 → Option ℕ
  | 0, _, mask => if mask ≠ 0#64 then some (0 * 64 + 63 - mask.clz.toNat) else none
  | word + 1, hword, mask =>
    if mask ≠ 0#64 then some ((word + 1) * 64 + 63 - mask.clz.toNat)
    else lastBitLoop bits word (Nat.le_of_succ_le hword) bits[word]

/-- `last_bit_before`: the greatest index below `index` whose bit is set. -/
def lastBitBefore (bits : List (BitVec 64)) (index : ℕ) : Option ℕ :=
  if h : index / 64 < bits.length then
    lastBitLoop bits (index / 64) h.le (bits[index / 64] &&& ((1#64 <<< (index % 64)) - 1#64))
  else lastBitLoop bits bits.length le_rfl 0#64

/-- The loop of `next_bit_from`: the lowest set bit of `mask`, taken as word `word`, or else of
the words `rest` after it. -/
def nextBitLoop : (word : ℕ) → BitVec 64 → (rest : List (BitVec 64)) → Option ℕ
  | word, mask, rest =>
    if mask ≠ 0#64 then some (word * 64 + mask.ctz.toNat)
    else match rest with
      | [] => none
      | w :: rest => nextBitLoop (word + 1) w rest

/-- `next_bit_from`: the least index from `index` on whose bit is set. -/
def nextBitFrom (bits : List (BitVec 64)) (index : ℕ) : Option ℕ :=
  match bits[index / 64]? with
  | some w =>
    nextBitLoop (index / 64) (w &&& (BitVec.allOnes 64 <<< (index % 64)))
      (bits.drop (index / 64 + 1))
  | none => none

/-! ### Setting a bit -/

/-- The empty vector has no member. -/
@[simp] theorem not_hasBit_nil (i : ℕ) : ¬ HasBit [] i := by
  simp [HasBit]

/-- A member lies in a word of the vector. -/
lemma HasBit.div_lt {bits : List (BitVec 64)} {i : ℕ} (h : HasBit bits i) :
    i / 64 < bits.length := by
  by_contra hge
  simp [HasBit, List.getD_eq_getElem?_getD, List.getElem?_eq_none (not_lt.mp hge)] at h

/-- Two indices agree exactly when their words and their places in the word agree. -/
lemma word_bit_inj {i j : ℕ} (hw : i / 64 = j / 64) (hb : i % 64 = j % 64) : i = j := by
  omega

/-- Zero words added at the end bring no member. -/
lemma hasBit_grow {bits : List (BitVec 64)} {n j : ℕ} :
    HasBit (bits ++ List.replicate n 0#64) j ↔ HasBit bits j := by
  unfold HasBit
  simp only [List.getD_eq_getElem?_getD, List.getElem?_append, List.getElem?_replicate]
  split_ifs with h1 h2
  · rfl
  · simp [List.getElem?_eq_none (not_lt.mp h1)]
  · simp [List.getElem?_eq_none (not_lt.mp h1)]

/-- Or-ing a one-bit mask into a word sets that bit. -/
lemma getLsbD_or_oneHot (w : BitVec 64) {i j : ℕ} (hj : j < 64) :
    (w ||| (1#64 <<< i)).getLsbD j = true ↔ j = i ∨ w.getLsbD j = true := by
  have hone : (1#64 <<< i).getLsbD j = true ↔ j = i := by
    simp only [BitVec.getLsbD_shiftLeft, BitVec.getLsbD_one]
    simp only [hj, decide_true, Bool.true_and, Bool.and_eq_true, Bool.not_eq_true',
      decide_eq_false_iff_not, decide_eq_true_eq]
    omega
  rw [BitVec.getLsbD_or, Bool.or_eq_true, hone, or_comm]

/-- Setting a bit of a word that exists inserts its index. -/
lemma hasBit_modify {bits : List (BitVec 64)} {i j : ℕ} (h : i / 64 < bits.length) :
    HasBit (bits.modify (i / 64) fun w => w ||| (1#64 <<< (i % 64))) j ↔ j = i ∨ HasBit bits j := by
  unfold HasBit
  rw [List.getD_eq_getElem?_getD, List.getElem?_modify, List.getD_eq_getElem?_getD]
  by_cases hw : i / 64 = j / 64
  · rw [← hw, List.getElem?_eq_getElem h]
    simp only [if_true, Option.map_eq_map, Option.map_some, Option.getD_some]
    rw [getLsbD_or_oneHot _ (Nat.mod_lt _ (by norm_num))]
    constructor
    · rintro (hb | hb)
      · exact Or.inl (word_bit_inj hw.symm hb)
      · exact Or.inr hb
    · rintro (rfl | hb)
      · exact Or.inl rfl
      · exact Or.inr hb
  · have hne : j ≠ i := fun e => hw (by rw [e])
    simp [hw, hne]

/-- `setBit` inserts its index and nothing else. -/
@[simp] theorem hasBit_setBit {bits : List (BitVec 64)} {i j : ℕ} :
    HasBit (setBit bits i) j ↔ j = i ∨ HasBit bits j := by
  unfold setBit
  by_cases h : i / 64 ≥ bits.length
  · simp only [h, if_true]
    rw [hasBit_modify (by simp; omega), hasBit_grow]
  · simp only [h, if_false]
    exact hasBit_modify (not_le.mp h)

/-! ### Searching downwards -/

/-- The set bits of a word lie below its leading zeros. -/
lemma add_clz_lt {m : BitVec 64} {j : ℕ} (h : m.getLsbD j = true) : j + m.clz.toNat < 64 := by
  by_contra hge
  have hlt := BitVec.toNat_lt_two_pow_sub_clz (x := m)
  have hz : m.toNat.testBit j = false :=
    Nat.testBit_lt_two_pow (lt_of_lt_of_le hlt (Nat.pow_le_pow_right (by norm_num) (by omega)))
  rw [← BitVec.testBit_toNat] at h
  rw [hz] at h
  exact Bool.noConfusion h

/-- The set bits of a word lie at or above its trailing zeros. -/
lemma ctz_le {m : BitVec 64} {j : ℕ} (h : m.getLsbD j = true) : m.ctz.toNat ≤ j := by
  by_contra hlt
  rw [BitVec.getLsbD_false_of_lt_ctz (not_le.mp hlt)] at h
  exact Bool.noConfusion h

/-- The members that an unfinished downward search still has to look at. -/
def Below (bits : List (BitVec 64)) (word : ℕ) (mask : BitVec 64) : Set ℕ :=
  {j | (j / 64 = word ∧ mask.getLsbD (j % 64) = true) ∨ (j / 64 < word ∧ HasBit bits j)}

/-- The highest bit of a nonzero mask is the greatest member left to a downward search. -/
lemma isGreatest_of_mask {bits : List (BitVec 64)} {word : ℕ} {mask : BitVec 64}
    (hm : mask ≠ 0#64) : IsGreatest (Below bits word mask) (word * 64 + 63 - mask.clz.toNat) := by
  have htop : mask.getLsbD (64 - 1 - mask.clz.toNat) = true :=
    BitVec.getLsbD_true_clz_of_ne_zero (by norm_num) hm
  have hlt := add_clz_lt htop
  refine ⟨Or.inl ⟨by omega, ?_⟩, ?_⟩
  · rwa [show (word * 64 + 63 - mask.clz.toNat) % 64 = 64 - 1 - mask.clz.toNat by omega]
  · rintro j (⟨hw, hb⟩ | ⟨hw, -⟩)
    · have := add_clz_lt hb
      omega
    · omega

/-- An exhausted mask hands the downward search over to the word below. -/
lemma below_succ_zero {bits : List (BitVec 64)} {word : ℕ} (h : word < bits.length) :
    Below bits (word + 1) 0#64 = Below bits word bits[word] := by
  ext j
  simp only [Below, Set.mem_ofPred_eq, BitVec.getLsbD_zero, Bool.false_eq_true, and_false, false_or]
  constructor
  · rintro ⟨hj, hb⟩
    rcases Nat.lt_succ_iff_lt_or_eq.mp hj with hlt | heq
    · exact Or.inr ⟨hlt, hb⟩
    · refine Or.inl ⟨heq, ?_⟩
      subst heq
      simpa [HasBit, List.getD_eq_getElem?_getD, h] using hb
  · rintro (⟨heq, hb⟩ | ⟨hlt, hb⟩)
    · refine ⟨by omega, ?_⟩
      subst heq
      simpa [HasBit, List.getD_eq_getElem?_getD, h] using hb
    · exact ⟨by omega, hb⟩

/-- A mask with a bit ends the downward search. -/
theorem lastBitLoop_of_ne {bits : List (BitVec 64)} {word : ℕ} (hword : word ≤ bits.length)
    {mask : BitVec 64} (hmask : mask ≠ 0#64) :
    lastBitLoop bits word hword mask = some (word * 64 + 63 - mask.clz.toNat) := by
  cases word with
  | zero => exact if_pos hmask
  | succ word => exact if_pos hmask

/-- A mask without one hands it over to the word below. -/
theorem lastBitLoop_succ_zero {bits : List (BitVec 64)} {word : ℕ} (hword : word < bits.length) :
    lastBitLoop bits (word + 1) hword 0#64 = lastBitLoop bits word hword.le bits[word] :=
  if_neg (not_not_intro rfl)

/-- What a search found is its answer. -/
lemma answer_of_eq_some {found : Option ℕ} {k : ℕ} {P : ℕ → Prop} {Q : Prop}
    (hfound : found = some k) (hk : P k) :
    (∀ j, found = some j → P j) ∧ (found = none → Q) := by
  subst hfound
  refine ⟨fun j hj => ?_, fun hnone => absurd hnone (Option.some_ne_none k)⟩
  rwa [← Option.some_inj.mp hj]

/-- The downward loop finds the greatest member left to look at. -/
lemma lastBitLoop_spec (bits : List (BitVec 64)) (word : ℕ) (hword : word ≤ bits.length)
    (mask : BitVec 64) :
    (∀ j, lastBitLoop bits word hword mask = some j → IsGreatest (Below bits word mask) j) ∧
      (lastBitLoop bits word hword mask = none → Below bits word mask = ∅) := by
  induction word generalizing mask with
  | zero =>
    by_cases hm : mask = 0#64
    · subst hm
      simp [lastBitLoop, Below]
    · exact answer_of_eq_some (lastBitLoop_of_ne hword hm) (isGreatest_of_mask hm)
  | succ word ih =>
    by_cases hm : mask = 0#64
    · subst hm
      rw [lastBitLoop_succ_zero hword, below_succ_zero hword]
      exact ih _ _
    · exact answer_of_eq_some (lastBitLoop_of_ne hword hm) (isGreatest_of_mask hm)

/-- The number of a one-bit mask. -/
theorem toNat_oneHot {n : ℕ} (hn : n < 64) : (1#64 <<< n).toNat = 2 ^ n := by
  rw [BitVec.toNat_shiftLeft]
  simp [Nat.shiftLeft_eq, Nat.mod_eq_of_lt (Nat.pow_lt_pow_right (by norm_num : 1 < 2) hn)]

/-- The mask of `last_bit_before` keeps the bits below `n`. -/
lemma getLsbD_lowMask {w : BitVec 64} {n b : ℕ} (hn : n < 64) :
    (w &&& ((1#64 <<< n) - 1#64)).getLsbD b = true ↔ b < n ∧ w.getLsbD b = true := by
  have hmask : ((1#64 <<< n) - 1#64).getLsbD b = decide (b < n) := by
    have hnat : ((1#64 <<< n) - 1#64).toNat = 2 ^ n - 1 := by
      rw [BitVec.toNat_sub, toNat_oneHot hn]
      have : 0 < 2 ^ n := by positivity
      have : 2 ^ n < 2 ^ 64 := Nat.pow_lt_pow_right (by norm_num) hn
      simp
      omega
    rw [← BitVec.testBit_toNat, hnat, Nat.testBit_two_pow_sub_one]
  rw [BitVec.getLsbD_and, Bool.and_eq_true, hmask, decide_eq_true_eq, and_comm]

/-- The mask of `next_bit_from` keeps the bits from `n` on. -/
lemma getLsbD_highMask {w : BitVec 64} {n b : ℕ} :
    (w &&& (BitVec.allOnes 64 <<< n)).getLsbD b = true ↔ n ≤ b ∧ w.getLsbD b = true := by
  simp only [BitVec.getLsbD_and, BitVec.getLsbD_shiftLeft, BitVec.getLsbD_allOnes,
    Bool.and_eq_true, Bool.not_eq_true', decide_eq_false_iff_not, decide_eq_true_eq]
  constructor
  · rintro ⟨h, ⟨-, h2⟩, -⟩
    exact ⟨not_lt.mp h2, h⟩
  · rintro ⟨h, hw⟩
    have := BitVec.lt_of_getLsbD hw
    exact ⟨hw, ⟨this, not_lt.mpr h⟩, by omega⟩

/-- A downward search that starts inside the vector looks at the members below its index. -/
lemma below_start (bits : List (BitVec 64)) (i : ℕ) (h : i / 64 < bits.length) :
    Below bits (i / 64) (bits[i / 64] &&& ((1#64 <<< (i % 64)) - 1#64)) =
      {j | j < i ∧ HasBit bits j} := by
  ext j
  simp only [Below, Set.mem_ofPred_eq, getLsbD_lowMask (Nat.mod_lt i (by norm_num : 0 < 64))]
  constructor
  · rintro (⟨hw, hb, hbit⟩ | ⟨hw, hbit⟩)
    · exact ⟨by omega, by simpa [HasBit, List.getD_eq_getElem?_getD, hw, h] using hbit⟩
    · exact ⟨by omega, hbit⟩
  · rintro ⟨hlt, hbit⟩
    by_cases hw : j / 64 = i / 64
    · refine Or.inl ⟨hw, by omega, ?_⟩
      simpa [HasBit, List.getD_eq_getElem?_getD, hw, h] using hbit
    · exact Or.inr ⟨by omega, hbit⟩

/-- A downward search that starts beyond the vector looks at every member. -/
lemma below_all (bits : List (BitVec 64)) (i : ℕ) (h : ¬ i / 64 < bits.length) :
    Below bits bits.length 0#64 = {j | j < i ∧ HasBit bits j} := by
  ext j
  simp only [Below, Set.mem_ofPred_eq, BitVec.getLsbD_zero, Bool.false_eq_true, and_false, false_or]
  constructor
  · rintro ⟨hj, hb⟩
    exact ⟨by omega, hb⟩
  · rintro ⟨-, hb⟩
    exact ⟨hb.div_lt, hb⟩

/-- `lastBitBefore` finds the greatest member below its index, or there is none. -/
lemma lastBitBefore_spec (bits : List (BitVec 64)) (i : ℕ) :
    (∀ j, lastBitBefore bits i = some j → IsGreatest {j | j < i ∧ HasBit bits j} j) ∧
      (lastBitBefore bits i = none → {j | j < i ∧ HasBit bits j} = ∅) := by
  unfold lastBitBefore
  split_ifs with h
  · rw [← below_start bits i h]
    exact lastBitLoop_spec ..
  · rw [← below_all bits i h]
    exact lastBitLoop_spec ..

/-- `lastBitBefore` is the greatest member below the index. -/
theorem lastBitBefore_eq_some_iff {bits : List (BitVec 64)} {i j : ℕ} :
    lastBitBefore bits i = some j ↔ IsGreatest {j | j < i ∧ HasBit bits j} j := by
  refine ⟨(lastBitBefore_spec bits i).1 j, fun hj => ?_⟩
  cases h : lastBitBefore bits i with
  | none => simpa [(lastBitBefore_spec bits i).2 h] using hj.1
  | some k => rw [hj.unique ((lastBitBefore_spec bits i).1 k h)]

/-- `lastBitBefore` fails exactly when no member lies below its index. -/
theorem lastBitBefore_eq_none_iff {bits : List (BitVec 64)} {i : ℕ} :
    lastBitBefore bits i = none ↔ ∀ j < i, ¬ HasBit bits j := by
  constructor
  · intro h j hj hb
    have hmem : j ∈ {j | j < i ∧ HasBit bits j} := ⟨hj, hb⟩
    rw [(lastBitBefore_spec bits i).2 h] at hmem
    exact hmem
  · intro h
    cases hs : lastBitBefore bits i with
    | none => rfl
    | some k =>
      have hk := ((lastBitBefore_spec bits i).1 k hs).1
      exact absurd hk.2 (h k hk.1)

/-! ### Searching upwards -/

/-- The members an unfinished upward search still has to look at. -/
def Above (word : ℕ) (mask : BitVec 64) (rest : List (BitVec 64)) : Set ℕ :=
  {j | (j / 64 = word ∧ mask.getLsbD (j % 64) = true) ∨
    (word < j / 64 ∧ (rest.getD (j / 64 - (word + 1)) 0#64).getLsbD (j % 64) = true)}

/-- The lowest bit of a nonzero mask is the least member left to an upward search. -/
lemma isLeast_of_mask {word : ℕ} {mask : BitVec 64} {rest : List (BitVec 64)}
    (hm : mask ≠ 0#64) : IsLeast (Above word mask rest) (word * 64 + mask.ctz.toNat) := by
  have hbot : mask.getLsbD mask.ctz.toNat = true := BitVec.getLsbD_true_ctz_of_ne_zero hm
  have hlt := BitVec.lt_of_getLsbD hbot
  refine ⟨Or.inl ⟨by omega, ?_⟩, ?_⟩
  · rwa [show (word * 64 + mask.ctz.toNat) % 64 = mask.ctz.toNat by omega]
  · rintro j (⟨hw, hb⟩ | ⟨hw, -⟩)
    · have := ctz_le hb
      omega
    · omega

/-- An exhausted mask hands the upward search over to the next word. -/
lemma above_zero_cons (word : ℕ) (w : BitVec 64) (rest : List (BitVec 64)) :
    Above word 0#64 (w :: rest) = Above (word + 1) w rest := by
  ext j
  simp only [Above, Set.mem_ofPred_eq, BitVec.getLsbD_zero, Bool.false_eq_true, and_false, false_or]
  constructor
  · rintro ⟨hlt, hb⟩
    rcases Nat.lt_or_ge (word + 1) (j / 64) with h | h
    · refine Or.inr ⟨h, ?_⟩
      rwa [show j / 64 - (word + 1) = j / 64 - (word + 1 + 1) + 1 by omega,
        List.getD_cons_succ] at hb
    · refine Or.inl ⟨by omega, ?_⟩
      rwa [show j / 64 - (word + 1) = 0 by omega, List.getD_cons_zero] at hb
  · rintro (⟨heq, hb⟩ | ⟨hlt, hb⟩)
    · refine ⟨by omega, ?_⟩
      rwa [show j / 64 - (word + 1) = 0 by omega, List.getD_cons_zero]
    · refine ⟨by omega, ?_⟩
      rwa [show j / 64 - (word + 1) = j / 64 - (word + 1 + 1) + 1 by omega, List.getD_cons_succ]

/-- A mask with a bit ends the upward search. -/
theorem nextBitLoop_of_ne {word : ℕ} {mask : BitVec 64} (hmask : mask ≠ 0#64)
    (rest : List (BitVec 64)) :
    nextBitLoop word mask rest = some (word * 64 + mask.ctz.toNat) := by
  unfold nextBitLoop
  rw [if_pos hmask]

/-- A mask without one hands it over to the word above. -/
theorem nextBitLoop_zero_cons (word : ℕ) (mask : BitVec 64) (rest : List (BitVec 64)) :
    nextBitLoop word 0#64 (mask :: rest) = nextBitLoop (word + 1) mask rest := by
  rw [nextBitLoop, if_neg (not_not_intro rfl)]

/-- The upward loop finds the least member left to look at. -/
lemma nextBitLoop_spec (word : ℕ) (mask : BitVec 64) (rest : List (BitVec 64)) :
    (∀ j, nextBitLoop word mask rest = some j → IsLeast (Above word mask rest) j) ∧
      (nextBitLoop word mask rest = none → Above word mask rest = ∅) := by
  induction rest generalizing word mask with
  | nil =>
    by_cases hm : mask = 0#64
    · subst hm
      simp [nextBitLoop, Above]
    · exact answer_of_eq_some (nextBitLoop_of_ne hm _) (isLeast_of_mask hm)
  | cons w rest ih =>
    by_cases hm : mask = 0#64
    · subst hm
      rw [nextBitLoop_zero_cons, above_zero_cons]
      exact ih _ _
    · exact answer_of_eq_some (nextBitLoop_of_ne hm _) (isLeast_of_mask hm)

/-- An upward search that starts inside the vector looks at the members from its index on. -/
lemma above_start {bits : List (BitVec 64)} {i : ℕ} {w : BitVec 64}
    (h : bits[i / 64]? = some w) :
    Above (i / 64) (w &&& (BitVec.allOnes 64 <<< (i % 64))) (bits.drop (i / 64 + 1)) =
      {j | i ≤ j ∧ HasBit bits j} := by
  ext j
  simp only [Above, Set.mem_ofPred_eq, getLsbD_highMask, List.getD_eq_getElem?_getD,
    List.getElem?_drop, HasBit]
  constructor
  · rintro (⟨hw, hb, hbit⟩ | ⟨hw, hbit⟩)
    · exact ⟨by omega, by simpa [hw, h] using hbit⟩
    · rw [show i / 64 + 1 + (j / 64 - (i / 64 + 1)) = j / 64 by omega] at hbit
      exact ⟨by omega, hbit⟩
  · rintro ⟨hle, hbit⟩
    by_cases hw : j / 64 = i / 64
    · exact Or.inl ⟨hw, by omega, by simpa [hw, h] using hbit⟩
    · refine Or.inr ⟨by omega, ?_⟩
      rwa [show i / 64 + 1 + (j / 64 - (i / 64 + 1)) = j / 64 by omega]

/-- `nextBitFrom` finds the least member from its index on, or there is none. -/
lemma nextBitFrom_spec (bits : List (BitVec 64)) (i : ℕ) :
    (∀ j, nextBitFrom bits i = some j → IsLeast {j | i ≤ j ∧ HasBit bits j} j) ∧
      (nextBitFrom bits i = none → {j | i ≤ j ∧ HasBit bits j} = ∅) := by
  unfold nextBitFrom
  cases h : bits[i / 64]? with
  | some w =>
    rw [← above_start h]
    exact nextBitLoop_spec ..
  | none =>
    refine ⟨fun j hj => by simp at hj, fun _ => Set.eq_empty_of_forall_notMem ?_⟩
    rintro j ⟨hle, hb⟩
    have := hb.div_lt
    have := List.getElem?_eq_none_iff.mp h
    omega

/-- `nextBitFrom` is the least member from its index on. -/
theorem nextBitFrom_eq_some_iff {bits : List (BitVec 64)} {i j : ℕ} :
    nextBitFrom bits i = some j ↔ IsLeast {j | i ≤ j ∧ HasBit bits j} j := by
  refine ⟨(nextBitFrom_spec bits i).1 j, fun hj => ?_⟩
  cases h : nextBitFrom bits i with
  | none => simpa [(nextBitFrom_spec bits i).2 h] using hj.1
  | some k => rw [hj.unique ((nextBitFrom_spec bits i).1 k h)]

/-- `nextBitFrom` fails exactly when no member lies from its index on. -/
theorem nextBitFrom_eq_none_iff {bits : List (BitVec 64)} {i : ℕ} :
    nextBitFrom bits i = none ↔ ∀ j, i ≤ j → ¬ HasBit bits j := by
  constructor
  · intro h j hj hb
    have hmem : j ∈ {j | i ≤ j ∧ HasBit bits j} := ⟨hj, hb⟩
    rw [(nextBitFrom_spec bits i).2 h] at hmem
    exact hmem
  · intro h
    cases hs : nextBitFrom bits i with
    | none => rfl
    | some k =>
      have hk := ((nextBitFrom_spec bits i).1 k hs).1
      exact absurd hk.2 (h k hk.1)

end ShredTools.Deshred
