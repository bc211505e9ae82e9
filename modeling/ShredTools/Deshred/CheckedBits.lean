import ShredTools.Deshred.SlotInvariant
import ShredTools.Library.Iteration
import ShredTools.Library.WordArithmetic

/-!
# The end markers, operation by operation

The functions of the bitset once more, with every operation of the source that can fail: a shift by
64 or more, an index out of range, and a sum, product or difference that is no `usize` or no `u64`
stop the program, and the loops make one turn after the other.  The vectors that `set_bit` makes are
so short that the number of any bit in them is a `usize`, which is what the two searches need.  On
those vectors nothing stops, the searches end after at most one turn for each word and one more, and
they give what `lastBitBefore` and `nextBitFrom` give (`lastBitBeforeIn_eq`, `nextBitFromIn_eq`).
Thereby the vector behaves as the set of its indices (`endMarkers_behave_as_set`), and the searches
in a slot state are those of the bitset (`Reachable.searches_eq`).
-/

namespace ShredTools.Deshred

open CheckedWords
open Loop (Turn)

/-- The number of `usize` values. -/
def usizeSize : ℕ := 2 ^ 64

/-- The number of `u32` values. -/
def u32Size : ℕ := 2 ^ 32

/-! ### The functions of the source -/

/-- `set_bit` -/
def setBitChecked (bits : List (BitVec 64)) (index : ℕ) : Option (List (BitVec 64)) := do
  let word := index / 64
  let bits ← if word ≥ bits.length then
      (plus usizeSize word 1).map fun size => bits ++ List.replicate (size - bits.length) 0#64
    else some bits
  let bit ← shiftLeft 1#64 (index % 64)
  let marks ← bits[word]?
  return bits.set word (marks ||| bit)

/-- The first `match` of `last_bit_before`: the word to begin with, and what to look at of it. -/
def lastBitStart (bits : List (BitVec 64)) (index : ℕ) : Option (ℕ × BitVec 64) :=
  match bits[index / 64]? with
  | some marks => do
    let bit ← shiftLeft 1#64 (index % 64)
    let below ← sub bit 1#64
    return (index / 64, marks &&& below)
  | none => some (bits.length, 0#64)

/-- A turn of the loop of `last_bit_before`. -/
def lastBitTurn (bits : List (BitVec 64)) :
    ℕ × BitVec 64 → Option (Turn (ℕ × BitVec 64) (Option ℕ))
  | (word, mask) =>
    if mask ≠ 0#64 then do
      let first ← times usizeSize word 64
      let last ← plus usizeSize first 63
      let found ← minus last mask.clz.toNat
      return .done (some (found % u32Size))
    else
      -- `checked_sub(1)?` returns from the function
      match minus word 1 with
      | none => some (.done none)
      | some word => do
        let mask ← bits[word]?
        return .again (word, mask)

/-- `last_bit_before`, with so many turns of its loop. -/
def lastBitBeforeIn (turns : ℕ) (bits : List (BitVec 64)) (index : ℕ) :
    Option (Turn (ℕ × BitVec 64) (Option ℕ)) := do
  let start ← lastBitStart bits index
  Loop.run (lastBitTurn bits) turns start

/-- A turn of the loop of `next_bit_from`. -/
def nextBitTurn (bits : List (BitVec 64)) :
    ℕ × BitVec 64 → Option (Turn (ℕ × BitVec 64) (Option ℕ))
  | (word, mask) =>
    if mask ≠ 0#64 then do
      let first ← times usizeSize word 64
      let found ← plus usizeSize first mask.ctz.toNat
      return .done (some (found % u32Size))
    else do
      let word ← plus usizeSize word 1
      match bits[word]? with
      | none => return .done none
      | some mask => return .again (word, mask)

/-- `next_bit_from`, with so many turns of its loop. -/
def nextBitFromIn (turns : ℕ) (bits : List (BitVec 64)) (index : ℕ) :
    Option (Turn (ℕ × BitVec 64) (Option ℕ)) :=
  match bits[index / 64]? with
  | none => some (.done none)
  | some marks => do
    let above ← shiftLeft (BitVec.allOnes 64) (index % 64)
    Loop.run (nextBitTurn bits) turns (index / 64, marks &&& above)

/-- The vector that a sequence of calls of `set_bit` makes of an empty one. -/
def setBits (indices : List ℕ) : Option (List (BitVec 64)) := indices.foldlM setBitChecked []

/-! ### Setting bits -/

/-- The number of each bit of the vector is a `usize`. -/
def FitsUsize (bits : List (BitVec 64)) : Prop := 64 * bits.length ≤ usizeSize

/-- The empty vector fits. -/
lemma fitsUsize_nil : FitsUsize [] := Nat.zero_le _

/-- A bit that is set lies in the vector, which grows no more than it must. -/
lemma length_setBit (bits : List (BitVec 64)) (i : ℕ) :
    (setBit bits i).length = max bits.length (i / 64 + 1) := by
  unfold setBit
  dsimp only
  rw [List.length_modify]
  split_ifs with h
  · rw [List.length_append, List.length_replicate]
    omega
  · omega

/-- The number of each bit stays a `usize` if the new one is. -/
theorem FitsUsize.setBit {bits : List (BitVec 64)} (h : FitsUsize bits) {i : ℕ}
    (hi : i < usizeSize) : FitsUsize (setBit bits i) := by
  unfold FitsUsize usizeSize at *
  rw [length_setBit]
  omega

/-- Writing a bit into a word that the vector has. -/
lemma bind_set_eq {bits : List (BitVec 64)} {word : ℕ} (h : word < bits.length)
    (bit : BitVec 64) :
    (bits[word]?.bind fun marks => some (bits.set word (marks ||| bit))) =
      some (bits.modify word fun marks => marks ||| bit) := by
  rw [List.getElem?_eq_getElem h, Option.bind_some, List.modify_eq_set_getElem?,
    List.getElem?_eq_getElem h, Option.map_eq_map, Option.map_some, Option.getD_some]

/-- **`set_bit` never stops**, and sets the bit. -/
theorem setBitChecked_eq (bits : List (BitVec 64)) {i : ℕ} (hi : i < usizeSize) :
    setBitChecked bits i = some (setBit bits i) := by
  have hword : i / 64 + 1 < usizeSize := by
    unfold usizeSize at *
    omega
  unfold setBitChecked setBit
  dsimp only
  rw [plus_eq_some hword, shiftLeft_eq_some (Nat.mod_lt i (Nat.succ_pos 63))]
  by_cases h : i / 64 ≥ bits.length
  · rw [if_pos h, if_pos h, Option.map_some]
    refine bind_set_eq ?_ _
    rw [List.length_append, List.length_replicate]
    omega
  · rw [if_neg h, if_neg h]
    exact bind_set_eq (not_le.mp h) _

/-- A sequence of calls never stops. -/
lemma foldlM_setBitChecked {indices : List ℕ} (h : ∀ k ∈ indices, k < usizeSize)
    (bits : List (BitVec 64)) :
    indices.foldlM setBitChecked bits = some (indices.foldl setBit bits) := by
  induction indices generalizing bits with
  | nil => rfl
  | cons i indices ih =>
    rw [List.foldlM_cons, setBitChecked_eq bits (h i List.mem_cons_self), Option.bind_eq_bind,
      Option.bind_some, List.foldl_cons]
    exact ih (fun k hk => h k (List.mem_cons_of_mem i hk)) _

/-- The vector still fits after a sequence of calls. -/
lemma FitsUsize.foldl_setBit {bits : List (BitVec 64)} (hbits : FitsUsize bits)
    {indices : List ℕ} (h : ∀ k ∈ indices, k < usizeSize) :
    FitsUsize (indices.foldl Deshred.setBit bits) := by
  induction indices generalizing bits with
  | nil => exact hbits
  | cons i indices ih =>
    exact ih (hbits.setBit (h i List.mem_cons_self)) fun k hk => h k (List.mem_cons_of_mem i hk)

/-! ### Searching downwards -/

variable {bits : List (BitVec 64)} {word turns : ℕ} {mask : BitVec 64}

/-- The start inside the vector: neither the shift nor the subtraction stops. -/
lemma lastBitStart_of_lt {index : ℕ} (h : index / 64 < bits.length) :
    lastBitStart bits index =
      some (index / 64, bits[index / 64] &&& ((1#64 <<< (index % 64)) - 1#64)) := by
  have hshift : index % 64 < 64 := Nat.mod_lt index (Nat.succ_pos 63)
  have hone : 1#64 ≤ 1#64 <<< (index % 64) := by
    rw [BitVec.le_def, toNat_oneHot hshift]
    exact Nat.one_le_two_pow
  unfold lastBitStart
  rw [List.getElem?_eq_getElem h]
  dsimp only
  rw [shiftLeft_eq_some hshift, Option.bind_eq_bind, Option.bind_some, sub_eq_some hone]
  rfl

/-- The start beyond the vector. -/
lemma lastBitStart_of_le {index : ℕ} (h : bits.length ≤ index / 64) :
    lastBitStart bits index = some (bits.length, 0#64) := by
  unfold lastBitStart
  rw [List.getElem?_eq_none h]

/-- A turn that finds a bit. -/
lemma lastBitTurn_of_ne (hbits : FitsUsize bits) (hword : word < bits.length)
    (hmask : mask ≠ 0#64) : lastBitTurn bits (word, mask) =
      some (.done (some ((word * 64 + 63 - mask.clz.toNat) % u32Size))) := by
  unfold FitsUsize at hbits
  have hclz : mask.clz.toNat < 64 := BitVec.lt_def.mp (BitVec.clz_lt_iff_ne_zero.mpr hmask)
  unfold lastBitTurn
  dsimp only
  rw [if_pos hmask, times_eq_some (by omega), Option.bind_eq_bind, Option.bind_some,
    plus_eq_some (by omega), Option.bind_some, minus_eq_some (by omega)]
  rfl

/-- A turn on the first word, if it has no bit left. -/
lemma lastBitTurn_zero (bits : List (BitVec 64)) :
    lastBitTurn bits (0, 0#64) = some (.done none) := rfl

/-- A turn that goes on to the word below. -/
lemma lastBitTurn_succ (hword : word < bits.length) :
    lastBitTurn bits (word + 1, 0#64) = some (.again (word, bits[word])) := by
  unfold lastBitTurn
  dsimp only
  rw [if_neg (not_not_intro rfl), minus_eq_some (Nat.le_add_left 1 word), Nat.add_sub_cancel]
  dsimp only
  rw [List.getElem?_eq_getElem hword]
  rfl

/-- What holds before each turn of the downward search that is to find `found`. -/
structure SearchesBelow (bits : List (BitVec 64)) (found : Option ℕ) (s : ℕ × BitVec 64) :
    Prop where
  /-- A mask with a bit is of a word of the vector. -/
  inside : s.2 ≠ 0#64 → s.1 < bits.length
  /-- What is left to search has the answer. -/
  answer : ∃ h : s.1 ≤ bits.length, lastBitLoop bits s.1 h s.2 = found

/-- A turn goes one word down or ends with the answer. -/
theorem SearchesBelow.turn (hbits : FitsUsize bits) {found : Option ℕ} {s : ℕ × BitVec 64}
    (h : SearchesBelow bits found s) :
    (∃ s', lastBitTurn bits s = some (.again s') ∧ SearchesBelow bits found s' ∧ s'.1 < s.1) ∨
      ∃ r, lastBitTurn bits s = some (.done r) ∧ r = found.map (· % u32Size) := by
  obtain ⟨word, mask⟩ := s
  obtain ⟨hword, rfl⟩ := h.answer
  dsimp only at hword
  by_cases hmask : mask = 0#64
  · subst hmask
    cases word with
    | zero => exact .inr ⟨none, lastBitTurn_zero bits, rfl⟩
    | succ word =>
      refine .inl ⟨(word, bits[word]), lastBitTurn_succ hword, ?_, Nat.lt_succ_self word⟩
      exact ⟨fun _ => hword, Nat.le_of_succ_le hword, (lastBitLoop_succ_zero hword).symm⟩
  · refine .inr ⟨_, lastBitTurn_of_ne hbits (h.inside hmask) hmask, ?_⟩
    rw [lastBitLoop_of_ne hword hmask, Option.map_some]

/-- **The loop of `last_bit_before` ends** with the answer, after no more turns than there are words
below the one it starts with, and one more. -/
theorem SearchesBelow.run (hbits : FitsUsize bits) {found : Option ℕ} {s : ℕ × BitVec 64}
    (h : SearchesBelow bits found s) (hturns : s.1 < turns) :
    Loop.run (lastBitTurn bits) turns s = some (.done (found.map (· % u32Size))) := by
  obtain ⟨r, hrun, rfl⟩ :=
    Loop.run_of_variant _ _ Prod.fst (fun _ hs => SearchesBelow.turn hbits hs) h hturns
  exact hrun

/-- **`last_bit_before` never stops**, and gives the greatest index below as a `u32`. -/
theorem lastBitBeforeIn_eq (hbits : FitsUsize bits) (index : ℕ) (hturns : bits.length < turns) :
    lastBitBeforeIn turns bits index =
      some (.done ((lastBitBefore bits index).map (· % u32Size))) := by
  unfold lastBitBeforeIn lastBitBefore
  by_cases h : index / 64 < bits.length
  · rw [dif_pos h, lastBitStart_of_lt h, Option.bind_eq_bind, Option.bind_some]
    exact SearchesBelow.run hbits ⟨fun _ => h, h.le, rfl⟩ (h.trans hturns)
  · rw [dif_neg h, lastBitStart_of_le (not_lt.mp h), Option.bind_eq_bind, Option.bind_some]
    exact SearchesBelow.run hbits ⟨fun hne => absurd rfl hne, le_rfl, rfl⟩ hturns

/-! ### Searching upwards -/

/-- A turn that finds a bit. -/
lemma nextBitTurn_of_ne (hbits : FitsUsize bits) (hword : word < bits.length)
    (hmask : mask ≠ 0#64) : nextBitTurn bits (word, mask) =
      some (.done (some ((word * 64 + mask.ctz.toNat) % u32Size))) := by
  unfold FitsUsize at hbits
  have hctz : mask.ctz.toNat < 64 := BitVec.lt_def.mp (BitVec.ctz_lt_iff_ne_zero.mpr hmask)
  unfold nextBitTurn
  dsimp only
  rw [if_pos hmask, times_eq_some (by omega), Option.bind_eq_bind, Option.bind_some,
    plus_eq_some (by omega)]
  rfl

/-- A turn that goes on to the word above, if there is one. -/
lemma nextBitTurn_zero (hbits : FitsUsize bits) (hword : word < bits.length) :
    nextBitTurn bits (word, 0#64) = some (match bits[word + 1]? with
      | none => .done none
      | some mask => .again (word + 1, mask)) := by
  unfold FitsUsize usizeSize at hbits
  unfold nextBitTurn
  dsimp only
  have hfits : word + 1 < usizeSize := by
    unfold usizeSize
    omega
  rw [if_neg (not_not_intro rfl), plus_eq_some hfits, Option.bind_eq_bind, Option.bind_some]
  cases bits[word + 1]? <;> rfl

/-- What holds before each turn of the upward search that is to find `found`. -/
structure SearchesAbove (bits : List (BitVec 64)) (found : Option ℕ) (s : ℕ × BitVec 64) :
    Prop where
  /-- The mask is of a word of the vector. -/
  inside : s.1 < bits.length
  /-- What is left to search has the answer. -/
  answer : nextBitLoop s.1 s.2 (bits.drop (s.1 + 1)) = found

/-- A turn goes one word up or ends with the answer. -/
theorem SearchesAbove.turn (hbits : FitsUsize bits) {found : Option ℕ} {s : ℕ × BitVec 64}
    (h : SearchesAbove bits found s) :
    (∃ s', nextBitTurn bits s = some (.again s') ∧ SearchesAbove bits found s' ∧
        bits.length - s'.1 < bits.length - s.1) ∨
      ∃ r, nextBitTurn bits s = some (.done r) ∧ r = found.map (· % u32Size) := by
  obtain ⟨word, mask⟩ := s
  obtain ⟨hword, rfl⟩ := h
  dsimp only at hword ⊢
  by_cases hmask : mask = 0#64
  · subst hmask
    rw [nextBitTurn_zero hbits hword]
    by_cases hnext : word + 1 < bits.length
    · rw [List.getElem?_eq_getElem hnext, List.drop_eq_getElem_cons hnext]
      refine .inl ⟨(word + 1, bits[word + 1]), rfl, ⟨hnext, ?_⟩, by omega⟩
      exact (nextBitLoop_zero_cons word _ _).symm
    · rw [List.getElem?_eq_none (not_lt.mp hnext), List.drop_eq_nil_of_le (not_lt.mp hnext)]
      exact .inr ⟨none, rfl, rfl⟩
  · refine .inr ⟨_, nextBitTurn_of_ne hbits hword hmask, ?_⟩
    rw [nextBitLoop_of_ne hmask, Option.map_some]

/-- **The loop of `next_bit_from` ends** with the answer, after no more turns than there are words
from the one it starts with on, and one more. -/
theorem SearchesAbove.run (hbits : FitsUsize bits) {found : Option ℕ} {s : ℕ × BitVec 64}
    (h : SearchesAbove bits found s) (hturns : bits.length - s.1 < turns) :
    Loop.run (nextBitTurn bits) turns s = some (.done (found.map (· % u32Size))) := by
  obtain ⟨r, hrun, rfl⟩ := Loop.run_of_variant _ _
    (fun s : ℕ × BitVec 64 => bits.length - s.1)
    (fun _ hs => SearchesAbove.turn hbits hs) h hturns
  exact hrun

/-- **`next_bit_from` never stops**, and gives the least index from its own on as a `u32`. -/
theorem nextBitFromIn_eq (hbits : FitsUsize bits) (index : ℕ) (hturns : bits.length < turns) :
    nextBitFromIn turns bits index =
      some (.done ((nextBitFrom bits index).map (· % u32Size))) := by
  unfold nextBitFromIn nextBitFrom
  cases hstart : bits[index / 64]? with
  | none => rfl
  | some marks =>
    dsimp only
    rw [shiftLeft_eq_some (Nat.mod_lt index (Nat.succ_pos 63)), Option.bind_eq_bind,
      Option.bind_some]
    obtain ⟨hinside, -⟩ := List.getElem?_eq_some_iff.mp hstart
    exact SearchesAbove.run hbits ⟨hinside, rfl⟩ ((Nat.sub_le _ _).trans_lt hturns)

/-! ### Sets of indices -/

/-- What a search for the last member below an index is to find. -/
def IsLastBefore (s : Set ℕ) (index : ℕ) : Option ℕ → Prop
  | some k => IsGreatest {j | j ∈ s ∧ j < index} k
  | none => ∀ k ∈ s, index ≤ k

/-- What a search for the next member from an index on is to find. -/
def IsNextFrom (s : Set ℕ) (index : ℕ) : Option ℕ → Prop
  | some k => IsLeast {j | j ∈ s ∧ index ≤ j} k
  | none => ∀ k ∈ s, k < index

/-- The bits of a vector are the members of a set. -/
def Marks (s : Set ℕ) (bits : List (BitVec 64)) : Prop := ∀ j, HasBit bits j ↔ j ∈ s

variable {s : Set ℕ} {indices : List ℕ} {index : ℕ}

/-- The empty vector marks nothing. -/
lemma marks_nil : Marks ∅ [] := fun j => iff_of_false (not_hasBit_nil j) (Set.notMem_empty j)

/-- Setting a bit inserts its index. -/
theorem Marks.setBit (h : Marks s bits) (i : ℕ) : Marks (insert i s) (setBit bits i) := by
  intro j
  rw [hasBit_setBit, h j, Set.mem_insert_iff]

/-- A sequence of calls inserts their indices. -/
lemma Marks.foldl_setBit (h : Marks s bits) (indices : List ℕ) :
    Marks ({j | j ∈ indices} ∪ s) (indices.foldl Deshred.setBit bits) := by
  induction indices generalizing s bits with
  | nil =>
    intro j
    rw [List.foldl_nil, h j]
    simp
  | cons i indices ih =>
    intro j
    rw [List.foldl_cons, ih (h.setBit i) j]
    simp only [Set.mem_union, Set.mem_ofPred_eq, Set.mem_insert_iff, List.mem_cons]
    rw [or_left_comm, or_assoc]

/-- The vector of a sequence of calls marks the indices of the calls. -/
lemma marks_foldl_setBit (indices : List ℕ) :
    Marks {j | j ∈ indices} (indices.foldl setBit []) := by
  have hmarks := marks_nil.foldl_setBit indices
  rwa [Set.union_empty] at hmarks

/-- The downward search finds the last member below its index. -/
lemma Marks.isLastBefore (h : Marks s bits) (index : ℕ) :
    IsLastBefore s index (lastBitBefore bits index) := by
  have hset : {j | j < index ∧ HasBit bits j} = {j | j ∈ s ∧ j < index} := by
    ext j
    rw [Set.mem_ofPred_eq, Set.mem_ofPred_eq, h j, and_comm]
  cases hfound : lastBitBefore bits index with
  | none =>
    intro k hk
    exact not_lt.mp fun hlt => lastBitBefore_eq_none_iff.mp hfound k hlt ((h k).mpr hk)
  | some k =>
    have hgreatest := lastBitBefore_eq_some_iff.mp hfound
    rwa [hset] at hgreatest

/-- The upward search finds the next member from its index on. -/
lemma Marks.isNextFrom (h : Marks s bits) (index : ℕ) :
    IsNextFrom s index (nextBitFrom bits index) := by
  have hset : {j | index ≤ j ∧ HasBit bits j} = {j | j ∈ s ∧ index ≤ j} := by
    ext j
    rw [Set.mem_ofPred_eq, Set.mem_ofPred_eq, h j, and_comm]
  cases hfound : nextBitFrom bits index with
  | none =>
    intro k hk
    exact not_le.mp fun hle => nextBitFrom_eq_none_iff.mp hfound k hle ((h k).mpr hk)
  | some k =>
    have hleast := nextBitFrom_eq_some_iff.mp hfound
    rwa [hset] at hleast

/-- What lies below a `u32` is a `u32` as it is. -/
lemma map_lastBitBefore (bits : List (BitVec 64)) (hindex : index < u32Size) :
    (lastBitBefore bits index).map (· % u32Size) = lastBitBefore bits index := by
  cases hfound : lastBitBefore bits index with
  | none => rfl
  | some k =>
    have hlt : k < index := (lastBitBefore_eq_some_iff.mp hfound).1.1
    rw [Option.map_some, Nat.mod_eq_of_lt (hlt.trans hindex)]

/-- A vector with `u32` bits gives one as it is. -/
lemma map_nextBitFrom (h : ∀ j, HasBit bits j → j < u32Size) (index : ℕ) :
    (nextBitFrom bits index).map (· % u32Size) = nextBitFrom bits index := by
  cases hfound : nextBitFrom bits index with
  | none => rfl
  | some k =>
    rw [Option.map_some, Nat.mod_eq_of_lt (h k (nextBitFrom_eq_some_iff.mp hfound).1.2)]

/-- **The end markers behave as a set of indices.**  After any sequence of calls of `set_bit`, none
of which stops, both searches return, and neither stops: the downward one finds the last index of
the calls below its own, and the upward one the next index of the calls from its own on, if these
are `u32` indices, as all callers have it. -/
theorem endMarkers_behave_as_set (hindices : ∀ k ∈ indices, k < usizeSize)
    (hindex : index < u32Size) :
    ∃ bits, setBits indices = some bits ∧
      (∃ last, IsLastBefore {k | k ∈ indices} index last ∧
        ∀ turns, bits.length < turns → lastBitBeforeIn turns bits index = some (.done last)) ∧
      ∃ next, ((∀ k ∈ indices, k < u32Size) → IsNextFrom {k | k ∈ indices} index next) ∧
        ∀ turns, bits.length < turns → nextBitFromIn turns bits index = some (.done next) := by
  have hmarks := marks_foldl_setBit indices
  have hbits : FitsUsize (indices.foldl setBit []) := fitsUsize_nil.foldl_setBit hindices
  refine ⟨_, foldlM_setBitChecked hindices [], ⟨_, hmarks.isLastBefore index, ?_⟩, ?_⟩
  · intro turns hturns
    rw [lastBitBeforeIn_eq hbits index hturns, map_lastBitBefore _ hindex]
  · refine ⟨_, fun hsmall => ?_, fun turns hturns => nextBitFromIn_eq hbits index hturns⟩
    rw [map_nextBitFrom (fun j hj => hsmall j ((hmarks j).mp hj))]
    exact hmarks.isNextFrom index

/-- Bits in three words, and searches from the first bit of the second: the last one below is in the
word before, and the next one is that bit. -/
theorem endMarkers_behave_as_set_across_words :
    ∃ bits, setBits [3, 64, 200] = some bits ∧
      (∀ turns, bits.length < turns → lastBitBeforeIn turns bits 64 = some (.done (some 3))) ∧
      ∀ turns, bits.length < turns → nextBitFromIn turns bits 64 = some (.done (some 64)) := by
  obtain ⟨bits, hbits, ⟨last, hlast, hlastRun⟩, next, hnext, hnextRun⟩ :=
    @endMarkers_behave_as_set [3, 64, 200] 64 (by decide) (by decide)
  have hthree : last = some 3 := by
    cases last with
    | none => exact absurd (hlast 3 List.mem_cons_self) (by decide)
    | some k =>
      have hgreatest : IsGreatest {j | j ∈ [3, 64, 200] ∧ j < 64} 3 := by
        refine ⟨⟨List.mem_cons_self, by decide⟩, fun j hj => ?_⟩
        obtain ⟨hmem, hlt⟩ := hj
        simp only [List.mem_cons, List.not_mem_nil, or_false] at hmem
        omega
      rw [IsGreatest.unique hlast hgreatest]
  have hsame : next = some 64 := by
    replace hnext := hnext (by decide)
    cases next with
    | none => exact absurd (hnext 64 (List.mem_cons_of_mem 3 List.mem_cons_self)) (by decide)
    | some k =>
      have hleast : IsLeast {j | j ∈ [3, 64, 200] ∧ 64 ≤ j} 64 :=
        ⟨⟨List.mem_cons_of_mem 3 List.mem_cons_self, le_rfl⟩, fun j hj => hj.2⟩
      rw [IsLeast.unique hnext hleast]
  rw [hthree] at hlastRun
  rw [hsame] at hnextRun
  exact ⟨bits, hbits, hlastRun, hnextRun⟩

/-! ### The end markers of a slot -/

/-- The vector of a sequence of calls of `set_bit` with `u32` indices. -/
def SetByU32 (bits : List (BitVec 64)) : Prop :=
  ∃ indices : List ℕ, (∀ k ∈ indices, k < u32Size) ∧ indices.foldl setBit [] = bits

/-- One more call. -/
theorem SetByU32.setBit (h : SetByU32 bits) {i : ℕ} (hi : i < u32Size) :
    SetByU32 (setBit bits i) := by
  obtain ⟨indices, hindices, rfl⟩ := h
  refine ⟨indices ++ [i], ?_, List.foldl_append ..⟩
  rw [List.forall_mem_append, List.forall_mem_singleton]
  exact ⟨hindices, hi⟩

namespace SlotState

variable {Entry : Type*} {st : SlotState}

/-- The index of a shred is marked, if any. -/
lemma setByU32_insertDataShred (h : SetByU32 st.dataSetEnds) (shred : Shred) :
    SetByU32 (st.insertDataShred shred).1.dataSetEnds := by
  unfold insertDataShred
  dsimp only
  split
  · exact h
  · dsimp only
    split
    · exact h.setBit (Nat.lt_of_succ_lt shred.index_lt)
    · exact h

lemma setByU32_insertCodingShred (h : SetByU32 st.dataSetEnds) (shred : Shred) :
    SetByU32 (st.insertCodingShred shred).dataSetEnds := by
  unfold insertCodingShred
  split
  · exact h
  · dsimp only
    split <;> exact h

lemma setByU32_foldl_insertRecovered (shreds : List (Option Shred)) (acc : SlotState × ℕ × Bool)
    (h : SetByU32 acc.1.dataSetEnds) :
    SetByU32 (shreds.foldl insertRecovered acc).1.dataSetEnds := by
  induction shreds generalizing acc with
  | nil => exact h
  | cons shred shreds ih =>
    refine ih _ ?_
    unfold insertRecovered
    cases shred with
    | none => exact h
    | some shred =>
      dsimp only
      split
      · exact setByU32_insertDataShred h shred
      · exact h

lemma setByU32_rebuild (h : SetByU32 st.dataSetEnds) (agave : Agave Entry)
    (recoveryInput : List Shred) :
    SetByU32 (st.rebuild agave recoveryInput).1.dataSetEnds := by
  unfold rebuild
  split
  · exact setByU32_foldl_insertRecovered _ _ h
  · exact h

lemma setByU32_recover (h : SetByU32 st.dataSetEnds) (agave : Agave Entry) (fecSetIndex : ℕ) :
    SetByU32 (st.recover agave fecSetIndex).1.dataSetEnds := by
  unfold recover
  split
  · exact h
  · dsimp only
    split
    · exact h
    · split
      · exact h
      · have htried : ∀ codingSets, SetByU32 { st with codingSets }.dataSetEnds := fun _ => h
        dsimp only
        split <;> exact setByU32_rebuild (htried _) agave _

lemma setByU32_takeIfHeld (h : SetByU32 st.dataSetEnds) (agave : Agave Entry) (start stop : ℕ) :
    SetByU32 (st.takeIfHeld agave start stop).1.dataSetEnds := by
  unfold takeIfHeld takeDataSet
  split
  · dsimp only
    split
    · exact ⟨[], List.forall_mem_nil _, rfl⟩
    · exact h
  · exact h

/-- The end markers of every reachable state were made by calls of `set_bit` with the indices of
shreds. -/
lemma Reachable.setByU32 (h : Reachable Entry st) : SetByU32 st.dataSetEnds := by
  induction h with
  | new slot => exact ⟨[], List.forall_mem_nil _, rfl⟩
  | insertDataShred _ _ shred ih => exact setByU32_insertDataShred ih shred
  | insertCodingShred _ _ shred ih => exact setByU32_insertCodingShred ih shred
  | recover _ _ agave fecSetIndex ih => exact setByU32_recover ih agave fecSetIndex
  | takeIfHeld _ _ agave _ ih => exact setByU32_takeIfHeld ih agave _ _

/-- **The searches of the deshredder return what is searched for.**  In every reachable state of a
slot neither stops, and each gives a `u32` index as it is. -/
theorem Reachable.searches_eq (h : Reachable Entry st) {index turns : ℕ} (hindex : index < u32Size)
    (hturns : st.dataSetEnds.length < turns) :
    lastBitBeforeIn turns st.dataSetEnds index =
        some (.done (lastBitBefore st.dataSetEnds index)) ∧
      nextBitFromIn turns st.dataSetEnds index =
        some (.done (nextBitFrom st.dataSetEnds index)) := by
  obtain ⟨indices, hindices, heq⟩ := h.setByU32
  rw [← heq] at hturns ⊢
  have hbits : FitsUsize (indices.foldl setBit []) :=
    fitsUsize_nil.foldl_setBit fun k hk => (hindices k hk).trans (by decide)
  rw [lastBitBeforeIn_eq hbits index hturns, map_lastBitBefore _ hindex,
    nextBitFromIn_eq hbits index hturns,
    map_nextBitFrom fun j hj => hindices j ((marks_foldl_setBit indices j).mp hj)]
  exact ⟨rfl, rfl⟩

end SlotState

end ShredTools.Deshred
