import Mathlib.Algebra.BigOperators.Group.List.Basic
import Mathlib.Algebra.Order.BigOperators.Group.List
import Mathlib.Algebra.Order.Group.Unbundled.Basic
import Mathlib.Data.Nat.Basic
import Mathlib.Order.Lattice

/-!
# Arithmetic at the ends of a word

A machine word ends somewhere, and there are operations for those who mind.  They are given here for
numbers in general, with the two ways in which an operation can mind.

An operation may stop, rather than wrap: natural numbers below `size` have such a sum and product,
and such a difference and remainder.  Each succeeds exactly with the result of arithmetic
(`CheckedWords.plus_eq_some_iff`).  A word whose bits matter is a `BitVec`, and a shift stops if it
is as wide as the word.

An operation may also saturate: `saturate lo hi a` is the number nearest to `a` between two bounds.
A loop that saturates after every addition need not end at the saturated sum, since it forgets what
it cut off; but a loop that only adds moves one way, and does (`foldl_saturate_add`).  It moves by
exactly the sum if and only if the sum fits (`saturate_add_eq_iff`).
-/

/-! ### Operations that stop -/

namespace CheckedWords

variable {size a b c : ℕ}

/-- The sum, if it fits. -/
def plus (size a b : ℕ) : Option ℕ := if a + b < size then some (a + b) else none

/-- The product, if it fits. -/
def times (size a b : ℕ) : Option ℕ := if a * b < size then some (a * b) else none

/-- The difference, if it is not negative. -/
def minus (a b : ℕ) : Option ℕ := if b ≤ a then some (a - b) else none

/-- The remainder, if the divisor is not zero. -/
def rem (a b : ℕ) : Option ℕ := if b = 0 then none else some (a % b)

/-- A word of bits with its bits moved up, if the distance is less than its width. -/
def shiftLeft {width : ℕ} (x : BitVec width) (n : ℕ) : Option (BitVec width) :=
  if n < width then some (x <<< n) else none

/-- The difference of two words of bits, if it is not negative. -/
def sub {width : ℕ} (x y : BitVec width) : Option (BitVec width) :=
  if y ≤ x then some (x - y) else none

theorem plus_eq_some_iff : plus size a b = some c ↔ a + b < size ∧ a + b = c := by
  unfold plus
  rw [Option.ite_none_right_eq_some, Option.some.injEq]

theorem times_eq_some_iff : times size a b = some c ↔ a * b < size ∧ a * b = c := by
  unfold times
  rw [Option.ite_none_right_eq_some, Option.some.injEq]

theorem plus_eq_some (h : a + b < size) : plus size a b = some (a + b) := if_pos h

theorem times_eq_some (h : a * b < size) : times size a b = some (a * b) := if_pos h

theorem minus_eq_some (h : b ≤ a) : minus a b = some (a - b) := if_pos h

theorem shiftLeft_eq_some {width n : ℕ} (h : n < width) (x : BitVec width) :
    shiftLeft x n = some (x <<< n) := if_pos h

theorem sub_eq_some {width : ℕ} {x y : BitVec width} (h : y ≤ x) : sub x y = some (x - y) :=
  if_pos h

/-- A remainder by a positive number exists, and is smaller. -/
theorem exists_rem (a : ℕ) (hb : 0 < b) : ∃ c, rem a b = some c ∧ c < b :=
  ⟨a % b, if_neg (Nat.pos_iff_ne_zero.mp hb), Nat.mod_lt a hb⟩

end CheckedWords

/-! ### Operations that saturate -/

universe u

variable {α : Type u} [LinearOrder α]

/-- The nearest number between two bounds. -/
def saturate (lo hi a : α) : α := max lo (min a hi)

/-- What lies between the bounds stays. -/
theorem saturate_eq_self {lo hi a : α} (hlo : lo ≤ a) (hhi : a ≤ hi) : saturate lo hi a = a := by
  unfold saturate
  rw [min_eq_left hhi, max_eq_right hlo]

/-- What lies above the upper bound becomes it. -/
theorem saturate_eq_right {lo hi a : α} (hbounds : lo ≤ hi) (ha : hi ≤ a) :
    saturate lo hi a = hi := by
  unfold saturate
  rw [min_eq_right ha, max_eq_right hbounds]

/-- The lower bound is kept. -/
lemma le_saturate (lo hi a : α) : lo ≤ saturate lo hi a := le_max_left _ _

/-- The upper bound is kept. -/
theorem saturate_le {lo hi : α} (hbounds : lo ≤ hi) (a : α) : saturate lo hi a ≤ hi :=
  max_le hbounds (min_le_right _ _)

section Add

variable [AddCommGroup α] [IsOrderedAddMonoid α] {lo hi : α}

/-- More is added after saturating, or before. -/
lemma saturate_saturate_add {a b c : α} (ha : lo ≤ a) (hb : 0 ≤ b) (hc : 0 ≤ c)
    (hbounds : lo ≤ hi) :
    saturate lo hi (saturate lo hi (a + b) + c) = saturate lo hi (a + (b + c)) := by
  have hlo : lo ≤ a + b := ha.trans (le_add_of_nonneg_right hb)
  rcases le_total (a + b) hi with hfits | hover
  · rw [saturate_eq_self hlo hfits, add_assoc]
  · have hmore : hi ≤ a + (b + c) := by
      rw [← add_assoc]
      exact hover.trans (le_add_of_nonneg_right hc)
    rw [saturate_eq_right hbounds hover, saturate_eq_right hbounds (le_add_of_nonneg_right hc),
      saturate_eq_right hbounds hmore]

/-- A loop that adds and saturates ends at the saturated sum. -/
theorem foldl_saturate_add (l : List α) (hl : ∀ x ∈ l, 0 ≤ x) {a : α} (hlo : lo ≤ a)
    (hhi : a ≤ hi) :
    l.foldl (fun a x => saturate lo hi (a + x)) a = saturate lo hi (a + l.sum) := by
  have hbounds : lo ≤ hi := hlo.trans hhi
  induction l generalizing a with
  | nil => rw [List.foldl_nil, List.sum_nil, add_zero, saturate_eq_self hlo hhi]
  | cons x l ih =>
    have hx : 0 ≤ x := hl x List.mem_cons_self
    have hrest : ∀ y ∈ l, 0 ≤ y := fun y hy => hl y (List.mem_cons_of_mem x hy)
    rw [List.foldl_cons, ih hrest (le_saturate lo hi _) (saturate_le hbounds _), List.sum_cons,
      saturate_saturate_add hlo hx (List.sum_nonneg hrest) hbounds]

/-- A sum that grows is kept if and only if it fits. -/
theorem saturate_add_eq_iff {a b : α} (hlo : lo ≤ a) (hb : 0 ≤ b) (hbounds : lo ≤ hi) :
    saturate lo hi (a + b) = a + b ↔ a + b ≤ hi := by
  constructor
  · intro heq
    rw [← heq]
    exact saturate_le hbounds _
  · intro hfits
    exact saturate_eq_self (hlo.trans (le_add_of_nonneg_right hb)) hfits

end Add
