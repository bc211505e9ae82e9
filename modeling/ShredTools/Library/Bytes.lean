import Mathlib.Algebra.GroupWithZero.Nat
import Mathlib.Algebra.Order.Monoid.NatCast
import Mathlib.Data.List.Basic
import Mathlib.Order.Nat
import Mathlib.Tactic.Ring

/-!
# Numbers as bytes and as text

`toLeBytes` writes a number in so many bytes, the lowest first; numbers that fit have different
bytes (`toLeBytes_inj`).

`compactU16` writes a small number in one to three bytes of seven bits, the lowest first, with the
high bit of a byte set if another one follows.

`hexText` writes a number in hexadecimal, without leading zeros.  Different numbers have different
texts, and so do different pairs of numbers written one after the other, if the first ones have as
many digits (`hexText_append_inj`).  Without that they need not: 1 and 23 is written as 12 and 3 is.
-/

/-! ### Bytes -/

/-- A number in so many bytes, the lowest first. -/
def toLeBytes : ℕ → ℕ → List UInt8
  | 0, _ => []
  | size + 1, n => UInt8.ofNat n :: toLeBytes size (n / 256)

@[simp] theorem length_toLeBytes (size n : ℕ) : (toLeBytes size n).length = size := by
  induction size generalizing n with
  | zero => rfl
  | succ size ih => rw [toLeBytes, List.length_cons, ih]

/-- Numbers that fit have different bytes. -/
theorem toLeBytes_inj {size m n : ℕ} (hm : m < 256 ^ size) (hn : n < 256 ^ size) :
    toLeBytes size m = toLeBytes size n ↔ m = n := by
  refine ⟨fun h => ?_, fun h => h ▸ rfl⟩
  induction size generalizing m n with
  | zero =>
    rw [pow_zero, Nat.lt_one_iff] at hm hn
    rw [hm, hn]
  | succ size ih =>
    obtain ⟨hlow, hhigh⟩ := List.cons.inj h
    have hlow := congrArg UInt8.toNat hlow
    rw [UInt8.toNat_ofNat', UInt8.toNat_ofNat'] at hlow
    have hhigh := ih (Nat.div_lt_of_lt_mul (by rwa [pow_succ, mul_comm] at hm))
      (Nat.div_lt_of_lt_mul (by rwa [pow_succ, mul_comm] at hn)) hhigh
    omega

/-- A number in compact form. -/
def compactU16 (n : ℕ) : List UInt8 :=
  if n < 128 then [UInt8.ofNat n]
  else if n < 128 * 128 then [UInt8.ofNat (n % 128 + 128), UInt8.ofNat (n / 128)]
  else
    [UInt8.ofNat (n % 128 + 128), UInt8.ofNat (n / 128 % 128 + 128),
      UInt8.ofNat (n / (128 * 128))]

/-- The low seven bits of a byte. -/
theorem UInt8.toNat_and_0x7f (byte : UInt8) : (byte &&& 0x7f).toNat = byte.toNat % 128 := by
  rw [UInt8.toNat_and]
  exact Nat.and_two_pow_sub_one_eq_mod byte.toNat 7

/-- The high bit of a byte. -/
theorem UInt8.and_0x80_eq_zero_iff (byte : UInt8) : byte &&& 0x80 = 0 ↔ byte.toNat < 128 := by
  have hall : ∀ i : Fin 256, i.val &&& 128 = i.val / 128 * 128 := by decide +kernel
  have hand : (byte &&& 0x80).toNat = byte.toNat / 128 * 128 := by
    rw [UInt8.toNat_and]
    exact hall ⟨byte.toNat, byte.toNat_lt⟩
  rw [← UInt8.toNat_inj, hand, UInt8.toNat_zero]
  omega

/-! ### Hexadecimal texts -/

/-- A number in hexadecimal. -/
def hexText (n : ℕ) : String := String.ofList (Nat.toDigits 16 n)

/-- The digits say what the number is. -/
lemma toDigits_sixteen_injective : Function.Injective (Nat.toDigits 16) := by
  have hdigit : ∀ m < 16, ∀ n < 16, Nat.digitChar m = Nat.digitChar n → m = n := by decide
  intro m
  induction m using Nat.strongRecOn with
  | ind m ih =>
    intro n heq
    rw [Nat.toDigits_eq_if (n := m) (by decide), Nat.toDigits_eq_if (n := n) (by decide)] at heq
    have hsplit : ∀ (l s : List Char) {c c' : Char}, l ++ [c] = s ++ [c'] → l = s ∧ c = c' := by
      intro l s c c' h
      obtain ⟨hl, hc⟩ := List.append_inj' h rfl
      exact ⟨hl, List.singleton_inj.mp hc⟩
    split_ifs at heq with hm hn hn
    · exact hdigit m hm n hn (List.singleton_inj.mp heq)
    · exact absurd (hsplit [] _ heq).1.symm Nat.toDigits_ne_nil
    · exact absurd (hsplit _ [] heq).1 Nat.toDigits_ne_nil
    · obtain ⟨hdiv, hmod⟩ := hsplit _ _ heq
      have hdiv := ih (m / 16) (by omega) hdiv
      have hmod := hdigit (m % 16) (by omega) (n % 16) (by omega) hmod
      omega

/-- A number between two powers of sixteen has as many digits as the exponent of the second one. -/
lemma length_toDigits_sixteen {d n : ℕ} (hlow : 16 ^ d ≤ n) (hhigh : n < 16 ^ (d + 1)) :
    (Nat.toDigits 16 n).length = d + 1 := by
  refine le_antisymm ((Nat.length_toDigits_le_iff (by decide) d.succ_pos).mpr hhigh) ?_
  rcases Nat.eq_zero_or_pos d with rfl | hd
  · exact Nat.length_toDigits_pos
  · by_contra hfew
    exact absurd ((Nat.length_toDigits_le_iff (by decide) hd).mp (by omega)) (not_lt.mpr hlow)

/-- Two numbers one after the other can be read back, if it is known where the first one ends. -/
theorem hexText_append_inj {d m n m' n' : ℕ} (hlow : 16 ^ d ≤ m) (hhigh : m < 16 ^ (d + 1))
    (hlow' : 16 ^ d ≤ m') (hhigh' : m' < 16 ^ (d + 1))
    (heq : hexText m ++ hexText n = hexText m' ++ hexText n') : m = m' ∧ n = n' := by
  have hlist := congrArg String.toList heq
  unfold hexText at hlist
  rw [String.toList_append, String.toList_append, String.toList_ofList, String.toList_ofList,
    String.toList_ofList, String.toList_ofList] at hlist
  have hlength : (Nat.toDigits 16 m).length = (Nat.toDigits 16 m').length := by
    rw [length_toDigits_sixteen hlow hhigh, length_toDigits_sixteen hlow' hhigh']
  obtain ⟨hm, hn⟩ := List.append_inj hlist hlength
  exact ⟨toDigits_sixteen_injective hm, toDigits_sixteen_injective hn⟩
