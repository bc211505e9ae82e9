import Mathlib.Data.Nat.ModEq
import ShredTools.Postpack.Payments

/-!
# The arithmetic of credits

What a payment buys is a floor, `amount * price * CREDITS_PER_CENT / 10 ^ decimals`, and the checks
on the way refuse nothing that fits: a product that leaves 128 bits has a quotient that leaves 64.
Everything else follows from the floor: what splitting a payment loses, and how the two floors of a
quote, in cents and in credits, compare.

`quoteLamports` is the quote of an amount of lamports, and `creditsBought` the floor that the others
are compared with.  `creditsForPayment_eq_ok_iff` reduces the code to that number; the rest of
`credit_arithmetic` is about floors only.  The text of the error for cents that do not fit comes
from the standard library, and is a parameter.
-/

namespace ShredTools.Postpack

/-- `LAMPORTS_PER_SOL` -/
def lamportsPerSol : ℕ := 1000000000

/-- `CreditsQuote` -/
structure CreditsQuote where
  /-- The lamports asked for. -/
  lamports : ℕ
  /-- What they are worth. -/
  usdCents : ℕ
  /-- The credits that they buy. -/
  credits : ℕ
  /-- The price of a SOL. -/
  solUsdPriceCents : ℕ
  /-- The credits of a dollar. -/
  creditsPerUsd : ℕ
  /-- When the price was learned. -/
  updatedAt : Instant
  deriving DecidableEq

/-- `quote_lamports`, with the text of a `TryFromIntError` -/
def quoteLamports (tryFromIntError : String) (lamports : ℕ) (price : SolPrice) :
    Except String CreditsQuote :=
  if lamports = 0 then .error "lamports must be positive"
  else
    -- the product of two 64-bit numbers fits in the 128 bits that the source computes it in
    let usdCents := lamports * price.cents / lamportsPerSol
    if u64Size ≤ usdCents then .error tryFromIntError
    else
      match creditsForPayment lamports .sol price.cents with
      | .error error => .error error
      | .ok credits => .ok
        { lamports := lamports
          usdCents := usdCents
          credits := credits
          solUsdPriceCents := price.cents
          creditsPerUsd := creditsPerCent * 100
          updatedAt := price.updatedAt }

/-- The credits that an amount is worth, rounded down, before any check. -/
def creditsBought (amount : ℕ) (token : PaymentToken) (price : ℕ) : ℕ :=
  amount * price * creditsPerCent / 10 ^ token.decimals

/-- No token is divided into more than a billion parts. -/
lemma PaymentToken.pow_decimals_le (token : PaymentToken) : 10 ^ token.decimals ≤ 10 ^ 9 := by
  cases token <;> decide

/-- `checked_mul` is the product, if it fits. -/
lemma checkedMul_eq_some_iff {a b c : ℕ} :
    checkedMul a b = some c ↔ a * b = c ∧ a * b < u128Size := by
  unfold checkedMul
  rw [Option.ite_none_right_eq_some, Option.some.injEq, and_comm]

/-- Two products in a row give their value if the last one fits, since the first is no larger. -/
lemma checkedMul_bind {a b c : ℕ} (hc : 0 < c) :
    (checkedMul a b).bind (checkedMul · c) =
      if a * b * c < u128Size then some (a * b * c) else none := by
  by_cases hfits : a * b * c < u128Size
  · have hfirst : a * b < u128Size := (Nat.le_mul_of_pos_right _ hc).trans_lt hfits
    rw [checkedMul_eq_some_iff.mpr ⟨rfl, hfirst⟩, Option.bind_some, if_pos hfits]
    exact checkedMul_eq_some_iff.mpr ⟨rfl, hfits⟩
  · rw [if_neg hfits, Option.bind_eq_none_iff]
    intro product hproduct
    rw [← (checkedMul_eq_some_iff.mp hproduct).1]
    exact if_neg hfits

/-- What does not fit in 128 bits is worth more credits than fit in 64. -/
lemma u64Size_le_creditsBought {amount price : ℕ} (token : PaymentToken)
    (h : u128Size ≤ amount * price * creditsPerCent) :
    u64Size ≤ creditsBought amount token price := by
  unfold creditsBought
  rw [Nat.le_div_iff_mul_le (Nat.pow_pos (by decide))]
  calc u64Size * 10 ^ token.decimals ≤ u64Size * 10 ^ 9 :=
        Nat.mul_le_mul_left _ token.pow_decimals_le
    _ ≤ u128Size := by decide
    _ ≤ amount * price * creditsPerCent := h

/-- **What a payment buys.**  The floor, if it fits; otherwise an error. -/
theorem creditsForPayment_eq_ok_iff {amount price credits : ℕ} {token : PaymentToken} :
    creditsForPayment amount token price = .ok credits ↔
      credits = creditsBought amount token price ∧ credits < u64Size := by
  unfold creditsForPayment
  dsimp only
  rw [checkedMul_bind (by decide)]
  by_cases hfits : amount * price * creditsPerCent < u128Size
  · rw [if_pos hfits]
    dsimp only
    change (if creditsBought amount token price < u64Size then _ else _) = _ ↔ _
    split_ifs with hcredits
    · rw [Except.ok.injEq]
      constructor
      · intro heq
        rw [← heq]
        exact ⟨rfl, hcredits⟩
      · intro h
        exact h.1.symm
    · constructor
      · intro herror
        cases herror
      · intro ⟨heq, hlt⟩
        rw [heq] at hlt
        exact absurd hlt hcredits
  · rw [if_neg hfits]
    constructor
    · intro herror
      cases herror
    · intro ⟨heq, hlt⟩
      have hlarge := u64Size_le_creditsBought token (not_lt.mp hfits)
      omega

/-- A payment is refused exactly if it buys more credits than fit. -/
lemma creditsForPayment_eq_error_iff {amount price : ℕ} {token : PaymentToken} :
    (∃ error, creditsForPayment amount token price = .error error) ↔
      u64Size ≤ creditsBought amount token price := by
  cases hcredits : creditsForPayment amount token price with
  | ok credits =>
    obtain ⟨heq, hlt⟩ := creditsForPayment_eq_ok_iff.mp hcredits
    rw [heq] at hlt
    simpa using hlt
  | error error =>
    refine ⟨fun _ => ?_, fun _ => ⟨error, rfl⟩⟩
    by_contra hlt
    rw [creditsForPayment_eq_ok_iff.mpr ⟨rfl, not_le.mp hlt⟩] at hcredits
    cases hcredits

/-! ### Splitting a payment -/

/-- Splitting an amount loses at most one credit and gains none. -/
lemma creditsBought_add (a b price : ℕ) (token : PaymentToken) :
    creditsBought a token price + creditsBought b token price ≤
        creditsBought (a + b) token price ∧
      creditsBought (a + b) token price ≤
        creditsBought a token price + creditsBought b token price + 1 := by
  unfold creditsBought
  rw [Nat.add_mul, Nat.add_mul]
  exact ⟨Nat.div_add_div_le_add_div, Nat.add_div_le_div_add_div_add_one _ _ _⟩

/-! ### Quotes -/

/-- What a quote says. -/
lemma quoteLamports_eq_ok {tryFromIntError : String} {lamports : ℕ} {price : SolPrice}
    {quote : CreditsQuote} (h : quoteLamports tryFromIntError lamports price = .ok quote) :
    quote.usdCents = lamports * price.cents / lamportsPerSol ∧
      quote.credits = creditsBought lamports .sol price.cents := by
  unfold quoteLamports at h
  split_ifs at h with hzero
  dsimp only at h
  split_ifs at h with husd
  cases hcredits : creditsForPayment lamports .sol price.cents with
  | error error =>
    rw [hcredits] at h
    cases h
  | ok credits =>
    rw [hcredits] at h
    obtain rfl := Except.ok.inj h
    exact ⟨rfl, (creditsForPayment_eq_ok_iff.mp hcredits).1⟩

/-- The floor in credits lies between the floor in cents and the next cent. -/
lemma floor_mul_bounds (n k : ℕ) {d : ℕ} (hd : 0 < d) (hk : 0 < k) :
    k * (n / d) ≤ n * k / d ∧ n * k / d < k * (n / d + 1) := by
  constructor
  · rw [Nat.le_div_iff_mul_le hd]
    calc k * (n / d) * d = k * (n / d * d) := Nat.mul_assoc ..
      _ ≤ k * n := Nat.mul_le_mul_left _ (Nat.div_mul_le_self n d)
      _ = n * k := Nat.mul_comm ..
  · rw [Nat.div_lt_iff_lt_mul hd]
    calc n * k < d * (n / d + 1) * k := Nat.mul_lt_mul_of_pos_right (Nat.lt_mul_div_succ n hd) hk
      _ = k * (n / d + 1) * d := by
        rw [Nat.mul_comm d, Nat.mul_comm k, Nat.mul_right_comm]

/-- **The arithmetic of credits.**  For every amount, price and token the answer is the floor
exactly if it fits and an error otherwise; splitting a payment gains nothing and loses at most one
credit; and a quote's credits lie between those of its cents and those of the next cent. -/
theorem credit_arithmetic (token : PaymentToken) (price : ℕ) :
    (∀ amount credits, creditsForPayment amount token price = .ok credits ↔
      credits = amount * price * creditsPerCent / 10 ^ token.decimals ∧ credits < u64Size) ∧
    (∀ amount, (∃ error, creditsForPayment amount token price = .error error) ↔
      u64Size ≤ amount * price * creditsPerCent / 10 ^ token.decimals) ∧
    (∀ a b creditsA creditsB credits, creditsForPayment a token price = .ok creditsA →
      creditsForPayment b token price = .ok creditsB →
      creditsForPayment (a + b) token price = .ok credits →
      creditsA + creditsB ≤ credits ∧ credits ≤ creditsA + creditsB + 1) ∧
    ∀ tryFromIntError lamports solPrice quote,
      quoteLamports tryFromIntError lamports solPrice = .ok quote →
      2000 * quote.usdCents ≤ quote.credits ∧ quote.credits < 2000 * (quote.usdCents + 1) := by
  refine ⟨fun _ _ => creditsForPayment_eq_ok_iff, fun _ => creditsForPayment_eq_error_iff, ?_, ?_⟩
  · intro a b creditsA creditsB credits ha hb hsum
    rw [(creditsForPayment_eq_ok_iff.mp ha).1, (creditsForPayment_eq_ok_iff.mp hb).1,
      (creditsForPayment_eq_ok_iff.mp hsum).1]
    exact creditsBought_add a b price token
  · intro tryFromIntError lamports solPrice quote hquote
    obtain ⟨husd, hcredits⟩ := quoteLamports_eq_ok hquote
    rw [husd, hcredits]
    exact floor_mul_bounds (lamports * solPrice.cents) 2000 (by decide) (by decide)

end ShredTools.Postpack
