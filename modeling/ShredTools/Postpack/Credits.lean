import Mathlib.Algebra.Group.Nat.Defs
import Mathlib.Data.Int.Notation
import Mathlib.Data.Nat.Notation

/-!
# Credits and payments

How many credits a payment buys, and which changes of a balance an administrator may make.
Amounts and balances are integers, and every conversion and overflow check of the source is written
out.  Each error carries the text of the source.

`creditsForPayment` multiplies an amount by the price of the token in cents and by the credits of a
cent, with both products checked, and divides by what a whole token is; the rest is dropped.
`CreditChange.asked` is what a change asks for by its reason: some credits, or those that a recorded
payment buys.  Then `CreditChange.delta` checks its size and that it has a comment.  A tip is never
recorded in this way (`CreditChange.reason_ne_tip`).
-/

namespace ShredTools.Postpack

/-- `i64::MIN` -/
def i64Min : ℤ := -0x8000000000000000

/-- `i64::MAX` -/
def i64Max : ℤ := 0x7fffffffffffffff

/-- The number of 64-bit numbers. -/
def u64Size : ℕ := 0x10000000000000000

/-- The number of 128-bit numbers. -/
def u128Size : ℕ := 0x100000000000000000000000000000000

/-- `i64::checked_add` -/
def checkedAdd (a b : ℤ) : Option ℤ :=
  if i64Min ≤ a + b ∧ a + b ≤ i64Max then some (a + b) else none

/-- `i64::saturating_add` -/
def saturatingAdd (a b : ℤ) : ℤ := max i64Min (min (a + b) i64Max)

/-- `u128::checked_mul` -/
def checkedMul (a b : ℕ) : Option ℕ := if a * b < u128Size then some (a * b) else none

/-- `u64::try_from` for a signed number -/
def toU64 (a : ℤ) : Option ℕ := if 0 ≤ a ∧ a < u64Size then some a.toNat else none

/-- `i64::try_from` for an unsigned number -/
def toI64 (a : ℕ) : Option ℤ := if (a : ℤ) ≤ i64Max then some a else none

/-- The sum of `checked_add` is the sum, if it fits. -/
theorem checkedAdd_eq_some_iff {a b c : ℤ} :
    checkedAdd a b = some c ↔ a + b = c ∧ i64Min ≤ a + b ∧ a + b ≤ i64Max := by
  unfold checkedAdd
  rw [Option.ite_none_right_eq_some, Option.some.injEq, and_comm]

/-- `char::is_whitespace` -/
def isWhitespace (c : Char) : Bool :=
  (0x9 ≤ c.toNat && c.toNat ≤ 0xd) || (0x2000 ≤ c.toNat && c.toNat ≤ 0x200a) ||
    [0x20, 0x85, 0xa0, 0x1680, 0x2028, 0x2029, 0x202f, 0x205f, 0x3000].contains c.toNat

/-- `str::trim` -/
def trim (s : String) : String :=
  String.ofList ((s.toList.dropWhile isWhitespace).reverse.dropWhile isWhitespace).reverse

/-! ### What a payment buys -/

/-- `CREDITS_PER_CENT` -/
def creditsPerCent : ℕ := 2000

/-- `MAX_ADMIN_CREDITS_CHANGE` -/
def maxAdminCreditsChange : ℕ := 1000000000000

/-- `PaymentToken` -/
inductive PaymentToken where
  | sol
  | usdc
  | usdt
  deriving DecidableEq

/-- `PaymentToken::decimals` -/
def PaymentToken.decimals : PaymentToken → ℕ
  | .sol => 9
  | .usdc => 6
  | .usdt => 6

/-- The name that the errors print. -/
def PaymentToken.name : PaymentToken → String
  | .sol => "Sol"
  | .usdc => "Usdc"
  | .usdt => "Usdt"

/-- `credits_for_payment` -/
def creditsForPayment (amount : ℕ) (token : PaymentToken) (tokenUsdPriceCents : ℕ) :
    Except String ℕ :=
  let paid := toString amount ++ " " ++ token.name ++ " at " ++ toString tokenUsdPriceCents
  match (checkedMul amount tokenUsdPriceCents).bind (checkedMul · creditsPerCent) with
  | none => .error (paid ++ " cents overflows")
  | some value =>
    let credits := value / 10 ^ token.decimals
    if credits < u64Size then .ok credits
    else .error (paid ++ " cents buys more credits than fit")

/-- `CreditPayment` -/
structure CreditPayment where
  /-- The amount paid, in the smallest unit of the token. -/
  paidAmount : ℤ
  /-- The token. -/
  paidToken : PaymentToken
  /-- The price of a whole token. -/
  tokenUsdPriceCents : ℤ
  deriving DecidableEq

/-- `CreditPayment::credits` -/
def CreditPayment.credits (payment : CreditPayment) : Except String ℤ :=
  match toU64 payment.paidAmount with
  | none => .error "paid_amount must be positive"
  | some paidAmount =>
    match toU64 payment.tokenUsdPriceCents with
    | none => .error "token_usd_price_cents must be positive"
    | some price =>
      if paidAmount = 0 then .error "paid_amount must be positive"
      else if price = 0 then .error "token_usd_price_cents must be positive"
      else
        match (creditsForPayment paidAmount payment.paidToken price).toOption.bind toI64 with
        | none => .error "the payment buys more credits than a balance holds"
        | some credits => .ok credits

/-! ### Changes by an administrator -/

/-- `PostpackCreditChangeReason` -/
inductive CreditChangeReason where
  | tip
  | manualPayment
  | usage
  | adminChange
  | writeOff
  deriving DecidableEq

/-- `PostpackCreditChange` -/
structure CreditChange where
  /-- The credits to add, or to remove if negative. -/
  deltaCredits : Option ℤ
  /-- Why the balance changes. -/
  reason : CreditChangeReason
  /-- What the administrator says about it. -/
  comment : String
  /-- What was paid. -/
  payment : Option CreditPayment
  deriving DecidableEq

/-- The credits that a change asks for, by its reason. -/
def CreditChange.asked (change : CreditChange) : Except String ℤ :=
  match change.reason with
  | .adminChange =>
    if change.payment.isSome then .error "only a manual_payment records a payment"
    else
      match change.deltaCredits with
      | none => .error "an admin_change must say delta_credits"
      | some delta => .ok delta
  | .manualPayment =>
    match change.payment with
    | none => .error "a manual_payment must say what was paid"
    | some payment =>
      match payment.credits with
      | .error error => .error error
      | .ok credits =>
        if change.deltaCredits.any (· ≠ credits) then
          .error "delta_credits does not match what the payment buys"
        else .ok credits
  | .tip => .error "only admin_change and manual_payment can be added by an admin"
  | .usage => .error "only admin_change and manual_payment can be added by an admin"
  | .writeOff => .error "only admin_change and manual_payment can be added by an admin"

/-- `PostpackCreditChange::delta` -/
def CreditChange.delta (change : CreditChange) : Except String ℤ :=
  match change.asked with
  | .error error => .error error
  | .ok delta =>
    if delta = 0 then .error "the change must move the balance"
    else if delta.natAbs > maxAdminCreditsChange then
      .error "the change is larger than an admin may make at once"
    else if trim change.comment = "" then .error "comment must say why the balance changes"
    else .ok delta

/-- An administrator can not record a tip. -/
theorem CreditChange.reason_ne_tip {change : CreditChange} {delta : ℤ}
    (h : change.delta = .ok delta) : change.reason ≠ .tip := by
  intro hreason
  unfold CreditChange.delta CreditChange.asked at h
  rw [hreason] at h
  simp at h

end ShredTools.Postpack
