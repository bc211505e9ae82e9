import Mathlib.Data.Finset.Basic
import Mathlib.Data.List.Basic
import ShredTools.Audit.SlotSigIndex
import ShredTools.Audit.VerifiedShred

/-!
# Filters of a subscription

A gRPC source is subscribed to with a bundle of filters.  This file evaluates a filter on a
transaction as the server should: `mismatch` names the first clause that fails, and `matchReason`
says why a transaction is accepted.  The base58 encoder is a parameter.

The clauses are checked one after the other: votes, failed transactions, accounts of which one is
asked for, accounts that are ruled out, and accounts that are all required.  `Accepts` says what
they demand together, and `matchesTx_iff` that a filter matches exactly the transactions that meet
it, whatever texts the keys are shown with.  A `Bundle` carries what `validate` has checked of it:
it has a filter, and no more of them than a mask has bits.
-/

namespace ShredTools.Audit

/-- The bytes of an account key. -/
abbrev Key := Pubkey

/-- `VOTE_PROGRAM_ID` -/
def voteProgramId : Key :=
  #v[7, 97, 72, 29, 53, 116, 116, 187, 124, 77, 118, 36, 235, 211, 189, 179, 216, 53, 94, 115, 209,
    16, 67, 252, 13, 163, 83, 128, 0, 0, 0, 0]

/-- `is_simple_vote` -/
def isSimpleVote (signatures : ℕ) (legacy : Bool) (instructions : ℕ)
    (programId : Option Key) : Bool :=
  decide (signatures < 3) && legacy && instructions == 1 && programId == some voteProgramId

/-- `TxView`: what the filters and the vote rule read of a transaction. -/
structure TxView where
  /-- The first signature. -/
  signature : Signature
  /-- The number of signatures. -/
  numSignatures : ℕ
  /-- Whether the message is a legacy message. -/
  legacy : Bool
  /-- The account keys, static ones first, then those of lookup tables. -/
  keys : List Key
  /-- How many of the keys are static. -/
  numStaticKeys : ℕ
  /-- The number of instructions. -/
  numInstructions : ℕ
  /-- The program of the first instruction. -/
  firstProgram : Option Key
  /-- Whether the transaction failed, if the source knows. -/
  failed : Option Bool
  deriving DecidableEq

/-- `TxView::is_vote` -/
def TxView.isVote (tx : TxView) : Bool :=
  isSimpleVote tx.numSignatures tx.legacy tx.numInstructions tx.firstProgram

section Texts

variable (base58 : List UInt8 → String)

/-- `short`: the first eight characters of a key. -/
def short (key : Key) : String :=
  String.ofList ((base58 key.toList).toList.take 8) ++ "…"

/-- `TxView::describe_key` -/
def TxView.describeKey (tx : TxView) (key : Key) : String :=
  let origin :=
    match tx.keys.findIdx? (· == key) with
    | some i => if i < tx.numStaticKeys then "static" else "lookup table"
    | none => "absent"
  short base58 key ++ " (" ++ origin ++ ")"

end Texts

/-- `FilterCfg`, the clauses that are not lists of accounts. -/
structure FilterCfg where
  /-- Whether votes are wanted, if the filter cares. -/
  vote : Option Bool
  /-- Whether failed transactions are wanted, if the filter cares. -/
  failed : Option Bool
  deriving DecidableEq

/-- `Filter` -/
structure Filter where
  /-- The name, which the server sends back as a tag. -/
  name : String
  /-- The clauses on votes and failures. -/
  cfg : FilterCfg
  /-- One of these keys has to be an account key, unless there are none. -/
  accountInclude : Finset Key
  /-- None of these keys may be an account key. -/
  accountExclude : Finset Key
  /-- All of these keys have to be account keys. -/
  accountRequired : List Key
  deriving DecidableEq

namespace Filter

section Verdict

variable (base58 : List UInt8 → String) (f : Filter) (tx : TxView)

/-- The `vote` clause of `mismatch`. -/
def voteMismatch : Option String :=
  match f.cfg.vote with
  | some want =>
    if tx.isVote = want then none
    else some ("vote: filter wants " ++ toString want ++ ", tx is_vote=" ++ toString tx.isVote)
  | none => none

/-- The `failed` clause of `mismatch`, which a source that cannot know ignores. -/
def failedMismatch : Option String :=
  match f.cfg.failed, tx.failed with
  | some want, some failed =>
    if failed = want then none
    else some ("failed: filter wants " ++ toString want ++ ", tx failed=" ++ toString failed)
  | _, _ => none

/-- The `account_include` clause of `mismatch`. -/
def includeMismatch : Option String :=
  if f.accountInclude ≠ ∅ ∧ ¬ tx.keys.any (· ∈ f.accountInclude) then
    some "account_include: none of the listed keys is an account key"
  else none

/-- The `account_exclude` clause of `mismatch`. -/
def excludeMismatch : Option String :=
  (tx.keys.find? (· ∈ f.accountExclude)).map fun key =>
    "account_exclude: has " ++ tx.describeKey base58 key

/-- The `account_required` clause of `mismatch`. -/
def requiredMismatch : Option String :=
  (f.accountRequired.find? (· ∉ tx.keys)).map fun key =>
    "account_required: missing " ++ short base58 key

/-- `Filter::mismatch`: the first clause that the transaction fails. -/
def mismatch : Option String :=
  (f.voteMismatch tx).or <| (f.failedMismatch tx).or <| (f.includeMismatch tx).or <|
    (f.excludeMismatch base58 tx).or (f.requiredMismatch base58 tx)

/-- `Filter::match_reason`: the clauses that the transaction meets. -/
def matchReason : String :=
  let vote := f.cfg.vote.toList.map fun want => "vote=" ++ toString want
  let failed :=
    match f.cfg.failed, tx.failed with
    | some want, some _ => ["failed=" ++ toString want]
    | _, _ => []
  let included := (tx.keys.find? (· ∈ f.accountInclude)).toList.map fun key =>
    "account_include hit " ++ tx.describeKey base58 key
  let excluded := if f.accountExclude ≠ ∅ then ["no excluded key"] else []
  let required := if f.accountRequired ≠ [] then ["all required keys present"] else []
  match vote ++ failed ++ included ++ excluded ++ required with
  | [] => "filter has no clauses (matches everything)"
  -- every clause is written with a closing "; ", and the last one is trimmed
  | clauses => String.intercalate "; " clauses

/-- What the clauses of a filter demand of a transaction. -/
structure Accepts : Prop where
  /-- The vote rule gives what the filter wants. -/
  vote : ∀ want, f.cfg.vote = some want → tx.isVote = want
  /-- The outcome, where the source knows it, is what the filter wants. -/
  failed : ∀ want failed, f.cfg.failed = some want → tx.failed = some failed → failed = want
  /-- Some included key is there, if any key is listed. -/
  included : f.accountInclude ≠ ∅ → ∃ key ∈ tx.keys, key ∈ f.accountInclude
  /-- No excluded key is there. -/
  excluded : ∀ key ∈ tx.keys, key ∉ f.accountExclude
  /-- Every required key is there. -/
  required : ∀ key ∈ f.accountRequired, key ∈ tx.keys

end Verdict

variable {base58 : List UInt8 → String} {f : Filter} {tx : TxView}

/-- `Filter::matches` -/
def matchesTx (f : Filter) (tx : TxView) : Bool :=
  (f.mismatch (fun _ => "") tx).isNone

lemma voteMismatch_eq_none_iff :
    f.voteMismatch tx = none ↔ ∀ want, f.cfg.vote = some want → tx.isVote = want := by
  unfold voteMismatch
  cases f.cfg.vote with
  | none => simp
  | some want => simp

lemma failedMismatch_eq_none_iff :
    f.failedMismatch tx = none ↔
      ∀ want failed, f.cfg.failed = some want → tx.failed = some failed → failed = want := by
  unfold failedMismatch
  cases f.cfg.failed with
  | none => simp
  | some want =>
    cases tx.failed with
    | none => simp
    | some failed => simp

lemma includeMismatch_eq_none_iff :
    f.includeMismatch tx = none ↔
      (f.accountInclude ≠ ∅ → ∃ key ∈ tx.keys, key ∈ f.accountInclude) := by
  simp [includeMismatch]

lemma excludeMismatch_eq_none_iff :
    f.excludeMismatch base58 tx = none ↔ ∀ key ∈ tx.keys, key ∉ f.accountExclude := by
  simp [excludeMismatch]

lemma requiredMismatch_eq_none_iff :
    f.requiredMismatch base58 tx = none ↔ ∀ key ∈ f.accountRequired, key ∈ tx.keys := by
  simp [requiredMismatch]

/-- A filter names no failing clause exactly when the transaction meets all of them. -/
theorem mismatch_eq_none_iff : f.mismatch base58 tx = none ↔ f.Accepts tx := by
  unfold mismatch
  simp only [Option.or_eq_none_iff, voteMismatch_eq_none_iff, failedMismatch_eq_none_iff,
    includeMismatch_eq_none_iff, excludeMismatch_eq_none_iff, requiredMismatch_eq_none_iff]
  constructor
  · rintro ⟨hvote, hfailed, hincluded, hexcluded, hrequired⟩
    exact ⟨hvote, hfailed, hincluded, hexcluded, hrequired⟩
  · intro h
    exact ⟨h.vote, h.failed, h.included, h.excluded, h.required⟩

/-- **Which transactions a filter matches**, whatever texts the keys are shown with. -/
theorem matchesTx_iff : f.matchesTx tx = true ↔ f.Accepts tx := by
  rw [matchesTx, Option.isNone_iff_eq_none, mismatch_eq_none_iff]

/-- A filter has a failing clause to name exactly for the transactions it does not match. -/
theorem mismatch_isSome : (f.mismatch base58 tx).isSome = !f.matchesTx tx := by
  have hnone : f.mismatch base58 tx = none ↔ f.Accepts tx := mismatch_eq_none_iff
  rw [Bool.eq_iff_iff, Bool.not_eq_true', ← Bool.not_eq_true, matchesTx_iff, ← hnone]
  exact Option.isSome_iff_ne_none

end Filter

/-- `MAX_FILTERS_PER_BUNDLE` -/
def maxFiltersPerBundle : ℕ := 32

/-- `Bundle`, as `validate` lets it pass. -/
structure Bundle where
  /-- The name of the bundle. -/
  name : String
  /-- The filters, in the order of their names. -/
  filters : List Filter
  /-- A bundle has a filter. -/
  nonempty : filters ≠ []
  /-- Tags fit in a mask of 32 bits. -/
  length_le : filters.length ≤ maxFiltersPerBundle

/-- `Bundle::all`: one filter that accepts everything. -/
def Bundle.all : Bundle where
  name := "all"
  filters := [⟨"all", ⟨none, none⟩, ∅, ∅, []⟩]
  nonempty := List.cons_ne_nil _ _
  length_le := by decide

/-- `Bundle::index_of` -/
def Bundle.indexOf (bundle : Bundle) (name : String) : Option ℕ :=
  bundle.filters.findIdx? (·.name == name)

end ShredTools.Audit
