import Mathlib.Algebra.BigOperators.Group.List.Basic
import ShredTools.Postpack.Redaction
import ShredTools.Postpack.TipTool

/-!
# The feed of the mocks

The mocks of the post-pack providers share one feed.  It makes a batch of signed transfers at every
tick, from the seed alone, and with `repeats` it makes every batch twice.

The transfers differ by their recipients and block hashes, which are made of the number of the
transfer (`tag`).  So a transfer is in the batches of its own range only, once in each
(`count_transactions`).

A batch is made from the number of its range alone, so two batches of one range are equal, and those
of two ranges share nothing as long as numbers fit in 64 bits (`FeedArgs.Fits`).  Signing and
hashing are parameters; what the count needs of them is that what is shown of a transaction tells
its block hash (`TellsHash`).  `FeedArgs.ticksOf` are the ticks of one range: one, or two with
`repeats`.
-/

namespace ShredTools.Postpack.Feed

open Audit (Pubkey)
open TipTool (TipTools)

/-! ### The batches -/

/-- `FeedArgs`, without the rate. -/
structure FeedArgs where
  /-- Transactions per batch. -/
  batchSize : UInt64
  /-- `repeat`: send every batch twice. -/
  repeats : Bool
  /-- What the transactions are derived from. -/
  seed : UInt64

/-- `Batch` -/
structure Batch where
  /-- The number of the batch. -/
  index : UInt64
  /-- The transactions. -/
  transactions : List (List UInt8)

/-- `tag` -/
def tag (domain : List UInt8) (seed index : UInt64) : Vector UInt8 32 where
  toArray := (toLeBytes 8 seed.toNat ++ toLeBytes 8 index.toNat ++
    (List.range 16).map fun i => domain.getD (i % domain.length) 0).toArray
  size_toArray := by simp

/-- `b"payer"` -/
def payerDomain : List UInt8 := [112, 97, 121, 101, 114]

/-- `b"identity"` -/
def identityDomain : List UInt8 := [105, 100, 101, 110, 116, 105, 116, 121]

/-- `b"recipient"` -/
def recipientDomain : List UInt8 := [114, 101, 99, 105, 112, 105, 101, 110, 116]

/-- `b"blockhash"` -/
def blockhashDomain : List UInt8 := [98, 108, 111, 99, 107, 104, 97, 115, 104]

/-- `b"bundle"` -/
def bundleDomain : List UInt8 := [98, 117, 110, 100, 108, 101]

section Batches

variable {Keypair : Type*} (tools : TipTools Keypair (Vector UInt8 32))
  (newFromArray : Vector UInt8 32 → Keypair)

/-- `transfer` -/
def transfer (payer : Keypair) (seed index : UInt64) : List UInt8 :=
  tools.newSignedWithPayer
    [tools.transfer (tools.pubkey payer) (tag recipientDomain seed index) 1] payer
    (tag blockhashDomain seed index)

/-- The range of the batch with this number. -/
def FeedArgs.range (args : FeedArgs) (index : UInt64) : UInt64 :=
  if args.repeats then index / 2 else index

/-- The loop of `Feed::spawn`: the batch with this number. -/
def FeedArgs.batch (args : FeedArgs) (index : UInt64) : Batch where
  index := index
  transactions := (List.range args.batchSize.toNat).map fun i =>
    transfer tools (newFromArray (tag payerDomain args.seed 0)) args.seed
      (args.range index * args.batchSize + UInt64.ofNat i)

/-- `Feed::spawn`: the batch of a tick. -/
def FeedArgs.feed (args : FeedArgs) (tick : ℕ) : Batch :=
  args.batch tools newFromArray (UInt64.ofNat tick)

end Batches

/-! ### Tags -/

/-- A tag tells the seed, the index and how the domain goes on. -/
lemma tag_eq_iff {domain domain' : List UInt8} {seed seed' index index' : UInt64} :
    tag domain seed index = tag domain' seed' index' ↔
      seed = seed' ∧ index = index' ∧
        ∀ i < 16, domain.getD (i % domain.length) 0 = domain'.getD (i % domain'.length) 0 := by
  constructor
  · intro h
    have hbytes := congrArg (fun v => v.toArray.toList) h
    unfold tag at hbytes
    dsimp only at hbytes
    obtain ⟨hnumbers, hdomains⟩ := List.append_inj' hbytes (by simp)
    obtain ⟨hseed, hindex⟩ := List.append_inj hnumbers (by simp)
    rw [toLeBytes_inj seed.toNat_lt seed'.toNat_lt, UInt64.toNat_inj] at hseed
    rw [toLeBytes_inj index.toNat_lt index'.toNat_lt, UInt64.toNat_inj] at hindex
    refine ⟨hseed, hindex, fun i hi => ?_⟩
    exact List.map_inj_left.mp hdomains i (List.mem_range.mpr hi)
  · rintro ⟨rfl, rfl, hdomains⟩
    unfold tag
    simp only [List.map_congr_left fun i hi => hdomains i (List.mem_range.mp hi)]

/-- The domains in use. -/
def domains : List (List UInt8) :=
  [payerDomain, identityDomain, recipientDomain, blockhashDomain, bundleDomain]

/-- 32 bytes unique to the domain, the seed and the index. -/
lemma tag_inj {domain domain' : List UInt8} (hdomain : domain ∈ domains)
    (hdomain' : domain' ∈ domains) {seed seed' index index' : UInt64} :
    tag domain seed index = tag domain' seed' index' ↔
      domain = domain' ∧ seed = seed' ∧ index = index' := by
  have hcycles : ∀ d ∈ domains, ∀ d' ∈ domains,
      (∀ i < 16, d.getD (i % d.length) 0 = d'.getD (i % d'.length) 0) ↔ d = d' := by
    decide
  rw [tag_eq_iff, hcycles domain hdomain domain' hdomain']
  tauto

/-! ### The transactions of the batches -/

/-- The number of the range of a tick. -/
def FeedArgs.rangeOf (args : FeedArgs) (tick : ℕ) : ℕ := if args.repeats then tick / 2 else tick

/-- The feed does not run out of numbers in so many ticks. -/
structure FeedArgs.Fits (args : FeedArgs) (ticks : ℕ) : Prop where
  /-- The ticks are numbered. -/
  index : ticks ≤ 2 ^ 64
  /-- The transactions of each tick are numbered. -/
  number : ∀ tick < ticks, (args.rangeOf tick + 1) * args.batchSize.toNat ≤ 2 ^ 64

section Transactions

variable {Keypair : Type*} {tools : TipTools Keypair (Vector UInt8 32)}
  {newFromArray : Vector UInt8 32 → Keypair} {args : FeedArgs}

/-- The transaction with this number. -/
def FeedArgs.transaction (tools : TipTools Keypair (Vector UInt8 32))
    (newFromArray : Vector UInt8 32 → Keypair) (args : FeedArgs) (number : ℕ) : List UInt8 :=
  transfer tools (newFromArray (tag payerDomain args.seed 0)) args.seed (UInt64.ofNat number)

/-- The transactions of a tick are those with the numbers of its range. -/
lemma transactions_feed {ticks tick : ℕ} (hfits : args.Fits ticks) (htick : tick < ticks) :
    (args.feed tools newFromArray tick).transactions =
      (List.range' (args.rangeOf tick * args.batchSize.toNat) args.batchSize.toNat).map
        (args.transaction tools newFromArray) := by
  have hindex := hfits.index
  have hrange : (args.range (UInt64.ofNat tick)).toNat = args.rangeOf tick := by
    have hofNat : (UInt64.ofNat tick).toNat = tick := by
      rw [UInt64.toNat_ofNat']
      omega
    unfold FeedArgs.range FeedArgs.rangeOf
    split_ifs with hrepeats
    · rw [UInt64.toNat_div, hofNat]
      rfl
    · exact hofNat
  unfold FeedArgs.feed FeedArgs.batch
  rw [List.range'_eq_map_range, List.map_map]
  refine List.map_congr_left fun i hi => ?_
  rw [List.mem_range] at hi
  -- the numbers of the range do not wrap
  have hnumber : args.rangeOf tick * args.batchSize.toNat + i < 2 ^ 64 := by
    calc args.rangeOf tick * args.batchSize.toNat + i
        < (args.rangeOf tick + 1) * args.batchSize.toNat := by
          rw [Nat.succ_mul]
          omega
      _ ≤ 2 ^ 64 := hfits.number tick htick
  rw [Function.comp_apply]
  unfold FeedArgs.transaction
  congr 1
  rw [← UInt64.toNat_inj, UInt64.toNat_add, UInt64.toNat_mul, hrange, UInt64.toNat_ofNat',
    UInt64.toNat_ofNat', Nat.mod_eq_of_lt (by omega : args.rangeOf tick * args.batchSize.toNat < _),
    Nat.mod_eq_of_lt (by omega : i < _)]

/-- What is shown of a transaction tells its block hash. -/
def TellsHash (tools : TipTools Keypair (Vector UInt8 32)) (shown : List UInt8 → List UInt8) :
    Prop :=
  ∀ instructions instructions' payer payer' hash hash',
    shown (tools.newSignedWithPayer instructions payer hash) =
      shown (tools.newSignedWithPayer instructions' payer' hash') → hash = hash'

variable {shown : List UInt8 → List UInt8}

/-- Transactions with different numbers differ. -/
lemma transaction_inj (htools : TellsHash tools shown) {m n : ℕ} (hm : m < 2 ^ 64)
    (hn : n < 2 ^ 64) :
    shown (args.transaction tools newFromArray m) = shown (args.transaction tools newFromArray n) ↔
      m = n := by
  refine ⟨fun h => ?_, fun h => h ▸ rfl⟩
  have hhash := htools _ _ _ _ _ _ h
  have hnumber := congrArg UInt64.toNat
    ((tag_inj (by decide : blockhashDomain ∈ domains) (by decide)).mp hhash).2.2
  rwa [UInt64.toNat_ofNat', UInt64.toNat_ofNat', Nat.mod_eq_of_lt hm, Nat.mod_eq_of_lt hn]
    at hnumber

/-- A number of a range. -/
def FeedArgs.number (args : FeedArgs) (tick i : ℕ) : ℕ :=
  args.rangeOf tick * args.batchSize.toNat + i

/-- What is shown of a batch. -/
def FeedArgs.shows (tools : TipTools Keypair (Vector UInt8 32))
    (newFromArray : Vector UInt8 32 → Keypair) (args : FeedArgs) (shown : List UInt8 → List UInt8)
    (tick : ℕ) : List (List UInt8) :=
  (args.feed tools newFromArray tick).transactions.map shown

/-- A transaction is once in each batch of its range, and in no other. -/
lemma count_shows (htools : TellsHash tools shown) {ticks k tick i : ℕ} (hfits : args.Fits ticks)
    (hk : k < ticks) (htick : tick < ticks) (hi : i < args.batchSize.toNat) :
    (args.shows tools newFromArray shown k).count
        (shown (args.transaction tools newFromArray (args.number tick i))) =
      if args.rangeOf k = args.rangeOf tick then 1 else 0 := by
  have hbound : ∀ {k n}, k < ticks →
      n ∈ List.range' (args.rangeOf k * args.batchSize.toNat) args.batchSize.toNat →
      n < 2 ^ 64 := by
    intro k n hk hn
    rw [List.mem_range'_1] at hn
    calc n < (args.rangeOf k + 1) * args.batchSize.toNat := by
          rw [Nat.succ_mul]
          exact hn.2
      _ ≤ 2 ^ 64 := hfits.number k hk
  have hown : args.number tick i ∈
      List.range' (args.rangeOf tick * args.batchSize.toNat) args.batchSize.toNat := by
    unfold FeedArgs.number
    exact List.mem_range'_1.mpr ⟨by omega, by omega⟩
  have hlist : args.shows tools newFromArray shown k =
      (List.range' (args.rangeOf k * args.batchSize.toNat) args.batchSize.toNat).map
        fun n => shown (args.transaction tools newFromArray n) := by
    unfold FeedArgs.shows
    rw [transactions_feed hfits hk, List.map_map]
    rfl
  -- transactions differ as their numbers do, and the ranges of two batches are equal or apart
  have hmem : shown (args.transaction tools newFromArray (args.number tick i)) ∈
      args.shows tools newFromArray shown k ↔ args.rangeOf k = args.rangeOf tick := by
    rw [hlist, List.mem_map]
    constructor
    · intro ⟨n, hn, heq⟩
      rw [(transaction_inj htools (hbound hk hn) (hbound htick hown)).mp heq, List.mem_range'_1]
        at hn
      have hdiv : ∀ r, r * args.batchSize.toNat ≤ args.number tick i →
          args.number tick i < r * args.batchSize.toNat + args.batchSize.toNat →
          args.number tick i / args.batchSize.toNat = r :=
        fun r hlow hhigh => Nat.div_eq_of_lt_le hlow (by rwa [Nat.succ_mul])
      have hown := List.mem_range'_1.mp hown
      exact (hdiv _ hn.1 hn.2).symm.trans (hdiv _ hown.1 hown.2)
    · intro heq
      rw [heq]
      exact ⟨_, hown, rfl⟩
  have hnodup : (args.shows tools newFromArray shown k).Nodup := by
    rw [hlist]
    refine List.Nodup.map_on (fun m hm n hn heq => ?_) List.nodup_range'
    exact (transaction_inj htools (hbound hk hm) (hbound hk hn)).mp heq
  rw [hnodup.count]
  simp only [hmem]

/-- A transaction is as often in a list of batches as batches of its range are. -/
theorem count_transactions (htools : TellsHash tools shown) {ticks tick i : ℕ}
    (hfits : args.Fits ticks) (htick : tick < ticks) (hi : i < args.batchSize.toNat) {ks : List ℕ}
    (hks : ∀ k ∈ ks, k < ticks) :
    (ks.flatMap (args.shows tools newFromArray shown)).count
        (shown (args.transaction tools newFromArray (args.number tick i))) =
      ks.countP fun k => args.rangeOf k = args.rangeOf tick := by
  induction ks with
  | nil => rfl
  | cons k ks ih =>
    rw [List.flatMap_cons, List.count_append, List.countP_cons,
      ih fun k hk => hks k (List.mem_cons_of_mem _ hk),
      count_shows htools hfits (hks k List.mem_cons_self) htick hi, Nat.add_comm]
    simp only [decide_eq_true_eq]

/-- The ticks of a range. -/
def FeedArgs.ticksOf (args : FeedArgs) (tick : ℕ) : List ℕ :=
  if args.repeats then [2 * args.rangeOf tick, 2 * args.rangeOf tick + 1] else [args.rangeOf tick]

lemma FeedArgs.rangeOf_eq_iff {k tick : ℕ} :
    args.rangeOf k = args.rangeOf tick ↔ k ∈ args.ticksOf tick := by
  unfold FeedArgs.ticksOf FeedArgs.rangeOf
  split_ifs
  · rw [List.mem_pair]
    omega
  · rw [List.mem_singleton]

/-- Of different ticks, no more are in a range than it has, and all of them if none is missing. -/
theorem FeedArgs.countP_rangeOf {ks : List ℕ} (hks : ks.Nodup) (tick : ℕ) :
    (ks.countP fun k => args.rangeOf k = args.rangeOf tick) ≤ (if args.repeats then 2 else 1) ∧
      ((∀ k, args.rangeOf k = args.rangeOf tick → k ∈ ks) →
        (ks.countP fun k => args.rangeOf k = args.rangeOf tick) =
          if args.repeats then 2 else 1) := by
  have hlength : (args.ticksOf tick).length = if args.repeats then 2 else 1 := by
    unfold FeedArgs.ticksOf
    split_ifs <;> rfl
  have hnodup : (args.ticksOf tick).Nodup := by
    unfold FeedArgs.ticksOf
    split_ifs <;> simp
  rw [List.countP_eq_length_filter, ← hlength]
  have hsub : (ks.filter fun k => args.rangeOf k = args.rangeOf tick) ⊆ args.ticksOf tick := by
    intro k hk
    exact FeedArgs.rangeOf_eq_iff.mp (by simpa using (List.mem_filter.mp hk).2)
  refine ⟨((hks.filter _).subperm hsub).length_le, fun hall => ?_⟩
  refine le_antisymm ((hks.filter _).subperm hsub).length_le
    (hnodup.subperm fun k hk => ?_).length_le
  have hrange := FeedArgs.rangeOf_eq_iff.mpr hk
  exact List.mem_filter.mpr ⟨hall k hrange, by simpa using hrange⟩

end Transactions

end ShredTools.Postpack.Feed
