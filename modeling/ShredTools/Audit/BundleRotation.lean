import Mathlib.Data.List.GetD
import ShredTools.Audit.Registry
import ShredTools.Library.Iteration
import ShredTools.Library.WordArithmetic

/-!
# The rotation through the bundles

A rotating source draws the bundle of its next window from a bag of indices, with a number of
seconds for the window.  An empty bag is filled with every index and shuffled with the numbers of a
xorshift generator.  Whatever these numbers are, a shuffle only exchanges entries, so each block of
as many draws as there are bundles goes through all of them (`Rotation.exists_cycle`).
`Rotation.next` is `none` where the source would panic.

`Sound` is what a validated configuration gives a rotation: there is a bundle, and a span of seconds
to draw from.  `exists_pop` and `exists_cycle` go from one draw to a block of draws, and the blocks
of a run follow each other from one empty bag to the next.  The seed is left open, and with it every
number that the generator gives.
-/

namespace ShredTools.Audit

open Postpack (u64Size)

/-! ### The draws -/

/-- `Rotation` -/
structure Rotation where
  /-- The bundles. -/
  bundles : Array ParsedBundle
  /-- The indices that are still to be drawn, the next one at the end. -/
  bag : Array ℕ
  /-- The shortest window. -/
  minSecs : ℕ
  /-- The longest window. -/
  maxSecs : ℕ
  /-- The state of the generator. -/
  rng : UInt64

/-- `slice::swap`, if both indices lie inside. -/
def swap {α : Type} (xs : Array α) (i j : ℕ) : Option (Array α) :=
  if h : i < xs.size ∧ j < xs.size then some (xs.swap i j h.1 h.2) else none

/-- `Rotation::next_u64`, on the state of the generator, which is also what it returns. -/
def nextU64 (rng : UInt64) : UInt64 :=
  let rng := rng ^^^ (rng <<< 13)
  let rng := rng ^^^ (rng >>> 7)
  rng ^^^ (rng <<< 17)

/-- The loop of `Rotation::next` that shuffles the bag, from the entry `i` down to entry 1. -/
def shuffle (bag : Array ℕ) (rng : UInt64) : ℕ → Option (Array ℕ × UInt64)
  | 0 => some (bag, rng)
  | i + 1 => do
    let rng := nextU64 rng
    let j ← CheckedWords.rem rng.toNat (i + 2)
    let bag ← swap bag (i + 1) j
    shuffle bag rng i

namespace Rotation

/-- `Rotation::new` -/
def new (bundles : Array ParsedBundle) (minSecs maxSecs : ℕ) (seed : UInt64) : Rotation where
  bundles := bundles
  bag := Array.empty
  minSecs := minSecs
  maxSecs := maxSecs
  rng := seed * 0x9E3779B97F4A7C15 ||| 1

/-- The first step of `Rotation::next`: an empty bag is filled and shuffled. -/
def refill (r : Rotation) : Option Rotation :=
  if r.bag.isEmpty then do
    let (bag, rng) ← shuffle (Array.range r.bundles.size) r.rng (r.bundles.size - 1)
    return { r with bag := bag, rng := rng }
  else some r

/-- `Rotation::next` after the bag is filled. -/
def pop (r : Rotation) : Option ((ParsedBundle × ℕ) × Rotation) := do
  let idx ← r.bag.back?
  let difference ← CheckedWords.minus r.maxSecs r.minSecs
  let span ← CheckedWords.plus u64Size difference 1
  let rng := nextU64 r.rng
  let extra ← CheckedWords.rem rng.toNat span
  let secs ← CheckedWords.plus u64Size r.minSecs extra
  let bundle ← r.bundles[idx]?
  return ((bundle, secs), { r with bag := r.bag.pop, rng := rng })

/-- `Rotation::next` -/
def next (r : Rotation) : Option ((ParsedBundle × ℕ) × Rotation) := do
  let r ← r.refill
  r.pop

end Rotation

/-- `FilterAuditor::rotation` -/
def FilterAuditor.rotation (host : Host) (cfg : Config) (mode : GrpcMode) (seed : UInt64) :
    Rotation :=
  let fr := cfg.filterRotation
  let bundles := forMode host.decode (fr.effectiveBundles host) (mode == .deshred)
  Rotation.new bundles.toArray fr.minSecs fr.maxSecs seed

/-! ### The shuffle -/

/-- An exchange inside succeeds with the same entries. -/
lemma exists_swap {α : Type} {xs : Array α} {i j : ℕ} (hi : i < xs.size) (hj : j < xs.size) :
    ∃ xs', swap xs i j = some xs' ∧ xs'.Perm xs := by
  refine ⟨xs.swap i j hi hj, ?_, Array.swap_perm hi hj⟩
  rw [swap, dif_pos ⟨hi, hj⟩]

/-- **Whatever the generator says, a shuffle exchanges entries and nothing else.** -/
theorem exists_shuffle (i : ℕ) (bag : Array ℕ) (hi : i = 0 ∨ i < bag.size) (rng : UInt64) :
    ∃ bag' rng', shuffle bag rng i = some (bag', rng') ∧ bag'.Perm bag := by
  induction i generalizing bag rng with
  | zero => exact ⟨bag, rng, rfl, Array.Perm.refl bag⟩
  | succ i ih =>
    have hlt : i + 1 < bag.size := hi.resolve_left (Nat.succ_ne_zero i)
    obtain ⟨j, hj, hjlt⟩ := CheckedWords.exists_rem (nextU64 rng).toNat (Nat.succ_pos (i + 1))
    obtain ⟨exchanged, hswap, hperm⟩ := exists_swap hlt (Nat.lt_of_lt_of_le hjlt hlt)
    have hsize : i < exchanged.size := by
      rw [hperm.size_eq]
      exact Nat.lt_of_succ_lt hlt
    obtain ⟨bag', rng', hshuffle, hperm'⟩ := ih exchanged (.inr hsize) (nextU64 rng)
    refine ⟨bag', rng', ?_, hperm'.trans hperm⟩
    rw [shuffle, hj, Option.bind_eq_bind, Option.bind_some, hswap, Option.bind_eq_bind,
      Option.bind_some, hshuffle]

/-! ### A block of draws -/

namespace Rotation

/-- The setup of a rotation that never fails: there is a bundle, and a span of durations. -/
structure Sound (r : Rotation) : Prop where
  /-- There is a bundle. -/
  nonempty : 0 < r.bundles.size
  /-- A window has some length. -/
  positive : 0 < r.minSecs
  /-- The longest window is the longest. -/
  span : r.minSecs ≤ r.maxSecs
  /-- The seconds are numbers of the source. -/
  fits : r.maxSecs < u64Size

/-- `r` with another bag and another state of the generator. -/
def withBag (r : Rotation) (bag : Array ℕ) (rng : UInt64) : Rotation :=
  { r with bag := bag, rng := rng }

/-- A duration lies in the span of a rotation. -/
def InSpan (r : Rotation) (secs : ℕ) : Prop := r.minSecs ≤ secs ∧ secs ≤ r.maxSecs

variable {r : Rotation}

/-- **What one draw takes from a filled bag**: the bundle of the last index, with a duration in the
span. -/
theorem exists_pop (h : r.Sound) {idx : ℕ} {bundle : ParsedBundle}
    (hbundle : r.bundles[idx]? = some bundle) (bag : Array ℕ) (rng : UInt64) :
    ∃ secs rng', (r.withBag (bag.push idx) rng).pop = some ((bundle, secs), r.withBag bag rng') ∧
      r.InSpan secs := by
  have hpositive := h.positive
  have hspan := h.span
  have hfits := h.fits
  have hsub : CheckedWords.minus r.maxSecs r.minSecs = some (r.maxSecs - r.minSecs) :=
    CheckedWords.minus_eq_some hspan
  have hplus : CheckedWords.plus u64Size (r.maxSecs - r.minSecs) 1 =
      some (r.maxSecs - r.minSecs + 1) :=
    CheckedWords.plus_eq_some_iff.mpr ⟨by omega, rfl⟩
  obtain ⟨extra, hrem, hextra⟩ :=
    CheckedWords.exists_rem (nextU64 rng).toNat (Nat.succ_pos (r.maxSecs - r.minSecs))
  have hsecs : CheckedWords.plus u64Size r.minSecs extra = some (r.minSecs + extra) :=
    CheckedWords.plus_eq_some_iff.mpr ⟨by omega, rfl⟩
  refine ⟨r.minSecs + extra, nextU64 rng, ?_, Nat.le_add_right _ _, by omega⟩
  unfold pop withBag
  simp only [Array.back?_push, Option.bind_eq_bind, Option.bind_some, hsub, hplus, hrem, hsecs,
    hbundle, Array.pop_push, Option.pure_def]

/-- A bag that is not empty is not filled again. -/
lemma next_of_push {bag : Array ℕ} {idx : ℕ} {rng : UInt64} :
    (r.withBag (bag.push idx) rng).next = (r.withBag (bag.push idx) rng).pop := by
  have hrefill : (r.withBag (bag.push idx) rng).refill = some (r.withBag (bag.push idx) rng) := by
    refine if_neg ?_
    rw [withBag, Array.isEmpty_iff_size_eq_zero, Array.size_push]
    exact Nat.succ_ne_zero _
  rw [next, hrefill, Option.bind_eq_bind, Option.bind_some]

/-- The draws until the bag is empty go through its indices, from the last to the first. -/
lemma exists_drain (h : r.Sound) (n : ℕ) (bag : Array ℕ) (hsize : bag.size = n)
    (hindices : ∀ idx ∈ bag, idx < r.bundles.size) (rng : UInt64) :
    ∃ drawn rng', draws next n (r.withBag bag rng) = some (drawn, r.withBag Array.empty rng') ∧
      (drawn.map fun draw => some draw.1) = bag.toList.reverse.map (r.bundles[·]?) ∧
      ∀ draw ∈ drawn, r.InSpan draw.2 := by
  induction n generalizing bag rng with
  | zero =>
    obtain rfl : bag = Array.empty := Array.eq_empty_of_size_eq_zero hsize
    exact ⟨[], rng, rfl, rfl, fun draw hdraw => (List.not_mem_nil hdraw).elim⟩
  | succ n ih =>
    have hne : bag.size ≠ 0 := by
      rw [hsize]
      exact Nat.succ_ne_zero n
    obtain ⟨rest, idx, rfl⟩ := Array.eq_push_of_size_ne_zero hne
    have hidx : idx < r.bundles.size := hindices idx Array.mem_push_self
    obtain ⟨secs, rng', hpop, hsecs⟩ :=
      exists_pop h (Array.getElem?_eq_getElem hidx) rest rng
    have hrest : rest.size = n := by
      rw [Array.size_push] at hsize
      exact Nat.succ_injective hsize
    obtain ⟨drawn, rng'', hdraws, hdrawn, hspans⟩ :=
      ih rest hrest (fun i hi => hindices i (Array.mem_push_of_mem idx hi)) rng'
    refine ⟨(r.bundles[idx], secs) :: drawn, rng'', ?_, ?_, ?_⟩
    · rw [draws_succ_of_next (next_of_push.trans hpop), hdraws, Option.map_some]
    · rw [List.map_cons, hdrawn, Array.toList_push, List.reverse_append, List.reverse_singleton,
        List.singleton_append, List.map_cons, Array.getElem?_eq_getElem hidx]
    · rintro draw (_ | ⟨_, hdraw⟩)
      · exact hsecs
      · exact hspans draw hdraw

/-- An empty bag is filled with every index. -/
lemma exists_refill (rng : UInt64) :
    ∃ bag rng', (r.withBag Array.empty rng).refill = some (r.withBag bag rng') ∧
      bag.Perm (Array.range r.bundles.size) := by
  have hstart : r.bundles.size - 1 = 0 ∨
      r.bundles.size - 1 < (Array.range r.bundles.size).size := by
    rw [Array.size_range]
    omega
  obtain ⟨bag, rng', hshuffle, hperm⟩ := exists_shuffle _ _ hstart rng
  refine ⟨bag, rng', ?_, hperm⟩
  refine (if_pos rfl).trans ?_
  unfold withBag
  rw [hshuffle, Option.bind_eq_bind, Option.bind_some]
  rfl

/-- **One block of draws goes through all bundles**: from an empty bag, as many draws as there are
bundles hand out each of them as often as it is listed, and leave an empty bag. -/
theorem exists_cycle (h : r.Sound) (rng : UInt64) :
    ∃ drawn rng', draws next r.bundles.size (r.withBag Array.empty rng) =
        some (drawn, r.withBag Array.empty rng') ∧
      (drawn.map Prod.fst).Perm r.bundles.toList ∧ ∀ draw ∈ drawn, r.InSpan draw.2 := by
  obtain ⟨bag, rng', hrefill, hperm⟩ := exists_refill (r := r) rng
  have hsize : bag.size = r.bundles.size := hperm.size_eq.trans Array.size_range
  have hindices : ∀ idx ∈ bag, idx < r.bundles.size := by
    intro idx hidx
    exact Array.mem_range.mp (hperm.mem_iff.mp hidx)
  obtain ⟨drawn, rng'', hdraws, hdrawn, hspans⟩ := exists_drain h _ bag hsize hindices rng'
  -- The first draw fills the bag, and the draws then go on as from the filled one.
  have hnext : (r.withBag Array.empty rng).next = (r.withBag bag rng').next := by
    obtain ⟨rest, idx, rfl⟩ := Array.eq_push_of_size_ne_zero (hsize.trans_ne h.nonempty.ne')
    rw [next_of_push, next, hrefill, Option.bind_eq_bind, Option.bind_some]
  have hsame : draws next r.bundles.size (r.withBag Array.empty rng) =
      draws next r.bundles.size (r.withBag bag rng') := by
    obtain ⟨n, hn⟩ := Nat.exists_eq_succ_of_ne_zero h.nonempty.ne'
    rw [hn, draws, draws, hnext]
  refine ⟨drawn, rng'', hsame.trans hdraws, ?_, hspans⟩
  -- The indices are those of all bundles, in some order.
  have hall : (List.range r.bundles.size).map (r.bundles[·]?) = r.bundles.toList.map some := by
    apply List.ext_getElem
    · simp
    · intro i hi hi'
      simp at hi ⊢
  apply (List.map_perm_map_iff (Option.some_injective _)).mp
  have hindicesPerm : bag.toList.reverse.Perm (List.range r.bundles.size) := by
    refine (List.reverse_perm _).trans ?_
    rw [← Array.toList_range]
    exact hperm.toList
  rw [List.map_map, ← hall]
  exact hdrawn ▸ hindicesPerm.map _

end Rotation

/-! ### The rotation of a source -/

variable {host : Host} {cfg cfg' : Config}

/-- A validated configuration sets up a rotation that never fails. -/
lemma FilterAuditor.sound_rotation (h : cfg.validate host = .ok cfg')
    (hsecs : cfg'.filterRotation.maxSecs < u64Size) {g : GrpcSourceCfg}
    (hg : g ∈ cfg'.grpcSources) (hrotating : cfg'.rotating g = true) (seed : UInt64) :
    (FilterAuditor.rotation host cfg' g.mode seed).Sound := by
  obtain ⟨hmin, hspan, deshred, transactions, hmode, hbundles⟩ :=
    Config.checked_of_rotating (Config.checkRotation_of_validate h) hg hrotating
  obtain ⟨hne, -, -⟩ :=
    forMode_of_validate (g.mode == .deshred) hbundles fun heq => hmode (eq_of_beq heq)
  exact
    { nonempty := List.length_pos_of_ne_nil hne
      positive := Nat.lt_of_lt_of_le (Nat.succ_pos 9) hmin
      span := hspan
      fits := hsecs }

/-- **The rotation is fair and never fails**: for every rotating source of a validated
configuration, each block of as many draws as it has bundles hands out every one of them, which have
distinct names, once, with durations in the configured span, and a source in deshred mode gets none
that it cannot subscribe with.  The seconds are `u64`. -/
theorem FilterAuditor.rotation_fair (h : cfg.validate host = .ok cfg')
    (hsecs : cfg'.filterRotation.maxSecs < u64Size) {g : GrpcSourceCfg}
    (hg : g ∈ cfg'.grpcSources) (hrotating : cfg'.rotating g = true) (seed : UInt64) (k : ℕ) :
    let bundles := forMode host.decode (cfg'.filterRotation.effectiveBundles host)
      (g.mode == .deshred)
    let r := FilterAuditor.rotation host cfg' g.mode seed
    1 ≤ bundles.length ∧ (bundles.map ParsedBundle.name).Nodup ∧
      ∃ before r' block r'', draws Rotation.next (k * bundles.length) r = some (before, r') ∧
        draws Rotation.next bundles.length r' = some (block, r'') ∧
        (block.map Prod.fst).Perm bundles ∧
        ∀ draw ∈ block, cfg'.filterRotation.minSecs ≤ draw.2 ∧
          draw.2 ≤ cfg'.filterRotation.maxSecs ∧
          (g.mode = .deshred → draw.1.fitsDeshred = true) := by
  intro bundles r
  have hsound : r.Sound := FilterAuditor.sound_rotation h hsecs hg hrotating seed
  obtain ⟨-, -, deshred, transactions, hmode, hbundles⟩ :=
    Config.checked_of_rotating (Config.checkRotation_of_validate h) hg hrotating
  obtain ⟨-, hnodup, hfits⟩ :=
    forMode_of_validate (g.mode == .deshred) hbundles fun heq => hmode (eq_of_beq heq)
  refine ⟨hsound.nonempty, hnodup, ?_⟩
  -- Between two blocks the bag is empty.
  have hcycle : ∀ s, (∃ rng, s = r.withBag Array.empty rng) → ∃ drawn s',
      draws Rotation.next bundles.length s = some (drawn, s') ∧
        ((drawn.map Prod.fst).Perm bundles ∧ ∀ draw ∈ drawn, r.InSpan draw.2) ∧
        ∃ rng, s' = r.withBag Array.empty rng := by
    rintro s ⟨rng, rfl⟩
    obtain ⟨drawn, rng', hdraws, hperm, hspans⟩ := Rotation.exists_cycle hsound rng
    exact ⟨drawn, _, hdraws, ⟨hperm, hspans⟩, rng', rfl⟩
  obtain ⟨before, r', block, r'', hbefore, hblock, hperm, hspans⟩ :=
    exists_block hcycle ⟨r.rng, rfl⟩ k
  refine ⟨before, r', block, r'', hbefore, hblock, hperm, fun draw hdraw => ?_⟩
  obtain ⟨hmin, hmax⟩ := hspans draw hdraw
  refine ⟨hmin, hmax, fun hdeshred => ?_⟩
  have hmem : draw.1 ∈ bundles := hperm.mem_iff.mp (List.mem_map_of_mem hdraw)
  exact hfits draw.1 hmem (by rw [hdeshred]; rfl)

/-- A configuration with one rotating source in deshred mode and three bundles, one of which such a
source cannot subscribe with. -/
def deshredRotation : Config :=
  { Registry.plainConfig [] [] with
    grpcSources := [⟨"deshred", "http://localhost:10000", .deshred, none, true⟩]
    filterRotation :=
      { FilterRotationCfg.default with
        bundles := some [bundleOf "all" [("all", .default)],
          bundleOf "failed" [("failed", { FilterText.default with failed := some true })],
          bundleOf "votes" [("votes", { FilterText.default with vote := some true })]] } }

/-- The source rotates through the other two: after three rounds the next two draws hand both out,
for between half a minute and a minute. -/
theorem FilterAuditor.rotation_fair_deshred :
    ∃ before r' block r'',
      draws Rotation.next 6
          (FilterAuditor.rotation Registry.plainHost deshredRotation .deshred 2) =
        some (before, r') ∧
      draws Rotation.next 2 r' = some (block, r'') ∧
      (block.map fun draw => draw.1.name).Perm ["all", "votes"] ∧
      ∀ draw ∈ block, 30 ≤ draw.2 ∧ draw.2 ≤ 60 := by
  have hvalid : deshredRotation.validate Registry.plainHost = .ok deshredRotation := rfl
  obtain ⟨-, -, before, r', block, r'', hbefore, hblock, hperm, hspan⟩ :=
    FilterAuditor.rotation_fair hvalid (by decide) List.mem_cons_self rfl 2 3
  refine ⟨before, r', block, r'', hbefore, hblock, ?_, fun draw hdraw => ?_⟩
  · have hnames := hperm.map ParsedBundle.name
    rwa [List.map_map] at hnames
  · obtain ⟨hmin, hmax, -⟩ := hspan draw hdraw
    exact ⟨hmin, hmax⟩

end ShredTools.Audit
