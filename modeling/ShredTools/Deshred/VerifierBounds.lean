import ShredTools.Deshred.ShredVerifier
import ShredTools.Library.Segments

/-!
# The bounds of the cache of merkle roots

Whatever shreds arrive, the cache of `ShredVerifier` holds at most `SLOTS_CACHED` slots with at most
`MAX_ROOTS_PER_SLOT` roots each.  The bounds are an invariant of `remember` alone, for any slot, any
root and either answer: it fills a slot only below the limit, and it drops what lies too far below
the newest slot that is left after its own insertion.  They hold therefore along every run of calls,
with a schedule of its own for each call, and would hold for any interleaving of the writes.
-/

namespace ShredTools.Deshred

variable {Root Address : Type*}

/-- The bounds of the cache: no two slots are further apart than the window, and no slot has more
roots than the limit. -/
structure Bounded (roots : RootCache Root) : Prop where
  /-- Every slot lies within the window below every other. -/
  window : ∀ newest ∈ roots.keys, ∀ slot ∈ roots.keys, newest ≤ slot + (slotsCached - 1)
  /-- Every slot holds at most as many roots as the limit. -/
  full : ∀ slot slotRoots, roots.lookup slot = some slotRoots →
    slotRoots.keys.length ≤ maxRootsPerSlot

/-- The number of verdicts that the cache holds. -/
def verdictsHeld (roots : RootCache Root) : ℕ :=
  roots.total fun _ slotRoots => slotRoots.keys.length

/-- The empty cache is bounded. -/
lemma bounded_empty : Bounded (∅ : RootCache Root) := by
  constructor
  · intro newest hnewest
    exact absurd hnewest List.not_mem_nil
  · intro slot slotRoots h
    rw [AList.lookup_empty] at h
    cases h

/-- A bounded cache has no more slots than the window is wide. -/
lemma Bounded.length_keys_le {roots : RootCache Root} (h : Bounded roots) :
    roots.keys.length ≤ slotsCached := by
  cases hmax : roots.keys.max? with
  | none =>
    rw [List.max?_eq_none_iff.mp hmax]
    exact Nat.zero_le _
  | some newest =>
    obtain ⟨hnewest, hle⟩ := List.max?_eq_some_iff.mp hmax
    have hsub : roots.keys ⊆ rangeInclusive (newest - (slotsCached - 1)) newest := by
      intro slot hslot
      have hwindow := h.window newest hnewest slot hslot
      rw [mem_rangeInclusive]
      exact ⟨by omega, hle slot hslot⟩
    have hlength := (roots.keys_nodup.subperm hsub).length_le
    rw [length_rangeInclusive] at hlength
    have hcached : 0 < slotsCached := by decide
    omega

/-- A bounded cache holds no more verdicts than the two limits allow. -/
lemma Bounded.verdictsHeld_le {roots : RootCache Root} (h : Bounded roots) :
    verdictsHeld roots ≤ slotsCached * maxRootsPerSlot := by
  calc verdictsHeld roots ≤ roots.keys.length * maxRootsPerSlot := AList.total_le h.full
    _ ≤ slotsCached * maxRootsPerSlot := Nat.mul_le_mul_right _ h.length_keys_le

/-! ### Every call keeps the bounds -/

variable [DecidableEq Root]

/-- A slot takes another root only below its limit. -/
lemma length_keys_insert_le {slotRoots : AList fun _ : Root => Bool} (root : Root) (valid : Bool)
    (h : slotRoots.keys.length ≤ maxRootsPerSlot) :
    (if slotRoots.keys.length < maxRootsPerSlot then slotRoots.insert root valid
      else slotRoots).keys.length ≤ maxRootsPerSlot := by
  split_ifs with hlt
  · rw [AList.keys_insert, List.length_cons]
    have herase := List.length_erase_le (a := root) (l := slotRoots.keys)
    omega
  · exact h

/-- **Step.**  Noting an answer keeps the bounds, wherever its slot lies. -/
theorem Bounded.remember {roots : RootCache Root} (h : Bounded roots) (slot : ℕ) (root : Root)
    (valid : Bool) : Bounded (Deshred.remember roots slot root valid) := by
  unfold Deshred.remember
  dsimp only
  generalize hfilled : (roots.upsert slot ∅ fun slotRoots =>
    if slotRoots.keys.length < maxRootsPerSlot then slotRoots.insert root valid
    else slotRoots) = filled
  have hfull : ∀ slot' slotRoots, filled.lookup slot' = some slotRoots →
      slotRoots.keys.length ≤ maxRootsPerSlot := by
    intro slot' slotRoots hlookup
    rw [← hfilled] at hlookup
    by_cases heq : slot' = slot
    · rw [heq, AList.lookup_upsert_self] at hlookup
      rw [← Option.some.inj hlookup]
      apply length_keys_insert_le
      cases hold : roots.lookup slot with
      | none => exact Nat.zero_le _
      | some old => exact h.full slot old hold
    · rw [AList.lookup_upsert_ne heq] at hlookup
      exact h.full slot' slotRoots hlookup
  cases hmax : filled.keys.max? with
  | none =>
    refine ⟨?_, hfull⟩
    rw [List.max?_eq_none_iff.mp hmax]
    exact fun _ hnewest => absurd hnewest List.not_mem_nil
  | some newest =>
    obtain ⟨-, hle⟩ := List.max?_eq_some_iff.mp hmax
    -- what is left passed the test, and none of it is above the newest slot before
    have hleft : ∀ slot' slotRoots,
        (filled.retain fun slot _ => newest - (slotsCached - 1) ≤ slot).lookup slot' =
          some slotRoots →
        filled.lookup slot' = some slotRoots ∧ newest - (slotsCached - 1) ≤ slot' := by
      intro slot' slotRoots hlookup
      rw [AList.lookup_retain, Option.filter_eq_some_iff] at hlookup
      exact ⟨hlookup.1, of_decide_eq_true hlookup.2⟩
    constructor
    · intro high hhigh low hlow
      obtain ⟨highRoots, hhigh⟩ := AList.mem_keys_iff_lookup.mp hhigh
      obtain ⟨lowRoots, hlow⟩ := AList.mem_keys_iff_lookup.mp hlow
      have habove := hle high (AList.mem_keys_iff_lookup.mpr ⟨highRoots, (hleft _ _ hhigh).1⟩)
      have hbelow := (hleft _ _ hlow).2
      omega
    · exact fun slot' slotRoots hlookup => hfull slot' slotRoots (hleft _ _ hlookup).1

/-- **Step.**  A call of `verify` keeps the bounds, whatever the schedule knows and whatever the
shred is. -/
theorem Bounded.verify {roots : RootCache Root} (h : Bounded roots)
    (lib : ShredLibrary Root Address) (leaders : LeaderSchedule Address) (shred : List UInt8) :
    Bounded (Deshred.verify lib leaders roots shred).1 := by
  unfold Deshred.verify
  split
  · split
    · exact h
    · split
      · exact h
      · exact h.remember ..
  · exact h

/-- A call of one verifier in a run.  The schedule is shared and may be refreshed between two calls,
so that each call comes with the schedule it sees. -/
def verifyCall (lib : ShredLibrary Root Address) (roots : RootCache Root)
    (call : LeaderSchedule Address × List UInt8) : RootCache Root × Verdict :=
  Deshred.verify lib call.1 roots call.2

/-- The cache after a run of calls. -/
def cacheAfterCalls (lib : ShredLibrary Root Address)
    (calls : List (LeaderSchedule Address × List UInt8)) : RootCache Root :=
  Machine.finalState (verifyCall lib) ∅ calls

/-- The cache is bounded after every run. -/
lemma bounded_cacheAfterCalls (lib : ShredLibrary Root Address)
    (calls : List (LeaderSchedule Address × List UInt8)) :
    Bounded (cacheAfterCalls lib calls) :=
  Machine.run_induction (verifyCall lib) (P := fun _ roots _ => Bounded roots) bounded_empty
    (fun _ call _ _ h => h.verify lib call.1 call.2) calls

/-- **The cache stays bounded.**  After any calls, each with any schedule and any shred, valid or
forged, every slot of the cache lies within `SLOTS_CACHED - 1` of the highest, each holds at most
`MAX_ROOTS_PER_SLOT` roots, and the cache at most `SLOTS_CACHED * MAX_ROOTS_PER_SLOT` verdicts. -/
theorem cache_stays_bounded (lib : ShredLibrary Root Address)
    (calls : List (LeaderSchedule Address × List UInt8)) :
    (∀ newest, (cacheAfterCalls lib calls).keys.max? = some newest →
      ∀ slot ∈ (cacheAfterCalls lib calls).keys,
        slot ≤ newest ∧ newest ≤ slot + (slotsCached - 1)) ∧
    (∀ slot slotRoots, (cacheAfterCalls lib calls).lookup slot = some slotRoots →
      slotRoots.keys.length ≤ maxRootsPerSlot) ∧
    verdictsHeld (cacheAfterCalls lib calls) ≤ slotsCached * maxRootsPerSlot := by
  have hbounded := bounded_cacheAfterCalls lib calls
  refine ⟨?_, hbounded.full, hbounded.verdictsHeld_le⟩
  intro newest hmax slot hslot
  obtain ⟨hnewest, hle⟩ := List.max?_eq_some_iff.mp hmax
  exact ⟨hle slot hslot, hbounded.window newest hnewest slot hslot⟩

end ShredTools.Deshred
