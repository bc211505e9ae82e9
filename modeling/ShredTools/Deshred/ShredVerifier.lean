import Mathlib.Data.List.MinMax
import ShredTools.Deshred.LeaderSchedule
import ShredTools.Library.KeyedTable
import ShredTools.Library.Run

/-!
# Shred verification with a cache of merkle roots

`ShredVerifier` checks the signature of a shred over its merkle root once per root and slot, and
keeps the answer for the last 64 slots and up to 4096 roots a slot.  The cached answer belongs to
the root, but the signature belongs to the shred: two shreds with one root and different signature
bytes get the answer of the one that came first.

`cache_spec` says what the cache holds after any history of shreds, as a function of the history
alone: for each slot of the window its first distinct roots, each with the answer for the first
shred that had it.  The main result follows: the answer for a shred is that of an empty cache
exactly when the first shred with its slot and root, if the cache still knows it, has the same
answer.
-/

namespace ShredTools.Deshred

/-- `SLOTS_CACHED` -/
def slotsCached : ℕ := 64

/-- `MAX_ROOTS_PER_SLOT` -/
def maxRootsPerSlot : ℕ := 4096

/-- `Verdict` -/
inductive Verdict where
  | valid
  | invalid
  | unknownLeader
  deriving DecidableEq

/-- The functions of the shred and signature libraries that the verifier calls. -/
structure ShredLibrary (Root Address : Type*) where
  /-- `layout::get_slot` -/
  getSlot : List UInt8 → Option ℕ
  /-- `layout::get_merkle_root` -/
  getMerkleRoot : List UInt8 → Option Root
  /-- `Signature::verify` of 64 signature bytes, for a leader and a root. -/
  signatureVerify : List UInt8 → Address → Root → Bool

variable {Root Address : Type*}

/-- The roots checked, by slot, with the answer for each. -/
abbrev RootCache (Root : Type*) := AList fun _ : ℕ => AList fun _ : Root => Bool

/-- `verdict` -/
def verdict (valid : Bool) : Verdict := if valid then .valid else .invalid

/-- Whether the first 64 bytes of a shred are the leader's signature of a root. -/
def ShredLibrary.signed (lib : ShredLibrary Root Address) (shred : List UInt8) (leader : Address)
    (root : Root) : Bool :=
  if 64 ≤ shred.length then lib.signatureVerify (shred.take 64) leader root else false

/-- The end of `verify`: note the answer for a root, then drop the slots that left the window. -/
def remember [DecidableEq Root] (roots : RootCache Root) (slot : ℕ) (root : Root)
    (valid : Bool) : RootCache Root :=
  let roots := roots.upsert slot ∅ fun slotRoots =>
    if slotRoots.keys.length < maxRootsPerSlot then slotRoots.insert root valid else slotRoots
  match roots.keys.max? with
  | some newest => roots.retain fun slot _ => newest - (slotsCached - 1) ≤ slot
  | none => roots

/-- `ShredVerifier::verify` -/
def verify [DecidableEq Root] (lib : ShredLibrary Root Address) (leaders : LeaderSchedule Address)
    (roots : RootCache Root) (shred : List UInt8) : RootCache Root × Verdict :=
  match lib.getSlot shred, lib.getMerkleRoot shred with
  | some slot, some root =>
    match (roots.lookup slot).bind fun slotRoots => slotRoots.lookup root with
    | some valid => (roots, verdict valid)
    | none =>
      match leaders.leader slot with
      | none => (roots, .unknownLeader)
      | some leader =>
        let valid := lib.signed shred leader root
        (remember roots slot root valid, verdict valid)
  | _, _ => (roots, .invalid)

/-! ### What a history brings to the cache -/

/-- A check of a signature: the slot, the root and the answer. -/
structure Check (Root : Type*) where
  /-- The slot of the shred. -/
  slot : ℕ
  /-- The merkle root of the shred. -/
  root : Root
  /-- Whether its own signature is the leader's. -/
  valid : Bool

/-- The check that a shred asks for, if it parses and its slot has a known leader. -/
def checkOf (lib : ShredLibrary Root Address) (leaders : LeaderSchedule Address)
    (shred : List UInt8) : Option (Check Root) :=
  match lib.getSlot shred, lib.getMerkleRoot shred with
  | some slot, some root =>
    (leaders.leader slot).map fun leader => ⟨slot, root, lib.signed shred leader root⟩
  | _, _ => none

/-- What a check is made of. -/
lemma checkOf_eq_some_iff {lib : ShredLibrary Root Address} {leaders : LeaderSchedule Address}
    {shred : List UInt8} {check : Check Root} :
    checkOf lib leaders shred = some check ↔
      ∃ slot root leader, lib.getSlot shred = some slot ∧ lib.getMerkleRoot shred = some root ∧
        leaders.leader slot = some leader ∧ ⟨slot, root, lib.signed shred leader root⟩ = check := by
  unfold checkOf
  cases hslot : lib.getSlot shred with
  | none => simp
  | some slot =>
    cases hroot : lib.getMerkleRoot shred with
    | none => simp
    | some root => simp [Option.map_eq_some_iff]

/-- The slot of a check has a known leader. -/
lemma leader_of_checkOf (lib : ShredLibrary Root Address) (leaders : LeaderSchedule Address)
    {shred : List UInt8} {check : Check Root}
    (h : checkOf lib leaders shred = some check) :
    ∃ leader, leaders.leader check.slot = some leader := by
  obtain ⟨slot, root, leader, -, -, hleader, rfl⟩ := checkOf_eq_some_iff.mp h
  exact ⟨leader, hleader⟩

/-- The newest slot among some checks. -/
def newestSlot (checks : List (Check Root)) : ℕ := (checks.map Check.slot).foldl max 0

/-- The distinct roots of a slot, in the order of their first checks. -/
def slotRoots [DecidableEq Root] (checks : List (Check Root)) (slot : ℕ) : List Root :=
  ((checks.filter fun check => check.slot = slot).map Check.root).eraseDups

/-- The first check of a root of a slot. -/
def firstCheck [DecidableEq Root] (checks : List (Check Root)) (slot : ℕ) (root : Root) :
    Option (Check Root) :=
  checks.find? fun check => check.slot = slot ∧ check.root = root

/-- The slot lies in the window and the root was among the first of the slot, so that the cache
remembers it. -/
def Remembered [DecidableEq Root] (checks : List (Check Root)) (slot : ℕ) (root : Root) : Prop :=
  newestSlot checks ≤ slot + (slotsCached - 1) ∧
    root ∈ (slotRoots checks slot).take maxRootsPerSlot

/-- One more check. -/
lemma newestSlot_concat (checks : List (Check Root)) (check : Check Root) :
    newestSlot (checks ++ [check]) = max (newestSlot checks) check.slot := by
  simp [newestSlot]

/-- No check is of a later slot than the newest. -/
lemma slot_le_newestSlot {checks : List (Check Root)} {check : Check Root}
    (h : check ∈ checks) : check.slot ≤ newestSlot checks := by
  induction checks using List.reverseRecOn with
  | nil => exact absurd h List.not_mem_nil
  | append_singleton checks last ih =>
    rw [newestSlot_concat]
    rcases List.mem_append.mp h with h | h
    · exact (ih h).trans (le_max_left _ _)
    · rw [List.mem_singleton.mp h]
      exact le_max_right _ _

/-- The newest slot is that of a check. -/
lemma exists_newestSlot {checks : List (Check Root)} (h : checks ≠ []) :
    ∃ check ∈ checks, check.slot = newestSlot checks := by
  induction checks using List.reverseRecOn with
  | nil => exact absurd rfl h
  | append_singleton checks last ih =>
    rw [newestSlot_concat]
    by_cases hle : newestSlot checks ≤ last.slot
    · exact ⟨last, List.mem_append_right _ (List.mem_singleton_self _), (max_eq_right hle).symm⟩
    · have hne : checks ≠ [] := by
        rintro rfl
        exact hle (Nat.zero_le _)
      obtain ⟨check, hmem, heq⟩ := ih hne
      refine ⟨check, List.mem_append_left _ hmem, ?_⟩
      rw [heq, max_eq_left (not_le.mp hle).le]

variable [DecidableEq Root]

/-- The roots of another slot do not change. -/
lemma slotRoots_concat_of_ne {checks : List (Check Root)} {check : Check Root} {slot : ℕ}
    (h : check.slot ≠ slot) : slotRoots (checks ++ [check]) slot = slotRoots checks slot := by
  simp [slotRoots, List.filter_append, h]

/-- A check adds its root to those of its slot, unless it is there. -/
lemma slotRoots_concat_self (checks : List (Check Root)) (check : Check Root) :
    slotRoots (checks ++ [check]) check.slot = slotRoots checks check.slot ++
      if check.root ∈ slotRoots checks check.slot then [] else [check.root] := by
  unfold slotRoots
  rw [List.filter_append, List.map_append, List.eraseDups_append]
  congr 1
  by_cases h : check.root ∈
      (checks.filter fun other => other.slot = check.slot).map Check.root
  · simp [List.removeAll, h]
  · simp [List.removeAll, h, List.eraseDups_cons]

/-- A root that is listed has a first check. -/
lemma mem_slotRoots_iff {checks : List (Check Root)} {slot : ℕ} {root : Root} :
    root ∈ slotRoots checks slot ↔ ∃ check ∈ checks, check.slot = slot ∧ check.root = root := by
  simp only [slotRoots, List.mem_eraseDups, List.mem_map, List.mem_filter, decide_eq_true_eq,
    and_assoc]

/-- The first check of a root stays the first. -/
lemma firstCheck_concat (checks : List (Check Root)) (check : Check Root) (slot : ℕ)
    (root : Root) : firstCheck (checks ++ [check]) slot root =
      (firstCheck checks slot root).or
        (if check.slot = slot ∧ check.root = root then some check else none) := by
  simp only [firstCheck, List.find?_append, List.find?_cons, List.find?_nil]
  congr 1
  by_cases h : check.slot = slot ∧ check.root = root
  · simp [h]
  · simp [h]

/-- A check of another slot or root is no first check of this one. -/
lemma firstCheck_concat_of_ne {checks : List (Check Root)} {check : Check Root} {slot : ℕ}
    {root : Root} (h : ¬ (check.slot = slot ∧ check.root = root)) :
    firstCheck (checks ++ [check]) slot root = firstCheck checks slot root := by
  rw [firstCheck_concat, if_neg h, Option.or_none]

/-- There is a first check exactly of the roots that are listed. -/
lemma firstCheck_isSome {checks : List (Check Root)} {slot : ℕ} {root : Root} :
    (firstCheck checks slot root).isSome = true ↔ root ∈ slotRoots checks slot := by
  rw [mem_slotRoots_iff, firstCheck, List.find?_isSome]
  simp only [decide_eq_true_eq]

/-! ### What the cache holds -/

/-- The cache after some checks: the slots of the window, each with its first roots and the answer
of their first checks. -/
structure CacheSpec (checks : List (Check Root)) (roots : RootCache Root) : Prop where
  /-- Only slots that were checked are there. -/
  checked : ∀ slot m, roots.lookup slot = some m → ∃ check ∈ checks, check.slot = slot
  /-- Only slots of the window are there. -/
  window : ∀ slot m, roots.lookup slot = some m → newestSlot checks ≤ slot + (slotsCached - 1)
  /-- All slots checked and in the window are there. -/
  present : ∀ check ∈ checks, newestSlot checks ≤ check.slot + (slotsCached - 1) →
    ∃ m, roots.lookup check.slot = some m
  /-- A slot has as many roots as were checked, up to the limit. -/
  length : ∀ slot m, roots.lookup slot = some m →
    m.keys.length = min maxRootsPerSlot (slotRoots checks slot).length
  /-- Each of its first roots has the answer of its first check. -/
  answer : ∀ slot m, roots.lookup slot = some m → ∀ root, m.lookup root =
    if root ∈ (slotRoots checks slot).take maxRootsPerSlot then
      (firstCheck checks slot root).map Check.valid else none

/-- The roots of the slot after a check, before the window moves. -/
def slotAfter (roots : RootCache Root) (check : Check Root) : AList fun _ : Root => Bool :=
  let slotRoots := (roots.lookup check.slot).getD ∅
  if slotRoots.keys.length < maxRootsPerSlot then slotRoots.insert check.root check.valid
  else slotRoots

/-- The window after a check ends at the newest slot checked. -/
lemma CacheSpec.max_keys {checks : List (Check Root)} {roots : RootCache Root}
    (h : CacheSpec checks roots) (check : Check Root)
    (f : (AList fun _ : Root => Bool) → AList fun _ : Root => Bool) :
    (roots.upsert check.slot ∅ f).keys.max? = some (newestSlot (checks ++ [check])) := by
  rw [List.max?_eq_some_iff]
  constructor
  · rw [AList.mem_keys_iff_lookup, newestSlot_concat]
    by_cases hle : newestSlot checks ≤ check.slot
    · rw [max_eq_right hle]
      exact ⟨_, AList.lookup_upsert_self ..⟩
    · have hne : checks ≠ [] := by
        rintro rfl
        exact hle (Nat.zero_le _)
      obtain ⟨newest, hmem, heq⟩ := exists_newestSlot hne
      obtain ⟨m, hm⟩ := h.present newest hmem (by omega)
      rw [max_eq_left (not_le.mp hle).le, ← heq, AList.lookup_upsert_ne (by omega)]
      exact ⟨m, hm⟩
  · intro slot hslot
    rw [AList.mem_keys_iff_lookup] at hslot
    obtain ⟨m, hm⟩ := hslot
    rw [newestSlot_concat]
    by_cases heq : slot = check.slot
    · rw [heq]
      exact le_max_right _ _
    · rw [AList.lookup_upsert_ne heq] at hm
      obtain ⟨other, hmem, rfl⟩ := h.checked slot m hm
      exact (slot_le_newestSlot hmem).trans (le_max_left _ _)

/-- What `remember` leaves at each slot. -/
lemma CacheSpec.lookup_remember {checks : List (Check Root)} {roots : RootCache Root}
    (h : CacheSpec checks roots) (check : Check Root) (slot : ℕ) :
    (remember roots check.slot check.root check.valid).lookup slot =
      if newestSlot (checks ++ [check]) ≤ slot + (slotsCached - 1) then
        if slot = check.slot then some (slotAfter roots check) else roots.lookup slot
      else none := by
  unfold remember
  dsimp only
  rw [h.max_keys check]
  dsimp only
  rw [AList.lookup_retain, AList.lookup_upsert]
  change Option.filter _ (if slot = check.slot then some (slotAfter roots check)
    else roots.lookup slot) = _
  cases (if slot = check.slot then some (slotAfter roots check) else roots.lookup slot) with
  | none => simp
  | some m =>
    by_cases hwindow : newestSlot (checks ++ [check]) ≤ slot + (slotsCached - 1)
    · rw [if_pos hwindow]
      exact if_pos (decide_eq_true (by omega))
    · rw [if_neg hwindow]
      exact if_neg (by rw [decide_eq_true_eq]; omega)

/-- What the cache holds of a slot: its first roots, each with the answer of its first check. -/
def Holds (checks : List (Check Root)) (slot : ℕ) (m : AList fun _ : Root => Bool) : Prop :=
  m.keys.length = min maxRootsPerSlot (slotRoots checks slot).length ∧
    ∀ root, m.lookup root = if root ∈ (slotRoots checks slot).take maxRootsPerSlot then
      (firstCheck checks slot root).map Check.valid else none

/-- A slot inside the window holds its roots, also when none was checked yet. -/
theorem CacheSpec.holds {checks : List (Check Root)} {roots : RootCache Root}
    (h : CacheSpec checks roots) {slot : ℕ}
    (hwindow : newestSlot checks ≤ slot + (slotsCached - 1)) :
    Holds checks slot ((roots.lookup slot).getD ∅) := by
  cases hm : roots.lookup slot with
  | some m => exact ⟨h.length slot m hm, h.answer slot m hm⟩
  | none =>
    have hnil : slotRoots checks slot = [] := by
      rw [List.eq_nil_iff_forall_not_mem]
      intro root hroot
      obtain ⟨check, hmem, rfl, -⟩ := mem_slotRoots_iff.mp hroot
      obtain ⟨m, hm'⟩ := h.present check hmem hwindow
      rw [hm] at hm'
      simp at hm'
    constructor
    · rw [hnil]
      rfl
    · intro root
      rw [hnil]
      rfl

/-- The answer of a root that is held already does not depend on later checks. -/
lemma firstCheck_concat_of_mem {checks : List (Check Root)} {check : Check Root} {slot : ℕ}
    {root : Root} (h : root ∈ slotRoots checks slot) :
    firstCheck (checks ++ [check]) slot root = firstCheck checks slot root := by
  rw [firstCheck_concat, Option.or_of_isSome (firstCheck_isSome.mpr h)]

/-- A check of another slot changes nothing for a slot. -/
lemma Holds.concat_of_ne {checks : List (Check Root)} {check : Check Root} {slot : ℕ}
    {m : AList fun _ : Root => Bool} (h : Holds checks slot m) (hne : check.slot ≠ slot) :
    Holds (checks ++ [check]) slot m := by
  unfold Holds
  rw [slotRoots_concat_of_ne hne]
  refine ⟨h.1, fun root => ?_⟩
  rw [h.2 root, firstCheck_concat_of_ne fun heq => hne heq.1]

/-- A check of a root the cache holds changes nothing for its slot. -/
lemma Holds.concat_of_mem {checks : List (Check Root)} {check : Check Root}
    {m : AList fun _ : Root => Bool} (h : Holds checks check.slot m)
    (hmem : check.root ∈ slotRoots checks check.slot) :
    Holds (checks ++ [check]) check.slot m := by
  unfold Holds
  rw [slotRoots_concat_self, if_pos hmem, List.append_nil]
  refine ⟨h.1, fun root => ?_⟩
  rw [h.2 root]
  refine if_congr Iff.rfl ?_ rfl
  by_cases heq : check.root = root
  · rw [firstCheck_concat, Option.or_of_isSome (firstCheck_isSome.mpr (heq ▸ hmem))]
  · rw [firstCheck_concat_of_ne fun h => heq h.2]

/-- A check of a root the cache does not hold: the root is added while there is room. -/
lemma Holds.slotAfter {checks : List (Check Root)} {check : Check Root} {roots : RootCache Root}
    (h : Holds checks check.slot ((roots.lookup check.slot).getD ∅))
    (hnew : check.root ∉ (slotRoots checks check.slot).take maxRootsPerSlot) :
    Holds (checks ++ [check]) check.slot (slotAfter roots check) := by
  obtain ⟨hlength, hanswer⟩ := h
  unfold Deshred.slotAfter
  dsimp only
  by_cases hroom : ((roots.lookup check.slot).getD ∅).keys.length < maxRootsPerSlot
  · -- All roots of the slot are held, so this one is new.
    have hlen : (slotRoots checks check.slot).length < maxRootsPerSlot := by
      by_contra hge
      rw [min_eq_left (not_lt.mp hge)] at hlength
      omega
    rw [List.take_of_length_le hlen.le] at hnew
    have hkey : check.root ∉ ((roots.lookup check.slot).getD ∅).keys := by
      rw [AList.mem_keys_iff_lookup]
      rintro ⟨v, hv⟩
      rw [hanswer, List.take_of_length_le hlen.le, if_neg hnew] at hv
      simp at hv
    rw [if_pos hroom]
    unfold Holds
    rw [slotRoots_concat_self, if_neg hnew]
    constructor
    · rw [AList.keys_insert, List.erase_of_not_mem hkey, List.length_cons, hlength,
        List.length_append, List.length_singleton, min_eq_right hlen.le, min_eq_right hlen]
    · intro root
      rw [List.take_of_length_le (by rw [List.length_append]; exact hlen)]
      by_cases heq : root = check.root
      · subst heq
        have hnone : firstCheck checks check.slot check.root = none := by
          rw [← Option.not_isSome_iff_eq_none, firstCheck_isSome]
          exact hnew
        rw [AList.lookup_insert, if_pos (by simp), firstCheck_concat, hnone, if_pos ⟨rfl, rfl⟩]
        rfl
      · rw [AList.lookup_insert_ne heq, hanswer, List.take_of_length_le hlen.le,
          firstCheck_concat_of_ne fun h => heq h.2.symm]
        simp [heq]
  · -- The slot is full: later roots are not held.
    have hlen : maxRootsPerSlot ≤ (slotRoots checks check.slot).length := by
      by_contra hlt
      rw [min_eq_right (not_le.mp hlt).le] at hlength
      omega
    rw [if_neg hroom]
    unfold Holds
    rw [slotRoots_concat_self, List.take_append_of_le_length hlen]
    constructor
    · rw [hlength, List.length_append]
      omega
    · intro root
      rw [hanswer]
      by_cases hmem : root ∈ (slotRoots checks check.slot).take maxRootsPerSlot
      · rw [if_pos hmem, if_pos hmem, firstCheck_concat_of_mem (List.mem_of_mem_take hmem)]
      · rw [if_neg hmem, if_neg hmem]

/-- **Step.**  A check that the cache did not answer. -/
theorem CacheSpec.remember {checks : List (Check Root)} {roots : RootCache Root}
    (h : CacheSpec checks roots) (check : Check Root)
    (hmiss : ((roots.lookup check.slot).bind fun m => m.lookup check.root) = none) :
    CacheSpec (checks ++ [check])
      (Deshred.remember roots check.slot check.root check.valid) := by
  have hle : newestSlot checks ≤ newestSlot (checks ++ [check]) := by
    rw [newestSlot_concat]
    exact le_max_left _ _
  have hlookup := h.lookup_remember check
  have hholds : ∀ slot m,
      (Deshred.remember roots check.slot check.root check.valid).lookup slot = some m →
      Holds (checks ++ [check]) slot m := by
    intro slot m hm
    rw [hlookup] at hm
    -- only the slot of the check is written, and what falls out of the window is dropped
    split_ifs at hm with hwindow heq
    · subst heq
      rw [← Option.some.inj hm]
      have hheld := h.holds (hle.trans hwindow)
      refine hheld.slotAfter fun hmem => ?_
      -- were the root among the first of its slot, the cache would have answered
      obtain ⟨first, hfirst⟩ :=
        Option.isSome_iff_exists.mp (firstCheck_isSome.mpr (List.mem_of_mem_take hmem))
      have hanswer := hheld.2 check.root
      rw [if_pos hmem, hfirst] at hanswer
      cases hold : roots.lookup check.slot with
      | none =>
        rw [hold] at hanswer
        simp at hanswer
      | some m' =>
        rw [hold] at hmiss hanswer
        rw [Option.bind_some] at hmiss
        rw [Option.getD_some, hmiss] at hanswer
        simp at hanswer
    · have hheld := h.holds (hle.trans hwindow)
      rw [hm] at hheld
      exact hheld.concat_of_ne (Ne.symm heq)
  refine
    { checked := fun slot m hm => ?_, window := fun slot m hm => ?_
      present := fun other hmem hwindow => ?_, length := fun slot m hm => (hholds slot m hm).1
      answer := fun slot m hm => (hholds slot m hm).2 }
  · rw [hlookup] at hm
    split_ifs at hm with hwindow heq
    · exact ⟨check, List.mem_append_right _ (List.mem_singleton_self _), heq.symm⟩
    · obtain ⟨other, hmem, hslot⟩ := h.checked slot m hm
      exact ⟨other, List.mem_append_left _ hmem, hslot⟩
  · rw [hlookup] at hm
    split_ifs at hm with hwindow heq
    · exact hwindow
    · exact hwindow
  · rw [hlookup, if_pos hwindow]
    split_ifs with heq
    · exact ⟨_, rfl⟩
    · rcases List.mem_append.mp hmem with hmem | hmem
      · exact h.present other hmem (hle.trans hwindow)
      · rw [List.mem_singleton] at hmem
        exact absurd (congrArg Check.slot hmem) heq

/-- **Step.**  A check that the cache answered. -/
theorem CacheSpec.cached {checks : List (Check Root)} {roots : RootCache Root}
    (h : CacheSpec checks roots) (check : Check Root) {m : AList fun _ : Root => Bool}
    (hm : roots.lookup check.slot = some m) (hmem : check.root ∈ slotRoots checks check.slot) :
    CacheSpec (checks ++ [check]) roots := by
  have hnewest : newestSlot (checks ++ [check]) = newestSlot checks := by
    obtain ⟨other, hother, hslot⟩ := h.checked _ m hm
    rw [newestSlot_concat, ← hslot, max_eq_left (slot_le_newestSlot hother)]
  have hholds : ∀ slot m, roots.lookup slot = some m → Holds (checks ++ [check]) slot m := by
    intro slot m' hm'
    have hheld : Holds checks slot m' := ⟨h.length slot m' hm', h.answer slot m' hm'⟩
    by_cases heq : check.slot = slot
    · subst heq
      exact hheld.concat_of_mem hmem
    · exact hheld.concat_of_ne heq
  refine
    { checked := fun slot m' hm' => ?_, window := fun slot m' hm' => ?_
      present := fun other hother hwindow => ?_, length := fun slot m' hm' => (hholds slot m' hm').1
      answer := fun slot m' hm' => (hholds slot m' hm').2 }
  · obtain ⟨other, hother, hslot⟩ := h.checked slot m' hm'
    exact ⟨other, List.mem_append_left _ hother, hslot⟩
  · rw [hnewest]
    exact h.window slot m' hm'
  · rw [hnewest] at hwindow
    rcases List.mem_append.mp hother with hother | hother
    · exact h.present other hother hwindow
    · rw [List.mem_singleton.mp hother]
      exact ⟨m, hm⟩

/-! ### Verification after a history -/

variable (lib : ShredLibrary Root Address) (leaders : LeaderSchedule Address)

/-- The cache after a history of shreds. -/
def cacheAfter (history : List (List UInt8)) : RootCache Root :=
  Machine.finalState (verify lib leaders) ∅ history

/-- The checks that a history of shreds asks for. -/
def checksOf (history : List (List UInt8)) : List (Check Root) :=
  history.filterMap (checkOf lib leaders)

/-- A shred that asks for no check leaves the cache alone. -/
lemma verify_of_no_check {roots : RootCache Root} {shred : List UInt8}
    (h : checkOf lib leaders shred = none)
    (hknown : ∀ slot m, roots.lookup slot = some m → ∃ leader, leaders.leader slot = some leader) :
    (verify lib leaders roots shred).1 = roots := by
  unfold checkOf at h
  unfold verify
  cases hslot : lib.getSlot shred with
  | none => rfl
  | some slot =>
    cases hroot : lib.getMerkleRoot shred with
    | none => rfl
    | some root =>
      rw [hslot, hroot] at h
      have hnone : leaders.leader slot = none := by simpa using h
      have hmiss : roots.lookup slot = none := by
        rw [Option.eq_none_iff_forall_ne_some]
        intro m hm
        obtain ⟨leader, hleader⟩ := hknown slot m hm
        rw [hnone] at hleader
        simp at hleader
      simp [hmiss, hnone]

/-- A shred that asks for a check gets the answer of the cache, or its own. -/
lemma verify_of_check {roots : RootCache Root} {shred : List UInt8} {check : Check Root}
    (h : checkOf lib leaders shred = some check) :
    verify lib leaders roots shred =
      match (roots.lookup check.slot).bind fun m => m.lookup check.root with
      | some valid => (roots, verdict valid)
      | none => (remember roots check.slot check.root check.valid, verdict check.valid) := by
  obtain ⟨slot, root, leader, hslot, hroot, hleader, rfl⟩ := checkOf_eq_some_iff.mp h
  unfold verify
  rw [hslot, hroot]
  dsimp only
  rw [hleader]

/-- What the cache answers, if it answers. -/
theorem CacheSpec.lookup {checks : List (Check Root)} {roots : RootCache Root}
    (h : CacheSpec checks roots) (slot : ℕ) (root : Root) (valid : Bool) :
    ((roots.lookup slot).bind fun m => m.lookup root) = some valid ↔
      Remembered checks slot root ∧ ∃ first, firstCheck checks slot root = some first ∧
        first.valid = valid := by
  rw [Option.bind_eq_some_iff]
  constructor
  · rintro ⟨m, hm, hanswer⟩
    rw [h.answer slot m hm] at hanswer
    split_ifs at hanswer with hmem
    obtain ⟨first, hfirst, hvalid⟩ := Option.map_eq_some_iff.mp hanswer
    exact ⟨⟨h.window slot m hm, hmem⟩, first, hfirst, hvalid⟩
  · rintro ⟨⟨hwindow, hmem⟩, first, hfirst, hvalid⟩
    obtain ⟨check, hcheck, rfl, -⟩ := mem_slotRoots_iff.mp (List.mem_of_mem_take hmem)
    obtain ⟨m, hm⟩ := h.present check hcheck hwindow
    refine ⟨m, hm, ?_⟩
    rw [h.answer _ m hm, if_pos hmem, hfirst, Option.map_some, hvalid]

/-- **What the cache holds.**  After any history it is the cache of the checks asked for. -/
theorem cache_spec (history : List (List UInt8)) :
    CacheSpec (checksOf lib leaders history) (cacheAfter lib leaders history) := by
  -- the roots of slots without a leader never reach the cache, which the induction needs too
  have hinv : (∀ check ∈ checksOf lib leaders history,
        ∃ leader, leaders.leader check.slot = some leader) ∧
      CacheSpec (checksOf lib leaders history) (cacheAfter lib leaders history) := by
    refine Machine.run_induction (verify lib leaders)
      (P := fun history roots _ => (∀ check ∈ checksOf lib leaders history,
        ∃ leader, leaders.leader check.slot = some leader) ∧
        CacheSpec (checksOf lib leaders history) roots) ?_ ?_ history
    · refine ⟨fun _ h => absurd h List.not_mem_nil, ?_⟩
      have hnone : ∀ slot, (∅ : RootCache Root).lookup slot = none := fun _ => rfl
      constructor
      · intro slot m hm
        simp [hnone] at hm
      · intro slot m hm
        simp [hnone] at hm
      · exact fun _ h => absurd h List.not_mem_nil
      · intro slot m hm
        simp [hnone] at hm
      · intro slot m hm
        simp [hnone] at hm
    · rintro history shred roots _ ⟨hknown, hspec⟩
      have hsplit : checksOf lib leaders (history ++ [shred]) =
          checksOf lib leaders history ++ (checkOf lib leaders shred).toList := by
        unfold checksOf
        rw [List.filterMap_append, List.filterMap_cons, List.filterMap_nil]
        cases checkOf lib leaders shred <;> rfl
      rw [hsplit]
      cases hcheck : checkOf lib leaders shred with
      | none =>
        rw [Option.toList_none, List.append_nil, verify_of_no_check lib leaders hcheck]
        · exact ⟨hknown, hspec⟩
        · intro slot m hm
          obtain ⟨check, hmem, rfl⟩ := hspec.checked slot m hm
          exact hknown check hmem
      | some check =>
        rw [Option.toList_some, verify_of_check lib leaders hcheck]
        refine ⟨?_, ?_⟩
        · intro other hmem
          rcases List.mem_append.mp hmem with hmem | hmem
          · exact hknown other hmem
          · rw [List.mem_singleton.mp hmem]
            exact leader_of_checkOf lib leaders hcheck
        · cases hlookup : (roots.lookup check.slot).bind fun m => m.lookup check.root with
          | none => exact hspec.remember check hlookup
          | some valid =>
            obtain ⟨m, hm, -⟩ := Option.bind_eq_some_iff.mp hlookup
            obtain ⟨⟨-, hmem⟩, -⟩ := (hspec.lookup _ _ _).mp hlookup
            exact hspec.cached check hm (List.mem_of_mem_take hmem)
  exact hinv.2

/-- The verifier answers for a shred with its own check, unless it remembers another one. -/
def AnswersItself (history : List (List UInt8)) (shred : List UInt8) : Prop :=
  ∀ check, checkOf lib leaders shred = some check →
    Remembered (checksOf lib leaders history) check.slot check.root →
    ∀ first, firstCheck (checksOf lib leaders history) check.slot check.root = some first →
      first.valid = check.valid

/-- Answers determine verdicts. -/
lemma verdict_inj {valid valid' : Bool} : verdict valid = verdict valid' ↔ valid = valid' := by
  cases valid <;> cases valid' <;> decide

/-- **When the cache is transparent.**  After any history, the verdict for a shred of a slot with a
known leader is that of an empty cache, and is valid exactly if the shred's own first 64 bytes are
the leader's signature of its root, if and only if the first shred of the history with the same
slot and root, when the cache still remembers it, had the same answer. -/
theorem verify_transparent_iff {slot : ℕ} {leader : Address} (history : List (List UInt8))
    (shred : List UInt8) (hslot : lib.getSlot shred = some slot)
    (hleader : leaders.leader slot = some leader) :
    ((verify lib leaders (cacheAfter lib leaders history) shred).2 =
        (verify lib leaders ∅ shred).2 ∧
      ((verify lib leaders (cacheAfter lib leaders history) shred).2 = .valid ↔
        ∃ root, lib.getMerkleRoot shred = some root ∧ lib.signed shred leader root = true)) ↔
    AnswersItself lib leaders history shred := by
  cases hroot : lib.getMerkleRoot shred with
  | none =>
    have hverify : ∀ roots, verify lib leaders roots shred = (roots, .invalid) := by
      intro roots
      unfold verify
      rw [hslot, hroot]
    have hcheck : checkOf lib leaders shred = none := by
      unfold checkOf
      rw [hslot, hroot]
    simp [hverify, AnswersItself, hcheck]
  | some root =>
    have hcheck : checkOf lib leaders shred = some ⟨slot, root, lib.signed shred leader root⟩ :=
      checkOf_eq_some_iff.mpr ⟨slot, root, leader, hslot, hroot, hleader, rfl⟩
    have hfresh : (verify lib leaders ∅ shred).2 = verdict (lib.signed shred leader root) := by
      rw [verify_of_check lib leaders hcheck]
      rfl
    have hvalid : verdict (lib.signed shred leader root) = .valid ↔
        ∃ root', some root = some root' ∧ lib.signed shred leader root' = true := by
      simp [verdict]
    -- what the cache holds for a root is the outcome of the first check of it
    have hspec := cache_spec lib leaders history
    rw [hfresh]
    constructor
    · rintro ⟨heq, -⟩ check hcheck' hremembered first hfirst
      rw [hcheck] at hcheck'
      obtain rfl := Option.some.inj hcheck'
      have hlookup := (hspec.lookup _ _ _).mpr ⟨hremembered, first, hfirst, rfl⟩
      rw [verify_of_check lib leaders hcheck, hlookup] at heq
      exact verdict_inj.mp heq
    · intro hanswers
      have heq : (verify lib leaders (cacheAfter lib leaders history) shred).2 =
          verdict (lib.signed shred leader root) := by
        rw [verify_of_check lib leaders hcheck]
        cases hlookup : ((cacheAfter lib leaders history).lookup slot).bind
            fun m => m.lookup root with
        | none => rfl
        | some valid =>
          obtain ⟨hremembered, first, hfirst, hvalid⟩ := (hspec.lookup _ _ _).mp hlookup
          have := hanswers _ hcheck hremembered first hfirst
          simp [← hvalid, this]
      rw [heq]
      exact ⟨rfl, hvalid⟩

/-- A library for shreds of 64 signature bytes, a byte for the slot and the rest; the root is all
but the signature, and a signature is 64 times the leader. -/
def byteLibrary : ShredLibrary (List UInt8) UInt8 where
  getSlot shred := (shred[64]?).map UInt8.toNat
  getMerkleRoot shred := if 64 < shred.length then some (shred.drop 64) else none
  signatureVerify signature leader _ := signature.all (· == leader)

/-- Leader 1 for the first ten slots. -/
def byteLeaders : LeaderSchedule UInt8 := LeaderSchedule.empty.insertEpoch 0 (List.replicate 10 1)

/-- A shred of slot 9 with 64 equal signature bytes. -/
def byteShred (signature : UInt8) : List UInt8 := List.replicate 64 signature ++ [9]

/-- The cache is not transparent: after a genuine shred, a forged one with the same root is valid,
and after the forged shred the genuine one is not; an empty cache tells them apart.  The root does
not depend on the signature bytes. -/
theorem verify_not_transparent :
    (∀ a b, a.length = b.length → a.drop 64 = b.drop 64 →
      byteLibrary.getMerkleRoot a = byteLibrary.getMerkleRoot b) ∧
    (verify byteLibrary byteLeaders ∅ (byteShred 1)).2 = .valid ∧
    (verify byteLibrary byteLeaders ∅ (byteShred 2)).2 = .invalid ∧
    (verify byteLibrary byteLeaders (cacheAfter byteLibrary byteLeaders [byteShred 1])
      (byteShred 2)).2 = .valid ∧
    (verify byteLibrary byteLeaders (cacheAfter byteLibrary byteLeaders [byteShred 2])
      (byteShred 1)).2 = .invalid := by
  refine ⟨fun a b hlen h => ?_, by decide, by decide, by decide, by decide⟩
  simp only [byteLibrary, hlen, h]

/-- A second genuine shred is verified as by an empty cache. -/
theorem verify_transparent_iff_genuine :
    (verify byteLibrary byteLeaders (cacheAfter byteLibrary byteLeaders [byteShred 1])
      (byteShred 1)).2 = (verify byteLibrary byteLeaders ∅ (byteShred 1)).2 := by
  refine ((verify_transparent_iff byteLibrary byteLeaders [byteShred 1] (byteShred 1)
    (show byteLibrary.getSlot (byteShred 1) = some 9 by decide)
    (show byteLeaders.leader 9 = some 1 by decide)).mpr ?_).1
  intro check hcheck _ first hfirst
  have hmem := List.mem_of_find?_eq_some hfirst
  have hsame : checksOf byteLibrary byteLeaders [byteShred 1] = [check] := by
    simp [checksOf, hcheck]
  rw [hsame, List.mem_singleton] at hmem
  rw [hmem]

end ShredTools.Deshred
