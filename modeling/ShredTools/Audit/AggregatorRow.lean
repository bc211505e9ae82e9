import Mathlib.Data.Finset.Card
import ShredTools.Audit.AggregatorContents

/-!
# What a row says

Every row is a consistent account of the shreds that went into its set (`SetRow.AccountsFor`): which
of them are counted where, and which arrivals its times are.  This is so in any run, also in one
that drains the pending sets early and takes up their keys again; `pendingShreds` lists the shreds
of a key that have gone into a set since the last row of the key.

The times are those of accepted shreds.  A row without any has the time at which its set was made.
-/

namespace ShredTools.Audit

/-- A row as an account of the shreds that went into its set. -/
structure SetRow.AccountsFor (row : SetRow) (l : List VerifiedShred) : Prop where
  /-- The classes of failed shreds add up, in counters of 32 bits. -/
  invalid : row.invalid = (row.invalidSig + row.invalidData + row.invalidUnknown) % u32Size
  /-- The shreds delivered are the distinct places among accepted shreds. -/
  delivered : row.nData + row.nCode = (((acceptedOf l).filter fun s =>
    s.position < maxPosition).map VerifiedShred.place).toFinset.card
  /-- The set decoded if as many were delivered as were learned to be needed. -/
  decoded : row.decodeNs.isSome = true ↔
    ∃ k, learnedNumData (acceptedOf l) = some k ∧ 0 < k ∧ k ≤ row.nData + row.nCode
  /-- The set was decodable with the arrival of the last shred that was needed. -/
  decodeNs : ∀ t, row.decodeNs = some t → ∃ k, learnedNumData (acceptedOf l) = some k ∧
    List.IsKthSmallest ((placed (acceptedOf l)).map VerifiedShred.rxUnixNs) k t
  /-- Decoding lies between the first and the last time. -/
  ordered : ∀ t, row.decodeNs = some t → row.firstNs ≤ t ∧ t ≤ row.lastNs
  /-- The first and the last time are those of accepted shreds. -/
  accepted : acceptedOf l ≠ [] →
    ((acceptedOf l).map VerifiedShred.rxUnixNs).min? = some row.firstNs ∧
    ((acceptedOf l).map VerifiedShred.rxUnixNs).max? = some row.lastNs
  /-- Without an accepted shred there is nothing to time, and the row falls back on the time of the
  first shred. -/
  fallback : acceptedOf l = [] → row.decodeNs = none ∧
    l.head?.map VerifiedShred.rxUnixNs = some row.firstNs ∧ row.lastNs = row.firstNs
  /-- A valid set decoded, and the counters of other shreds are zero. -/
  isValid : row.isValid = true ↔ row.decodeNs.isSome = true ∧
    (failedOf l).length % u32Size = 0 ∧ (unverifiableOf l).length % u32Size = 0

/-- Every failed shred has one verdict. -/
lemma count_verdicts (verdicts : List (Option Bool)) : verdicts.count (some true) +
    verdicts.count (some false) + verdicts.count none = verdicts.length := by
  induction verdicts with
  | nil => rfl
  | cons verdict verdicts ih =>
    simp only [List.count_cons, List.length_cons]
    rcases verdict with _ | _ | _ <;> simp <;> omega

/-- When a set decoded. -/
theorem Accepted.decodeNs_eq_some_iff {acc : Accepted} {l : List VerifiedShred}
    (h : acc.Contains l) {t : ℤ} : acc.decodeNs = some t ↔
      ∃ k, learnedNumData l = some k ∧ 0 < k ∧ k ≤ (placed l).length ∧
        List.IsKthSmallest ((placed l).map VerifiedShred.rxUnixNs) k t := by
  have hlength : acc.arrivals.length = (placed l).length := by rw [h.arrivals, List.length_map]
  unfold decodeNs
  rw [hlength, h.numData]
  cases hlearned : learnedNumData l with
  | none => simp
  | some k =>
    simp only [Option.getD_some, Option.some.injEq, exists_eq_left']
    by_cases hk : 0 < k ∧ k ≤ (placed l).length
    · rw [if_pos hk, List.getElem?_insertionSort_eq_some_iff hk.1, h.arrivals, List.length_map]
      exact ⟨fun ⟨hle, hkth⟩ => ⟨hk.1, hle, hkth⟩, fun ⟨_, hle, hkth⟩ => ⟨hle, hkth⟩⟩
    · rw [if_neg hk]
      constructor
      · intro hnone
        simp at hnone
      · intro ⟨hpos, hle, _⟩
        exact absurd ⟨hpos, hle⟩ hk

/-- A set decoded if as many places were delivered as were learned to be needed. -/
lemma Accepted.isSome_decodeNs_iff {acc : Accepted} {l : List VerifiedShred}
    (h : acc.Contains l) : acc.decodeNs.isSome = true ↔
      ∃ k, learnedNumData l = some k ∧ 0 < k ∧ k ≤ (placed l).length := by
  constructor
  · intro hsome
    obtain ⟨t, ht⟩ := Option.isSome_iff_exists.mp hsome
    obtain ⟨k, hlearned, hpos, hle, -⟩ := (decodeNs_eq_some_iff h).mp ht
    exact ⟨k, hlearned, hpos, hle⟩
  · intro ⟨k, hlearned, hpos, hle⟩
    have hlt : k - 1 < (acc.arrivals.insertionSort (· ≤ ·)).length := by
      rw [List.length_insertionSort, h.arrivals, List.length_map]
      omega
    have hk : 0 < k ∧ k ≤ acc.arrivals.length := by
      rw [h.arrivals, List.length_map]
      exact ⟨hpos, hle⟩
    unfold decodeNs
    rw [h.numData, hlearned, Option.getD_some, if_pos hk, List.getElem?_eq_getElem hlt]
    rfl

/-- The places are those of the shreds whose positions have a bit, each once. -/
lemma length_placed (l : List VerifiedShred) : (placed l).length =
    ((l.filter fun s => s.position < maxPosition).map VerifiedShred.place).toFinset.card := by
  have hnodup : ((placed l).map VerifiedShred.place).Nodup := List.nodup_map_firstsBy _ _
  have hsame : ((placed l).map VerifiedShred.place).toFinset =
      ((l.filter fun s => s.position < maxPosition).map VerifiedShred.place).toFinset := by
    ext place
    rw [List.mem_toFinset, List.mem_toFinset, List.mem_map, List.mem_map]
    exact List.exists_mem_firstsBy_iff VerifiedShred.place
  rw [← hsame, List.toFinset_card_of_nodup hnodup, List.length_map]

/-- The row of a set accounts for the shreds that the set contains. -/
theorem accountsFor_finalize {l : List VerifiedShred} {st : SetState} (hset : setOf l = some st)
    (key : SetKey) (truth : Truth) : (finalize key st truth).AccountsFor l := by
  have h : st.Contains l := SetState.contains_of_setOf hset
  have hpart : st.toAccepted.Contains (acceptedOf l) := h.toAccepted_contains
  have hdelivered : (finalize key st truth).nData + (finalize key st truth).nCode =
      (placed (acceptedOf l)).length := hpart.countOnes_add_countOnes
  have haccepted : acceptedOf l ≠ [] →
      ((acceptedOf l).map VerifiedShred.rxUnixNs).min? = some (finalize key st truth).firstNs ∧
      ((acceptedOf l).map VerifiedShred.rxUnixNs).max? = some (finalize key st truth).lastNs := by
    intro hne
    have hmap : (acceptedOf l).map VerifiedShred.rxUnixNs ≠ [] := mt List.map_eq_nil_iff.mp hne
    obtain ⟨first, hfirst⟩ := Option.ne_none_iff_exists'.mp (mt List.min?_eq_none_iff.mp hmap)
    obtain ⟨last, hlast⟩ := Option.ne_none_iff_exists'.mp (mt List.max?_eq_none_iff.mp hmap)
    have hst : st.firstNs = some first := hpart.firstNs.trans hfirst
    have hst' : st.lastNs = some last := hpart.lastNs.trans hlast
    unfold finalize
    dsimp only
    rw [hfirst, hlast, hst, hst']
    exact ⟨rfl, rfl⟩
  refine ⟨?_, ?_, ?_, ?_, ?_, haccepted, ?_, ?_⟩
  · have hcount := count_verdicts
      (st.invalidShreds.map (matchesTruth truth key.slot key.fecSetIndex))
    rw [List.length_map] at hcount
    unfold finalize
    dsimp only
    rw [← hcount]
    unfold u32Size
    omega
  · rw [hdelivered, length_placed]
  · rw [hdelivered]
    exact Accepted.isSome_decodeNs_iff hpart
  · intro t ht
    obtain ⟨k, hlearned, -, -, hkth⟩ := (Accepted.decodeNs_eq_some_iff hpart).mp ht
    exact ⟨k, hlearned, hkth⟩
  · intro t ht
    obtain ⟨k, -, -, -, hkth⟩ := (Accepted.decodeNs_eq_some_iff hpart).mp ht
    -- the arrivals are times of accepted shreds
    have hmem : t ∈ (acceptedOf l).map VerifiedShred.rxUnixNs := by
      have hsub : (placed (acceptedOf l)).Sublist (acceptedOf l) :=
        (List.firstsBy_sublist _ _).trans List.filter_sublist
      exact (hsub.map VerifiedShred.rxUnixNs).subset hkth.mem
    have hne : acceptedOf l ≠ [] := by
      intro hnil
      rw [hnil] at hmem
      simp at hmem
    obtain ⟨hmin, hmax⟩ := haccepted hne
    exact ⟨(List.min?_eq_some_iff.mp hmin).2 t hmem, (List.max?_eq_some_iff.mp hmax).2 t hmem⟩
  · intro hnil
    rw [hnil] at hpart
    have hfirst : st.firstNs = none := hpart.firstNs
    have hlast : st.lastNs = none := hpart.lastNs
    have hcreated := createdNs_of_setOf hset
    unfold finalize
    dsimp only
    rw [hfirst, hlast]
    refine ⟨?_, hcreated, rfl⟩
    rw [Option.eq_none_iff_forall_not_mem]
    intro t ht
    obtain ⟨k, hlearned, -⟩ := (Accepted.decodeNs_eq_some_iff hpart).mp ht
    simp [learnedNumData] at hlearned
  · have hinvalid : st.invalidShreds.length = (failedOf l).length := by
      rw [h.invalidShreds, List.length_map]
    unfold finalize
    dsimp only
    rw [hinvalid, h.unverifiable, Bool.and_eq_true, Bool.and_eq_true, beq_iff_eq, beq_iff_eq]
    tauto

namespace Aggregator

/-! ### Runs with early drains -/

/-- A call of a run that may drain the pending sets early. -/
inductive Call where
  | ingest (s : VerifiedShred)
  | harvest (drainAll : Bool)
  deriving DecidableEq

/-- One call, and the rows it emits. -/
def call (agg : Aggregator) : Call → Aggregator × List SetRow
  | .ingest s => (agg.ingest s, [])
  | .harvest drainAll => agg.harvest drainAll

/-- The aggregator after some calls. -/
def afterCalls (maxWaitSlots : ℕ) (calls : List Call) : Aggregator :=
  Machine.finalState call (Aggregator.new maxWaitSlots) calls

/-- What one call makes of the shreds that went into the pending set of a key: one more goes into it
unless it is late, and a harvest may emit the set. -/
def shredsAfter (agg : Aggregator) (key : SetKey) (l : List VerifiedShred) :
    Call → List VerifiedShred
  | .ingest s => if key = s.setKey ∧ agg.evictedUpto < s.slot then l ++ [s] else l
  | .harvest drainAll => if agg.ready drainAll key then [] else l

/-- The shreds that went into the pending set of a key, from an aggregator on. -/
def pendingShredsFrom (key : SetKey) :
    Aggregator → List VerifiedShred → List Call → List VerifiedShred
  | _, l, [] => l
  | agg, l, c :: calls => pendingShredsFrom key (agg.call c).1 (agg.shredsAfter key l c) calls

/-- The shreds that went into the pending set of a key, since its last row. -/
def pendingShreds (maxWaitSlots : ℕ) (key : SetKey) (calls : List Call) : List VerifiedShred :=
  pendingShredsFrom key (Aggregator.new maxWaitSlots) [] calls

/-- One call keeps a pending set made of its shreds. -/
theorem lookup_call {agg : Aggregator} {key : SetKey} {l : List VerifiedShred}
    (h : agg.sets.lookup key = setOf l) (c : Call) :
    (agg.call c).1.sets.lookup key = setOf (agg.shredsAfter key l c) := by
  cases c with
  | ingest s =>
    change (agg.ingest s).sets.lookup key = setOf (if _ then _ else _)
    rw [lookup_ingest]
    by_cases htaken : key = s.setKey ∧ agg.evictedUpto < s.slot
    · rw [if_pos htaken, if_pos htaken, setOf_concat, setFor, ← htaken.1, h]
    · rw [if_neg htaken, if_neg htaken, h]
  | harvest drainAll =>
    change (agg.harvest drainAll).1.sets.lookup key = setOf (if _ then _ else _)
    rw [harvest_sets, AList.lookup_retain, h]
    cases agg.ready drainAll key with
    | true => cases setOf l <;> rfl
    | false =>
      rw [if_neg Bool.false_ne_true]
      cases setOf l <;> rfl

/-- A run keeps a pending set made of its shreds. -/
theorem lookup_finalState (calls : List Call) {agg : Aggregator} {key : SetKey}
    {l : List VerifiedShred} (h : agg.sets.lookup key = setOf l) :
    (Machine.finalState call agg calls).sets.lookup key =
      setOf (pendingShredsFrom key agg l calls) := by
  induction calls generalizing agg l with
  | nil => exact h
  | cons c calls ih => exact ih (lookup_call h c)

/-- The pending sets after a run. -/
theorem lookup_afterCalls (maxWaitSlots : ℕ) (calls : List Call) (key : SetKey) :
    (afterCalls maxWaitSlots calls).sets.lookup key =
      setOf (pendingShreds maxWaitSlots key calls) :=
  lookup_finalState calls rfl

/-- **Every row accounts for the shreds of its set.**  In every run of `ingest`, `harvest(false)`
and `harvest(true)`, every row of a harvest is a consistent account of the shreds that went into its
set since the last row of its key. -/
theorem accountsFor_of_mem_harvest (maxWaitSlots : ℕ) (calls : List Call) (drainAll : Bool) :
    ∀ row ∈ ((afterCalls maxWaitSlots calls).harvest drainAll).2,
      row.AccountsFor (pendingShreds maxWaitSlots row.key calls) := by
  intro row hrow
  obtain ⟨key, st, hlookup, -, rfl⟩ := mem_harvest_iff.mp hrow
  rw [lookup_afterCalls] at hlookup
  exact accountsFor_finalize hlookup key _

/-- A forged shred of the set that `genuineShred` makes shreds of. -/
def forgedShred (rxUnixNs : ℤ) (payloadHash : ℕ) : VerifiedShred :=
  { genuineShred 100 0 rxUnixNs payloadHash with sigOk := some false }

/-- The row of a forged shred, the set being drained early. -/
theorem accountsFor_of_mem_harvest_forged :
    (finalize (forgedShred 1000 1).setKey
        ((SetState.new (some (Vector.replicate 32 7)) 1000).absorb (forgedShred 1000 1))
        ∅).AccountsFor
      (pendingShreds 10 (forgedShred 1000 1).setKey [.ingest (forgedShred 1000 1)]) :=
  accountsFor_of_mem_harvest 10 [.ingest (forgedShred 1000 1)] true _
    (mem_harvest_iff.mpr ⟨_, _, by decide, rfl, rfl⟩)

/-- Shreds of one key that are not late all go into its set. -/
theorem pendingShreds_map_ingest (maxWaitSlots : ℕ) {key : SetKey} (hslot : 0 < key.slot)
    {l : List VerifiedShred} (hkey : ∀ s ∈ l, s.setKey = key) :
    pendingShreds maxWaitSlots key (l.map Call.ingest) = l := by
  have hrun : ∀ (agg : Aggregator) (before : List VerifiedShred), agg.evictedUpto < key.slot →
      pendingShredsFrom key agg before (l.map Call.ingest) = before ++ l := by
    induction l with
    | nil =>
      intro agg before _
      exact (List.append_nil before).symm
    | cons s l ih =>
      intro agg before hopen
      have hs : s.setKey = key := hkey s List.mem_cons_self
      have hlt : agg.evictedUpto < s.slot := by
        rw [← hs] at hopen
        exact hopen
      have hafter : ((agg.call (.ingest s)).1).evictedUpto < key.slot := by
        change (agg.ingest s).evictedUpto < key.slot
        rwa [ingest_evictedUpto]
      rw [List.map_cons, pendingShredsFrom,
        ih (fun t ht => hkey t (List.mem_cons_of_mem s ht)) _ _ hafter, shredsAfter,
        if_pos ⟨hs.symm, hlt⟩, List.append_assoc, List.singleton_append]
  exact hrun _ [] hslot

/-- A set that decodes with its only shred, and then forged shreds. -/
def forgedAfter (n : ℕ) : List VerifiedShred :=
  { genuineShred 100 0 1000 0 with dataComplete := true } ::
    (List.range n).map fun i => forgedShred 1000 (i + 1)

/-- No two of the shreds have the same payload. -/
lemma freshOf_forgedAfter (n : ℕ) : freshOf (forgedAfter n) = forgedAfter n := by
  apply List.firstsBy_eq_self
  rw [forgedAfter, List.map_cons, List.map_map, List.nodup_cons]
  constructor
  · simp [forgedShred, genuineShred]
  · exact (List.nodup_range).map (fun i j h => Nat.succ.inj h)

/-- The forged shreds failed verification. -/
lemma failedOf_forgedAfter (n : ℕ) : failedOf (forgedAfter n) =
    (List.range n).map fun i => forgedShred 1000 (i + 1) := by
  rw [failedOf, freshOf_forgedAfter, forgedAfter, List.filter_cons_of_neg (by decide),
    List.filter_eq_self]
  intro s hs
  obtain ⟨i, -, rfl⟩ := List.mem_map.mp hs
  rfl

/-- The first shred is the only one accepted. -/
lemma acceptedOf_forgedAfter (n : ℕ) : acceptedOf (forgedAfter n) =
    [{ genuineShred 100 0 1000 0 with dataComplete := true }] := by
  rw [acceptedOf, freshOf_forgedAfter, forgedAfter, List.filter_cons_of_pos (by decide),
    List.filter_eq_nil_iff.mpr]
  intro s hs
  obtain ⟨i, -, rfl⟩ := List.mem_map.mp hs
  exact Bool.false_ne_true

/-- No shred lacks a verdict. -/
lemma unverifiableOf_forgedAfter (n : ℕ) : unverifiableOf (forgedAfter n) = [] := by
  rw [unverifiableOf, freshOf_forgedAfter, List.filter_eq_nil_iff]
  intro s hs
  rcases List.mem_cons.mp hs with rfl | hs
  · decide
  · obtain ⟨i, -, rfl⟩ := List.mem_map.mp hs
    exact Bool.false_ne_true

/-- The row of the set is valid when the counter of forged shreds is zero. -/
lemma isValid_forgedAfter (n : ℕ) :
    ∃ row ∈ ((afterCalls 10 ((forgedAfter n).map Call.ingest)).harvest true).2,
      row.isValid = true ↔ n % u32Size = 0 := by
  have hpending : pendingShreds 10 ⟨0, 100, 0⟩ ((forgedAfter n).map Call.ingest) =
      forgedAfter n := by
    apply pendingShreds_map_ingest 10 (by decide)
    intro s hs
    rcases List.mem_cons.mp hs with rfl | hs
    · rfl
    · obtain ⟨i, -, rfl⟩ := List.mem_map.mp hs
      rfl
  obtain ⟨st, hset⟩ : ∃ st, setOf (forgedAfter n) = some st := ⟨_, rfl⟩
  have hlookup := lookup_afterCalls 10 ((forgedAfter n).map Call.ingest) ⟨0, 100, 0⟩
  rw [hpending, hset] at hlookup
  refine ⟨_, mem_harvest_iff.mpr ⟨_, st, hlookup, rfl, rfl⟩, ?_⟩
  have haccounts := accountsFor_finalize hset ⟨0, 100, 0⟩
    (afterCalls 10 ((forgedAfter n).map Call.ingest)).truth
  have hdecoded := haccounts.decoded
  rw [haccounts.delivered, acceptedOf_forgedAfter] at hdecoded
  have hsome := hdecoded.mpr ⟨1, by decide, Nat.one_pos, by decide⟩
  rw [haccounts.isValid, failedOf_forgedAfter, unverifiableOf_forgedAfter, List.length_map,
    List.length_range, hsome]
  simp [u32Size]

/-- A row without accepted shreds is timed by a forged one, and the counters of a row are those of
machine integers: a set with `2 ^ 32` forged shreds is valid. -/
theorem timed_by_forged_and_valid_with_forged :
    (∃ row ∈ ((afterCalls 10 [.ingest (forgedShred 1000 1)]).harvest true).2,
      row.firstNs = 1000 ∧ row.lastNs = 1000 ∧
        acceptedOf (pendingShreds 10 row.key [.ingest (forgedShred 1000 1)]) = []) ∧
    (failedOf (forgedAfter u32Size)).length = u32Size ∧
    ∃ row ∈ ((afterCalls 10 ((forgedAfter u32Size).map Call.ingest)).harvest true).2,
      row.isValid = true := by
  refine ⟨?_, ?_, ?_⟩
  · exact ⟨_, mem_harvest_iff.mpr ⟨(forgedShred 1000 1).setKey, _, rfl, rfl, rfl⟩, rfl, rfl,
      by decide⟩
  · rw [failedOf_forgedAfter, List.length_map, List.length_range]
  · obtain ⟨row, hrow, hvalid⟩ := isValid_forgedAfter u32Size
    exact ⟨row, hrow, hvalid.mpr (Nat.mod_self _)⟩

end Aggregator

end ShredTools.Audit
