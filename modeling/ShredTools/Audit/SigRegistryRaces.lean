import Mathlib.Algebra.BigOperators.Group.Finset.Piecewise
import Mathlib.Data.Finset.Card
import Mathlib.Data.Fintype.Basic
import ShredTools.Audit.SigRegistryRun

/-!
# The races

What the race counters should be is said in terms of the first stamp of every source for every
signature: a signature that two sources or more delivered is contested, the sources with the
earliest stamp win, and the others are behind by the difference.

As long as no signature is delivered again after its row was retired, the counters of the registry
are these, whenever rows are retired and in whatever order (`races_incremental`).

`races` computes the counters from the stamps of a whole run, with no registry.  The registry adds a
row to its counters when the row is retired, so the proof goes through the lives of the signatures:
each signature has one life (`NoneAfterRetirement`), its first stamps are those of its row, and sums
over the lives are sums over the signatures.  Sums of lateness wrap as the source lets them.
-/

namespace ShredTools.Audit

/-! ### Races in general -/

namespace Race

variable {n : ℕ} (first : Fin n → Option ℤ)

/-- Two sources or more delivered the signature. -/
def Contested : Prop := ∃ i j, i ≠ j ∧ (first i).isSome = true ∧ (first j).isSome = true

instance : Decidable (Contested first) :=
  inferInstanceAs (Decidable (∃ i j, i ≠ j ∧ (first i).isSome = true ∧ (first j).isSome = true))

/-- The source is one of those with the earliest stamp. -/
def Earliest (i : Fin n) : Prop := ∃ ns ∈ first i, ∀ j, ∀ ns' ∈ first j, ns ≤ ns'

instance (i : Fin n) : Decidable (Earliest first i) :=
  inferInstanceAs (Decidable (∃ ns ∈ first i, ∀ j, ∀ ns' ∈ first j, ns ≤ ns'))

/-- The earliest stamp. -/
def earliestNs : Option ℤ := ((List.finRange n).filterMap first).min?

/-- How far a source is behind the earliest stamp. -/
def lateness (i : Fin n) : ℤ := (first i).getD 0 - (earliestNs first).getD 0

variable {first}

/-- The earliest stamp is one of the stamps, and none is earlier. -/
lemma earliestNs_eq_some_iff {min : ℤ} :
    earliestNs first = some min ↔ (∃ i, first i = some min) ∧ ∀ i, ∀ ns ∈ first i, min ≤ ns := by
  unfold earliestNs
  rw [List.min?_eq_some_iff]
  simp only [List.mem_filterMap, List.mem_finRange, true_and]
  constructor
  · rintro ⟨hmem, hle⟩
    exact ⟨hmem, fun i ns hns => hle ns ⟨i, hns⟩⟩
  · rintro ⟨hmem, hle⟩
    refine ⟨hmem, ?_⟩
    rintro ns ⟨i, hns⟩
    exact hle i ns hns

/-- There is an earliest stamp if there is any. -/
lemma exists_earliestNs {i : Fin n} (hi : (first i).isSome = true) :
    ∃ min, earliestNs first = some min := by
  obtain ⟨ns, hns⟩ := Option.isSome_iff_exists.mp hi
  refine Option.ne_none_iff_exists'.mp fun hnone => ?_
  have hempty := List.min?_eq_none_iff.mp hnone
  have hmem : ns ∈ (List.finRange n).filterMap first :=
    List.mem_filterMap.mpr ⟨i, List.mem_finRange i, hns⟩
  rw [hempty] at hmem
  exact List.not_mem_nil hmem

/-- A source is one of the first if its stamp is the earliest one. -/
lemma earliest_iff {min : ℤ} (hmin : earliestNs first = some min) (i : Fin n) :
    Earliest first i ↔ first i = some min := by
  obtain ⟨⟨j, hj⟩, hle⟩ := earliestNs_eq_some_iff.mp hmin
  constructor
  · rintro ⟨ns, hns, hfirst⟩
    have heq : ns = min := le_antisymm (hfirst j min hj) (hle i ns hns)
    rw [← heq]
    exact hns
  · exact fun hi => ⟨min, hi, hle⟩

end Race

/-- The race counters. -/
@[ext] structure Races (n : ℕ) where
  /-- The contested signatures. -/
  contestedTotal : ℕ
  /-- The races that each source delivered in. -/
  contested : Fin n → ℕ
  /-- The races that each source won. -/
  wins : Fin n → ℕ
  /-- The races that each source was measured on. -/
  behindN : Fin n → ℕ
  /-- How far it was behind, summed over them. -/
  behindSumNs : Fin n → ℤ

namespace Races

variable {n : ℕ}

/-- What the counters should be, from the first stamp of every source for every signature of a set.
Differences of stamps are those of 64-bit numbers. -/
def ofFirst (sigs : Finset Signature) (first : Signature → Fin n → Option ℤ) : Races n where
  contestedTotal := (sigs.filter fun sig => Race.Contested (first sig)).card
  contested i := (sigs.filter fun sig =>
    Race.Contested (first sig) ∧ (first sig i).isSome = true).card
  wins i := (sigs.filter fun sig => Race.Contested (first sig) ∧ Race.Earliest (first sig) i).card
  behindN i := (sigs.filter fun sig =>
    Race.Contested (first sig) ∧ (first sig i).isSome = true).card
  behindSumNs i := ∑ sig ∈ sigs.filter fun sig =>
    Race.Contested (first sig) ∧ (first sig i).isSome = true, i64Wrap (Race.lateness (first sig) i)

end Races

/-! ### The race for a row -/

namespace SigRow

variable {n : ℕ} {row : SigRow n}

/-- The first stamps that a row holds. -/
def stamps (row : SigRow n) (i : Fin n) : Option ℤ := (row.ts i).map Seen.ns

lemma minNs_present (row : SigRow n) :
    SigRegistry.minNs row.present = Race.earliestNs row.stamps := by
  have hmap : row.present.map (fun p => p.2.ns) = (List.finRange n).filterMap row.stamps := by
    unfold present stamps
    rw [List.map_filterMap]
    refine List.filterMap_congr fun i _ => ?_
    cases row.ts i <;> rfl
  unfold SigRegistry.minNs Race.earliestNs
  rw [hmap]

/-- The sources of a row are those with a stamp. -/
lemma length_present (row : SigRow n) :
    row.present.length = (Finset.univ.filter fun i => (row.stamps i).isSome = true).card := by
  have hkeys : row.present.map Prod.fst =
      (List.finRange n).filter fun i => (row.stamps i).isSome := by
    unfold present stamps
    induction List.finRange n with
    | nil => rfl
    | cons i l ih => cases hi : row.ts i <;> simp [hi, ih]
  have hset : (Finset.univ.filter fun i => (row.stamps i).isSome = true) =
      ((List.finRange n).filter fun i => (row.stamps i).isSome).toFinset := by
    ext i
    simp
  rw [hset, List.toFinset_card_of_nodup ((List.nodup_finRange n).filter _), ← hkeys,
    List.length_map]

/-- A row is contested if two sources or more are present. -/
lemma contested_iff (row : SigRow n) : Race.Contested row.stamps ↔ ¬ row.present.length < 2 := by
  rw [length_present, not_lt, Nat.succ_le_iff, Finset.one_lt_card]
  simp only [Finset.mem_filter, Finset.mem_univ, true_and]
  constructor
  · rintro ⟨i, j, hij, hi, hj⟩
    exact ⟨i, hi, j, hj, hij⟩
  · rintro ⟨i, hi, j, hj, hij⟩
    exact ⟨i, j, hij, hi, hj⟩

/-- There is a race for a row exactly if it is contested, and the winner has the earliest stamp. -/
lemma race_eq (row : SigRow n) :
    row.race = if Race.Contested row.stamps then Race.earliestNs row.stamps else none := by
  unfold race
  rw [minNs_present]
  by_cases hcontested : Race.Contested row.stamps
  · rw [if_pos hcontested, if_neg ((contested_iff row).mp hcontested)]
  · have hfew : row.present.length < 2 := not_not.mp (mt (contested_iff row).mpr hcontested)
    rw [if_neg hcontested, if_pos hfew]

/-- A row is contested if there is a race for it. -/
lemma isSome_race (row : SigRow n) : row.race.isSome = true ↔ Race.Contested row.stamps := by
  rw [race_eq]
  constructor
  · intro h
    by_contra hnot
    rw [if_neg hnot] at h
    exact Bool.false_ne_true h
  · intro hcontested
    rw [if_pos hcontested]
    obtain ⟨i, j, hij, hi, hj⟩ := hcontested
    obtain ⟨min, hmin⟩ := Race.exists_earliestNs hi
    rw [hmin]
    rfl

/-- A source takes part in the race for a contested row that it delivered. -/
lemma isSome_lag (row : SigRow n) (i : Fin n) :
    (row.lag i).isSome = true ↔ Race.Contested row.stamps ∧ (row.stamps i).isSome = true := by
  rw [← isSome_race]
  unfold lag stamps
  cases row.race <;> cases row.ts i <;> simp

/-- A source is behind by its lateness. -/
lemma getD_lag (row : SigRow n) (i : Fin n) :
    (row.lag i).getD 0 = if Race.Contested row.stamps ∧ (row.stamps i).isSome = true then
      i64Wrap (Race.lateness row.stamps i) else 0 := by
  unfold lag
  rw [race_eq]
  by_cases hcontested : Race.Contested row.stamps
  · rw [if_pos hcontested]
    cases hseen : row.ts i with
    | none =>
      have hstamp : row.stamps i = none := by rw [stamps, hseen, Option.map_none]
      rw [hstamp, if_neg (fun h => Bool.false_ne_true h.2)]
      cases Race.earliestNs row.stamps <;> rfl
    | some seen =>
      have hstamp : row.stamps i = some seen.ns := by rw [stamps, hseen, Option.map_some]
      obtain ⟨min, hmin⟩ := Race.exists_earliestNs (hstamp ▸ rfl : (row.stamps i).isSome = true)
      rw [if_pos ⟨hcontested, hstamp ▸ rfl⟩, Race.lateness, hmin, hstamp]
      rfl
  · rw [if_neg hcontested, if_neg (fun h => hcontested h.1)]
    rfl

/-- A source wins if its stamp is the earliest one. -/
lemma won_iff (row : SigRow n) (i : Fin n) :
    row.Won i ↔ Race.Contested row.stamps ∧ Race.Earliest row.stamps i := by
  unfold Won
  rw [race_eq]
  by_cases hcontested : Race.Contested row.stamps
  · obtain ⟨j, -, -, hj, -⟩ := id hcontested
    obtain ⟨min, hmin⟩ := Race.exists_earliestNs hj
    rw [if_pos hcontested, Race.earliest_iff hmin, hmin, stamps]
    cases hseen : row.ts i <;> simp [hcontested, eq_comm]
  · simp [hcontested]

/-! ### The races of a run -/

end SigRow

namespace SigRegistry

variable {n : ℕ}

/-- The race counters of a registry. -/
def races (reg : SigRegistry n) : Races n where
  contestedTotal := reg.contestedTotal
  contested := reg.contested
  wins := reg.wins
  behindN := reg.behindN
  behindSumNs := reg.behindSumNs

/-- The signatures that some deliveries are of. -/
def signatures (ds : List (Delivery n)) : Finset Signature := (ds.map Delivery.sig).toFinset

/-- The stamp of the first delivery of a signature by a source. -/
def firstStamp (ds : List (Delivery n)) (sig : Signature) (i : Fin n) : Option ℤ :=
  SigRow.firstNs i (ds.filter fun d => d.sig = sig)

/-- No signature is delivered after its row was retired. -/
def NoneAfterRetirement (start : SigRegistry n) (ops : List (Op n)) : Prop :=
  ∀ before d later, ops = before ++ .recordFirst d :: later →
    d.sig ∉ (lives start before).closed.map Prod.fst

/-- One more call delivers late if it is a delivery of a signature with a life that is over. -/
lemma noneAfterRetirement_concat {start : SigRegistry n} (ops : List (Op n)) (op : Op n)
    (hlate : NoneAfterRetirement start ops)
    (hop : ∀ d, op = .recordFirst d → d.sig ∉ (lives start ops).closed.map Prod.fst) :
    NoneAfterRetirement start (ops ++ [op]) := by
  intro before d later hsplit
  rcases List.eq_nil_or_concat' later with rfl | ⟨init, last, rfl⟩
  · obtain ⟨rfl, hlast⟩ := List.append_inj' hsplit rfl
    exact hop d (List.singleton_inj.mp hlast)
  · rw [← List.cons_append, ← List.append_assoc] at hsplit
    exact hlate before d init (List.append_inj' hsplit rfl).1

/-- The deliveries of a run alone, without the calls between them. -/
def records (ops : List (Op n)) : List (Op n) := (deliveries ops).map .recordFirst

/-- The row of a life holds the first stamps of its deliveries. -/
lemma stamps_ofDeliveries {ds : List (Delivery n)} {row : SigRow n}
    (hrow : SigRow.ofDeliveries ds = some row) : row.stamps = fun i => SigRow.firstNs i ds := by
  funext i
  rw [SigRow.stamps, SigRow.ts_ofDeliveries hrow, SigRow.map_ns_seenOf]

section Run

variable {start : SigRegistry n} (hnew : start.IsNew)
include hnew

/-- If no signature is delivered after its row was retired, no signature has two lives, and none
with a life that is over has one that goes on. -/
lemma nodup_closed {ops : List (Op n)} (hlate : NoneAfterRetirement start ops) :
    ((lives start ops).closed.map Prod.fst).Nodup ∧
      ∀ sig ∈ (lives start ops).closed.map Prod.fst, (lives start ops).pending sig = [] := by
  induction ops using List.reverseRecOn with
  | nil => exact ⟨List.nodup_nil, fun sig hsig => absurd hsig List.not_mem_nil⟩
  | append_singleton ops op ih =>
    obtain ⟨hnd, hover⟩ := ih fun before d later hsplit =>
      hlate before d (later ++ [op]) (by rw [hsplit, List.append_assoc, List.cons_append])
    rw [lives_concat]
    cases op with
    | recordFirst d =>
      refine ⟨hnd, fun sig hsig => ?_⟩
      have hfresh := hlate ops d [] rfl
      have hne : sig ≠ d.sig := fun h => hfresh (h ▸ hsig)
      rw [livesStep, Batches.pending_add, if_neg hne]
      exact hover sig hsig
    | finalize order force =>
      have hretire := nodup_retire (Machine.finalState step start ops) order force
      have hclosed := (lives start ops).closed_closeAll hretire
      -- what is retired has deliveries pending, so it was not retired before
      have hgoing : ∀ sig ∈ (Machine.finalState step start ops).retire order force,
          (lives start ops).pending sig ≠ [] := by
        intro sig hsig hnone
        obtain ⟨row, hrow, -⟩ := mem_retire_iff.mp hsig
        rw [(traces_run hnew ops).inFlight, hnone] at hrow
        simp at hrow
      rw [livesStep, hclosed, List.map_append, List.map_map]
      have hkeys : ((Machine.finalState step start ops).retire order force).map
          (Prod.fst ∘ fun sig => (sig, (lives start ops).pending sig)) =
          (Machine.finalState step start ops).retire order force := List.map_id _
      rw [hkeys]
      refine ⟨List.nodup_append.mpr ⟨hnd, hretire, ?_⟩, ?_⟩
      · rintro sig hsig _ hsig' rfl
        exact hgoing sig hsig' (hover sig hsig)
      · intro sig hsig
        rw [Batches.pending_closeAll]
        split
        · rfl
        · rename_i hnot
          exact hover sig ((List.mem_append.mp hsig).resolve_right hnot)
    | drainRows => exact ⟨hnd, hover⟩

/-- At the end of a run without late deliveries, a quantity summed over the lives is its sum over
the signatures. -/
lemma tally_end {M : Type*} [AddCommMonoid M] (f : SigRow n → M) {ops : List (Op n)}
    (hlate : NoneAfterRetirement start ops) (order : HashOrder) :
    tally f (lives start (ops ++ [.finalize order true])) =
      ∑ sig ∈ signatures (deliveries ops),
        (SigRow.ofDeliveries ((deliveries ops).filter fun d => d.sig = sig)).elim 0 f := by
  have hdeliveries : deliveries (ops ++ [.finalize order true]) = deliveries ops := by
    simp [deliveries]
  have hlate' : NoneAfterRetirement start (ops ++ [.finalize order true]) :=
    noneAfterRetirement_concat ops _ hlate (by simp)
  have hnd := (nodup_closed hnew hlate').1
  have hdone := pending_finalize_force hnew ops order
  have harrived := arrived_lives start (ops ++ [.finalize order true])
  have hkeys : ((lives start (ops ++ [.finalize order true])).closed.map Prod.fst).toFinset =
      signatures (deliveries ops) := by
    ext sig
    rw [List.mem_toFinset, signatures, List.mem_toFinset, List.mem_map, List.mem_map]
    constructor
    · rintro ⟨e, he, rfl⟩
      obtain ⟨d, hd⟩ := List.exists_mem_of_ne_nil e.2 ((traces_run hnew _).nonempty e he)
      obtain ⟨hmem, hsig⟩ := mem_deliveries_of_mem_closed he hd
      exact ⟨d, hdeliveries ▸ hmem, hsig⟩
    · rintro ⟨d, hd, rfl⟩
      have hmem : d ∈ (lives start (ops ++ [.finalize order true])).arrived d.sig := by
        rw [harrived, hdeliveries]
        exact List.mem_filter.mpr ⟨hd, decide_eq_true rfl⟩
      rw [Batches.arrived, hdone, List.append_nil] at hmem
      obtain ⟨e, he, -⟩ := List.mem_flatMap.mp hmem
      obtain ⟨he, hsig⟩ := List.mem_filter.mp he
      exact ⟨e, he, of_decide_eq_true hsig⟩
  unfold tally
  rw [Batches.sum_closed (fun _ ds => (SigRow.ofDeliveries ds).elim 0 f) hdone hnd, hkeys]
  refine Finset.sum_congr rfl fun sig _ => ?_
  rw [harrived, hdeliveries]

omit hnew in
/-- A signature that was delivered has a row with the first stamps. -/
lemma exists_row {ds : List (Delivery n)} {sig : Signature} (hsig : sig ∈ signatures ds) :
    ∃ row : SigRow n, SigRow.ofDeliveries (ds.filter fun d => d.sig = sig) = some row ∧
      row.stamps = firstStamp ds sig := by
  rw [signatures, List.mem_toFinset, List.mem_map] at hsig
  obtain ⟨d, hd, hdsig⟩ := hsig
  cases hrow : SigRow.ofDeliveries (ds.filter fun d => d.sig = sig) with
  | none =>
    have hmem : d ∈ ds.filter fun d => d.sig = sig := List.mem_filter.mpr ⟨hd, by simpa using hdsig⟩
    rw [SigRow.ofDeliveries_eq_none_iff.mp hrow] at hmem
    exact absurd hmem List.not_mem_nil
  | some row => exact ⟨row, rfl, stamps_ofDeliveries hrow⟩

/-- A quantity that depends on the first stamps only, summed over the lives. -/
lemma tally_stamps {M : Type*} [AddCommMonoid M] {f : SigRow n → M}
    {g : (Fin n → Option ℤ) → M} (hfg : ∀ row, f row = g row.stamps) {ops : List (Op n)}
    (hlate : NoneAfterRetirement start ops) (order : HashOrder) :
    tally f (lives start (ops ++ [.finalize order true])) =
      ∑ sig ∈ signatures (deliveries ops), g (firstStamp (deliveries ops) sig) := by
  rw [tally_end hnew f hlate]
  refine Finset.sum_congr rfl fun sig hsig => ?_
  obtain ⟨row, hrow, hstamps⟩ := exists_row hsig
  rw [hrow, Option.elim_some, hfg, hstamps]

/-- The number of lives with a property of their first stamps. -/
lemma tally_count {f : SigRow n → Bool} {P : (Fin n → Option ℤ) → Prop} [DecidablePred P]
    (hfP : ∀ row, f row = true ↔ P row.stamps) {ops : List (Op n)}
    (hlate : NoneAfterRetirement start ops) (order : HashOrder) :
    tally (fun row => (f row).toNat) (lives start (ops ++ [.finalize order true])) =
      ((signatures (deliveries ops)).filter fun sig =>
        P (firstStamp (deliveries ops) sig)).card := by
  rw [Finset.card_filter]
  refine tally_stamps hnew (g := fun first => if P first then 1 else 0) (fun row => ?_) hlate order
  by_cases hP : P row.stamps
  · rw [if_pos hP, (hfP row).mpr hP]
    rfl
  · rw [if_neg hP, Bool.eq_false_iff.mpr (mt (hfP row).mp hP)]
    rfl

/-- The counters at the end of a run without late deliveries are those of the first stamps. -/
lemma races_end {ops : List (Op n)} (hlate : NoneAfterRetirement start ops)
    (order : HashOrder) :
    races (Machine.finalState step start (ops ++ [.finalize order true])) =
      Races.ofFirst (signatures (deliveries ops)) (firstStamp (deliveries ops)) := by
  have htraces := traces_run hnew (ops ++ [.finalize order true])
  have hpart := fun i => tally_count hnew (f := fun row => (row.lag i).isSome)
    (P := fun first => Race.Contested first ∧ (first i).isSome = true)
    (fun row => row.isSome_lag i) hlate order
  refine Races.ext ?_ (funext fun i => ?_) (funext fun i => ?_) (funext fun i => ?_)
    (funext fun i => ?_)
  · exact htraces.contestedTotal.trans (tally_count hnew SigRow.isSome_race hlate order)
  · exact (htraces.contested i).trans (hpart i)
  · exact (htraces.wins i).trans (tally_count hnew (f := fun row => decide (row.Won i))
      (P := fun first => Race.Contested first ∧ Race.Earliest first i)
      (fun row => decide_eq_true_iff.trans (row.won_iff i)) hlate order)
  · exact (htraces.behindN i).trans (hpart i)
  · have hsum := tally_stamps hnew (f := fun row => (row.lag i).getD 0)
      (g := fun first => if Race.Contested first ∧ (first i).isSome = true then
        i64Wrap (Race.lateness first i) else 0) (fun row => row.getD_lag i) hlate order
    rw [← Finset.sum_filter] at hsum
    exact (htraces.behindSumNs i).trans hsum

omit hnew in
/-- A run of deliveries alone retires nothing, so no delivery comes after a retirement. -/
lemma noneAfterRetirement_records (ops : List (Op n)) :
    NoneAfterRetirement start (records ops) := by
  have hclosed : ∀ ds : List (Delivery n), (lives start (ds.map .recordFirst)).closed = [] := by
    intro ds
    induction ds using List.reverseRecOn with
    | nil => rfl
    | append_singleton ds d ih =>
      rw [List.map_append, List.map_singleton, lives_concat, livesStep, Batches.closed_add, ih]
  intro before d later hsplit
  obtain ⟨ds, rest, -, rfl, -⟩ := List.map_eq_append_iff.mp hsplit
  rw [hclosed]
  exact List.not_mem_nil

end Run

/-- The deliveries of a run are those of the run without the calls between them. -/
lemma deliveries_records (ops : List (Op n)) : deliveries (records ops) = deliveries ops := by
  unfold records
  rw [deliveries, List.filterMap_map]
  exact List.filterMap_some

/-- Every stamp of a signature is one of its deliveries'. -/
lemma exists_delivery_of_firstStamp {ds : List (Delivery n)} {sig : Signature} {i : Fin n}
    {ns : ℤ} (h : firstStamp ds sig i = some ns) : ∃ d ∈ ds, d.ns = ns := by
  obtain ⟨d, hd, rfl⟩ := Option.map_eq_some_iff.mp h
  exact ⟨d, (List.mem_filter.mp (List.mem_of_find?_eq_some hd)).1, rfl⟩

/-- A signature was delivered if some source has a stamp for it. -/
lemma mem_signatures_iff {ds : List (Delivery n)} {sig : Signature} :
    sig ∈ signatures ds ↔ ∃ i, (firstStamp ds sig i).isSome = true := by
  constructor
  · intro hsig
    rw [signatures, List.mem_toFinset, List.mem_map] at hsig
    obtain ⟨d, hd, rfl⟩ := hsig
    refine ⟨d.sid, ?_⟩
    unfold firstStamp SigRow.firstNs
    rw [Option.isSome_map, List.find?_isSome]
    exact ⟨d, List.mem_filter.mpr ⟨hd, by simp⟩, by simp⟩
  · rintro ⟨i, hi⟩
    obtain ⟨ns, hns⟩ := Option.isSome_iff_exists.mp hi
    obtain ⟨d, hd, -⟩ := Option.map_eq_some_iff.mp hns
    obtain ⟨hmem, hsig⟩ := List.mem_filter.mp (List.mem_of_find?_eq_some hd)
    exact List.mem_toFinset.mpr (List.mem_map.mpr ⟨d, hmem, of_decide_eq_true hsig⟩)

/-- Differences of stamps that count from the Unix epoch do not wrap. -/
lemma i64Wrap_lateness {ds : List (Delivery n)}
    (hunix : ∀ d ∈ ds, 0 ≤ d.ns ∧ d.ns < 0x8000000000000000) {sig : Signature} {i : Fin n}
    (hi : (firstStamp ds sig i).isSome = true) :
    i64Wrap (Race.lateness (firstStamp ds sig) i) = Race.lateness (firstStamp ds sig) i := by
  obtain ⟨ns, hns⟩ := Option.isSome_iff_exists.mp hi
  obtain ⟨min, hmin⟩ := Race.exists_earliestNs hi
  obtain ⟨⟨j, hj⟩, hle⟩ := Race.earliestNs_eq_some_iff.mp hmin
  obtain ⟨d, hd, rfl⟩ := exists_delivery_of_firstStamp hns
  obtain ⟨d', hd', rfl⟩ := exists_delivery_of_firstStamp hj
  have hlate := hle i d.ns hns
  have hbound := hunix d hd
  have hbound' := hunix d' hd'
  unfold Race.lateness i64Wrap u64Size
  rw [hns, hmin, Option.getD_some, Option.getD_some]
  exact Int.bmod_eq_of_le (by omega) (by omega)

/-- **Retiring rows early does not change the races.**  If no signature is delivered after its row
was retired, the race counters at the end of a run are those of the first stamps: the same as
without the calls between the deliveries, and the same as in any other run with these first stamps.
Sums are plain sums of differences if stamps count from the Unix epoch. -/
theorem races_incremental {start : SigRegistry n} (hnew : start.IsNew) {ops : List (Op n)}
    (hlate : NoneAfterRetirement start ops) (order order' : HashOrder) :
    let sigs := signatures (deliveries ops)
    let first := firstStamp (deliveries ops)
    races (Machine.finalState step start (ops ++ [.finalize order true])) =
        Races.ofFirst sigs first ∧
      races (Machine.finalState step start (records ops ++ [.finalize order' true])) =
        Races.ofFirst sigs first ∧
      (∀ ops', NoneAfterRetirement start ops' → firstStamp (deliveries ops') = first →
        races (Machine.finalState step start (ops' ++ [.finalize order' true])) =
          Races.ofFirst sigs first) ∧
      ((∀ d ∈ deliveries ops, 0 ≤ d.ns ∧ d.ns < 0x8000000000000000) → ∀ i,
        (Races.ofFirst sigs first).behindSumNs i =
          ∑ sig ∈ sigs.filter fun sig => Race.Contested (first sig) ∧ (first sig i).isSome = true,
            Race.lateness (first sig) i) := by
  intro sigs first
  refine ⟨races_end hnew hlate order, ?_, ?_, ?_⟩
  · rw [races_end hnew (noneAfterRetirement_records ops) order', deliveries_records]
  · intro ops' hlate' hfirst
    have hsigs : signatures (deliveries ops') = sigs := by
      ext sig
      rw [mem_signatures_iff, mem_signatures_iff, hfirst]
    rw [races_end hnew hlate' order', hfirst, hsigs]
  · intro hunix i
    have hplain : ∀ sig ∈ sigs.filter fun sig =>
        Race.Contested (first sig) ∧ (first sig i).isSome = true,
        i64Wrap (Race.lateness (first sig) i) = Race.lateness (first sig) i := fun sig hsig =>
      i64Wrap_lateness hunix (Finset.mem_filter.mp hsig).2.2
    exact (Finset.sum_congr rfl hplain :)

/-- Two sources race for two signatures, one of which is retired before the other is complete. -/
theorem races_incremental_two_sources :
    let s : Signature := Vector.replicate 64 1
    let t : Signature := Vector.replicate 64 2
    let start : SigRegistry 2 := setUp (fun _ => "source") (fun _ => .grpc) [] none
    let ops : List (Op 2) :=
      [.recordFirst ⟨0, s, 1000, 10, TxnMeta.default⟩,
        .recordFirst ⟨1, s, 3000, 10, TxnMeta.default⟩,
        .recordFirst ⟨1, t, 5000, 100, TxnMeta.default⟩,
        .finalize HashOrder.asStored false,
        .recordFirst ⟨0, t, 9000, 100, TxnMeta.default⟩]
    races (Machine.finalState step start (ops ++ [.finalize HashOrder.asStored true])) =
      races (Machine.finalState step start
        (records ops ++ [.finalize HashOrder.asStored true])) := by
  intro s t start ops
  have hlate : NoneAfterRetirement start ops := by
    refine noneAfterRetirement_concat (ops.take 4) _
      (noneAfterRetirement_concat (ops.take 3) _ (noneAfterRetirement_records (ops.take 3)) ?_) ?_
    · intro d hd
      cases hd
    · intro d hd
      cases hd
      decide
  have hraces := races_incremental (isNew_setUp (fun _ => "source") (fun _ => .grpc) [] none) hlate
    HashOrder.asStored HashOrder.asStored
  exact hraces.1.trans hraces.2.1.symm

end SigRegistry

end ShredTools.Audit
