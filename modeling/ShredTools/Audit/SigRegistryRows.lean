import ShredTools.Audit.SigRegistryRun

/-!
# The transaction table

Every delivery that the registry takes ends up in one row of the transaction table, the row of its
source in the life it belongs to: as the first delivery or as one of the repeats.  The number of a
source is stored in 16 bits, so this holds as long as the numbers of the sources that deliver fit
(`rowsConserved_iff`).

`rowsOf` are the rows of a source and a signature, and `ended` is a run with its last call, which
retires everything that is left.  `RowsConserved` compares the two sides: the deliveries of a run,
and the rows that it hands over with their first times and repeats.  Repeats are counted in 32 bits,
which the statement assumes to be enough for one life, as nothing else would do.  The two runs at
the end have two sources, and a source whose number is cut off.
-/

namespace ShredTools.Audit

namespace SigRow

variable {n : ℕ}

/-- A source is in the row if it has delivered. -/
lemma isSome_seenOf (i : Fin n) (ds : List (Delivery n)) :
    (seenOf (bySource i ds)).isSome = true ↔ ∃ d ∈ ds, d.sid = i := by
  cases hby : bySource i ds with
  | nil =>
    have hnone := List.filter_eq_nil_iff.mp hby
    simpa [seenOf] using hnone
  | cons d ds' =>
    have hmem : d ∈ bySource i ds := hby ▸ List.mem_cons_self
    obtain ⟨hd, hsid⟩ := List.mem_filter.mp hmem
    exact ⟨fun _ => ⟨d, hd, of_decide_eq_true hsid⟩, fun _ => rfl⟩

/-- The first delivery and the repeats are all deliveries, as long as the repeats fit. -/
lemma sum_seenOf {i : Fin n} {ds : List (Delivery n)}
    (hfit : ds.countP (fun d => d.sid = i) ≤ u32Size) :
    (((seenOf (bySource i ds)).map fun seen => 1 + seen.dups).toList).sum =
      ds.countP fun d => d.sid = i := by
  rw [List.countP_eq_length_filter] at hfit ⊢
  change (bySource i ds).length ≤ u32Size at hfit
  change _ = (bySource i ds).length
  generalize bySource i ds = xs at hfit ⊢
  cases xs with
  | nil => rfl
  | cons d ds =>
    rw [List.length_cons] at hfit
    have hmod : ds.length % u32Size = ds.length := Nat.mod_eq_of_lt hfit
    simp [seenOf, hmod, Nat.add_comm]

/-- Only sources that delivered are in the row. -/
lemma fits_of_ofDeliveries {ds : List (Delivery n)} {row : SigRow n}
    (hrow : ofDeliveries ds = some row) (hfits : ∀ d ∈ ds, d.sid.val < u16Size) (j : Fin n)
    (hj : (row.ts j).isSome = true) : j.val < u16Size := by
  rw [ts_ofDeliveries hrow, isSome_seenOf] at hj
  obtain ⟨d, hd, rfl⟩ := hj
  exact hfits d hd

/-- Of the rows written for a signature, those of one source. -/
lemma emitted_filter {row : SigRow n} (hfits : ∀ j, (row.ts j).isSome = true → j.val < u16Size)
    (sig : Signature) (i : Fin n) :
    (row.emitted sig).filter (fun r => r.sid = i.val) =
      ((row.ts i).map fun seen => row.txnRow sig (i, seen)).toList := by
  have hsame : ∀ p ∈ row.present, (decide ((row.txnRow sig p).sid = i.val)) = decide (p.1 = i) := by
    intro p hp
    have hp : row.ts p.1 = some p.2 := mem_present_iff.mp hp
    have hmod : p.1.val % u16Size = p.1.val :=
      Nat.mod_eq_of_lt (hfits p.1 (Option.isSome_of_mem hp))
    have hsid : (row.txnRow sig p).sid = p.1.val := hmod
    simp only [hsid, Fin.val_inj]
  have hfilter : row.present.filter (fun p => (row.txnRow sig p).sid = i.val) =
      row.present.filter (fun p => p.1 = i) := List.filter_congr hsame
  unfold emitted
  rw [List.filter_map]
  change (row.present.filter fun p => (row.txnRow sig p).sid = i.val).map (row.txnRow sig) = _
  rw [hfilter, present_filter]
  cases row.ts i <;> rfl

end SigRow

namespace SigRegistry

variable {n : ℕ}

/-- The rows of a source and a signature. -/
def rowsOf (i : Fin n) (sig : Signature) (rows : List TxnRow) : List TxnRow :=
  rows.filter fun row => row.sid = i.val ∧ row.sig = sig

/-- Calls that end with a `finalize(true)` and a `drain_rows`. -/
def ended (ops : List (Op n)) (order : HashOrder) : List (Op n) :=
  ops ++ [.finalize order true] ++ [.drainRows]

/-- No delivery is lost or counted twice by the rows that a run hands over. -/
structure RowsConserved (start : SigRegistry n) (ops : List (Op n)) : Prop where
  /-- The rows of a source and a signature count its deliveries. -/
  count : ∀ (i : Fin n) (sig : Signature),
    ((rowsOf i sig (Machine.outputs step start ops).flatten).map fun row =>
      1 + row.duplicateCount).sum =
    (deliveries ops).countP fun d => d.sid = i ∧ d.sig = sig
  /-- The rows are those of the lives of the signature in which the source delivered it, one after
  another, each with the stamp of the first delivery in its life. -/
  firstRx : ∀ (i : Fin n) (sig : Signature),
    (rowsOf i sig (Machine.outputs step start ops).flatten).map TxnRow.firstRxUnixNs =
      ((lives start ops).closed.filter fun e => e.1 = sig).filterMap fun e => SigRow.firstNs i e.2
  /-- A source has seen as many rows as there are. -/
  seen : ∀ i : Fin n, (Machine.finalState step start ops).seen i =
    (Machine.outputs step start ops).flatten.countP fun row => row.sid = i.val

/-- Concatenating what some elements yield at most, of those that pass a test. -/
lemma flatMap_toList_of_filter {α β : Type*} (p : α → Prop) [DecidablePred p] (f : α → Option β)
    (l : List α) :
    (l.flatMap fun x => if p x then (f x).toList else []) =
      (l.filter fun x => p x).filterMap f := by
  induction l with
  | nil => rfl
  | cons x l ih =>
    rw [List.flatMap_cons, ih]
    by_cases hx : p x
    · rw [if_pos hx, List.filter_cons_of_pos (by simpa using hx), List.filterMap_cons]
      cases f x <;> rfl
    · rw [if_neg hx, List.filter_cons_of_neg (by simpa using hx), List.nil_append]

/-- The numbers in the transaction table are 16-bit numbers. -/
lemma sid_lt_of_mem_emitted {sig : Signature} {row : SigRow n} {r : TxnRow}
    (hr : r ∈ row.emitted sig) : r.sid < u16Size := by
  obtain ⟨p, -, rfl⟩ := List.mem_map.mp hr
  exact Nat.mod_lt _ (by decide)

/-- The rows that a life writes out for a source and a signature. -/
lemma map_rowsOf_life {β : Type*} {f : TxnRow → β} {g : Seen → β}
    (hfg : ∀ (sig : Signature) (row : SigRow n) (p : Fin n × Seen), f (row.txnRow sig p) = g p.2)
    {ds : List (Delivery n)} (hfits : ∀ d ∈ ds, d.sid.val < u16Size) (sig' : Signature)
    (i : Fin n) (sig : Signature) :
    (rowsOf i sig ((SigRow.ofDeliveries ds).elim [] (SigRow.emitted sig'))).map f =
      if sig' = sig then ((SigRow.seenOf (SigRow.bySource i ds)).map g).toList else [] := by
  cases hrow : SigRow.ofDeliveries ds with
  | none =>
    rw [SigRow.ofDeliveries_eq_none_iff.mp hrow]
    split <;> rfl
  | some row =>
    have hsplit : rowsOf i sig (row.emitted sig') =
        ((row.emitted sig').filter fun r => r.sid = i.val).filter fun r => r.sig = sig := by
      rw [List.filter_filter]
      refine List.filter_congr fun r _ => ?_
      simp [Bool.and_comm]
    rw [Option.elim_some, hsplit, SigRow.emitted_filter (SigRow.fits_of_ofDeliveries hrow hfits),
      SigRow.ts_ofDeliveries hrow]
    cases hseen : SigRow.seenOf (SigRow.bySource i ds) with
    | none => split <;> rfl
    | some seen =>
      have hsig : (row.txnRow sig' (i, seen)).sig = sig' := rfl
      rw [Option.map_some, Option.toList_some]
      by_cases hsame : sig' = sig
      · rw [List.filter_cons_of_pos (by simpa [hsig] using hsame), if_pos hsame]
        exact congrArg (fun b => [b]) (hfg sig' row (i, seen))
      · rw [List.filter_cons_of_neg (by simpa [hsig] using hsame), if_neg hsame]
        rfl

/-- No call switches the transaction table on or off. -/
lemma collectRows_run (start : SigRegistry n) (ops : List (Op n)) :
    (Machine.finalState step start ops).collectRows = start.collectRows := by
  induction ops using List.reverseRecOn with
  | nil => rfl
  | append_singleton ops op ih =>
    rw [Machine.finalState_concat, ← ih]
    cases op with
    | recordFirst d => rfl
    | finalize order force => exact collectRows_finalize _ order force
    | drainRows => rfl

/-- The end of a run brings no deliveries. -/
lemma deliveries_ended (ops : List (Op n)) (order : HashOrder) :
    deliveries (ended ops order) = deliveries ops := by
  simp [deliveries, ended]

section Run

variable {start : SigRegistry n} (hnew : start.IsNew)
include hnew

/-- After an ended run no life goes on. -/
lemma pending_ended (ops : List (Op n)) (order : HashOrder) (sig : Signature) :
    (lives start (ended ops order)).pending sig = [] := by
  rw [ended, lives_concat]
  exact pending_finalize_force hnew ops order sig

/-- The rows that an ended run hands over are those of all lives. -/
lemma drained_ended (hcollect : start.collectRows = true) (ops : List (Op n))
    (order : HashOrder) :
    (Machine.outputs step start (ended ops order)).flatten =
      (lives start (ended ops order)).closed.flatMap fun e =>
        (SigRow.ofDeliveries e.2).elim [] (SigRow.emitted e.1) := by
  have hrows := (traces_run hnew (ended ops order)).rows
    ((collectRows_run start _).trans hcollect)
  have hnone : (Machine.finalState step start (ended ops order)).rows = [] := by
    rw [ended, Machine.finalState_concat]
    rfl
  rwa [hnone, List.append_nil] at hrows

/-- The deliveries of a source and a signature, over all lives of the signature. -/
lemma sum_countP_lives (ops : List (Op n)) (order : HashOrder) (i : Fin n) (sig : Signature) :
    ((lives start (ended ops order)).closed.map fun e =>
      if e.1 = sig then e.2.countP (fun d => d.sid = i) else 0).sum =
    (deliveries ops).countP fun d => d.sid = i ∧ d.sig = sig := by
  have harrived := arrived_lives start (ended ops order) sig
  rw [Batches.arrived, pending_ended hnew, List.append_nil, deliveries_ended] at harrived
  rw [Batches.sum_closed_key (g := fun ds : List (Delivery n) => ds.countP fun d => d.sid = i)
    rfl (fun xs ys => List.countP_append) _ sig, harrived, List.countP_filter]
  refine List.countP_congr fun d _ => ?_
  simp

/-- Once all rows are retired, no row is in flight. -/
lemma events_ended (ops : List (Op n)) (order : HashOrder) :
    (Machine.finalState step start (ended ops order)).events = ∅ := by
  refine AList.ext (List.eq_nil_iff_forall_not_mem.mpr fun e he => ?_)
  have hlookup := AList.mem_entries_iff_lookup.mp he
  rw [(traces_run hnew _).inFlight, pending_ended hnew] at hlookup
  simp at hlookup

/-- **Rows are conserved**, if the numbers of the sources that deliver are 16-bit numbers. -/
theorem rowsConserved_of_fits (hcollect : start.collectRows = true) {ops : List (Op n)}
    {order : HashOrder}
    (hdups : ∀ e ∈ (lives start (ended ops order)).closed, ∀ i : Fin n,
      e.2.countP (fun d => d.sid = i) ≤ u32Size)
    (hfits : ∀ d ∈ deliveries ops, d.sid.val < u16Size) :
    RowsConserved start (ended ops order) := by
  -- so that the number of a source, cut to 16 bits, is still its own
  have hlife : ∀ e ∈ (lives start (ended ops order)).closed, ∀ d ∈ e.2, d.sid.val < u16Size := by
    intro e he d hd
    have hmem := (mem_deliveries_of_mem_closed he hd).1
    rw [deliveries_ended] at hmem
    exact hfits d hmem
  have hrows := drained_ended hnew hcollect ops order
  exact {
    count := by
      intro i sig
      rw [hrows, deliveries_ended, ← sum_countP_lives hnew ops order, rowsOf, List.filter_flatMap,
        List.map_flatMap, List.flatMap_def, List.sum_flatten, List.map_map]
      refine congrArg List.sum (List.map_congr_left fun e he => ?_)
      have hmap := map_rowsOf_life (f := fun row => 1 + row.duplicateCount)
        (g := fun seen => 1 + seen.dups) (fun _ _ _ => rfl) (hlife e he) e.1 i sig
      change ((rowsOf i sig _).map fun row => 1 + row.duplicateCount).sum = _
      rw [hmap]
      split
      · exact SigRow.sum_seenOf (hdups e he i)
      · rfl
    firstRx := by
      intro i sig
      rw [hrows, rowsOf, List.filter_flatMap, List.map_flatMap]
      have hmap : ∀ e ∈ (lives start (ended ops order)).closed,
          (rowsOf i sig ((SigRow.ofDeliveries e.2).elim [] (SigRow.emitted e.1))).map
            TxnRow.firstRxUnixNs = if e.1 = sig then (SigRow.firstNs i e.2).toList else [] := by
        intro e he
        rw [map_rowsOf_life (g := Seen.ns) (fun _ _ _ => rfl) (hlife e he), SigRow.map_ns_seenOf]
      rw [← flatMap_toList_of_filter]
      exact List.flatMap_congr hmap
    seen := by
      intro i
      rw [(traces_run hnew _).seen, events_ended hnew, AList.total_empty, Nat.zero_add, hrows,
        List.countP_flatMap]
      refine congrArg List.sum (List.map_congr_left fun e he => ?_)
      cases hrow : SigRow.ofDeliveries e.2 with
      | none => simp [hrow]
      | some row =>
        have hfits := SigRow.fits_of_ofDeliveries hrow (hlife e he)
        rw [Function.comp_apply, hrow, Option.elim_some, Option.elim_some,
          List.countP_eq_length_filter, SigRow.emitted_filter hfits]
        cases row.ts i <;> rfl }

/-- If rows are conserved, the numbers of the sources that deliver are 16-bit numbers: a row with
any other number would not be found under it. -/
lemma fits_of_rowsConserved (hcollect : start.collectRows = true) {ops : List (Op n)}
    {order : HashOrder} (h : RowsConserved start (ended ops order)) {d : Delivery n}
    (hd : d ∈ deliveries ops) : d.sid.val < u16Size := by
  by_contra hlarge
  have hcount := h.count d.sid d.sig
  have hnone : rowsOf d.sid d.sig (Machine.outputs step start (ended ops order)).flatten = [] := by
    rw [drained_ended hnew hcollect]
    refine List.filter_eq_nil_iff.mpr fun r hr => ?_
    obtain ⟨e, -, hr⟩ := List.mem_flatMap.mp hr
    have hsid : r.sid < u16Size := by
      cases hrow : SigRow.ofDeliveries e.2 with
      | none => simp [hrow] at hr
      | some row => exact sid_lt_of_mem_emitted (by simpa [hrow] using hr)
    have hne : r.sid ≠ d.sid.val := fun heq => hlarge (heq ▸ hsid)
    simp [hne]
  rw [hnone, deliveries_ended] at hcount
  have hnot := List.countP_eq_zero.mp hcount.symm d hd
  simp at hnot

end Run

/-- **The transaction table conserves deliveries exactly if source numbers fit in 16 bits.**  For
any calls, in any order, ended by `finalize(true)` and `drain_rows`, and with no life that repeats
deliveries of a source more often than a 32-bit number can say. -/
theorem rowsConserved_iff (names : Fin n → String) (kinds : Fin n → SourceKind)
    (rotating : List (Fin n)) (onchain : Option (ℕ × Bool)) (ops : List (Op n)) (order : HashOrder)
    (hdups : ∀ e ∈ (lives (setUp names kinds rotating onchain).enableTxnRows
        (ended ops order)).closed,
      ∀ i : Fin n, e.2.countP (fun d => d.sid = i) ≤ u32Size) :
    RowsConserved (setUp names kinds rotating onchain).enableTxnRows (ended ops order) ↔
      ∀ d ∈ deliveries ops, d.sid.val < u16Size := by
  have hnew : (setUp names kinds rotating onchain).enableTxnRows.IsNew :=
    { isNew_setUp names kinds rotating onchain with }
  constructor
  · exact fun h d hd => fits_of_rowsConserved hnew rfl h hd
  · exact rowsConserved_of_fits hnew rfl hdups

/-- A run of at most 2^32 deliveries repeats none too often. -/
lemma countP_le_of_few {start : SigRegistry n} {ops : List (Op n)}
    (hfew : (deliveries ops).length ≤ u32Size) {e : Signature × List (Delivery n)}
    (he : e ∈ (lives start ops).closed) (i : Fin n) :
    e.2.countP (fun d => d.sid = i) ≤ u32Size :=
  List.countP_le_length.trans ((length_le_of_mem_closed he).trans hfew)

/-- Two sources, one of which repeats its delivery after the row was retired. -/
theorem rowsConserved_two_sources :
    let sig : Signature := Vector.replicate 64 1
    let start : SigRegistry 2 :=
      (setUp (fun _ => "source") (fun _ => .grpc) [1] none).enableTxnRows
    let ops : List (Op 2) :=
      [.recordFirst ⟨0, sig, 1000, 42, TxnMeta.default⟩,
        .recordFirst ⟨0, sig, 2000, 42, TxnMeta.default⟩,
        .recordFirst ⟨1, sig, 3000, 200, TxnMeta.default⟩,
        .finalize HashOrder.asStored false,
        .recordFirst ⟨1, sig, 9000, 42, TxnMeta.default⟩]
    RowsConserved start (ended ops HashOrder.asStored) := by
  intro sig start ops
  refine (rowsConserved_iff (fun _ => "source") (fun _ => .grpc) [1] none ops HashOrder.asStored
    fun e he i => countP_le_of_few ?_ he i).mpr fun d _ => ?_
  · rw [deliveries_ended]
    decide
  · have hlt : d.sid.val < 2 := d.sid.isLt
    unfold u16Size
    omega

/-- With 65537 sources, the rows of the last one are written out as those of the first. -/
theorem not_rowsConserved_of_many_sources :
    let start : SigRegistry 65537 :=
      (setUp (fun _ => "source") (fun _ => .grpc) [] none).enableTxnRows
    let ops : List (Op 65537) :=
      [.recordFirst ⟨Fin.last 65536, Vector.replicate 64 1, 1000, 42, TxnMeta.default⟩]
    (∀ e ∈ (lives start (ended ops HashOrder.asStored)).closed, ∀ i : Fin 65537,
      e.2.countP (fun d => d.sid = i) ≤ u32Size) ∧
    ¬ RowsConserved start (ended ops HashOrder.asStored) := by
  intro start ops
  constructor
  · refine fun e he i => countP_le_of_few ?_ he i
    rw [deliveries_ended]
    exact Nat.le_of_ble_eq_true rfl
  · intro h
    have hnew : start.IsNew := { isNew_setUp (fun _ => "source") (fun _ => .grpc) [] none with }
    have hsmall := fits_of_rowsConserved hnew rfl h List.mem_cons_self
    exact absurd hsmall (by decide)

end SigRegistry

end ShredTools.Audit
