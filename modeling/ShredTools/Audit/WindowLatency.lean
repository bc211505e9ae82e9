import ShredTools.Audit.SigRegistryRun

/-!
# The latency of a window

The registry counts a contested row for the window that the first delivery of a rotating source
came from.  This file follows the rows of one window: which calls bring them and take them away
(`Holds`), what retiring them adds to the latency of the window (`contestedIn_finalize`), and that
nothing is added once none is left (`windowLatency_finalize`).

A row is of a window if the first delivery that it has of the source came by that connection
(`FirstFrom`), and it counts for the window if it is contested besides (`CountsFor`).  `contestedIn`
is what the window has been counted so far.  Each row touches a window at most once, so the order in
which rows are retired does not matter.
-/

namespace ShredTools.Audit

/-- The connection that the first delivery came from. -/
def Seen.connection (seen : Seen) : ℕ := seen.txnMeta.connectionId.getD 0

/-- The connection that a delivery comes from. -/
def Delivery.connection {n : ℕ} (d : Delivery n) : ℕ := d.txnMeta.connectionId.getD 0

namespace SigRow

variable {n : ℕ}

/-- The first delivery of a source came from a connection. -/
def FirstFrom (row : SigRow n) (i : Fin n) (conn : ℕ) : Prop :=
  ∃ seen ∈ row.ts i, seen.connection = conn

instance (row : SigRow n) (i : Fin n) (conn : ℕ) : Decidable (row.FirstFrom i conn) :=
  inferInstanceAs (Decidable (∃ seen ∈ row.ts i, seen.connection = conn))

/-- A new row has no deliveries. -/
lemma not_firstFrom_new (slot : ℕ) (i : Fin n) (conn : ℕ) :
    ¬ (new slot : SigRow n).FirstFrom i conn := by
  rintro ⟨seen, hseen, -⟩
  exact Option.not_mem_none seen hseen

/-- The first delivery of a source stays the first one. -/
lemma firstFrom_deliver {row : SigRow n} {d : Delivery n} {i : Fin n} {conn : ℕ}
    (h : (row.deliver d).FirstFrom i conn) :
    row.FirstFrom i conn ∨ (d.sid = i ∧ d.connection = conn) := by
  obtain ⟨seen, hseen, hconn⟩ := h
  rw [Option.mem_def, ts_deliver] at hseen
  by_cases hi : i = d.sid
  · subst hi
    rw [if_pos rfl, Option.some.injEq] at hseen
    cases hold : row.ts d.sid with
    | none =>
      rw [hold] at hseen
      refine Or.inr ⟨rfl, ?_⟩
      rw [← hconn, ← hseen]
      rfl
    | some old =>
      rw [hold] at hseen
      refine Or.inl ⟨old, hold, ?_⟩
      rw [← hconn, ← hseen]
      rfl
  · rw [if_neg hi] at hseen
    exact Or.inl ⟨seen, hseen, hconn⟩

/-- A row that counts for the window of a source and a connection. -/
def CountsFor (i : Fin n) (conn : ℕ) (row : SigRow n) : Prop :=
  row.race.isSome = true ∧ row.FirstFrom i conn

instance (i : Fin n) (conn : ℕ) (row : SigRow n) : Decidable (row.CountsFor i conn) :=
  inferInstanceAs (Decidable (_ ∧ _))

end SigRow

namespace SigRegistry

variable {n : ℕ}

/-- Some row in flight has its first delivery of the source from the connection. -/
def Holds (reg : SigRegistry n) (i : Fin n) (conn : ℕ) : Prop :=
  ∃ sig, ∃ row ∈ reg.events.lookup sig, row.FirstFrom i conn

/-- The contested rows counted for a window so far. -/
def contestedIn (reg : SigRegistry n) (key : WindowKey) : ℕ :=
  (reg.windowLatency.lookup key).elim 0 WindowLatency.contested

/-! ### Rows of a window -/

/-- A delivery brings no row for a window but that of its connection. -/
theorem holds_recordFirst {reg : SigRegistry n} {d : Delivery n} {i : Fin n} {conn : ℕ}
    (h : (reg.recordFirst d).Holds i conn) :
    reg.Holds i conn ∨ (d.sid = i ∧ d.connection = conn) := by
  obtain ⟨sig, row, hrow, hfirst⟩ := h
  have hevents : (reg.recordFirst d).events =
      reg.events.insert d.sig ((reg.rowFor d.sig d.slot).deliver d) := rfl
  rw [hevents] at hrow
  by_cases hsig : sig = d.sig
  · rw [hsig, AList.lookup_insert, Option.mem_some_iff] at hrow
    subst hrow
    refine (SigRow.firstFrom_deliver hfirst).imp_left fun hold => ?_
    cases hlookup : reg.events.lookup d.sig with
    | none =>
      rw [rowFor, hlookup] at hold
      exact absurd hold (SigRow.not_firstFrom_new d.slot i conn)
    | some old =>
      rw [rowFor, hlookup] at hold
      exact ⟨d.sig, old, hlookup, hold⟩
  · rw [AList.lookup_insert_ne hsig] at hrow
    exact Or.inl ⟨sig, row, hrow, hfirst⟩

/-- Retiring a row takes it out of the table. -/
lemma lookup_retireRow (reg : SigRegistry n) (sig sig' : Signature) :
    (reg.retireRow sig).events.lookup sig' =
      if sig' = sig then none else reg.events.lookup sig' := by
  cases hrow : reg.events.lookup sig with
  | none =>
    unfold retireRow
    rw [hrow]
    by_cases hsig : sig' = sig
    · rw [if_pos hsig, hsig, hrow]
    · rw [if_neg hsig]
  | some row =>
    have hframe : (reg.retireRow sig).withoutRaces = (reg.takeOut sig row).withoutRaces := by
      rw [retireRow_eq hrow, withoutRaces_fold]
    have hevents : (reg.retireRow sig).events = reg.events.erase sig := (congrArg events hframe :)
    rw [hevents]
    by_cases hsig : sig' = sig
    · rw [if_pos hsig, hsig, AList.lookup_erase]
    · rw [if_neg hsig, AList.lookup_erase_ne hsig]

/-- A `finalize` leaves the rows that do not pass the test. -/
lemma lookup_finalize (reg : SigRegistry n) (order : HashOrder) (force : Bool)
    (sig : Signature) :
    (reg.finalize order force).events.lookup sig =
      (reg.events.lookup sig).filter fun row => ¬ row.Retires force reg.evictFloor := by
  have hfold : ∀ (sigs : List Signature) (reg : SigRegistry n),
      (sigs.foldl retireRow reg).events.lookup sig =
        if sig ∈ sigs then none else reg.events.lookup sig := by
    intro sigs
    induction sigs with
    | nil => simp
    | cons sig' sigs ih =>
      intro reg
      rw [List.foldl_cons, ih, lookup_retireRow]
      by_cases hsig : sig = sig' <;> simp [hsig]
  unfold finalize
  rw [hfold]
  by_cases hmem : sig ∈ reg.retire order force
  · obtain ⟨row, hrow, hretires⟩ := mem_retire_iff.mp hmem
    rw [if_pos hmem, hrow, Option.filter_some, if_neg (by simpa using hretires)]
  · rw [if_neg hmem]
    cases hrow : reg.events.lookup sig with
    | none => rw [Option.filter_none]
    | some row =>
      have hkept : ¬ row.Retires force reg.evictFloor := fun hretires =>
        hmem (mem_retire_iff.mpr ⟨row, hrow, hretires⟩)
      rw [Option.filter_some, if_pos (by simpa using hkept)]

/-- The rows that a `finalize` leaves to a window are those that do not pass the test. -/
theorem holds_finalize {reg : SigRegistry n} {order : HashOrder} {force : Bool} {i : Fin n}
    {conn : ℕ} (h : (reg.finalize order force).Holds i conn) :
    ∃ sig, ∃ row ∈ reg.events.lookup sig, row.FirstFrom i conn ∧
      ¬ row.Retires force reg.evictFloor := by
  obtain ⟨sig, row, hrow, hfirst⟩ := h
  rw [Option.mem_def, lookup_finalize, Option.filter_eq_some_iff] at hrow
  exact ⟨sig, row, hrow.1, hfirst, of_decide_eq_true hrow.2⟩

/-! ### The latency -/

/-- Folding a row adds to the latency of a window if the row counts for it, and leaves it alone
otherwise. -/
lemma lookup_windowLatency_fold (row : SigRow n) (reg : SigRegistry n) {i : Fin n}
    (hrotating : reg.rotating i = true) (conn : ℕ) :
    ∃ isWin behindUs vsShred, (reg.fold row).windowLatency.lookup (i.val, conn) =
      if row.CountsFor i conn then
        some (((reg.windowLatency.lookup (i.val, conn)).getD WindowLatency.new).add
          isWin behindUs vsShred)
      else reg.windowLatency.lookup (i.val, conn) := by
  -- a turn of the loop touches the window of its own source and connection only
  have hloop : ∀ (min : ℤ) (minShred : Option ℤ) (reg : SigRegistry n), reg.rotating i = true →
      (row.present.foldl (foldSource min minShred) reg).windowLatency.lookup (i.val, conn) =
        (row.present.filter fun p => p.1 = i ∧ p.2.connection = conn).foldl (fun w p =>
          some ((w.getD WindowLatency.new).add (decide (p.2.ns = min)) (behindUs min p.2.ns)
            (minShred.map fun shred => (i64Wrap (p.2.ns - shred)).tdiv 1000)))
          (reg.windowLatency.lookup (i.val, conn)) := by
    intro min minShred reg hrotating
    refine List.foldl_project (foldSource min minShred)
      (fun reg => reg.windowLatency.lookup (i.val, conn))
      (fun p => p.1 = i ∧ p.2.connection = conn) _ (fun reg => reg.rotating i = true)
      (fun _ _ h => h) (fun reg p hrotating => ?_) row.present hrotating
    unfold foldSource
    dsimp only
    by_cases hp : p.1 = i ∧ p.2.connection = conn
    · obtain ⟨rfl, rfl⟩ := id hp
      rw [if_pos hp, if_pos hrotating]
      exact AList.lookup_upsert_self _ _ _ _
    · rw [if_neg hp]
      split
      · refine AList.lookup_upsert_ne (fun hkey => hp ?_) _ _ _
        obtain ⟨hi, hconn⟩ := Prod.mk.inj hkey
        exact ⟨(Fin.val_inj.mp hi).symm, hconn.symm⟩
      · rfl
  rw [fold_eq]
  rcases Option.eq_none_or_eq_some row.race with hrace | ⟨min, hrace⟩
  · have hnot : ¬ row.CountsFor i conn := fun h => by simpa [hrace] using h.1
    exact ⟨false, 0, none, by rw [hrace, if_neg hnot, Option.elim_none]⟩
  · rw [hrace, Option.elim_some,
      hloop _ _ { reg with contestedTotal := reg.contestedTotal + 1 } hrotating]
    have hsplit : row.present.filter (fun p => p.1 = i ∧ p.2.connection = conn) =
        ((row.present.filter fun p => p.1 = i).filter fun p => p.2.connection = conn) := by
      rw [List.filter_filter]
      refine List.filter_congr fun p _ => ?_
      simp [Bool.and_comm]
    rw [hsplit, SigRow.present_filter]
    -- the source is at most once in the row
    by_cases hcounts : row.CountsFor i conn
    · obtain ⟨seen, hseen, hconn⟩ := id hcounts.2
      have hone : ((row.ts i).map fun seen => (i, seen)).toList.filter
          (fun p => p.2.connection = conn) = [(i, seen)] := by
        rw [Option.mem_def.mp hseen, Option.map_some, Option.toList_some,
          List.filter_cons_of_pos (by simpa using hconn), List.filter_nil]
      simp only [hone, if_pos hcounts, List.foldl_cons, List.foldl_nil]
      exact ⟨_, _, _, rfl⟩
    · refine ⟨false, 0, none, ?_⟩
      have hnone : ((row.ts i).map fun seen => (i, seen)).toList.filter
          (fun p => p.2.connection = conn) = [] := by
        refine List.filter_eq_nil_iff.mpr fun p hp hconn =>
          hcounts ⟨by rw [hrace]; rfl, p.2, ?_, ?_⟩
        · obtain ⟨seen, hseen, rfl⟩ := Option.map_eq_some_iff.mp (Option.mem_toList.mp hp)
          exact hseen
        · exact of_decide_eq_true hconn
      rw [if_neg hcounts, hnone, List.foldl_nil]

/-- Folding a row that counts for a window counts it. -/
lemma contestedIn_fold (row : SigRow n) (reg : SigRegistry n) {i : Fin n}
    (hrotating : reg.rotating i = true) (conn : ℕ) :
    (reg.fold row).contestedIn (i.val, conn) =
      reg.contestedIn (i.val, conn) + (decide (row.CountsFor i conn)).toNat := by
  obtain ⟨isWin, behindUs, vsShred, hlookup⟩ := lookup_windowLatency_fold row reg hrotating conn
  unfold contestedIn
  rw [hlookup]
  by_cases hcounts : row.CountsFor i conn
  · rw [if_pos hcounts, decide_eq_true hcounts]
    cases reg.windowLatency.lookup (i.val, conn) <;> rfl
  · rw [if_neg hcounts, decide_eq_false hcounts]
    rfl

@[simp] lemma rotating_retireRow (reg : SigRegistry n) (sig : Signature) :
    (reg.retireRow sig).rotating = reg.rotating :=
  (congrArg rotating (reg.atRest_retireRow sig) :)

@[simp] theorem rotating_finalize (reg : SigRegistry n) (order : HashOrder) (force : Bool) :
    (reg.finalize order force).rotating = reg.rotating :=
  (congrArg rotating (reg.atRest_finalize order force) :)

@[simp] theorem highSlot_finalize (reg : SigRegistry n) (order : HashOrder) (force : Bool) :
    (reg.finalize order force).highSlot = reg.highSlot :=
  (congrArg highSlot (reg.atRest_finalize order force) :)

@[simp] theorem finalizedFloor_finalize (reg : SigRegistry n) (order : HashOrder) (force : Bool) :
    (reg.finalize order force).finalizedFloor = if force then u64Max else reg.evictFloor :=
  (congrArg finalizedFloor (reg.atRest_finalize order force) :)

/-- What a `finalize` adds to the latency of a window are the lives that end and count for it. -/
theorem contestedIn_finalize {reg : SigRegistry n} {lives : Batches Signature (Delivery n)}
    {handed : List TxnRow} (h : Traces reg lives handed) (order : HashOrder) (force : Bool)
    {i : Fin n} (hrotating : reg.rotating i = true) (conn : ℕ) :
    (reg.finalize order force).contestedIn (i.val, conn) +
        tally (fun row => (decide (row.CountsFor i conn)).toNat) lives =
      reg.contestedIn (i.val, conn) + tally (fun row => (decide (row.CountsFor i conn)).toNat)
        (lives.closeAll (reg.retire order force)) := by
  have hloop : ∀ (sigs : List Signature) (reg : SigRegistry n)
      (lives : Batches Signature (Delivery n)), Traces reg lives handed → sigs.Nodup →
      (∀ sig ∈ sigs, ∃ row, reg.events.lookup sig = some row) → reg.rotating i = true →
      (sigs.foldl retireRow reg).contestedIn (i.val, conn) +
          tally (fun row => (decide (row.CountsFor i conn)).toNat) lives =
        reg.contestedIn (i.val, conn) + tally (fun row => (decide (row.CountsFor i conn)).toNat)
          (lives.closeAll sigs) := by
    intro sigs
    induction sigs with
    | nil => exact fun _ _ _ _ _ _ => rfl
    | cons sig sigs ih =>
      intro reg lives h hnd hrows hrotating
      obtain ⟨hfresh, hnd⟩ := List.nodup_cons.mp hnd
      obtain ⟨row, hrow⟩ := hrows sig List.mem_cons_self
      have hlife : SigRow.ofDeliveries (lives.pending sig) = some row := by rw [← h.inFlight, hrow]
      have hothers : ∀ sig' ∈ sigs, ∃ row, (reg.retireRow sig).events.lookup sig' = some row := by
        intro sig' hsig'
        have hne : sig' ≠ sig := fun heq => hfresh (heq ▸ hsig')
        rw [lookup_retireRow, if_neg hne]
        exact hrows sig' (List.mem_cons_of_mem _ hsig')
      have hnext := ih (reg.retireRow sig) (lives.close sig) (h.retireRow hrow) hnd hothers
        (by rw [rotating_retireRow, hrotating])
      have hstep : (reg.retireRow sig).contestedIn (i.val, conn) =
          reg.contestedIn (i.val, conn) + (decide (row.CountsFor i conn)).toNat := by
        rw [retireRow_eq hrow, contestedIn_fold row (reg.takeOut sig row) hrotating]
        rfl
      rw [tally_close _ hlife] at hnext
      rw [List.foldl_cons, Batches.closeAll_cons]
      omega
  refine hloop _ { reg with finalizedFloor := if force then u64Max else reg.evictFloor } lives
    { h with } (nodup_retire reg order force) (fun sig hsig => ?_) hrotating
  obtain ⟨row, hrow, -⟩ := mem_retire_iff.mp hsig
  exact ⟨row, hrow⟩

/-- A `finalize` leaves the latency of a window alone that no row in flight is left for. -/
theorem windowLatency_finalize {reg : SigRegistry n} (order : HashOrder) (force : Bool) {i : Fin n}
    (hrotating : reg.rotating i = true) {conn : ℕ} (hnone : ¬ reg.Holds i conn) :
    (reg.finalize order force).windowLatency.lookup (i.val, conn) =
      reg.windowLatency.lookup (i.val, conn) := by
  have hloop : ∀ (sigs : List Signature) (reg : SigRegistry n), reg.rotating i = true →
      ¬ reg.Holds i conn → (sigs.foldl retireRow reg).windowLatency.lookup (i.val, conn) =
        reg.windowLatency.lookup (i.val, conn) := by
    intro sigs
    induction sigs with
    | nil => exact fun _ _ _ => rfl
    | cons sig sigs ih =>
      intro reg hrotating hnone
      have hstill : ¬ (reg.retireRow sig).Holds i conn := by
        rintro ⟨sig', row, hrow, hfirst⟩
        rw [lookup_retireRow] at hrow
        by_cases hsig : sig' = sig
        · rw [if_pos hsig] at hrow
          exact Option.not_mem_none row hrow
        · rw [if_neg hsig] at hrow
          exact hnone ⟨sig', row, hrow, hfirst⟩
      rw [List.foldl_cons, ih _ (by rw [rotating_retireRow, hrotating]) hstill]
      cases hrow : reg.events.lookup sig with
      | none =>
        unfold retireRow
        rw [hrow]
      | some row =>
        have hnot : ¬ row.CountsFor i conn := fun h => hnone ⟨sig, row, hrow, h.2⟩
        obtain ⟨isWin, behindUs, vsShred, hlookup⟩ :=
          lookup_windowLatency_fold row (reg.takeOut sig row) hrotating conn
        rw [retireRow_eq hrow, hlookup, if_neg hnot]
        rfl
  exact hloop _ { reg with finalizedFloor := if force then u64Max else reg.evictFloor } hrotating
    hnone

end SigRegistry

end ShredTools.Audit
