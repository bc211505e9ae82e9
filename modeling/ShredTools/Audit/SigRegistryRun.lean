import Mathlib.Algebra.BigOperators.Group.List.Basic
import Mathlib.Algebra.Order.Ring.Int
import ShredTools.Audit.SigRegistry
import ShredTools.Library.Batches

/-!
# Runs of the registry

The life of a row begins with a delivery of a signature that has no row, and ends when the row is
retired.  `lives` follows a run and keeps the deliveries of every life: the open batch of a
signature is what was delivered since it was last retired, and the closed batches are the lives that
are over.

`Traces` says what the registry is in terms of the lives: its rows in flight are made of the open
ones, and its counters and the rows it wrote out of the closed ones.  Every step keeps it.
-/

namespace ShredTools.Audit

/-! ### The row of a life -/

namespace SigRow

variable {n : ℕ}

/-- What the deliveries of one source amount to. -/
def seenOf : List (Delivery n) → Option Seen
  | [] => none
  | d :: ds => some ⟨d.ns, ds.length % u32Size, d.txnMeta⟩

/-- The row that some deliveries of a signature make. -/
def ofDeliveries : List (Delivery n) → Option (SigRow n)
  | [] => none
  | d :: ds => some ((d :: ds).foldl deliver (new d.slot))

/-- The deliveries of one source. -/
abbrev bySource (i : Fin n) (ds : List (Delivery n)) : List (Delivery n) :=
  ds.filter fun d => d.sid = i

@[simp] lemma ofDeliveries_nil : ofDeliveries ([] : List (Delivery n)) = none := rfl

/-- There is a row once there is a delivery. -/
theorem ofDeliveries_eq_none_iff {ds : List (Delivery n)} : ofDeliveries ds = none ↔ ds = [] := by
  cases ds with
  | nil => simp
  | cons d ds => simp [ofDeliveries]

/-- One more delivery of a source. -/
lemma seenOf_concat (ds : List (Delivery n)) (d : Delivery n) :
    seenOf (ds ++ [d]) = some (seenAfter d.ns d.txnMeta (seenOf ds)) := by
  cases ds with
  | nil => rfl
  | cons d' ds => simp [seenOf, seenAfter]

/-- One more delivery of the signature. -/
lemma ofDeliveries_concat (ds : List (Delivery n)) (d : Delivery n) :
    ofDeliveries (ds ++ [d]) = some (((ofDeliveries ds).getD (new d.slot)).deliver d) := by
  cases ds with
  | nil => rfl
  | cons d' ds => simp [ofDeliveries]

theorem ts_deliver (row : SigRow n) (d : Delivery n) (i : Fin n) :
    (row.deliver d).ts i =
      if i = d.sid then some (seenAfter d.ns d.txnMeta (row.ts d.sid)) else row.ts i := by
  unfold deliver
  dsimp only
  rw [Function.update_apply]

/-- A row holds for each source what its deliveries amount to. -/
theorem ts_ofDeliveries {ds : List (Delivery n)} {row : SigRow n}
    (hrow : ofDeliveries ds = some row) (i : Fin n) : row.ts i = seenOf (bySource i ds) := by
  induction ds using List.reverseRecOn generalizing row with
  | nil => simp at hrow
  | append_singleton ds d ih =>
    have hbefore : ((ofDeliveries ds).getD (new d.slot)).ts i = seenOf (bySource i ds) := by
      cases hds : ofDeliveries ds with
      | none =>
        rw [ofDeliveries_eq_none_iff.mp hds]
        rfl
      | some before => exact ih hds
    rw [ofDeliveries_concat, Option.some.injEq] at hrow
    rw [← hrow, ts_deliver, bySource, List.filter_append]
    by_cases hi : i = d.sid
    · subst hi
      rw [if_pos rfl, List.filter_cons_of_pos (by simp), List.filter_nil, seenOf_concat, hbefore]
    · have hne : ¬ d.sid = i := fun h => hi h.symm
      rw [if_neg hi, List.filter_cons_of_neg (by simpa using hne), List.filter_nil,
        List.append_nil, hbefore]

/-- The stamp of the first delivery of a source. -/
def firstNs (i : Fin n) (ds : List (Delivery n)) : Option ℤ :=
  (ds.find? fun d => d.sid = i).map Delivery.ns

/-- What the deliveries of a source amount to begins with its first delivery. -/
theorem map_ns_seenOf (i : Fin n) (ds : List (Delivery n)) :
    (seenOf (bySource i ds)).map Seen.ns = firstNs i ds := by
  have hhead : ds.find? (fun d => d.sid = i) = (bySource i ds).head? := List.head?_filter.symm
  rw [firstNs, hhead]
  cases bySource i ds <;> rfl

/-- A source is present if it delivered the signature. -/
theorem mem_present_iff {row : SigRow n} {i : Fin n} {seen : Seen} :
    (i, seen) ∈ row.present ↔ row.ts i = some seen := by
  unfold present
  rw [List.mem_filterMap]
  constructor
  · rintro ⟨j, -, hj⟩
    obtain ⟨seen', hseen', heq⟩ := Option.map_eq_some_iff.mp hj
    cases heq
    exact hseen'
  · intro h
    exact ⟨i, List.mem_finRange i, by rw [h]; rfl⟩

/-- What is present of one source. -/
theorem present_filter (row : SigRow n) (i : Fin n) :
    row.present.filter (fun p => p.1 = i) = ((row.ts i).map fun seen => (i, seen)).toList := by
  have hsplit : ∀ l : List (Fin n), l.Nodup →
      (l.filterMap fun j => (row.ts j).map fun seen => (j, seen)).filter (fun p => p.1 = i) =
        if i ∈ l then ((row.ts i).map fun seen => (i, seen)).toList else [] := by
    intro l hnd
    induction l with
    | nil => rfl
    | cons j l ih =>
      obtain ⟨hfresh, hnd⟩ := List.nodup_cons.mp hnd
      rw [← List.singleton_append, List.filterMap_append, List.filter_append, ih hnd]
      by_cases hij : i = j
      · subst hij
        cases hseen : row.ts i <;> simp [hseen, hfresh]
      · have hji : ¬ j = i := fun h => hij h.symm
        cases hseen : row.ts j <;> simp [hseen, hij, hji]
  rw [present, hsplit _ (List.nodup_finRange n), if_pos (List.mem_finRange i)]

/-! ### The race for a row -/

/-- The first stamp of a row that two sources or more delivered. -/
def race (row : SigRow n) : Option ℤ :=
  if row.present.length < 2 then none else SigRegistry.minNs row.present

/-- How far a source was behind in the race, if there was one and the source took part. -/
def lag (row : SigRow n) (i : Fin n) : Option ℤ :=
  row.race.bind fun min => (row.ts i).map fun seen => SigRegistry.behind min seen.ns

/-- Whether a source won the race. -/
def Won (row : SigRow n) (i : Fin n) : Prop := ∃ min ∈ row.race, ∃ seen ∈ row.ts i, seen.ns = min

instance (row : SigRow n) (i : Fin n) : Decidable (row.Won i) :=
  inferInstanceAs (Decidable (∃ min ∈ row.race, ∃ seen ∈ row.ts i, seen.ns = min))

end SigRow

namespace SigRegistry

variable {n : ℕ}

/-! ### Folding a row -/

/-- The registry without what `fold` changes. -/
def withoutRaces (reg : SigRegistry n) : SigRegistry n :=
  { reg with
    contestedTotal := 0, contested := fun _ => 0, wins := fun _ => 0, behindSumNs := fun _ => 0,
    behindN := fun _ => 0, behindHistogram := fun _ => [], windowLatency := ∅ }

/-- Folding a row is a loop over the sources that delivered it, if there is a race. -/
theorem fold_eq (row : SigRow n) (reg : SigRegistry n) :
    reg.fold row = row.race.elim reg fun min =>
      row.present.foldl
        (foldSource min (minNs (row.present.filter fun p => reg.kinds p.1 == .shred)))
        { reg with contestedTotal := reg.contestedTotal + 1 } := by
  unfold fold SigRow.race
  by_cases hfew : row.present.length < 2
  · simp [hfew]
  · cases hmin : minNs row.present <;> simp [hfew, hmin]

lemma withoutRaces_foldl (min : ℤ) (minShred : Option ℤ) (present : List (Fin n × Seen))
    (reg : SigRegistry n) :
    (present.foldl (foldSource min minShred) reg).withoutRaces = reg.withoutRaces := by
  induction present generalizing reg with
  | nil => rfl
  | cons p present ih =>
    rw [List.foldl_cons, ih]
    rfl

/-- Folding a row changes the race counters only. -/
@[simp] theorem withoutRaces_fold (row : SigRow n) (reg : SigRegistry n) :
    (reg.fold row).withoutRaces = reg.withoutRaces := by
  rw [fold_eq]
  cases row.race with
  | none => rfl
  | some min => exact withoutRaces_foldl min _ _ _

/-- A loop over the sources of a row does to a counter of one source what it does with that source
alone. -/
lemma foldl_part {β : Type*} {part : SigRegistry n → β} {i : Fin n} {min : ℤ}
    {minShred : Option ℤ} {g : β → Seen → β}
    (hpart : ∀ reg p, part (foldSource min minShred reg p) =
      if p.1 = i then g (part reg) p.2 else part reg)
    (row : SigRow n) (reg : SigRegistry n) :
    part (row.present.foldl (foldSource min minShred) reg) =
      (row.ts i).elim (part reg) (g (part reg)) := by
  have hfold := List.foldl_project (foldSource min minShred) part (fun p => p.1 = i)
    (fun b p => g b p.2) (fun _ => True) (fun _ _ _ => trivial) (fun reg p _ => hpart reg p)
    row.present (s := reg) trivial
  rw [hfold, SigRow.present_filter]
  cases row.ts i <;> rfl

/-- What folding a row does to a counter of one source. -/
lemma fold_part {β : Type*} (part : SigRegistry n → β) {i : Fin n} {g : ℤ → β → Seen → β}
    (hstart : ∀ (reg : SigRegistry n) (c : ℕ), part { reg with contestedTotal := c } = part reg)
    (hpart : ∀ min minShred reg p, part (foldSource min minShred reg p) =
      if p.1 = i then g min (part reg) p.2 else part reg)
    (row : SigRow n) (reg : SigRegistry n) :
    part (reg.fold row) =
      row.race.elim (part reg) fun min => (row.ts i).elim (part reg) (g min (part reg)) := by
  rw [fold_eq]
  cases row.race with
  | none => rfl
  | some min =>
    rw [Option.elim_some, Option.elim_some, foldl_part (hpart min _), hstart]

/-- A row with a race is contested. -/
lemma contestedTotal_fold (row : SigRow n) (reg : SigRegistry n) :
    (reg.fold row).contestedTotal = reg.contestedTotal + row.race.isSome.toNat := by
  have hloop : ∀ (min : ℤ) (minShred : Option ℤ) (present : List (Fin n × Seen))
      (reg : SigRegistry n),
      (present.foldl (foldSource min minShred) reg).contestedTotal = reg.contestedTotal := by
    intro min minShred present
    induction present with
    | nil => exact fun _ => rfl
    | cons p present ih => exact fun reg => ih _
  rw [fold_eq]
  cases row.race with
  | none => rfl
  | some min => exact hloop min _ _ _

/-- An update at one source, seen at any source. -/
lemma update_at {β : Type*} (f : Fin n → β) (j : Fin n) (g : β → β) (i : Fin n) :
    Function.update f j (g (f j)) i = if j = i then g (f i) else f i := by
  rw [Function.update_apply]
  by_cases h : i = j
  · rw [if_pos h, if_pos h.symm, h]
  · rw [if_neg h, if_neg (fun hji => h hji.symm)]

/-- A source that took part in the race has one more contested row. -/
lemma contested_fold (row : SigRow n) (reg : SigRegistry n) (i : Fin n) :
    (reg.fold row).contested i = reg.contested i + (row.lag i).isSome.toNat := by
  rw [fold_part (fun reg => reg.contested i) (i := i) (g := fun _ c _ => c + 1)
    (fun _ _ => rfl) (fun _ _ reg p => update_at reg.contested p.1 (fun c => c + 1) i)]
  unfold SigRow.lag
  cases row.race <;> cases row.ts i <;> rfl

/-- A source that took part in the race is measured once more. -/
lemma behindN_fold (row : SigRow n) (reg : SigRegistry n) (i : Fin n) :
    (reg.fold row).behindN i = reg.behindN i + (row.lag i).isSome.toNat := by
  rw [fold_part (fun reg => reg.behindN i) (i := i) (g := fun _ c _ => c + 1)
    (fun _ _ => rfl) (fun _ _ reg p => update_at reg.behindN p.1 (fun c => c + 1) i)]
  unfold SigRow.lag
  cases row.race <;> cases row.ts i <;> rfl

/-- How far it was behind is added to its sum. -/
lemma behindSumNs_fold (row : SigRow n) (reg : SigRegistry n) (i : Fin n) :
    (reg.fold row).behindSumNs i = reg.behindSumNs i + (row.lag i).getD 0 := by
  rw [fold_part (fun reg => reg.behindSumNs i) (i := i)
    (g := fun min c seen => c + behind min seen.ns) (fun _ _ => rfl)
    (fun min _ reg p => update_at reg.behindSumNs p.1 (fun c => c + behind min p.2.ns) i)]
  unfold SigRow.lag
  cases row.race <;> cases row.ts i <;> simp

/-- If it won, it has one more win. -/
lemma wins_fold (row : SigRow n) (reg : SigRegistry n) (i : Fin n) :
    (reg.fold row).wins i = reg.wins i + (decide (row.Won i)).toNat := by
  rw [fold_part (fun reg => reg.wins i) (i := i)
    (g := fun min c seen => c + (decide (seen.ns = min)).toNat) (fun _ _ => rfl)
    (fun min _ reg p =>
      update_at reg.wins p.1 (fun c => c + (decide (p.2.ns = min)).toNat) i)]
  cases hrace : row.race <;> cases hts : row.ts i <;> simp [SigRow.Won, hrace, hts, eq_comm]

/-! ### Retiring rows -/

/-- The registry with a row taken out, and written out if there is a transaction table. -/
def takeOut (sig : Signature) (row : SigRow n) (reg : SigRegistry n) : SigRegistry n :=
  { reg with
    events := reg.events.erase sig
    rows := if reg.collectRows then reg.rows ++ row.emitted sig else reg.rows }

/-- A row is retired by taking it out and folding it. -/
theorem retireRow_eq {reg : SigRegistry n} {sig : Signature} {row : SigRow n}
    (hrow : reg.events.lookup sig = some row) :
    reg.retireRow sig = (reg.takeOut sig row).fold row := by
  unfold retireRow takeOut emitRows
  rw [hrow]
  cases reg.collectRows <;> simp

/-- The signatures that are retired are those of the rows that pass the test. -/
theorem mem_retire_iff {reg : SigRegistry n} {order : HashOrder} {force : Bool} {sig : Signature} :
    sig ∈ reg.retire order force ↔
      ∃ row, reg.events.lookup sig = some row ∧ row.Retires force reg.evictFloor := by
  unfold retire
  rw [(order.perm _).mem_iff, AList.mem_keys_iff_lookup]
  simp [Option.filter_eq_some_iff]

/-- No signature is retired twice. -/
theorem nodup_retire (reg : SigRegistry n) (order : HashOrder) (force : Bool) :
    (reg.retire order force).Nodup :=
  (order.perm _).nodup_iff.mpr (AList.keys_nodup _)

/-- The registry without what `finalize` changes, but for the floor. -/
def atRest (reg : SigRegistry n) : SigRegistry n :=
  { reg.withoutRaces with events := ∅, rows := [] }

/-- Retiring a row changes the table of rows, the rows written out and the race counters only. -/
theorem atRest_retireRow (reg : SigRegistry n) (sig : Signature) :
    (reg.retireRow sig).atRest = reg.atRest := by
  cases hrow : reg.events.lookup sig with
  | none =>
    unfold retireRow
    rw [hrow]
  | some row =>
    rw [retireRow_eq hrow, atRest, withoutRaces_fold]
    rfl

/-- A `finalize` sets the floor, and changes nothing else but what retiring rows changes. -/
theorem atRest_finalize (reg : SigRegistry n) (order : HashOrder) (force : Bool) :
    (reg.finalize order force).atRest =
      { reg.atRest with finalizedFloor := if force then u64Max else reg.evictFloor } := by
  unfold finalize
  induction reg.retire order force using List.reverseRecOn with
  | nil => rfl
  | append_singleton sigs sig ih =>
    rw [List.foldl_append, List.foldl_cons, List.foldl_nil, atRest_retireRow, ih]

@[simp] theorem collectRows_finalize (reg : SigRegistry n) (order : HashOrder) (force : Bool) :
    (reg.finalize order force).collectRows = reg.collectRows :=
  (congrArg collectRows (reg.atRest_finalize order force) :)

/-! ### Lives -/

/-- The lives of rows after a call. -/
def livesStep (reg : SigRegistry n) (lives : Batches Signature (Delivery n)) :
    Op n → Batches Signature (Delivery n)
  | .recordFirst d => lives.add d.sig d
  | .finalize order force => lives.closeAll (reg.retire order force)
  | .drainRows => lives

/-- The lives of rows in a run: of each signature, what was delivered since it was last retired, and
the lives that are over. -/
def lives (start : SigRegistry n) (ops : List (Op n)) : Batches Signature (Delivery n) :=
  (ops.foldl (fun s op => ((s.1.step op).1, livesStep s.1 s.2 op)) (start, Batches.empty)).2

/-- The deliveries of a run. -/
def deliveries (ops : List (Op n)) : List (Delivery n) :=
  ops.filterMap fun op => match op with
    | .recordFirst d => some d
    | _ => none

/-- One more call. -/
theorem lives_concat (start : SigRegistry n) (ops : List (Op n)) (op : Op n) :
    lives start (ops ++ [op]) =
      livesStep (Machine.finalState step start ops) (lives start ops) op := by
  have hstate : ∀ ops : List (Op n),
      (ops.foldl (fun s op => ((s.1.step op).1, livesStep s.1 s.2 op)) (start, Batches.empty)).1 =
        Machine.finalState step start ops := by
    intro ops
    induction ops using List.reverseRecOn with
    | nil => rfl
    | append_singleton ops op ih =>
      rw [List.foldl_append, Machine.finalState_concat, ← ih]
      rfl
  rw [← hstate ops]
  unfold lives
  rw [List.foldl_append]
  rfl

/-- No delivery is lost: what arrived under a signature are its deliveries. -/
theorem arrived_lives (start : SigRegistry n) (ops : List (Op n)) (sig : Signature) :
    (lives start ops).arrived sig = (deliveries ops).filter fun d => d.sig = sig := by
  induction ops using List.reverseRecOn with
  | nil => rfl
  | append_singleton ops op ih =>
    rw [lives_concat, deliveries, List.filterMap_append, List.filter_append, ← deliveries, ← ih]
    cases op with
    | recordFirst d =>
      rw [livesStep, Batches.arrived_add]
      by_cases hsig : sig = d.sig
      · subst hsig
        simp
      · have hne : ¬ d.sig = sig := fun h => hsig h.symm
        simp [hsig, hne]
    | finalize order force => simp [livesStep]
    | drainRows => simp [livesStep]

/-- A life is made of deliveries of the run, all of its signature. -/
theorem mem_deliveries_of_mem_closed {start : SigRegistry n} {ops : List (Op n)}
    {e : Signature × List (Delivery n)} (he : e ∈ (lives start ops).closed) {d : Delivery n}
    (hd : d ∈ e.2) : d ∈ deliveries ops ∧ d.sig = e.1 := by
  have harrived : d ∈ (lives start ops).arrived e.1 :=
    List.mem_append_left _ (Batches.mem_settled he hd)
  rw [arrived_lives, List.mem_filter] at harrived
  exact ⟨harrived.1, of_decide_eq_true harrived.2⟩

/-- A life has no more deliveries than the run. -/
theorem length_le_of_mem_closed {start : SigRegistry n} {ops : List (Op n)}
    {e : Signature × List (Delivery n)} (he : e ∈ (lives start ops).closed) :
    e.2.length ≤ (deliveries ops).length := by
  have hle := Batches.length_le_arrived he
  rw [arrived_lives] at hle
  exact hle.trans (List.length_filter_le _ _)

/-- A quantity of rows, summed over the lives that are over. -/
def tally {M : Type*} [AddCommMonoid M] (f : SigRow n → M)
    (lives : Batches Signature (Delivery n)) : M :=
  (lives.closed.map fun e => (SigRow.ofDeliveries e.2).elim 0 f).sum

/-- One more life that is over. -/
theorem tally_close {M : Type*} [AddCommMonoid M] (f : SigRow n → M)
    {lives : Batches Signature (Delivery n)} {sig : Signature} {row : SigRow n}
    (hrow : SigRow.ofDeliveries (lives.pending sig) = some row) :
    tally f (lives.close sig) = tally f lives + f row := by
  unfold tally Batches.close
  rw [List.map_append, List.sum_append, List.map_singleton, List.sum_singleton, hrow]
  rfl

/-- What a registry has become of the lives of a run that started with an empty one. -/
structure Traces (reg : SigRegistry n) (lives : Batches Signature (Delivery n))
    (handed : List TxnRow) : Prop where
  /-- The rows in flight are those of the lives that go on. -/
  inFlight : ∀ sig, reg.events.lookup sig = SigRow.ofDeliveries (lives.pending sig)
  /-- A life has deliveries. -/
  nonempty : ∀ e ∈ lives.closed, e.2 ≠ []
  /-- Every life that is over has its rows in the transaction table. -/
  rows : reg.collectRows = true → handed ++ reg.rows =
    lives.closed.flatMap fun e => (SigRow.ofDeliveries e.2).elim [] (SigRow.emitted e.1)
  /-- A source has seen the rows in flight that it delivered, and those of the lives before. -/
  seen : ∀ i, reg.seen i = reg.events.total (fun _ row => (row.ts i).isSome.toNat) +
    tally (fun row => (row.ts i).isSome.toNat) lives
  contestedTotal : reg.contestedTotal = tally (fun row => row.race.isSome.toNat) lives
  contested : ∀ i, reg.contested i = tally (fun row => (row.lag i).isSome.toNat) lives
  wins : ∀ i, reg.wins i = tally (fun row => (decide (row.Won i)).toNat) lives
  behindN : ∀ i, reg.behindN i = tally (fun row => (row.lag i).isSome.toNat) lives
  behindSumNs : ∀ i, reg.behindSumNs i = tally (fun row => (row.lag i).getD 0) lives

/-- A registry in which nothing happened yet. -/
structure IsNew (reg : SigRegistry n) : Prop where
  events : reg.events = ∅
  rows : reg.rows = []
  seen : ∀ i, reg.seen i = 0
  contestedTotal : reg.contestedTotal = 0
  contested : ∀ i, reg.contested i = 0
  wins : ∀ i, reg.wins i = 0
  behindN : ∀ i, reg.behindN i = 0
  behindSumNs : ∀ i, reg.behindSumNs i = 0
  windowLatency : reg.windowLatency = ∅
  finalizedFloor : reg.finalizedFloor = 0

/-- Nothing happened in a registry that was just set up. -/
theorem isNew_setUp (names : Fin n → String) (kinds : Fin n → SourceKind) (rotating : List (Fin n))
    (onchain : Option (ℕ × Bool)) : (setUp names kinds rotating onchain).IsNew := by
  have hrotating : (rotating.foldl (fun reg sid => reg.setRotating sid) (new names kinds)).IsNew :=
    List.foldlRecOn rotating _ ⟨rfl, rfl, fun _ => rfl, rfl, fun _ => rfl, fun _ => rfl,
      fun _ => rfl, fun _ => rfl, rfl, rfl⟩ fun reg hreg _ _ => { hreg with }
  cases onchain with
  | none => exact hrotating
  | some o => exact { hrotating with }

/-- A registry in which nothing happened has no lives. -/
theorem IsNew.traces {reg : SigRegistry n} (h : reg.IsNew) : Traces reg Batches.empty [] where
  inFlight sig := by
    rw [h.events]
    rfl
  nonempty e he := absurd he List.not_mem_nil
  rows _ := by
    rw [h.rows]
    rfl
  seen i := by
    rw [h.seen, h.events]
    rfl
  contestedTotal := h.contestedTotal
  contested := h.contested
  wins := h.wins
  behindN := h.behindN
  behindSumNs := h.behindSumNs

namespace Traces

variable {reg : SigRegistry n} {lives : Batches Signature (Delivery n)} {handed : List TxnRow}

/-- A delivery goes into the life that goes on, or begins one. -/
theorem recordFirst (h : Traces reg lives handed) (d : Delivery n) :
    Traces (reg.recordFirst d) (lives.add d.sig d) handed where
  inFlight sig := by
    have hevents : (reg.recordFirst d).events =
        reg.events.insert d.sig ((reg.rowFor d.sig d.slot).deliver d) := rfl
    rw [hevents, Batches.pending_add]
    by_cases hsig : sig = d.sig
    · rw [hsig, AList.lookup_insert, if_pos rfl, SigRow.ofDeliveries_concat, rowFor, h.inFlight]
    · rw [AList.lookup_insert_ne hsig, if_neg hsig, h.inFlight]
  nonempty := h.nonempty
  rows := h.rows
  seen i := by
    have htotal := AList.total_insert_add (fun _ row => ((row : SigRow n).ts i).isSome.toNat)
      reg.events d.sig ((reg.rowFor d.sig d.slot).deliver d)
    have hseen : (reg.recordFirst d).seen i =
        reg.seen i + if d.sid = i then ((reg.rowFor d.sig d.slot).ts i).isNone.toNat else 0 := by
      unfold SigRegistry.recordFirst
      dsimp only
      rw [Function.update_apply]
      by_cases hi : i = d.sid
      · rw [if_pos hi, if_pos hi.symm, hi]
      · rw [if_neg hi, if_neg (fun hsid => hi hsid.symm), Nat.add_zero]
    have hold : (reg.events.lookup d.sig).elim 0 (fun row => (row.ts i).isSome.toNat) =
        ((reg.rowFor d.sig d.slot).ts i).isSome.toNat := by
      unfold rowFor
      cases reg.events.lookup d.sig <;> rfl
    -- a source is new in the row exactly if it had no time there
    have hstep : ((reg.rowFor d.sig d.slot).ts i).isSome.toNat +
        (if d.sid = i then ((reg.rowFor d.sig d.slot).ts i).isNone.toNat else 0) =
        (((reg.rowFor d.sig d.slot).deliver d).ts i).isSome.toNat := by
      rw [SigRow.ts_deliver]
      by_cases hi : i = d.sid
      · rw [if_pos hi, if_pos hi.symm]
        cases (reg.rowFor d.sig d.slot).ts i <;> rfl
      · rw [if_neg hi, if_neg (fun hsid => hi hsid.symm), Nat.add_zero]
    have hbefore := h.seen i
    have hevents : (reg.recordFirst d).events =
        reg.events.insert d.sig ((reg.rowFor d.sig d.slot).deliver d) := rfl
    have htally : tally (fun row : SigRow n => (row.ts i).isSome.toNat) (lives.add d.sig d) =
        tally (fun row => (row.ts i).isSome.toNat) lives := rfl
    rw [hseen, hevents, htally]
    omega
  contestedTotal := h.contestedTotal
  contested := h.contested
  wins := h.wins
  behindN := h.behindN
  behindSumNs := h.behindSumNs

/-- Retiring a row ends its life. -/
theorem retireRow (h : Traces reg lives handed) {sig : Signature} {row : SigRow n}
    (hrow : reg.events.lookup sig = some row) :
    Traces (reg.retireRow sig) (lives.close sig) handed := by
  have hlife : SigRow.ofDeliveries (lives.pending sig) = some row := by rw [← h.inFlight, hrow]
  have hframe : (reg.retireRow sig).withoutRaces = (reg.takeOut sig row).withoutRaces := by
    rw [retireRow_eq hrow, withoutRaces_fold]
  have hevents : (reg.retireRow sig).events = reg.events.erase sig := (congrArg events hframe :)
  have hseen : (reg.retireRow sig).seen = reg.seen := (congrArg SigRegistry.seen hframe :)
  have hcollect : (reg.retireRow sig).collectRows = reg.collectRows :=
    (congrArg collectRows hframe :)
  have hrows : (reg.retireRow sig).rows =
      if reg.collectRows then reg.rows ++ row.emitted sig else reg.rows :=
    (congrArg SigRegistry.rows hframe :)
  -- the race of the row changes the counters of races only, the rest is as after taking the row out
  exact {
    inFlight := by
      intro sig'
      rw [hevents, Batches.pending_close]
      by_cases hsig : sig' = sig
      · rw [if_pos hsig, hsig, AList.lookup_erase]
        rfl
      · rw [if_neg hsig, AList.lookup_erase_ne hsig, h.inFlight]
    nonempty := by
      intro e he
      rcases List.mem_append.mp he with he | he
      · exact h.nonempty e he
      · rw [List.mem_singleton.mp he]
        intro hnil
        rw [show lives.pending sig = [] from hnil] at hlife
        simp at hlife
    rows := by
      intro hcollected
      rw [hcollect] at hcollected
      rw [hrows, if_pos hcollected, ← List.append_assoc, h.rows hcollected, Batches.close,
        List.flatMap_append, List.flatMap_singleton, hlife]
      rfl
    seen := by
      intro i
      have htotal := AList.total_erase_add (fun _ row => ((row : SigRow n).ts i).isSome.toNat)
        reg.events sig
      rw [hrow, Option.elim_some] at htotal
      rw [hseen, hevents, tally_close _ hlife, h.seen i, ← htotal]
      omega
    contestedTotal := by
      rw [retireRow_eq hrow, contestedTotal_fold, tally_close _ hlife, ← h.contestedTotal]
      rfl
    contested := by
      intro i
      rw [retireRow_eq hrow, contested_fold, tally_close _ hlife, ← h.contested]
      rfl
    wins := by
      intro i
      rw [retireRow_eq hrow, wins_fold, tally_close _ hlife, ← h.wins]
      rfl
    behindN := by
      intro i
      rw [retireRow_eq hrow, behindN_fold, tally_close _ hlife, ← h.behindN]
      rfl
    behindSumNs := by
      intro i
      rw [retireRow_eq hrow, behindSumNs_fold, tally_close _ hlife, ← h.behindSumNs]
      rfl }

/-- Retiring several rows ends their lives. -/
lemma foldl_retireRow (h : Traces reg lives handed) {sigs : List Signature} (hnd : sigs.Nodup)
    (hrows : ∀ sig ∈ sigs, ∃ row, reg.events.lookup sig = some row) :
    Traces (sigs.foldl SigRegistry.retireRow reg) (lives.closeAll sigs) handed := by
  induction sigs generalizing reg lives with
  | nil => exact h
  | cons sig sigs ih =>
    obtain ⟨hfresh, hnd⟩ := List.nodup_cons.mp hnd
    obtain ⟨row, hrow⟩ := hrows sig List.mem_cons_self
    have hnext := h.retireRow hrow
    refine ih hnext hnd fun sig' hsig' => ?_
    obtain ⟨row', hrow'⟩ := hrows sig' (List.mem_cons_of_mem _ hsig')
    have hne : sig' ≠ sig := fun heq => hfresh (heq ▸ hsig')
    refine ⟨row', ?_⟩
    rw [hnext.inFlight, Batches.pending_close, if_neg hne, ← h.inFlight, hrow']

/-- A `finalize` ends the lives of the rows that it retires. -/
theorem finalize (h : Traces reg lives handed) (order : HashOrder) (force : Bool) :
    Traces (reg.finalize order force) (lives.closeAll (reg.retire order force)) handed := by
  have hstart : Traces
      { reg with finalizedFloor := if force then u64Max else reg.evictFloor } lives handed :=
    { h with }
  refine hstart.foldl_retireRow (nodup_retire reg order force) fun sig hsig => ?_
  obtain ⟨row, hrow, -⟩ := mem_retire_iff.mp hsig
  exact ⟨row, hrow⟩

/-- Every call keeps what the registry has become of the lives. -/
theorem step (h : Traces reg lives handed) (op : Op n) :
    Traces (reg.step op).1 (livesStep reg lives op) (handed ++ (reg.step op).2) := by
  cases op with
  | recordFirst d =>
    rw [SigRegistry.step, List.append_nil]
    exact h.recordFirst d
  | finalize order force =>
    rw [SigRegistry.step, List.append_nil]
    exact h.finalize order force
  | drainRows =>
    exact { h with
      rows := fun hcollect =>
        (List.append_nil (handed ++ reg.rows)).trans (h.rows hcollect) }

end Traces

/-- **The registry is made of lives.**  After any calls it is what the lives of the run make. -/
theorem traces_run {start : SigRegistry n} (hnew : start.IsNew) (ops : List (Op n)) :
    Traces (Machine.finalState step start ops) (lives start ops)
      (Machine.outputs step start ops).flatten := by
  induction ops using List.reverseRecOn with
  | nil => exact hnew.traces
  | append_singleton ops op ih =>
    rw [lives_concat, Machine.finalState_concat, Machine.outputs_concat, List.flatten_append,
      List.flatten_singleton]
    exact ih.step op

/-- Once all rows are retired, no life goes on. -/
theorem pending_finalize_force {start : SigRegistry n} (hnew : start.IsNew) (ops : List (Op n))
    (order : HashOrder) (sig : Signature) :
    (lives start (ops ++ [.finalize order true])).pending sig = [] := by
  have htraces := traces_run hnew ops
  rw [lives_concat, livesStep, Batches.pending_closeAll]
  split
  · rfl
  · rename_i hnot
    refine SigRow.ofDeliveries_eq_none_iff.mp ?_
    rw [← htraces.inFlight]
    by_contra hsome
    obtain ⟨row, hrow⟩ := Option.ne_none_iff_exists'.mp hsome
    exact hnot (mem_retire_iff.mpr ⟨row, hrow, Or.inl rfl⟩)

end SigRegistry

end ShredTools.Audit
