import ShredTools.Audit.RotationSystem
import ShredTools.Audit.WindowEnding

/-!
# The invariant of rotating sources

A closed window has no row in flight from when on it may be released: the tip that closed it is not
below the floor at that time, and `finalize` leaves none of its rows behind when it moves the floor
past the tip.  Here are the invariant that says so and what the registry and the sources do to it.

`Quiet` and `Done` are the two stages: a closed window that still waits, and one that was released.
`gone` are the windows that are no longer in the audit, and `taken` what was reported of them, so
that nothing counted is lost or reported twice.  There is one lemma for each move of a source and
each call of the registry; `Inv.enter` does the work for the moves that change the connection of a
source or the phase it is in.
-/

namespace ShredTools.Audit

/-- The window that a step emits, and the contested rows counted for it. -/
def RotationEvent.emission : RotationEvent → Option (WindowKey × ℕ)
  | emitted key latency => some (key, latency.elim 0 WindowLatency.contested)
  | released _ => none

/-- The windows emitted so far, and the contested rows counted for them. -/
def emissions (log : List RotationEvent) : List (WindowKey × ℕ) :=
  log.filterMap RotationEvent.emission

/-- The contested rows counted for a window when it was emitted. -/
def taken (key : WindowKey) (log : List RotationEvent) : ℕ :=
  (((emissions log).filter fun e => e.1 = key).map Prod.snd).sum

/-- Whether a source is between two connections. -/
def SourcePhase.isIdle : SourcePhase → Bool
  | idle => true
  | _ => false

namespace RotationSystem

variable {n : ℕ}

/-- The windows that the filter audit has no more. -/
def gone (s : RotationSystem n) (log : List RotationEvent) : List WindowKey :=
  s.emitting.map Prod.fst ++ (emissions log).map Prod.fst

/-- The window of a rotating source that was connected with this number. -/
def Knows (s : RotationSystem n) (key : WindowKey) : Prop :=
  ∃ i : Fin n, key.1 = i.val ∧ s.reg.rotating i = true ∧ key.2 ≤ s.connections i ∧
    ((s.phases i).isIdle = true → key.2 < s.connections i)

/-- The rows in flight leave a closed window alone from when on it may be released. -/
structure Quiet (s : RotationSystem n) (i : Fin n) (conn : ℕ) (e : Ending) : Prop where
  past : conn < s.connections i
  tipClose : e.tipClose.isSome = true
  empty : e.delivered = 0 → ¬ s.reg.Holds i conn
  passed : ∀ tip ∈ e.tipClose, s.stopped = false → tip < s.reg.finalizedFloor →
    ¬ s.reg.Holds i conn

/-- A released window: nothing of it is left in the registry, and after it was emitted there is no
latency of it either. -/
structure Done (s : RotationSystem n) (log : List RotationEvent) (i : Fin n) (conn : ℕ) : Prop where
  rotating : s.reg.rotating i = true
  past : conn < s.connections i
  gone : (i.val, conn) ∈ s.gone log
  noneLeft : ¬ s.reg.Holds i conn
  latency : (i.val, conn) ∈ (emissions log).map Prod.fst →
    s.reg.windowLatency.lookup (i.val, conn) = none

/-- What holds after every step of an exact run. -/
structure Inv (s : RotationSystem n) (log : List RotationEvent) : Prop where
  traces : ∃ handed, SigRegistry.Traces s.reg s.lives handed
  /-- The contested rows of a window are in its latency, or were when it was emitted. -/
  counted : ∀ i, s.reg.rotating i = true → ∀ conn,
    s.reg.contestedIn (i.val, conn) + taken (i.val, conn) log =
      SigRegistry.tally (fun row => (decide (row.CountsFor i conn)).toNat) s.lives
  /-- Only rotating sources leave the idle phase. -/
  rotates : ∀ i, (s.phases i).isIdle = false → s.reg.rotating i = true
  known : ∀ key, (s.audit.ending key).isSome = true ∨ key ∈ s.gone log → s.Knows key
  /-- No window is emitted twice. -/
  distinct : (s.gone log).Nodup
  apart : ∀ key ∈ s.gone log, s.audit.ending key = none
  floor : s.stopped = false → s.reg.finalizedFloor ≤ s.reg.evictFloor
  reading : ∀ r ∈ s.reading, s.stopped = false ∧ r.2 ≤ s.reg.finalizedFloor
  closing : ∀ i, ∀ tip ∈ (s.phases i).closingTip, s.stopped = false →
    tip < s.reg.finalizedFloor → ¬ s.reg.Holds i (s.connections i)
  quiet : ∀ i conn, ∀ e ∈ s.audit.ending (i.val, conn), e.ended = true → s.Quiet i conn e
  done : ∀ i conn, .released (i.val, conn) ∈ log → s.Done log i conn

variable {base58 : List UInt8 → String} {s : RotationSystem n} {log : List RotationEvent}

/-! ### The registry -/

/-- Before anything is connected. -/
theorem inv_new (names : Fin n → String) (kinds : Fin n → SourceKind) (rotating : List (Fin n))
    (onchain : Option (ℕ × Bool)) (sampleEvery : ℕ) (hsample : 0 < sampleEvery)
    (skipVotes : Bool) :
    (new names kinds rotating onchain sampleEvery hsample skipVotes).Inv [] where
  traces := ⟨[], (SigRegistry.isNew_setUp names kinds rotating onchain).traces⟩
  counted := by
    intro i _ conn
    have hcount :
        (SigRegistry.setUp names kinds rotating onchain).contestedIn (i.val, conn) = 0 := by
      rw [SigRegistry.contestedIn,
        (SigRegistry.isNew_setUp names kinds rotating onchain).windowLatency]
      rfl
    exact hcount
  rotates := fun i hi => absurd hi Bool.noConfusion
  known := by
    rintro key (hkey | hkey)
    · exact absurd hkey Bool.noConfusion
    · exact absurd hkey List.not_mem_nil
  distinct := List.nodup_nil
  apart := fun key hkey => absurd hkey List.not_mem_nil
  floor := fun _ =>
    (SigRegistry.isNew_setUp names kinds rotating onchain).finalizedFloor.trans_le (Nat.zero_le _)
  reading := fun r hr => absurd hr (Option.not_mem_none r)
  closing := fun i tip htip => absurd htip (Option.not_mem_none tip)
  quiet := fun i conn e he => absurd he (Option.not_mem_none e)
  done := fun i conn hreleased => absurd hreleased List.not_mem_nil

/-- A call of the filter audit that keeps the endings keeps the invariant. -/
theorem Inv.withAudit (h : s.Inv log) {f : FilterAudit → FilterAudit}
    (hf : (f s.audit).ending = s.audit.ending) : (s.withAudit f).Inv log :=
  { h with
    known := by
      intro key hkey
      exact h.known key (by rwa [RotationSystem.withAudit, hf] at hkey)
    apart := by
      intro key hkey
      rw [RotationSystem.withAudit, hf]
      exact h.apart key hkey
    quiet := by
      intro i conn e he hended
      rw [RotationSystem.withAudit, hf] at he
      exact { h.quiet i conn e he hended with }
    done := fun i conn hreleased => { h.done i conn hreleased with } }

/-- The source of a window that is known is a rotating one. -/
theorem Knows.rotating {i : Fin n} {conn : ℕ} (h : s.Knows (i.val, conn)) :
    s.reg.rotating i = true := by
  obtain ⟨j, hij, hrotating, -⟩ := h
  rwa [Fin.val_inj.mp hij]

/-- A delivery keeps the invariant, if a rotating source makes it in its connection. -/
theorem Inv.recordFirst (h : s.Inv log) (d : Delivery n)
    (hd : s.reg.rotating d.sid = true →
      d.connection = s.connections d.sid ∧ (s.phases d.sid).closingTip = none) :
    (s.call (.recordFirst d)).Inv log := by
  -- a delivery adds to the current connection of its source only, and that one is not closing
  have hholds : ∀ i conn, s.reg.rotating i = true →
      (conn = s.connections i → (s.phases i).closingTip ≠ none) →
      (s.call (.recordFirst d)).reg.Holds i conn → s.reg.Holds i conn := by
    intro i conn hrotating hother hafter
    rcases SigRegistry.holds_recordFirst hafter with hbefore | ⟨rfl, hconn⟩
    · exact hbefore
    · obtain ⟨hcurrent, hopen⟩ := hd hrotating
      exact absurd hopen (hother (hconn.symm.trans hcurrent))
  exact {
    traces := by
      obtain ⟨handed, htraces⟩ := h.traces
      exact ⟨handed, htraces.recordFirst d⟩
    counted := h.counted
    rotates := h.rotates
    known := h.known
    distinct := h.distinct
    apart := h.apart
    floor := fun hrunning => (h.floor hrunning).trans (Nat.sub_le_sub_right (le_max_left _ _) _)
    reading := h.reading
    closing := by
      intro i tip htip hrunning hpassed hafter
      have hrotating : s.reg.rotating i = true := by
        refine h.rotates i ?_
        cases hphase : s.phases i with
        | idle =>
          rw [RotationSystem.call, hphase] at htip
          exact absurd htip (Option.not_mem_none tip)
        | live => rfl
        | judging slot tx tags serverIsVote => rfl
        | closing tip => rfl
      refine h.closing i tip htip hrunning hpassed (hholds i _ hrotating (fun _ hnone => ?_) hafter)
      rw [Option.mem_def] at htip
      exact absurd (hnone.symm.trans htip) (by simp)
    quiet := by
      intro i conn e he hended
      have hquiet := h.quiet i conn e he hended
      have hrotating := (h.known _ (Or.inl (Option.isSome_of_mem he))).rotating
      have hold := hholds i conn hrotating fun heq => absurd heq hquiet.past.ne
      exact
        { past := hquiet.past
          tipClose := hquiet.tipClose
          empty := fun hempty hafter => hquiet.empty hempty (hold hafter)
          passed := fun tip htip hrunning hpassed hafter =>
            hquiet.passed tip htip hrunning hpassed (hold hafter) }
    done := by
      intro i conn hreleased
      have hdone := h.done i conn hreleased
      have hold := hholds i conn hdone.rotating fun heq => absurd heq hdone.past.ne
      exact { hdone with noneLeft := fun hafter => hdone.noneLeft (hold hafter) } }

/-- Retiring rows brings none. -/
theorem holds_of_finalize {order : HashOrder} {force : Bool} {i : Fin n} {conn : ℕ}
    (h : (s.reg.finalize order force).Holds i conn) : s.reg.Holds i conn := by
  obtain ⟨sig, row, hrow, hfirst, -⟩ := SigRegistry.holds_finalize h
  exact ⟨sig, row, hrow, hfirst⟩

/-- The rows retired are counted in the latencies of their windows. -/
theorem Inv.counted_finalize (h : s.Inv log) (order : HashOrder) (force : Bool) (i : Fin n)
    (hrotating : (s.reg.finalize order force).rotating i = true) (conn : ℕ) :
    (s.reg.finalize order force).contestedIn (i.val, conn) + taken (i.val, conn) log =
      SigRegistry.tally (fun row => (decide (row.CountsFor i conn)).toNat)
        (s.lives.closeAll (s.reg.retire order force)) := by
  rw [SigRegistry.rotating_finalize] at hrotating
  obtain ⟨handed, htraces⟩ := h.traces
  have hcounted := h.counted i hrotating conn
  have hadded := SigRegistry.contestedIn_finalize htraces order force hrotating conn
  omega

/-- Retiring rows keeps the invariant if no row of a window is left that the floor passes. -/
theorem Inv.finalize (h : s.Inv log) (order : HashOrder) (hexact : s.Exact (.finalize order)) :
    (s.call (.finalize order false)).Inv log := by
  -- the rows of a window whose closing tip the floor passes are all retired
  have hretired : ∀ i conn tip, RetiresAll s.reg (i.val, conn) tip → tip < s.reg.evictFloor →
      ¬ (s.call (.finalize order false)).reg.Holds i conn := by
    intro i conn tip hall hpassed hafter
    obtain ⟨sig, row, hrow, hfirst, hkept⟩ := SigRegistry.holds_finalize hafter
    exact hkept (hall hpassed ⟨sig, row⟩ (AList.mem_entries_iff_lookup.mpr hrow) i rfl hfirst)
  have hrotating : (s.call (.finalize order false)).reg.rotating = s.reg.rotating :=
    SigRegistry.rotating_finalize _ _ _
  have hfloor : (s.call (.finalize order false)).reg.finalizedFloor = s.reg.evictFloor :=
    SigRegistry.finalizedFloor_finalize _ _ _
  have hhigh : (s.call (.finalize order false)).reg.evictFloor = s.reg.evictFloor :=
    congrArg (· - evictMarginSlots) (SigRegistry.highSlot_finalize s.reg order false)
  obtain ⟨handed, htraces⟩ := h.traces
  exact {
    traces := ⟨handed, htraces.finalize order false⟩
    counted := h.counted_finalize order false
    rotates := by
      rw [hrotating]
      exact h.rotates
    known := by
      intro key hkey
      obtain ⟨i, hi, hrot, hle, hidle⟩ := h.known key hkey
      exact ⟨i, hi, by rw [hrotating, hrot], hle, hidle⟩
    distinct := h.distinct
    apart := h.apart
    floor := fun _ => by rw [hfloor, hhigh]
    reading := by
      intro r hr
      obtain ⟨hrunning, hle⟩ := h.reading r hr
      exact ⟨hrunning, by rw [hfloor]; exact hle.trans (h.floor hrunning)⟩
    closing := by
      intro i tip htip _ hpassed
      rw [hfloor] at hpassed
      exact hretired i _ tip (hexact.2 i tip htip) hpassed
    quiet := by
      intro i conn e he hended
      have hquiet := h.quiet i conn e he hended
      exact
        { past := hquiet.past
          tipClose := hquiet.tipClose
          empty := fun hempty hafter => hquiet.empty hempty (holds_of_finalize hafter)
          passed := by
            intro tip htip _ hpassed
            rw [hfloor] at hpassed
            obtain ⟨c, hc, rfl⟩ := Option.map_eq_some_iff.mp he
            obtain ⟨window, hentry, rfl⟩ := FilterAudit.exists_entry_of_course hc
            exact hretired i conn tip (hexact.1 _ hentry tip htip) hpassed }
    done := by
      intro i conn hreleased
      have hdone := h.done i conn hreleased
      exact
        { rotating := by rw [hrotating, hdone.rotating]
          past := hdone.past
          gone := hdone.gone
          noneLeft := fun hafter => hdone.noneLeft (holds_of_finalize hafter)
          latency := fun hemitted =>
            (SigRegistry.windowLatency_finalize order false hdone.rotating hdone.noneLeft).trans
              (hdone.latency hemitted) } }

/-! ### The sources -/

/-- A number of connections that goes up for one source goes up for all, or stays. -/
lemma le_update_connections {i : Fin n} {next : ℕ} (hnext : s.connections i ≤ next) (j : Fin n) :
    s.connections j ≤ Function.update s.connections i next j := by
  rw [Function.update_apply]
  split
  · rename_i hj
    rw [hj]
    exact hnext
  · exact le_rfl

/-- The windows known, and the current one of the source, are known when the source goes on. -/
theorem Knows.enter {key : WindowKey} {i : Fin n} (h : key = s.key i ∨ s.Knows key)
    (hrotating : s.reg.rotating i = true) {audit : FilterAudit} {phase : SourcePhase} {next : ℕ}
    (hnext : s.connections i ≤ next) (hidle : phase.isIdle = true → s.connections i < next) :
    ({ s with
        audit := audit
        phases := Function.update s.phases i phase
        connections := Function.update s.connections i next } : RotationSystem n).Knows key := by
  rcases h with rfl | ⟨j, hkj, hrot, hnum, hbefore⟩
  · refine ⟨i, rfl, hrotating, le_update_connections hnext i, ?_⟩
    dsimp only
    rw [Function.update_self, Function.update_self]
    exact hidle
  · refine ⟨j, hkj, hrot, hnum.trans (le_update_connections hnext j), ?_⟩
    dsimp only
    rw [Function.update_apply, Function.update_apply]
    by_cases hj : j = i
    · rw [if_pos hj, if_pos hj]
      rw [hj] at hnum
      exact fun hphase => hnum.trans_lt (hidle hphase)
    · rw [if_neg hj, if_neg hj]
      exact hbefore

/-- What a rotating source does with its current window keeps the invariant. -/
theorem Inv.enter (h : s.Inv log) {i : Fin n} (hrotating : s.reg.rotating i = true)
    {audit : FilterAudit} {phase : SourcePhase} {next : ℕ}
    (hending : ∀ key, key ≠ s.key i → audit.ending key = s.audit.ending key)
    (hnext : s.connections i ≤ next)
    (hidle : phase.isIdle = true → s.connections i < next)
    (hapart : s.key i ∈ s.gone log → audit.ending (s.key i) = none)
    (hclosing : ∀ tip ∈ phase.closingTip, s.stopped = false → tip < s.reg.finalizedFloor →
      ¬ s.reg.Holds i next)
    (hquiet : ∀ e ∈ audit.ending (s.key i), e.ended = true → s.connections i < next ∧
      e.tipClose.isSome = true ∧ (e.delivered = 0 → ¬ s.reg.Holds i (s.connections i)) ∧
      ∀ tip ∈ e.tipClose, s.stopped = false → tip < s.reg.finalizedFloor →
        ¬ s.reg.Holds i (s.connections i)) :
    ({ s with
        audit := audit
        phases := Function.update s.phases i phase
        connections := Function.update s.connections i next } : RotationSystem n).Inv log := by
  exact {
    traces := h.traces
    counted := h.counted
    rotates := by
      intro j hj
      dsimp only at hj
      rw [Function.update_apply] at hj
      split at hj
      · rename_i hji
        rw [hji]
        exact hrotating
      · exact h.rotates j hj
    known := by
      intro key hkey
      refine Knows.enter ?_ hrotating hnext hidle
      by_cases hself : key = s.key i
      · exact Or.inl hself
      · exact Or.inr (h.known key (by rwa [hending key hself] at hkey))
    distinct := h.distinct
    apart := by
      intro key hgone
      by_cases hself : key = s.key i
      · rw [hself]
        exact hapart (hself ▸ hgone)
      · exact (hending key hself).trans (h.apart key hgone)
    floor := h.floor
    reading := h.reading
    closing := by
      intro j tip htip
      dsimp only at htip ⊢
      rw [Function.update_apply] at htip
      rw [Function.update_apply]
      by_cases hj : j = i
      · rw [if_pos hj] at htip
        rw [if_pos hj, hj]
        exact hclosing tip htip
      · rw [if_neg hj] at htip
        rw [if_neg hj]
        exact h.closing j tip htip
    -- the window of the source itself answers to the hypothesis, any other to the invariant
    quiet := by
      intro j conn e he hended
      by_cases hself : (j.val, conn) = s.key i
      · obtain ⟨hj, rfl⟩ := Prod.mk.inj hself
        obtain rfl := Fin.val_inj.mp hj
        obtain ⟨hpast, htip, hempty, hpassed⟩ := hquiet e he hended
        refine ⟨?_, htip, hempty, hpassed⟩
        dsimp only
        rwa [Function.update_self]
      · have hold := h.quiet j conn e (by rw [← hending _ hself]; exact he) hended
        exact ⟨hold.past.trans_le (le_update_connections hnext j), hold.tipClose, hold.empty,
          hold.passed⟩
    done := by
      intro j conn hreleased
      have hdone := h.done j conn hreleased
      exact { hdone with past := hdone.past.trans_le (le_update_connections hnext j) } }

/-- A source that goes on in its loop stays in its connection. -/
lemma Inv.stay (h : s.Inv log) {i : Fin n} (hrotating : s.reg.rotating i = true)
    {f : FilterAudit → FilterAudit} {phase : SourcePhase}
    (hending : ∀ key, key ≠ s.key i → (f s.audit).ending key = s.audit.ending key)
    (hidle : phase.isIdle = false)
    (hapart : s.key i ∈ s.gone log → (f s.audit).ending (s.key i) = none)
    (hclosing : ∀ tip ∈ phase.closingTip, s.stopped = false → tip < s.reg.finalizedFloor →
      ¬ s.reg.Holds i (s.connections i))
    (hopen : ∀ e ∈ (f s.audit).ending (s.key i), e.ended = false) :
    ((s.withAudit f).enter i phase).Inv log := by
  have hstay := h.enter hrotating hending le_rfl
    (fun hphase => absurd (hidle.symm.trans hphase) Bool.noConfusion) hapart hclosing
    fun e he hended => absurd ((hopen e he).symm.trans hended) Bool.noConfusion
  rwa [Function.update_eq_self] at hstay

/-- A source between two connections has no window. -/
lemma not_knows_of_idle {i : Fin n} (hidle : s.phases i = .idle) : ¬ s.Knows (s.key i) := by
  rintro ⟨j, hij, -, -, hbefore⟩
  obtain rfl := Fin.val_inj.mp hij
  exact (hbefore (by rw [hidle]; rfl)).false

/-- The window of the connection that a source is in is open. -/
lemma Inv.not_ended (h : s.Inv log) {i : Fin n} {e : Ending}
    (he : e ∈ s.audit.ending (s.key i)) : e.ended = false := by
  cases hended : e.ended with
  | false => rfl
  | true => exact absurd (h.quiet i (s.connections i) e he hended).past (lt_irrefl _)

/-- A source in a connection rotates its filters. -/
theorem Inv.rotating (h : s.Inv log) {i : Fin n} {phase : SourcePhase}
    (hphase : s.phases i = phase) (hidle : phase.isIdle = false) : s.reg.rotating i = true :=
  h.rotates i (by rw [hphase, hidle])

/-- A connection starts. -/
theorem Inv.connect (h : s.Inv log) {i : Fin n} (hphase : s.phases i = .idle)
    (hrotating : s.reg.rotating i = true) (info : WindowInfo) :
    ((s.withAudit (FilterAudit.openWindow (s.key i) info)).enter i .live).Inv log := by
  refine h.stay hrotating (fun key hkey => ?_) rfl (fun hgone => ?_) (fun tip htip => ?_)
    fun e he => ?_
  · rw [FilterAudit.ending_openWindow, if_neg hkey]
  · exact absurd (h.known _ (Or.inr hgone)) (not_knows_of_idle hphase)
  · exact absurd htip (Option.not_mem_none tip)
  · rw [FilterAudit.ending_openWindow, if_pos rfl] at he
    obtain rfl := Option.some.inj he
    rfl

/-- The window judges a delivery that the registry has recorded. -/
theorem Inv.onDelivery (h : s.Inv log) {i : Fin n} {phase : SourcePhase}
    (hphase : s.phases i = phase) (hidle : phase.isIdle = false) (slot : ℕ) (tx : TxView)
    (tags : List String) (serverIsVote : Option Bool) :
    ((s.withAudit (FilterAudit.onDelivery base58 (s.key i) slot tx tags serverIsVote)).enter i
      .live).Inv log := by
  refine h.stay (h.rotating hphase hidle) (fun key hkey => ?_) rfl (fun hgone => ?_)
    (fun tip htip => ?_) fun e he => ?_
  · rw [FilterAudit.ending_onDelivery, if_neg hkey]
  · rw [FilterAudit.ending_onDelivery, if_pos rfl, h.apart _ hgone]
    rfl
  · exact absurd htip (Option.not_mem_none tip)
  · rw [FilterAudit.ending_onDelivery, if_pos rfl] at he
    obtain ⟨e', he', rfl⟩ := Option.map_eq_some_iff.mp he
    have hopen : e'.ended = false := h.not_ended he'
    exact hopen

/-- A source goes on without a call of the filter audit. -/
theorem Inv.goOn (h : s.Inv log) {i : Fin n} (hrotating : s.reg.rotating i = true)
    {phase : SourcePhase} (hidle : phase.isIdle = false)
    (hclosing : ∀ tip ∈ phase.closingTip, s.stopped = false → tip < s.reg.finalizedFloor →
      ¬ s.reg.Holds i (s.connections i)) :
    (s.enter i phase).Inv log :=
  h.stay (f := id) hrotating (fun _ _ => rfl) hidle (h.apart _) hclosing fun _ he => h.not_ended he

/-- The tip that a source reads to close its window is not below the floor. -/
theorem Inv.readTip (h : s.Inv log) {i : Fin n} (hrotating : s.reg.rotating i = true) :
    (s.enter i (.closing s.reg.highSlot)).Inv log := by
  refine h.goOn hrotating rfl fun tip htip hrunning hpassed => ?_
  obtain rfl := Option.some.inj htip
  have hfloor := h.floor hrunning
  have hhigh : s.reg.evictFloor ≤ s.reg.highSlot := Nat.sub_le _ _
  exact absurd hpassed (hfloor.trans hhigh).not_gt

/-- A connection ends. -/
theorem Inv.close (h : s.Inv log) {i : Fin n} {tip : ℕ} (hphase : s.phases i = .closing tip)
    (now : ℤ) (reason : String) (hexact : s.Exact (.close i now reason)) :
    ({ (s.withAudit (FilterAudit.close (s.key i) tip now reason)).enter i .idle with
        connections := Function.update s.connections i ((s.connections i + 1) % u32Size) } :
      RotationSystem n).Inv log := by
  obtain ⟨hnowrap, hcounted⟩ := hexact
  have hnext : (s.connections i + 1) % u32Size = s.connections i + 1 := Nat.mod_eq_of_lt hnowrap
  have hending := FilterAudit.ending_close (a := s.audit) (s.key i) tip now reason
  rw [hnext]
  refine h.enter (h.rotating hphase rfl) (fun key hkey => (hending key).trans (if_neg hkey))
    (Nat.le_succ _) (fun _ => Nat.lt_succ_self _) (fun hgone => ?_) (fun tip htip => ?_)
    fun e he _ => ?_
  · refine (hending _).trans ?_
    rw [if_pos rfl, h.apart _ hgone]
    rfl
  · exact absurd htip (Option.not_mem_none tip)
  · replace he : (if s.key i = s.key i then _ else _) = some e := (hending _).symm.trans he
    rw [if_pos rfl] at he
    obtain ⟨e', he', rfl⟩ := Option.map_eq_some_iff.mp he
    obtain ⟨c, hc, rfl⟩ := Option.map_eq_some_iff.mp he'
    refine ⟨Nat.lt_succ_self _, rfl, fun hempty => ?_, fun tip' htip' => ?_⟩
    · rintro ⟨sig, row, hrow, hfirst⟩
      rcases hcounted with ⟨c', hc', hpos⟩ | hnone
      · obtain rfl := Option.some.inj (hc.symm.trans hc')
        exact hpos.ne' hempty
      · exact hnone ⟨sig, row⟩ (AList.mem_entries_iff_lookup.mpr hrow) hfirst
    · obtain rfl := Option.some.inj htip'
      exact h.closing i tip (by rw [hphase]; rfl)

/-- A rotating source records a delivery, and goes on to have its window judge it. -/
theorem Inv.record (h : s.Inv log) {i : Fin n} (hphase : s.phases i = .live) (sig : Signature)
    (ns : ℤ) (slot : ℕ) (txnMeta : TxnMeta) :
    (s.call (.recordFirst
      ⟨i, sig, ns, slot, { txnMeta with connectionId := some (s.connections i) }⟩)).Inv log :=
  h.recordFirst _ fun _ => ⟨rfl, by rw [hphase]; rfl⟩

end RotationSystem

end ShredTools.Audit
