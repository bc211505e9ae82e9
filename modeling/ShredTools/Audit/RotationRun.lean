import ShredTools.Audit.FilterCoverage
import ShredTools.Audit.RotationWorker
import ShredTools.Library.Run

/-!
# Runs with rotating sources

The latency of a window is complete when the window is released, along every run in which
`finalize` leaves no row of a closed window behind (`released_latency_complete`).  A row whose slot
is known is not left behind; a row whose slot is unknown is never retired, and its window is
released without it (`not_latencyComplete_unknownSlot`).

`Inv.step` puts the steps of the sources and of the worker together, and `Inv.run` is the induction
over the run.  `reports` is what the log of a run says, and `taken_eq` what a window was given in
all.  The run of `contestedSteps` meets the condition if the slot of its row is known: the row is
retired in time, and is found in the latency of the window when that is emitted.
-/

namespace ShredTools.Audit

namespace RotationSystem

variable {n : ℕ} {base58 : List UInt8 → String} {s : RotationSystem n} {log : List RotationEvent}

/-- A step that meets the condition keeps the invariant. -/
theorem Inv.step (h : s.Inv log) (base58 : List UInt8 → String) (step : RotationStep n)
    (hexact : s.Exact step) :
    (s.step base58 step).1.Inv (log ++ (s.step base58 step).2) := by
  -- a step that has no place in the present phase changes nothing and reports nothing
  have hskip : s.Inv (log ++ []) := by rwa [List.append_nil]
  cases step with
  | connect i info =>
    unfold RotationSystem.step
    dsimp only
    split
    · rename_i hphase
      split
      · rename_i hrotating
        rw [List.append_nil]
        exact h.connect hphase hrotating info
      · exact hskip
    · exact hskip
  | subscribed i tip =>
    unfold RotationSystem.step
    dsimp only
    split
    · rw [List.append_nil]
      exact h.withAudit (FilterAudit.ending_subscribed _ _)
    · exact hskip
  | record i sig ns slot txnMeta view =>
    unfold RotationSystem.step
    dsimp only
    split
    · rename_i hphase
      have hrecorded := h.record hphase sig ns slot txnMeta
      have hrotating : s.reg.rotating i = true := h.rotating hphase rfl
      rw [List.append_nil]
      -- the delivery is passed on to the audit if the transaction could be read
      split
      · exact hrecorded.goOn hrotating rfl fun tip htip => absurd htip (Option.not_mem_none tip)
      · exact hrecorded
    · exact hskip
  | onDelivery i =>
    unfold RotationSystem.step
    dsimp only
    split
    · rename_i slot tx tags serverIsVote hphase
      rw [List.append_nil]
      exact h.onDelivery hphase rfl slot tx tags serverIsVote
    · exact hskip
  | readTip i =>
    unfold RotationSystem.step
    dsimp only
    split
    · rename_i hphase
      rw [List.append_nil]
      exact h.readTip (h.rotating hphase rfl)
    · exact hskip
  | close i now reason =>
    unfold RotationSystem.step
    dsimp only
    split
    · rename_i tip hphase
      rw [List.append_nil]
      exact h.close hphase now reason hexact
    · exact hskip
  | recordOther d =>
    -- a source that rotates records through its own steps only
    unfold RotationSystem.step
    dsimp only
    split
    · exact hskip
    · rename_i hother
      rw [List.append_nil]
      exact h.recordFirst d fun hrotating => absurd hrotating hother
  | finalize order =>
    rw [RotationSystem.step, List.append_nil]
    exact h.finalize order hexact
  | drainRows =>
    rw [RotationSystem.step, List.append_nil]
    exact h.drainRows
  -- the checker does not touch the registry, and no window ends or begins by it
  | takeReady lagSlots tip =>
    rw [RotationSystem.step, List.append_nil]
    exact h.withAudit (f := fun a => (a.takeReady lagSlots tip).1)
      (FilterAudit.ending_takeReady lagSlots tip)
  | compare task fetched =>
    rw [RotationSystem.step, List.append_nil]
    exact h.withAudit (FilterAudit.ending_compare _ _ _)
  | unchecked task =>
    rw [RotationSystem.step, List.append_nil]
    exact h.withAudit (FilterAudit.ending_unchecked _)
  | drainViolations =>
    rw [RotationSystem.step, List.append_nil]
    exact h.withAudit (f := fun a => a.drainViolations.1) FilterAudit.ending_drainViolations
  -- what is released is decided by a reading of the registry, which may be old by then
  | readRegistry =>
    unfold RotationSystem.step
    dsimp only
    split
    · exact hskip
    · rename_i hrunning
      rw [List.append_nil]
      exact h.readRegistry (Bool.not_eq_true _ ▸ hrunning)
  | takeFinished now =>
    unfold RotationSystem.step
    dsimp only
    split
    · rename_i tip floor hreading
      exact h.takeFinished hreading now
    · exact hskip
  | emit =>
    rw [RotationSystem.step]
    split
    · rename_i w rest hemitting
      exact h.emit hemitting
    · exact hskip
  | shutdown order =>
    unfold RotationSystem.step
    dsimp only
    split
    · exact hskip
    · rename_i hreading
      rw [List.append_nil]
      exact h.shutdown (Option.not_isSome_iff_eq_none.mp hreading) order

/-- What a run reports. -/
def reports (base58 : List UInt8 → String) (s : RotationSystem n) (steps : List (RotationStep n)) :
    List RotationEvent :=
  (Machine.outputs (step base58) s steps).flatten

/-- The invariant holds along every exact run. -/
theorem Inv.run (h : s.Inv log) {steps : List (RotationStep n)} (hexact : ExactRun base58 s steps) :
    (Machine.finalState (RotationSystem.step base58) s steps).Inv
      (log ++ reports base58 s steps) := by
  refine (Machine.log_induction (RotationSystem.step base58)
    (P := fun s steps log => ExactRun base58 s steps ∧ Inv s log) ?_ ⟨hexact, h⟩).2
  intro s step steps log ⟨hexact, h⟩
  exact ⟨hexact.2, h.step base58 step hexact.1⟩

/-- What was taken of a window that was emitted once. -/
theorem taken_eq {key : WindowKey} {latency : Option WindowLatency}
    (hdistinct : ((emissions log).map Prod.fst).Nodup) (hemitted : .emitted key latency ∈ log) :
    taken key log = latency.elim 0 WindowLatency.contested := by
  have hmem : (key, latency.elim 0 WindowLatency.contested) ∈ emissions log :=
    List.mem_filterMap.mpr ⟨_, hemitted, rfl⟩
  unfold taken
  generalize emissions log = es at hdistinct hmem
  induction es with
  | nil => exact absurd hmem List.not_mem_nil
  | cons e es ih =>
    obtain ⟨hfirst, hrest⟩ := List.nodup_cons.mp hdistinct
    rcases List.mem_cons.mp hmem with heq | hlater
    · have hnone : es.filter (fun e => e.1 = key) = [] := by
        refine List.filter_eq_nil_iff.mpr fun e' he' hkey => hfirst ?_
        have hagain : e'.1 ∈ es.map Prod.fst := List.mem_map_of_mem he'
        have hsame : e'.1 = e.1 := (of_decide_eq_true hkey).trans (congrArg Prod.fst heq)
        rwa [hsame] at hagain
      rw [List.filter_cons_of_pos (by simp [← heq]), hnone, ← heq]
      rfl
    · have hother : e.1 ≠ key := fun hkey => hfirst (hkey ▸ List.mem_map_of_mem hlater)
      rw [List.filter_cons_of_neg (by simpa using hother)]
      exact ih hrest hlater

/-- The latency of a window is complete: no row of it is in flight, its latency counts every
contested row of it when it is emitted, and there is no latency of it any more after that. -/
structure LatencyComplete (s : RotationSystem n) (log : List RotationEvent) (i : Fin n)
    (conn : ℕ) : Prop where
  noneLeft : ¬ s.reg.Holds i conn
  counted : ∀ latency, .emitted (i.val, conn) latency ∈ log →
    latency.elim 0 WindowLatency.contested =
      SigRegistry.tally (fun row => (decide (row.CountsFor i conn)).toNat) s.lives
  noneAfter : ∀ latency, .emitted (i.val, conn) latency ∈ log →
    s.reg.windowLatency.lookup (i.val, conn) = none

/-- The latency of a released window is complete in every state with the invariant. -/
lemma Inv.latencyComplete (h : s.Inv log) {i : Fin n} {conn : ℕ}
    (hreleased : .released (i.val, conn) ∈ log) : s.LatencyComplete log i conn := by
  have hdone := h.done i conn hreleased
  have hnone : ∀ latency, .emitted (i.val, conn) latency ∈ log →
      s.reg.windowLatency.lookup (i.val, conn) = none := fun latency hemitted =>
    hdone.latency (List.mem_map.mpr ⟨_, List.mem_filterMap.mpr ⟨_, hemitted, rfl⟩, rfl⟩)
  refine ⟨hdone.noneLeft, fun latency hemitted => ?_, hnone⟩
  have hcounted := h.counted i hdone.rotating conn
  have hempty : s.reg.contestedIn (i.val, conn) = 0 := by
    rw [SigRegistry.contestedIn, hnone latency hemitted]
    rfl
  have htaken := taken_eq (List.Nodup.of_append_right h.distinct) hemitted
  omega

/-- **The latency of a window is complete when it is released**, and from then on, in every run
whose steps all meet the condition: `finalize` leaves no row of a window behind whose closing tip
the floor passes, a window that counted no delivery has no rows when it is closed, and the number
of a connection does not wrap. -/
theorem released_latency_complete (base58 : List UInt8 → String) (names : Fin n → String)
    (kinds : Fin n → SourceKind) (rotating : List (Fin n)) (onchain : Option (ℕ × Bool))
    {sampleEvery : ℕ} (hsample : 0 < sampleEvery) (skipVotes : Bool)
    {steps : List (RotationStep n)}
    (hexact : (new names kinds rotating onchain sampleEvery hsample skipVotes).ExactRun base58
      steps)
    (i : Fin n) (conn : ℕ) :
    let start := new names kinds rotating onchain sampleEvery hsample skipVotes
    .released (i.val, conn) ∈ start.reports base58 steps →
      (Machine.finalState (step base58) start steps).LatencyComplete
        (start.reports base58 steps) i conn := by
  intro start hreleased
  have hinv := (inv_new names kinds rotating onchain sampleEvery hsample skipVotes).run hexact
  rw [List.nil_append] at hinv
  exact hinv.latencyComplete hreleased

section Examples

/-- A source that rotates its filters and one that does not. -/
def twoSources : RotationSystem 2 :=
  new (fun _ => "g") (fun _ => .grpcDeshred) [0] none 10 (by decide) false

/-- The other source has come to slot 100 when the rotating one subscribes.  Both deliver a
transaction and report the same slot, the rotating one in its first connection.  Then the slots go
on, rows are retired, and the window is released and emitted. -/
def contestedSteps (slot : ℕ) : List (RotationStep 2) :=
  [.recordOther ⟨1, (plainTx 3).signature, 500, 100, TxnMeta.default⟩,
    .connect 0 ⟨"g", .grpcDeshred, none, Bundle.all⟩, .subscribed 0 100,
    .record 0 (plainTx 1).signature 1000 slot TxnMeta.default (some (plainTx 1, [])),
    .onDelivery 0, .readTip 0, .close 0 2000 "rotate",
    .recordOther ⟨1, (plainTx 1).signature, 3000, slot, TxnMeta.default⟩,
    .recordOther ⟨1, (plainTx 2).signature, 4000, 200, TxnMeta.default⟩,
    .finalize HashOrder.asStored, .takeReady 32 200, .readRegistry, .takeFinished 5000, .emit]

/-- With a known slot the transaction is counted before the window is emitted. -/
theorem released_latency_complete_knownSlot :
    (∃ latency, twoSources.reports (fun _ => "") (contestedSteps 100) =
        [.released (0, 0), .emitted (0, 0) (some latency)] ∧ latency.contested = 1) ∧
      (Machine.finalState (step fun _ => "") twoSources (contestedSteps 100)).LatencyComplete
        (twoSources.reports (fun _ => "") (contestedSteps 100)) 0 0 := by
  have hreports : ∃ latency, twoSources.reports (fun _ => "") (contestedSteps 100) =
      [.released (0, 0), .emitted (0, 0) (some latency)] ∧ latency.contested = 1 :=
    ⟨_, rfl, rfl⟩
  refine ⟨hreports, ?_⟩
  have hexact : twoSources.ExactRun (fun _ => "") (contestedSteps 100) := by
    decide
  refine released_latency_complete (fun _ => "") (fun _ => "g") (fun _ => .grpcDeshred) [0] none
    (by decide) false hexact 0 0 ?_
  exact List.mem_cons_self

/-- With slot 0, for unknown, the row is never retired: the window is released without it. -/
theorem not_latencyComplete_unknownSlot :
    .released (0, 0) ∈ twoSources.reports (fun _ => "") (contestedSteps 0) ∧
      ¬ (Machine.finalState (step fun _ => "") twoSources (contestedSteps 0)).LatencyComplete
        (twoSources.reports (fun _ => "") (contestedSteps 0)) 0 0 := by
  constructor
  · exact List.mem_cons_self
  · intro h
    exact h.noneLeft ⟨(plainTx 1).signature, _, rfl, by decide⟩

end Examples

end RotationSystem

end ShredTools.Audit
