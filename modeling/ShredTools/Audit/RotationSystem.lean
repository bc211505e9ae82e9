import ShredTools.Audit.FilterCheck
import ShredTools.Audit.WindowLatency

/-!
# Rotating sources, the registry and the filter audit

A rotating source opens a window for each of its connections, records every delivery in the registry
and then in the window, and closes the window with the tip that it reads.  The snapshot retires
rows, and the worker releases the windows that are closed, checked and, by the floor that it reads,
final in their latency; then it emits each with the latency that it takes from the registry.

The registry and the filter audit have locks of their own, so every step here is what one of them
does under one lock.  The worker handles its tasks in any order.  The lives of rows are kept as a
history, and no step depends on them.
-/

namespace ShredTools.Audit

/-- Where the supervisor of a rotating source is in its loop. -/
inductive SourcePhase
  /-- Between two connections. -/
  | idle
  /-- In a connection, between two updates. -/
  | live
  /-- After an update was recorded in the registry, before it goes to the window. -/
  | judging (slot : ℕ) (tx : TxView) (tags : List String) (serverIsVote : Option Bool)
  /-- The connection is over and the tip is read, but the window is not closed yet. -/
  | closing (tip : ℕ)

/-- The tip that was read to close the window. -/
def SourcePhase.closingTip : SourcePhase → Option ℕ
  | closing tip => some tip
  | _ => none

/-- The registry, the filter audit, and those who use both. -/
structure RotationSystem (n : ℕ) where
  /-- The registry. -/
  reg : SigRegistry n
  /-- The filter audit. -/
  audit : FilterAudit
  /-- The number of the connection that each source has or will have next. -/
  connections : Fin n → ℕ
  /-- Where each rotating source is. -/
  phases : Fin n → SourcePhase
  /-- The tip and the floor that `take_finished` has read, until it locks the windows. -/
  reading : Option (ℕ × ℕ)
  /-- The windows released but not yet emitted. -/
  emitting : List FilterAudit.Emitted
  /-- Whether the worker is shut down. -/
  stopped : Bool
  /-- The lives of rows so far. -/
  lives : Batches Signature (Delivery n)

/-- A step of the system. -/
inductive RotationStep (n : ℕ)
  | connect (i : Fin n) (info : WindowInfo)
  | subscribed (i : Fin n) (tip : ℕ)
  | record (i : Fin n) (sig : Signature) (ns : ℤ) (slot : ℕ) (txnMeta : TxnMeta)
      (view : Option (TxView × List String))
  | onDelivery (i : Fin n)
  | readTip (i : Fin n)
  | close (i : Fin n) (now : ℤ) (reason : String)
  | recordOther (d : Delivery n)
  | finalize (order : HashOrder)
  | drainRows
  | takeReady (lagSlots tip : ℕ)
  | compare (task : SlotTask) (fetched : Fetched)
  | unchecked (task : SlotTask)
  | drainViolations
  | readRegistry
  | takeFinished (now : ℤ)
  | emit
  | shutdown (order : HashOrder)

/-- What a step reports. -/
inductive RotationEvent
  /-- `take_finished` releases a window because it is checked and its latency is final. -/
  | released (key : WindowKey)
  /-- `emit_window` takes the latency of a window. -/
  | emitted (key : WindowKey) (latency : Option WindowLatency)

/-- `checks_done && latency_final` of `take_finished`. -/
def Course.Final (tip floor : ℕ) (c : Course) : Prop :=
  c.inFlight = 0 ∧ c.AllHandedOut tip ∧ (c.delivered = 0 ∨ ∀ t ∈ c.tipClose, t < floor)

instance (tip floor : ℕ) (c : Course) : Decidable (c.Final tip floor) :=
  inferInstanceAs (Decidable (_ ∧ _ ∧ _))

namespace RotationSystem

variable {n : ℕ}

/-- Before anything is connected. -/
def new (names : Fin n → String) (kinds : Fin n → SourceKind) (rotating : List (Fin n))
    (onchain : Option (ℕ × Bool)) (sampleEvery : ℕ) (hsample : 0 < sampleEvery)
    (skipVotes : Bool) : RotationSystem n where
  reg := SigRegistry.setUp names kinds rotating onchain
  audit := FilterAudit.new sampleEvery hsample skipVotes
  connections _ := 0
  phases _ := .idle
  reading := none
  emitting := []
  stopped := false
  lives := Batches.empty

/-- The window of the connection of a source. -/
def key (s : RotationSystem n) (i : Fin n) : WindowKey := (i.val, s.connections i)

/-- A call of the registry. -/
def call (op : SigRegistry.Op n) (s : RotationSystem n) : RotationSystem n :=
  { s with reg := (s.reg.step op).1, lives := SigRegistry.livesStep s.reg s.lives op }

/-- A call of the filter audit. -/
def withAudit (f : FilterAudit → FilterAudit) (s : RotationSystem n) : RotationSystem n :=
  { s with audit := f s.audit }

/-- A source goes on in its loop. -/
def enter (i : Fin n) (phase : SourcePhase) (s : RotationSystem n) : RotationSystem n :=
  { s with phases := Function.update s.phases i phase }

/-- What a step does, and what it reports. -/
def step (base58 : List UInt8 → String) (s : RotationSystem n) :
    RotationStep n → RotationSystem n × List RotationEvent
  | .connect i info =>
    match s.phases i with
    | .idle =>
      if s.reg.rotating i then
        ((s.withAudit (FilterAudit.openWindow (s.key i) info)).enter i .live, [])
      else (s, [])
    | _ => (s, [])
  | .subscribed i tip =>
    match s.phases i with
    | .live => (s.withAudit (FilterAudit.subscribed (s.key i) tip), [])
    | _ => (s, [])
  | .record i sig ns slot txnMeta view =>
    match s.phases i with
    | .live =>
      let d : Delivery n :=
        ⟨i, sig, ns, slot, { txnMeta with connectionId := some (s.connections i) }⟩
      let s := s.call (.recordFirst d)
      (match view with
        | some (tx, tags) => s.enter i (.judging slot tx tags txnMeta.isVote)
        | none => s, [])
    | _ => (s, [])
  | .onDelivery i =>
    match s.phases i with
    | .judging slot tx tags serverIsVote =>
      ((s.withAudit (FilterAudit.onDelivery base58 (s.key i) slot tx tags serverIsVote)).enter i
        .live, [])
    | _ => (s, [])
  | .readTip i =>
    match s.phases i with
    | .live => (s.enter i (.closing s.reg.highSlot), [])
    | _ => (s, [])
  | .close i now reason =>
    match s.phases i with
    | .closing tip =>
      let s' := (s.withAudit (FilterAudit.close (s.key i) tip now reason)).enter i .idle
      ({ s' with
          connections := Function.update s.connections i ((s.connections i + 1) % u32Size) }, [])
    | _ => (s, [])
  | .recordOther d => if s.reg.rotating d.sid then (s, []) else (s.call (.recordFirst d), [])
  | .finalize order => (s.call (.finalize order false), [])
  | .drainRows => (s.call .drainRows, [])
  | .takeReady lagSlots tip => (s.withAudit fun a => (a.takeReady lagSlots tip).1, [])
  | .compare task fetched => (s.withAudit (FilterAudit.compare base58 task fetched), [])
  | .unchecked task => (s.withAudit (FilterAudit.unchecked task), [])
  | .drainViolations => (s.withAudit fun a => a.drainViolations.1, [])
  | .readRegistry =>
    if s.stopped then (s, [])
    else ({ s with reading := some (s.reg.highSlot, s.reg.finalizedFloor) }, [])
  | .takeFinished now =>
    match s.reading with
    | some (tip, floor) =>
      let done := s.audit.takeFinished tip floor now giveUpSecs
      ({ s with audit := done.1, reading := none, emitting := s.emitting ++ done.2 },
        (done.2.filter fun w => w.2.toCourse.Final tip floor).map fun w => .released w.1)
    | none => (s, [])
  | .emit =>
    match s.emitting with
    | w :: rest =>
      ({ s with reg := (s.reg.takeWindowLatency w.1).1, emitting := rest },
        [.emitted w.1 (s.reg.takeWindowLatency w.1).2])
    | [] => (s, [])
  | .shutdown order =>
    if s.reading.isSome then (s, [])
    else
      let s' := s.call (.finalize order true)
      ({ s' with
          audit := s'.audit.takeAll.1
          emitting := s'.emitting ++ s'.audit.takeAll.2
          stopped := true }, [])

/-- Retiring by the floor that a `finalize(false)` will set leaves no row behind that was first
delivered in a window that was closed before the floor. -/
def RetiresAll (reg : SigRegistry n) (key : WindowKey) (tip : ℕ) : Prop :=
  tip < reg.evictFloor → ∀ e ∈ reg.events.entries, ∀ i : Fin n, i.val = key.1 →
    e.2.FirstFrom i key.2 → e.2.Retires false reg.evictFloor

instance (reg : SigRegistry n) (key : WindowKey) (tip : ℕ) : Decidable (RetiresAll reg key tip) :=
  inferInstanceAs (Decidable (tip < reg.evictFloor → ∀ e ∈ reg.events.entries, ∀ i : Fin n,
    i.val = key.1 → e.2.FirstFrom i key.2 → e.2.Retires false reg.evictFloor))

/-- The condition on a step under which the latency of a window is complete when it is released:
`finalize` leaves no row of a window behind whose closing tip it passes, a window that counted no
delivery has no rows when it is closed, and the number of a connection does not wrap. -/
def Exact (s : RotationSystem n) : RotationStep n → Prop
  | .finalize _ =>
    (∀ e ∈ s.audit.windows.entries, ∀ tip ∈ e.2.tipClose, RetiresAll s.reg e.1 tip) ∧
      ∀ i, ∀ tip ∈ (s.phases i).closingTip, RetiresAll s.reg (s.key i) tip
  | .close i _ _ =>
    s.connections i + 1 < u32Size ∧
      ((∃ c ∈ s.audit.course (s.key i), 0 < c.delivered) ∨
        ∀ e ∈ s.reg.events.entries, ¬ e.2.FirstFrom i (s.connections i))
  | _ => True

instance (s : RotationSystem n) (step : RotationStep n) : Decidable (s.Exact step) :=
  match step with
  | .finalize _ => inferInstanceAs (Decidable (
      (∀ e ∈ s.audit.windows.entries, ∀ tip ∈ e.2.tipClose, RetiresAll s.reg e.1 tip) ∧
        ∀ i, ∀ tip ∈ (s.phases i).closingTip, RetiresAll s.reg (s.key i) tip))
  | .close i _ _ => inferInstanceAs (Decidable (s.connections i + 1 < u32Size ∧
      ((∃ c ∈ s.audit.course (s.key i), 0 < c.delivered) ∨
        ∀ e ∈ s.reg.events.entries, ¬ e.2.FirstFrom i (s.connections i))))
  | .connect _ _ | .subscribed _ _ | .record _ _ _ _ _ _ | .onDelivery _ | .readTip _
  | .recordOther _ | .drainRows | .takeReady _ _ | .compare _ _ | .unchecked _ | .drainViolations
  | .readRegistry | .takeFinished _ | .emit | .shutdown _ => .isTrue trivial

/-- A run of steps that all meet the condition. -/
def ExactRun (base58 : List UInt8 → String) : RotationSystem n → List (RotationStep n) → Prop
  | _, [] => True
  | s, step :: steps => s.Exact step ∧ ExactRun base58 (s.step base58 step).1 steps

instance decidableExactRun (base58 : List UInt8 → String) :
    ∀ (s : RotationSystem n) (steps : List (RotationStep n)), Decidable (s.ExactRun base58 steps)
  | _, [] => .isTrue trivial
  | s, step :: steps =>
    have := decidableExactRun base58 (s.step base58 step).1 steps
    inferInstanceAs (Decidable (s.Exact step ∧ _))

end RotationSystem

end ShredTools.Audit
