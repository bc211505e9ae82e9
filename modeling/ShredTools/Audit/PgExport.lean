import Mathlib.Algebra.BigOperators.Group.List.Basic
import Mathlib.Algebra.Order.Ring.Int
import ShredTools.Audit.IntervalFold
import ShredTools.Audit.MainLoop
import ShredTools.Audit.ProviderStreams
import ShredTools.Audit.Receive
import ShredTools.Library.Channel

/-!
# The export to Postgres

At each flush the sink publishes a batch about the interval since the last one: a row of sums for
each provider, and by how much each counter of the run has grown.  A writer thread takes the batches
from a bounded queue and stores each in one transaction; it reconnects when a batch comes, so an
outage loses batches but holds up nothing.

What becomes of a batch is known from the round of the writer that takes it (`PgRound`): whether the
writer had a connection, whether the sink was closed by then, and how its statements went.  The
database is told what these rounds say and nothing else (`PgExport.Account`), and so every batch
that was flushed is in one place (`pg_export_exact`).

What the batches say adds up to what the run has counted, wherever they went (`pg_columns_add_up`).
What comes after the last flush is in no batch.
-/

namespace ShredTools.Audit

/-! ### Counters -/

/-- The fields of `Counters`. -/
inductive Counter
  | udpReceived
  | udpUnmatched
  | udpNoTimestamp
  | udpChannelFull
  | udpKernelDropped
  | udpTruncated
  | shredsParsed
  | shredsMalformed
  | shredsUnsupportedVariant
  | nonShredPings
  | shredsWrongVersion
  | shredsNoMerkleRoot
  | shredsNoLeader
  | shredsSigBad
  | shredsProofStripped
  | invalidSig
  | invalidData
  | invalidUnknown
  | ed25519Verifies
  | batchFallbacks
  | shredsAfterWindow
  | txsVote
  | txsLegacy
  | txsV0
  | txsV1
  | deshredFed
  | deshredDropped
  | deshredParseErrors
  | deshredRecoveryErrors
  | deshredDecodeErrors
  | deshredDataSets
  deriving DecidableEq

/-- `Counters`, by field. -/
abbrev Counters := Counter → ℕ

/-- `Counters::default` -/
def Counters.default : Counters := fun _ => 0

/-- `ProviderDeshredStats`, a copy of the counters of a provider. -/
abbrev ProviderDeshredStats := ProviderCounters

/-- The body of the loop of `deshred_total`. -/
def ProviderDeshredStats.add (total d : ProviderDeshredStats) : ProviderDeshredStats where
  fed := total.fed + d.fed
  dropped := total.dropped + d.dropped
  parseErrors := total.parseErrors + d.parseErrors
  recoveryErrors := total.recoveryErrors + d.recoveryErrors
  decodeErrors := total.decodeErrors + d.decodeErrors
  dataSets := total.dataSets + d.dataSets

/-- `deshred_total`, of the counters of the providers. -/
def deshredTotal (deshred : List ProviderDeshredStats) : ProviderDeshredStats :=
  deshred.foldl ProviderDeshredStats.add ProviderCounters.default

/-- `Counters::snapshot` -/
def Counters.snapshot (rx : RxStats) (v : VerifyStats) (stats : WindowStats)
    (shredsAfterWindow : ℕ) (versions : TxVersionCounts) (deshred : List ProviderDeshredStats) :
    Counters
  | .udpReceived => rx.received
  | .udpUnmatched => rx.unmatched
  | .udpNoTimestamp => rx.noTimestamp
  | .udpChannelFull => rx.channelFull
  | .udpKernelDropped => rx.kernelDropped
  | .udpTruncated => rx.truncated
  | .shredsParsed => v.parsed
  | .shredsMalformed => v.malformed
  | .shredsUnsupportedVariant => v.unsupportedVariant
  | .nonShredPings => v.nonShredPing
  | .shredsWrongVersion => v.wrongVersion
  | .shredsNoMerkleRoot => v.noMerkleRoot
  | .shredsNoLeader => v.noLeader
  | .shredsSigBad => v.sigBad
  | .shredsProofStripped => v.proofStripped
  | .invalidSig => stats.invalid.invalidSig
  | .invalidData => stats.invalid.invalidData
  | .invalidUnknown => stats.invalid.invalidUnknown
  | .ed25519Verifies => v.ed25519Verifies
  | .batchFallbacks => v.batchFallbacks
  | .shredsAfterWindow => shredsAfterWindow
  | .txsVote => versions.vote
  | .txsLegacy => versions.legacy
  | .txsV0 => versions.v0
  | .txsV1 => versions.v1
  | .deshredFed => (deshredTotal deshred).fed
  | .deshredDropped => (deshredTotal deshred).dropped
  | .deshredParseErrors => (deshredTotal deshred).parseErrors
  | .deshredRecoveryErrors => (deshredTotal deshred).recoveryErrors
  | .deshredDecodeErrors => (deshredTotal deshred).decodeErrors
  | .deshredDataSets => (deshredTotal deshred).dataSets

/-- A number of 64 bits read as a signed one: `as i64`. -/
def asI64 (a : ℕ) : ℤ := Int.bmod a u64Size

/-- `counter_deltas`, by field. -/
def counterDeltas (now prev : Counters) (c : Counter) : ℤ := asI64 (now c - prev c)

/-- `ProviderDeshredStats::since` -/
def ProviderDeshredStats.since (now prev : ProviderDeshredStats) : ProviderDeshredStats where
  fed := now.fed - prev.fed
  dropped := now.dropped - prev.dropped
  parseErrors := now.parseErrors - prev.parseErrors
  recoveryErrors := now.recoveryErrors - prev.recoveryErrors
  decodeErrors := now.decodeErrors - prev.decodeErrors
  dataSets := now.dataSets - prev.dataSets

/-! ### The sink -/

/-- What `PgSink::flush` reads of a manifest.  The sources and the pings are copied, and go by as
`rest`, like the times of the interval. -/
structure PgManifest (M : Type) where
  /-- The counters of the run. -/
  counters : Counters
  /-- The counters of the reconstruction for each provider, if it runs. -/
  deshred : List (Option ProviderDeshredStats)
  /-- The rest. -/
  rest : M

/-- What `build_manifest` reads of the run for the counters. -/
structure RunReadings where
  /-- The counters of the receivers. -/
  rx : RxStats
  /-- The counters of the verifier. -/
  verify : VerifyStats
  /-- The counters of the window. -/
  stats : WindowStats
  /-- Shreds of sets that were finalized before. -/
  shredsAfterWindow : ℕ
  /-- The counters of the transaction comparison, if it runs: by version, and of each provider. -/
  txn : Option (TxVersionCounts × List ProviderDeshredStats)

/-- `build_manifest`, what the export reads of it: `provider_shreds` has a row for each provider. -/
def PgManifest.build {M : Type} (names : List String) (r : RunReadings) (rest : M) :
    PgManifest M where
  counters := Counters.snapshot r.rx r.verify r.stats r.shredsAfterWindow
    (r.txn.elim TxVersionCounts.default Prod.fst) (r.txn.elim [] Prod.snd)
  deshred := (List.range names.length).map fun id =>
    r.txn.map fun t => t.2.getD id ProviderCounters.default
  rest := rest

/-- `Batch` -/
structure PgBatch (F M : Type) where
  /-- The row of each provider, with its part about the reconstruction. -/
  providers : List (ProviderRow F × ProviderDeshredStats)
  /-- By how much each counter has grown. -/
  counters : Counter → ℤ
  /-- The rest. -/
  rest : M

/-- `QUEUE_DEPTH` of the export. -/
def pgQueueDepth : ℕ := 64

/-- `PgSink`, but for its end of the queue. -/
structure PgSink (F : Type) (names : List String) where
  /-- The sums of the interval. -/
  fold : IntervalFold F names.length
  /-- The counters at the last flush. -/
  prev : Counters
  /-- The counters of the reconstruction at the last flush. -/
  prevDeshred : List ProviderDeshredStats

namespace PgSink

variable {F M : Type} [Zero F] {names : List String}

/-- `PgSink::open` -/
def new (F : Type) [Zero F] (names : List String) : PgSink F names where
  fold := IntervalFold.new F names.length
  prev := Counters.default
  prevDeshred := []

/-- `PgSink::write_sets` -/
def writeSets [Add F] [Max F] (micros : ℤ → F) (sink : PgSink F names)
    (batch : RowBatch names.length) : PgSink F names :=
  { sink with fold := sink.fold.ingest micros batch }

/-- The row of a provider in `PgSink::flush`. -/
def withDeshred (sink : PgSink F names) (deshred : List ProviderDeshredStats)
    (row : ProviderRow F × ℕ) : ProviderRow F × ProviderDeshredStats :=
  let now := deshred.getD row.2 ProviderCounters.default
  let prev := sink.prevDeshred.getD row.2 ProviderCounters.default
  (row.1, now.since prev)

/-- `PgSink::flush`, up to the sending of the batch. -/
def flush (sink : PgSink F names) (m : PgManifest M) : PgSink F names × PgBatch F M :=
  let deshred := m.deshred.map fun d => d.getD ProviderCounters.default
  ({ fold := sink.fold.reset, prev := m.counters, prevDeshred := deshred },
    { providers := (sink.fold.rows names).zipIdx.map (sink.withDeshred deshred)
      counters := counterDeltas m.counters sink.prev
      rest := m.rest })

end PgSink

/-! ### The writer and the whole -/

/-- How a statement goes: the writer may not hear of one that went through. -/
inductive WriteOutcome
  | ok
  | failed (landed : Bool)

/-- Whether the statement went through. -/
def WriteOutcome.landed : WriteOutcome → Bool
  | ok => true
  | failed landed => landed

/-- Whether the writer hears of it. -/
def WriteOutcome.isOk : WriteOutcome → Bool
  | ok => true
  | failed _ => false

/-- What a round of the writer meets with, as far as it gets there. -/
structure PgTurn where
  /-- Whether it can connect. -/
  connects : Bool
  /-- How `write_run` goes. -/
  run : WriteOutcome
  /-- How `write_batch` goes. -/
  batch : WriteOutcome

/-- A transaction that went through. -/
inductive PgStatement (F M : Type)
  | run
  | batch (b : PgBatch F M)

/-- The batch of a statement. -/
def PgStatement.batch? {F M : Type} : PgStatement F M → Option (PgBatch F M)
  | run => none
  | batch b => some b

/-- A round of the writer with a batch, and what it meets with. -/
structure PgRound (F M : Type) where
  /-- The batch. -/
  batch : PgBatch F M
  /-- Whether the writer has a connection. -/
  connected : Bool
  /-- Whether the sink is closed. -/
  closed : Bool
  /-- What it meets with. -/
  turn : PgTurn

namespace PgRound

variable {F M : Type}

/-- Whether the writer comes to write the batch: it has a connection, or makes one and records the
run, which it does not try once the sink is closed. -/
def serves (r : PgRound F M) : Bool :=
  r.connected || (!r.closed && r.turn.connects && r.turn.run.isOk)

/-- Whether the batch is stored: it is lost if the writer does not come to write it, or if the
statement does not go through. -/
def stores (r : PgRound F M) : Bool := r.serves && r.turn.batch.landed

/-- Whether the writer keeps its connection: it gives it up if it hears that a statement failed. -/
def keeps (r : PgRound F M) : Bool := r.serves && r.turn.batch.isOk

/-- Whether a round records the run. -/
def records (r : PgRound F M) : Bool :=
  !r.connected && (!r.closed && (r.turn.connects && r.turn.run.landed))

/-- What the database is told in a round. -/
def statements (r : PgRound F M) : List (PgStatement F M) :=
  (if r.records then [.run] else []) ++ if r.stores then [.batch r.batch] else []

/-- Whether the writer has a connection after some rounds. -/
def connectedAfter (rounds : List (PgRound F M)) : Bool := rounds.getLast?.elim false keeps

end PgRound

/-- A call of the sink. -/
inductive PgCall (M : Type) (names : List String)
  | writeSets (batch : RowBatch names.length)
  | flush (m : PgManifest M)

/-- A step of the main loop or of the writer. -/
inductive PgEvent (M : Type) (names : List String)
  | call (c : PgCall M names)
  | close
  | write (turn : PgTurn)

section Step

variable {F M : Type} [Zero F] [Add F] [Max F] (micros : ℤ → F) {names : List String}

/-- A call of the sink, with the batch that it gives. -/
def PgSink.step (sink : PgSink F names) : PgCall M names → PgSink F names × List (PgBatch F M)
  | .writeSets batch => (sink.writeSets micros batch, [])
  | .flush m =>
    let (sink, batch) := sink.flush m
    (sink, [batch])

/-- The sink, the writer and the database.  `close` consumes the sink, and sets `shutdown`. -/
structure PgExport (F M : Type) (names : List String) where
  /-- The sink. -/
  sink : Option (PgSink F names)
  /-- Batches that found the queue full. -/
  dropped : ℕ
  /-- The queue. -/
  queue : Channel (PgBatch F M) pgQueueDepth
  /-- Whether the writer has a connection. -/
  client : Bool
  /-- What the database was told. -/
  log : List (PgStatement F M)

namespace PgExport

/-- The export as it begins. -/
def start (F M : Type) [Zero F] (names : List String) : PgExport F M names where
  sink := some (PgSink.new F names)
  dropped := 0
  queue := Channel.empty _ _
  client := false
  log := []

/-- A batch is sent. -/
def send (st : PgExport F M names) (batch : PgBatch F M) : PgExport F M names :=
  match st.queue.trySend batch with
  | some queue => { st with queue := queue }
  | none => { st with dropped := st.dropped + 1 }

/-- A statement is tried. -/
def execute (st : PgExport F M names) (statement : PgStatement F M) (outcome : WriteOutcome) :
    PgExport F M names :=
  { st with
    client := outcome.isOk
    log := if outcome.landed then st.log ++ [statement] else st.log }

/-- A round of `writer_loop` with a batch. -/
def handle (st : PgExport F M names) (turn : PgTurn) (batch : PgBatch F M) : PgExport F M names :=
  if st.client then st.execute (.batch batch) turn.batch
  else if st.sink.isNone then st
  else if turn.connects then
    let st := st.execute .run turn.run
    if turn.run.isOk then st.execute (.batch batch) turn.batch else st
  else st

/-- A step, with the round of the writer if it takes a batch. -/
def step (st : PgExport F M names) : PgEvent M names → PgExport F M names × List (PgRound F M)
  | .call c =>
    match st.sink with
    | some sink =>
      let (sink, batches) := sink.step micros c
      (batches.foldl send { st with sink := some sink }, [])
    | none => (st, [])
  | .close => ({ st with sink := none }, [])
  | .write turn =>
    match st.queue.recv with
    | some (batch, queue) =>
      (handle { st with queue := queue } turn batch,
        [⟨batch, st.client, st.sink.isNone, turn⟩])
    | none => (st, [])

/-- The export after some steps. -/
def after (events : List (PgEvent M names)) : PgExport F M names :=
  Machine.finalState (step micros) (start F M names) events

/-- The rounds of the writer in some steps. -/
def rounds (events : List (PgEvent M names)) : List (PgRound F M) :=
  (Machine.outputs (step micros) (start F M names) events).flatten

end PgExport

/-- The calls of the sink, until it is closed. -/
def callsOf : List (PgEvent M names) → List (PgCall M names)
  | [] => []
  | .call c :: events => c :: callsOf events
  | .close :: _ => []
  | .write _ :: events => callsOf events

/-- Whether a step closes the sink. -/
def PgEvent.isClose : PgEvent M names → Bool
  | .call _ => false
  | .close => true
  | .write _ => false

/-- The batches that some calls give. -/
def flushed (calls : List (PgCall M names)) : List (PgBatch F M) :=
  (Machine.outputs (PgSink.step micros) (PgSink.new F names) calls).flatten

end Step

/-! ### Where the batches go -/

section Writer

variable {F M : Type} {names : List String}

/-- The batches that the database was told. -/
def PgExport.stored (st : PgExport F M names) : List (PgBatch F M) :=
  st.log.filterMap PgStatement.batch?

/-- A round of the writer tells the database its statements, and keeps its connection or not. -/
lemma PgExport.handle_round (st : PgExport F M names) (turn : PgTurn) (batch : PgBatch F M) :
    let r : PgRound F M := ⟨batch, st.client, st.sink.isNone, turn⟩
    (st.handle turn batch).log = st.log ++ r.statements ∧
      (st.handle turn batch).client = r.keeps := by
  unfold PgExport.handle PgExport.execute PgRound.statements PgRound.records PgRound.keeps
    PgRound.stores PgRound.serves
  dsimp only
  cases hclient : st.client with
  | true => cases turn.batch.landed <;> simp
  | false =>
    cases st.sink.isNone with
    | true => simp [hclient]
    | false =>
      cases turn.connects with
      | false => simp [hclient]
      | true =>
        -- the run may be recorded without the writer hearing of it
        cases turn.run with
        | ok => cases turn.batch.landed <;> simp [WriteOutcome.isOk, WriteOutcome.landed]
        | failed landed => cases landed <;> simp [WriteOutcome.isOk, WriteOutcome.landed]

/-- A round of the writer leaves the rest alone. -/
lemma PgExport.handle_rest (st : PgExport F M names) (turn : PgTurn) (batch : PgBatch F M) :
    (st.handle turn batch).sink = st.sink ∧ (st.handle turn batch).dropped = st.dropped ∧
      (st.handle turn batch).queue = st.queue := by
  unfold PgExport.handle
  split_ifs <;> exact ⟨rfl, rfl, rfl⟩

end Writer

section Account

variable {F M : Type} [Zero F] [Add F] [Max F] (micros : ℤ → F) {names : List String}

/-- Calls count until the sink is closed. -/
lemma callsOf_concat (events : List (PgEvent M names)) (e : PgEvent M names) :
    callsOf (events ++ [e]) =
      if events.any PgEvent.isClose then callsOf events else callsOf events ++ callsOf [e] := by
  induction events with
  | nil => rfl
  | cons event events ih =>
    cases event with
    | call c =>
      rw [List.cons_append, callsOf, ih, callsOf, List.any_cons, PgEvent.isClose, Bool.false_or]
      split_ifs <;> rfl
    | close => rfl
    | write turn =>
      rw [List.cons_append, callsOf, ih, callsOf, List.any_cons, PgEvent.isClose, Bool.false_or]

/-- The account of the batches, by the rounds of the writer. -/
structure PgExport.Account (events : List (PgEvent M names)) (rounds : List (PgRound F M))
    (dropped : List (PgBatch F M)) (st : PgExport F M names) : Prop where
  /-- The sink has served the calls, unless it is closed. -/
  sink : st.sink = if events.any PgEvent.isClose then none else
    some (Machine.finalState (PgSink.step micros) (PgSink.new F names) (callsOf events))
  /-- A batch was taken in a round, waits or found the queue full. -/
  traffic : Channel.Traffic (flushed micros (callsOf events)) (rounds.map PgRound.batch) dropped
    st.queue
  /-- Batches that found the queue full are counted. -/
  countsDropped : dropped.length = st.dropped
  /-- The database was told what the rounds say. -/
  told : st.log = rounds.flatMap PgRound.statements
  /-- The writer has a connection if the last round kept it. -/
  client : st.client = PgRound.connectedAfter rounds
  /-- In every round the writer had a connection if the round before had kept it. -/
  connected : rounds.Along fun before r => r.connected = PgRound.connectedAfter before

namespace PgExport

variable {micros} {events : List (PgEvent M names)} {rounds : List (PgRound F M)}
  {dropped : List (PgBatch F M)} {st : PgExport F M names}

/-- What a batch that is sent adds to the account. -/
theorem Account.send (h : st.Account micros events rounds dropped)
    {events' : List (PgEvent M names)} {sink : Option (PgSink F names)} {batch : PgBatch F M}
    (hsink : sink = if events'.any PgEvent.isClose then none else
      some (Machine.finalState (PgSink.step micros) (PgSink.new F names) (callsOf events')))
    (hflushed : flushed micros (callsOf events') = flushed micros (callsOf events) ++ [batch]) :
    ∃ dropped', (PgExport.send { st with sink := sink } batch).Account micros events' rounds
      dropped' := by
  unfold PgExport.send
  cases hsend : st.queue.trySend batch with
  | some queue =>
    refine ⟨dropped, hsink, ?_, h.countsDropped, h.told, h.client, h.connected⟩
    rw [hflushed]
    exact h.traffic.accept hsend
  | none =>
    refine ⟨dropped ++ [batch], hsink, ?_, ?_, h.told, h.client, h.connected⟩
    · rw [hflushed]
      exact h.traffic.lose batch
    · rw [List.length_append, h.countsDropped]
      rfl

/-- A call of the sink keeps the account. -/
theorem Account.call (h : st.Account micros events rounds dropped) (c : PgCall M names) :
    ∃ dropped', (st.step micros (.call c)).1.Account micros (events ++ [.call c])
      (rounds ++ (st.step micros (.call c)).2) dropped' := by
  have hclose : (events ++ [PgEvent.call c]).any PgEvent.isClose = events.any PgEvent.isClose := by
    rw [List.any_append]
    exact Bool.or_false _
  have hcalls := callsOf_concat events (.call c)
  have hsink := h.sink
  unfold PgExport.step
  -- after the close there is no sink that a call could reach
  cases hclosed : events.any PgEvent.isClose with
  | true =>
    rw [if_pos hclosed] at hcalls hsink
    rw [hsink]
    dsimp only
    rw [List.append_nil]
    refine ⟨dropped, ?_, ?_, h.countsDropped, h.told, h.client, h.connected⟩
    · rw [hclose, hclosed, if_pos rfl]
      exact hsink
    · rw [hcalls]
      exact h.traffic
  | false =>
    have hopen : ¬ events.any PgEvent.isClose = true := by simp [hclosed]
    rw [if_neg hopen] at hcalls hsink
    rw [hsink]
    dsimp only
    rw [List.append_nil]
    have hfinal : some (PgSink.step (M := M) micros (Machine.finalState (PgSink.step micros)
        (PgSink.new F names) (callsOf events)) c).1 =
        if (events ++ [PgEvent.call c]).any PgEvent.isClose then none else
          some (Machine.finalState (PgSink.step micros) (PgSink.new F names)
            (callsOf (events ++ [.call c]))) := by
      rw [hclose, if_neg hopen, hcalls, callsOf, callsOf, Machine.finalState_concat]
    have hflushed : flushed (F := F) micros (callsOf (events ++ [.call c])) =
        flushed micros (callsOf events) ++ (PgSink.step micros (Machine.finalState
          (PgSink.step micros) (PgSink.new F names) (callsOf events)) c).2 := by
      unfold flushed
      rw [hcalls, callsOf, callsOf, Machine.outputs_concat, List.flatten_append,
        List.flatten_singleton]
    cases c with
    | writeSets batch =>
      refine ⟨dropped, hfinal, ?_, h.countsDropped, h.told, h.client, h.connected⟩
      rw [hflushed]
      exact (List.append_nil (flushed micros (callsOf events))).symm ▸ h.traffic
    | flush m => exact h.send hfinal hflushed

/-- A step that is no call flushes nothing. -/
lemma flushed_concat_other {e : PgEvent M names} (hcalls : callsOf [e] = []) :
    callsOf (events ++ [e]) = callsOf events := by
  rw [callsOf_concat, hcalls, List.append_nil, ite_self]

/-- The sink is closed. -/
theorem Account.close (h : st.Account micros events rounds dropped) :
    (st.step micros .close).1.Account micros (events ++ [.close])
      (rounds ++ (st.step micros .close).2) dropped := by
  have hcalls : callsOf (events ++ [.close]) = callsOf events := flushed_concat_other rfl
  unfold PgExport.step
  dsimp only
  rw [List.append_nil]
  refine ⟨?_, ?_, h.countsDropped, h.told, h.client, h.connected⟩
  · rw [List.any_append]
    exact (if_pos (Bool.or_true _)).symm
  · rw [hcalls]
    exact h.traffic

/-- A round of the writer keeps the account. -/
lemma Account.write (h : st.Account micros events rounds dropped) (turn : PgTurn) :
    (st.step micros (.write turn)).1.Account micros (events ++ [.write turn])
      (rounds ++ (st.step micros (.write turn)).2) dropped := by
  have hcalls : callsOf (events ++ [.write turn]) = callsOf events := flushed_concat_other rfl
  have hclose : (events ++ [PgEvent.write turn]).any PgEvent.isClose =
      events.any PgEvent.isClose := by
    rw [List.any_append]
    exact Bool.or_false _
  unfold PgExport.step
  cases hrecv : st.queue.recv with
  | none =>
    dsimp only
    rw [List.append_nil]
    refine ⟨?_, ?_, h.countsDropped, h.told, h.client, h.connected⟩
    · rw [hclose, hcalls]
      exact h.sink
    · rw [hcalls]
      exact h.traffic
  | some next =>
    obtain ⟨batch, queue⟩ := next
    obtain ⟨hlog, hclient⟩ := handle_round { st with queue := queue } turn batch
    obtain ⟨hsink, hdropped, hqueue⟩ := handle_rest { st with queue := queue } turn batch
    dsimp only
    refine ⟨?_, ?_, ?_, ?_, ?_, ?_⟩
    · rw [hclose, hcalls, hsink]
      exact h.sink
    · rw [hcalls, hqueue, List.map_append]
      exact h.traffic.take hrecv
    · rw [hdropped]
      exact h.countsDropped
    · rw [hlog, List.flatMap_append, ← h.told, List.flatMap_singleton]
    · rw [hclient, PgRound.connectedAfter, List.getLast?_concat]
      rfl
    · refine h.connected.append (List.along_singleton ?_)
      rw [List.append_nil]
      exact h.client

end PgExport

end Account

/-! ### What the rounds say -/

namespace PgRound

variable {F M : Type} {rounds : List (PgRound F M)}

/-- A round that comes to write its batch had a connection, or has recorded the run. -/
lemma records_of_serves {r : PgRound F M} (hserves : r.serves = true)
    (hconnected : r.connected = false) : r.records = true := by
  unfold serves at hserves
  unfold records
  rw [hconnected] at hserves ⊢
  cases hrun : r.turn.run with
  | ok =>
    simp only [hrun, WriteOutcome.isOk, Bool.false_or, Bool.and_true] at hserves
    simp only [WriteOutcome.landed, Bool.not_false, Bool.true_and, Bool.and_true]
    exact hserves
  | failed landed => simp [hrun, WriteOutcome.isOk] at hserves

/-- A connection has recorded the run. -/
lemma run_mem_of_connected
    (h : rounds.Along fun before r => r.connected = connectedAfter before)
    (hconnected : connectedAfter rounds = true) : .run ∈ rounds.flatMap statements := by
  induction rounds using List.reverseRecOn with
  | nil => cases hconnected
  | append_singleton rounds r ih =>
    have hkeeps : r.keeps = true := by
      rw [connectedAfter, List.getLast?_concat] at hconnected
      exact hconnected
    have hserves : r.serves = true := (Bool.and_eq_true_iff.mp hkeeps).1
    rw [List.flatMap_append, List.mem_append]
    cases hr : r.connected with
    | true =>
      left
      exact ih h.left ((h rounds r [] rfl).symm.trans hr)
    | false =>
      right
      rw [List.flatMap_singleton]
      exact List.mem_append_left _ (by simp [records_of_serves hserves hr])

/-- **The run is recorded before any batch.** -/
theorem recorded (h : rounds.Along fun before r => r.connected = connectedAfter before) :
    (rounds.flatMap statements).Along fun before statement =>
      ∀ b, statement = .batch b → .run ∈ before := by
  induction rounds using List.reverseRecOn with
  | nil => exact List.along_nil _
  | append_singleton rounds r ih =>
    rw [List.flatMap_append, List.flatMap_singleton]
    refine (ih h.left).append ?_
    have hrun : ∀ l : List (PgStatement F M), (if r.records then [.run] else []) = l →
        r.stores = true → .run ∈ rounds.flatMap statements ++ l := by
      intro l hl hstores
      have hserves : r.serves = true := (Bool.and_eq_true_iff.mp hstores).1
      cases hr : r.connected with
      | true =>
        exact List.mem_append_left _
          (run_mem_of_connected h.left ((h rounds r [] rfl).symm.trans hr))
      | false =>
        rw [if_pos (records_of_serves hserves hr)] at hl
        exact List.mem_append_right _ (hl ▸ List.mem_singleton_self _)
    unfold statements
    refine List.Along.append (List.along_of_forall fun statement hmem before b hb => ?_) ?_
    · -- the first statement is no batch
      split at hmem
      · rw [List.mem_singleton.mp hmem] at hb
        cases hb
      · cases hmem
    · cases hstores : r.stores with
      | true =>
        refine List.along_singleton fun b _ => ?_
        rw [List.append_nil]
        exact hrun _ rfl hstores
      | false => exact List.along_nil _

end PgRound

/-! ### What the batches add up to -/

/-- By how much each number of a list exceeds the one before. -/
def increases (prev : ℕ) : List ℕ → List ℕ
  | [] => []
  | now :: l => (now - prev) :: increases now l

/-- The increases of ascending numbers add up. -/
lemma add_sum_increases {prev : ℕ} {l : List ℕ} (h : (prev :: l).IsChain (· ≤ ·)) :
    prev + (increases prev l).sum = l.getLastD prev := by
  induction l generalizing prev with
  | nil => rfl
  | cons now l ih =>
    obtain ⟨hle, hchain⟩ := List.isChain_cons_cons.mp h
    rw [increases, List.sum_cons, List.getLastD_cons, ← ih hchain]
    omega

/-- A number that fits is read as itself. -/
lemma asI64_of_lt {a : ℕ} (h : a < 2 ^ 63) : asI64 a = a := by
  apply Int.bmod_eq_of_le
  · unfold u64Size
    omega
  · unfold u64Size
    omega

/-- If a sum fits, it is that of the numbers as they are read. -/
lemma sum_map_asI64 {l : List ℕ} (h : l.sum < 2 ^ 63) : (l.map asI64).sum = (l.sum : ℤ) := by
  induction l with
  | nil => rfl
  | cons a l ih =>
    rw [List.sum_cons] at h
    rw [List.map_cons, List.sum_cons, List.sum_cons, asI64_of_lt (by omega), ih (by omega)]
    exact (Nat.cast_add a l.sum).symm

/-- The fields of `ProviderDeshredStats`. -/
inductive DeshredColumn
  | fed
  | dropped
  | parseErrors
  | recoveryErrors
  | decodeErrors
  | dataSets

/-- The value of a field. -/
def DeshredColumn.of (d : ProviderDeshredStats) : DeshredColumn → ℕ
  | fed => d.fed
  | dropped => d.dropped
  | parseErrors => d.parseErrors
  | recoveryErrors => d.recoveryErrors
  | decodeErrors => d.decodeErrors
  | dataSets => d.dataSets

/-- Fields are subtracted one by one. -/
lemma DeshredColumn.of_since (now prev : ProviderDeshredStats) (c : DeshredColumn) :
    c.of (now.since prev) = c.of now - c.of prev := by
  cases c <;> rfl

/-- The columns of the tables of providers and of counters that are sums. -/
inductive PgColumn (names : List String)
  | counter (c : Counter)
  | deshred (id : Fin names.length) (c : DeshredColumn)
  | sets (id : Fin names.length) (c : Column)

section Columns

variable {F M : Type} {names : List String}

/-- What `write_batch` stores in a column. -/
def PgBatch.column (b : PgBatch F M) : PgColumn names → ℤ
  | .counter c => b.counters c
  | .deshred id c => b.providers[id]?.elim 0 fun p => asI64 (c.of p.2)
  | .sets id c => b.providers[id]?.elim 0 fun p => asI64 (p.1.column c)

/-- The counters of a provider in a manifest. -/
def PgManifest.deshredOf (m : PgManifest M) (id : ℕ) : ProviderDeshredStats :=
  (m.deshred.map fun d => d.getD ProviderCounters.default).getD id ProviderCounters.default

/-- The counter of the run for a field. -/
def DeshredColumn.counter : DeshredColumn → Counter
  | fed => .deshredFed
  | dropped => .deshredDropped
  | parseErrors => .deshredParseErrors
  | recoveryErrors => .deshredRecoveryErrors
  | decodeErrors => .deshredDecodeErrors
  | dataSets => .deshredDataSets

/-- Fields are added up one by one. -/
lemma DeshredColumn.of_deshredTotal (deshred : List ProviderDeshredStats) (c : DeshredColumn) :
    c.of (deshredTotal deshred) = (deshred.map c.of).sum := by
  have hfold : ∀ total, c.of (deshred.foldl ProviderDeshredStats.add total) =
      c.of total + (deshred.map c.of).sum := by
    induction deshred with
    | nil => exact fun total => (Nat.add_zero _).symm
    | cons d deshred ih =>
      intro total
      have hadd : c.of (total.add d) = c.of total + c.of d := by cases c <;> rfl
      rw [List.foldl_cons, ih, hadd, List.map_cons, List.sum_cons, Nat.add_assoc]
  rw [deshredTotal, hfold]
  cases c <;> exact Nat.zero_add _

/-- **The counters of the reconstruction are those of the providers, added up**, if it has as many
of them as there are providers. -/
theorem PgManifest.counters_build (names : List String) (r : RunReadings) (rest : M)
    {versions : TxVersionCounts} {deshred : List ProviderDeshredStats}
    (htxn : r.txn = some (versions, deshred)) (hlength : deshred.length = names.length)
    (c : DeshredColumn) :
    (build names r rest).counters c.counter =
      ((List.range names.length).map fun id => c.of ((build names r rest).deshredOf id)).sum := by
  have hcounter : (build names r rest).counters c.counter = c.of (deshredTotal deshred) := by
    unfold build
    rw [htxn]
    cases c <;> rfl
  have hrow : ∀ id < names.length, (build names r rest).deshredOf id =
      deshred.getD id ProviderCounters.default := by
    intro id hid
    unfold deshredOf build
    simp [htxn, hid]
  have hall : (List.range names.length).map (fun id => deshred.getD id ProviderCounters.default) =
      deshred := by
    refine List.ext_getElem (by simp [hlength]) fun id hid hid' => ?_
    simp [List.getD_eq_getElem?_getD, List.getElem?_eq_getElem hid']
  rw [hcounter, DeshredColumn.of_deshredTotal]
  conv_lhs => rw [← hall, List.map_map]
  refine congrArg List.sum (List.map_congr_left fun id hid => ?_)
  rw [hrow id (List.mem_range.mp hid)]
  rfl

/-- The manifest of a call. -/
def PgCall.manifest? : PgCall M names → Option (PgManifest M)
  | writeSets _ => none
  | flush m => some m

/-- The call, for the rows alone. -/
def PgCall.sinkCall : PgCall M names → SinkCall names.length
  | writeSets batch => .writeSets batch
  | flush _ => .flush

variable [Zero F]

/-- What a batch has of the reconstruction of a provider. -/
lemma column_flush (sink : PgSink F names) (m : PgManifest M) (id : Fin names.length)
    (c : DeshredColumn) :
    ((sink.flush m).2 : PgBatch F M).column (.deshred id c) = asI64 (c.of (m.deshredOf id) -
      c.of (sink.prevDeshred.getD id ProviderCounters.default)) := by
  have hrow : ((sink.flush m).2 : PgBatch F M).providers[id]? =
      some (sink.fold.row names[id] id, (m.deshredOf id).since
        (sink.prevDeshred.getD id ProviderCounters.default)) := by
    unfold PgSink.flush
    dsimp only
    rw [Fin.getElem?_fin, List.getElem?_map, List.getElem?_zipIdx, getElem?_rows _ id.2]
    simp [PgSink.withDeshred, PgManifest.deshredOf]
  rw [PgBatch.column, hrow, Option.elim_some, DeshredColumn.of_since]

variable [Add F] [Max F] (micros : ℤ → F)

/-- The increases of a counter. -/
lemma map_counters_flushed (c : Counter) (calls : List (PgCall M names)) (sink : PgSink F names) :
    (Machine.outputs (PgSink.step micros) sink calls).flatten.map (fun b => b.counters c) =
      (increases (sink.prev c)
        ((calls.filterMap PgCall.manifest?).map fun m => m.counters c)).map asI64 := by
  induction calls generalizing sink with
  | nil => rfl
  | cons call calls ih =>
    rw [Machine.outputs_cons, List.flatten_cons, List.map_append, ih]
    cases call with
    | writeSets batch => rfl
    | flush m =>
      have hm : (PgCall.flush m : PgCall M names).manifest? = some m := rfl
      rw [List.filterMap_cons_some hm, List.map_cons, increases, List.map_cons]
      simp only [PgSink.step, PgSink.flush, counterDeltas, List.map_cons, List.map_nil,
        List.singleton_append]

/-- The increases of a counter of a provider. -/
lemma map_deshred_flushed (id : Fin names.length) (c : DeshredColumn)
    (calls : List (PgCall M names)) (sink : PgSink F names) :
    (Machine.outputs (PgSink.step micros) sink calls).flatten.map
        (fun b => b.column (.deshred id c)) =
      (increases (c.of (sink.prevDeshred.getD id ProviderCounters.default))
        ((calls.filterMap PgCall.manifest?).map fun m => c.of (m.deshredOf id))).map asI64 := by
  induction calls generalizing sink with
  | nil => rfl
  | cons call calls ih =>
    rw [Machine.outputs_cons, List.flatten_cons, List.map_append, ih]
    cases call with
    | writeSets batch => rfl
    | flush m =>
      have hm : (PgCall.flush m : PgCall M names).manifest? = some m := rfl
      rw [List.filterMap_cons_some hm, List.map_cons, increases, List.map_cons,
        ← column_flush sink m id c]
      rfl

/-- The rows of the batches are the tables that the fold publishes. -/
lemma map_providers_flushed (calls : List (PgCall M names)) (sink : PgSink F names) :
    (Machine.outputs (PgSink.step micros) sink calls).flatten.map
        (fun b => b.providers.map Prod.fst) =
      (Machine.outputs (IntervalFold.step micros names) sink.fold
        (calls.map PgCall.sinkCall)).flatten := by
  induction calls generalizing sink with
  | nil => rfl
  | cons call calls ih =>
    rw [Machine.outputs_cons, List.flatten_cons, List.map_append, ih, List.map_cons,
      Machine.outputs_cons, List.flatten_cons]
    cases call with
    | writeSets batch => rfl
    | flush m =>
      have hrows : ((sink.flush m).2 : PgBatch F M).providers.map Prod.fst =
          sink.fold.rows names := by
        unfold PgSink.flush
        dsimp only
        rw [List.map_map]
        exact List.zipIdx_map_fst 0 _
      change [List.map Prod.fst (sink.flush m).2.providers] ++ _ = [sink.fold.rows names] ++ _
      rw [hrows]
      rfl

/-- The rows that a call brings. -/
def PgCall.batch? : PgCall M names → Option (RowBatch names.length)
  | writeSets batch => some batch
  | flush _ => none

/-- What a column comes to, after some calls and a flush: the numbers of the last manifest, and the
sums over all rows. -/
def PgColumn.total (calls : List (PgCall M names)) (m : PgManifest M) : PgColumn names → ℕ
  | .counter c => m.counters c
  | .deshred id c => c.of (m.deshredOf id)
  | .sets id c => ((calls.filterMap PgCall.batch?).map fun batch =>
      List.groupTotal SetRow.setId (fun set => c.gain id set) batch.rows).sum

/-- No counter of a manifest exceeds that of a later one. -/
structure PgManifest.Grows (m m' : PgManifest M) : Prop where
  /-- The counters of the run. -/
  counters : ∀ c, m.counters c ≤ m'.counters c
  /-- The counters of the providers grow. -/
  deshred : ∀ id (c : DeshredColumn), c.of (m.deshredOf id) ≤ c.of (m'.deshredOf id)

omit [Zero F] [Add F] [Max F] in
/-- The rows that some calls bring, as the fold sees them. -/
lemma batches_map_sinkCall (calls : List (PgCall M names)) :
    batches (calls.map PgCall.sinkCall) = calls.filterMap PgCall.batch? := by
  unfold batches
  rw [List.filterMap_map]
  refine List.filterMap_congr fun call _ => ?_
  cases call <;> rfl

/-- Rows alone flush nothing. -/
lemma flushed_append_writeSets (calls : List (PgCall M names))
    (rest : List (RowBatch names.length)) :
    flushed (F := F) micros (calls ++ rest.map PgCall.writeSets) = flushed micros calls := by
  unfold flushed
  rw [Machine.outputs_append, List.flatten_append]
  generalize Machine.finalState (PgSink.step micros) (PgSink.new F names) calls = sink
  have hnone : (Machine.outputs (PgSink.step (M := M) micros) sink
      (rest.map PgCall.writeSets)).flatten = [] := by
    induction rest generalizing sink with
    | nil => rfl
    | cons batch rest ih => exact ih (sink.writeSets micros batch)
  rw [hnone, List.append_nil]

/-- The numbers of the batches, before they are read as signed ones. -/
lemma exists_column_flushed (calls : List (PgCall M names)) {m : PgManifest M}
    (hgrows : (calls.filterMap PgCall.manifest? ++ [m]).IsChain PgManifest.Grows)
    (col : PgColumn names) :
    ∃ numbers : List ℕ, numbers.sum = col.total calls m ∧
      (flushed (F := F) micros (calls ++ [.flush m])).map (fun b => b.column col) =
        numbers.map asI64 := by
  have hmanifests : (calls ++ [PgCall.flush m]).filterMap PgCall.manifest? =
      calls.filterMap PgCall.manifest? ++ [m] := List.filterMap_append
  -- a counter that starts at 0 and never decreases
  have hsum : ∀ f : PgManifest M → ℕ, (∀ a b : PgManifest M, a.Grows b → f a ≤ f b) →
      (increases 0 ((calls.filterMap PgCall.manifest? ++ [m]).map f)).sum = f m := by
    intro f hf
    have hchain : (0 :: (calls.filterMap PgCall.manifest? ++ [m]).map f).IsChain (· ≤ ·) := by
      refine List.isChain_cons.mpr ⟨fun _ _ => Nat.zero_le _, (List.isChain_map f).mpr ?_⟩
      exact hgrows.imp fun a b hab => hf a b hab
    rw [← Nat.zero_add (List.sum _), add_sum_increases hchain, List.map_append]
    simp
  cases col with
  | counter c =>
    refine ⟨_, hsum (fun m => m.counters c) fun a b hab => hab.counters c, ?_⟩
    rw [← hmanifests]
    exact map_counters_flushed micros c _ _
  | deshred id c =>
    refine ⟨_, hsum (fun m => c.of (m.deshredOf id)) fun a b hab => hab.deshred id c, ?_⟩
    rw [← hmanifests]
    have hzero : c.of (([] : List ProviderDeshredStats).getD id ProviderCounters.default) = 0 := by
      cases c <;> rfl
    have h := map_deshred_flushed (F := F) micros id c (calls ++ [PgCall.flush m])
      (PgSink.new F names)
    rw [show (PgSink.new F names).prevDeshred = [] from rfl, hzero] at h
    exact h
  | sets id c =>
    have htables := map_providers_flushed (F := F) micros (calls ++ [PgCall.flush m])
      (PgSink.new F names)
    refine ⟨((flushed (F := F) micros (calls ++ [PgCall.flush m])).map fun b =>
      (b.providers.map Prod.fst)[id]?.elim 0 fun row => row.column c), ?_, ?_⟩
    · -- after the flush the fold holds nothing
      have hpublished := columnSum_published_add (F := F) micros
        ((calls ++ [PgCall.flush m]).map PgCall.sinkCall) id.2 c
      rw [batches_map_sinkCall, List.map_append, List.map_singleton, PgCall.sinkCall,
        Machine.finalState_concat] at hpublished
      dsimp only [IntervalFold.step, IntervalFold.reset] at hpublished
      have hbatches : (calls ++ [PgCall.flush m]).filterMap PgCall.batch? =
          calls.filterMap PgCall.batch? := by
        rw [List.filterMap_append]
        exact List.append_nil _
      rw [IntervalFold.column_new, Nat.add_zero, hbatches] at hpublished
      rw [PgColumn.total, ← hpublished, columnSum, published]
      have hsplit : (calls ++ [PgCall.flush m]).map PgCall.sinkCall =
          calls.map PgCall.sinkCall ++ [SinkCall.flush] := List.map_append
      have hfold : (PgSink.new F names).fold = IntervalFold.new F names.length := rfl
      rw [← hsplit, ← hfold, ← htables, List.map_map]
      rfl
    · rw [List.map_map]
      refine List.map_congr_left fun b _ => ?_
      rw [Function.comp_apply, PgBatch.column, Fin.getElem?_fin, Fin.getElem?_fin,
        List.getElem?_map]
      cases b.providers[id.1]? with
      | none => exact (asI64_of_lt (by decide : 0 < 2 ^ 63)).symm
      | some row => rw [Option.map_some, Option.elim_some, Option.elim_some]

variable (names) in
/-- **What the batches add up to.**  If no counter ever decreases, each counter over the batches
that some calls flush comes to what the last manifest says, and each sum over rows to that of all
rows before the last flush, as long as the total is a signed number.  The rows after it are in no
batch. -/
theorem pg_columns_add_up (calls : List (PgCall M names)) (m : PgManifest M)
    (rest : List (RowBatch names.length))
    (hgrows : (calls.filterMap PgCall.manifest? ++ [m]).IsChain PgManifest.Grows)
    (col : PgColumn names) (hfits : col.total calls m < 2 ^ 63) :
    ((flushed (F := F) micros (calls ++ .flush m :: rest.map PgCall.writeSets)).map
      fun b => b.column col).sum = col.total calls m := by
  obtain ⟨numbers, hsum, hnumbers⟩ := exists_column_flushed (F := F) micros calls hgrows col
  have hcalls : calls ++ PgCall.flush m :: rest.map PgCall.writeSets =
      calls ++ [PgCall.flush m] ++ rest.map PgCall.writeSets := List.append_cons _ _ _
  rw [hcalls, flushed_append_writeSets, hnumbers, sum_map_asI64 (hsum ▸ hfits), hsum]

end Columns

/-- A manifest after so many datagrams, each a shred that provider a brought to the reconstruction
of `plainNames`. -/
def plainManifest (n : ℕ) : PgManifest Unit :=
  PgManifest.build plainNames
    { rx := { RxStats.default with received := n }
      verify := { VerifyStats.default with parsed := n }
      stats := WindowStats.default
      shredsAfterWindow := 0
      txn := some (TxVersionCounts.default, [{ ProviderCounters.default with fed := n }]) } ()

/-- After flushes at 100 and at 175 datagrams the counter comes to 175, and provider a comes to the
60 data shreds that it had in its two sets. -/
theorem pg_columns_add_up_growing :
    let batches : List (PgBatch ℤ Unit) := flushed (fun ns => ns / 1000)
      ([.writeSets raceBatch, .flush (plainManifest 100), .writeSets soloBatch] ++
        .flush (plainManifest 175) :: [raceBatch].map PgCall.writeSets)
    (batches.map fun b => b.column (.counter .udpReceived : PgColumn plainNames)).sum = 175 ∧
      (batches.map fun b => b.column
        (.sets ⟨0, by decide⟩ (.ofRows .shredsData) : PgColumn plainNames)).sum = 60 := by
  have hgrows : (([.writeSets raceBatch, .flush (plainManifest 100), .writeSets soloBatch] :
      List (PgCall Unit plainNames)).filterMap PgCall.manifest? ++ [plainManifest 175]).IsChain
        PgManifest.Grows := by
    refine List.IsChain.cons_cons ⟨fun c => ?_, fun id c => ?_⟩ (List.IsChain.singleton _)
    · cases c <;> decide
    · rcases id with _ | _ | id
      · cases c <;> decide
      · cases c <;> decide
      · cases c <;> exact le_rfl
  have hsum := fun col => pg_columns_add_up plainNames (fun ns => ns / 1000)
    [.writeSets raceBatch, .flush (plainManifest 100), .writeSets soloBatch] (plainManifest 175)
    [raceBatch] hgrows col
  exact ⟨hsum (.counter .udpReceived) (by decide),
    hsum (.sets ⟨0, by decide⟩ (.ofRows .shredsData)) (by decide)⟩

end ShredTools.Audit
