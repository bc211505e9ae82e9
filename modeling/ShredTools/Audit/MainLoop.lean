import ShredTools.Audit.AggregatorRun
import ShredTools.Audit.SigRegistry

/-!
# The main loop

The main loop hands shreds to the aggregator, and writes the rows that this gives to an archive.
From time to time it drains the aggregator, closes the archive with a manifest and begins another;
meanwhile it may publish a snapshot of the window so far.  `MainLoop` does this as the source does,
with running sums for the manifest.  What each round meets with is given; the rest of the loop, such
as the screen, reads these variables only.

`MainRound` lists what a round meets with: the shreds of a batch or none, rows of transactions,
whether a snapshot is due, and the rows at a rotation if it is time for one.  The steps of a round
are functions of their own, which `step` calls in the order of the source, and `shutdown` is the end
of the program.  `MainOutput` is what a round publishes, so that what is proved about windows is
about the outputs of a run.
-/

namespace ShredTools.Audit

/-! ### Sums of a window -/

/-- `ProviderInvalid` -/
structure ProviderInvalid where
  /-- Shreds whose data matches a leader-signed copy. -/
  invalidSig : ℕ
  /-- Shreds whose data differs from one. -/
  invalidData : ℕ
  /-- Shreds without one to compare. -/
  invalidUnknown : ℕ
  deriving DecidableEq

/-- `ProviderInvalid::default` -/
def ProviderInvalid.default : ProviderInvalid := ⟨0, 0, 0⟩

/-- Add what a row has of them. -/
def ProviderInvalid.add (invalid : ProviderInvalid) (r : SetRow) : ProviderInvalid :=
  ⟨invalid.invalidSig + r.invalidSig, invalid.invalidData + r.invalidData,
    invalid.invalidUnknown + r.invalidUnknown⟩

/-- `WindowStats` -/
structure WindowStats where
  /-- Rows written to the table of sets. -/
  rowsSets : ℕ
  /-- Rows written to the table of shreds. -/
  rowsShreds : ℕ
  /-- Rows written to the table of transactions. -/
  rowsTxns : ℕ
  /-- The lowest slot, or else the highest 64-bit number. -/
  minSlot : ℕ
  /-- The highest slot. -/
  maxSlot : ℕ
  /-- Invalid shreds of all providers. -/
  invalid : ProviderInvalid
  /-- The invalid packets of each provider. -/
  providers : List ProviderInvalid
  deriving DecidableEq

namespace WindowStats

/-- `WindowStats::default` -/
def default : WindowStats := ⟨0, 0, 0, u64Size - 1, 0, ProviderInvalid.default, []⟩

/-- The body of the loop of `observe_sets`. -/
def observe (s : WindowStats) (r : SetRow) : WindowStats :=
  let providers := s.providers ++
    List.replicate (r.provider + 1 - s.providers.length) ProviderInvalid.default
  { s with
    minSlot := min s.minSlot r.slot
    maxSlot := max s.maxSlot r.slot
    invalid := s.invalid.add r
    providers := providers.modify r.provider fun provider => provider.add r }

/-- `WindowStats::observe_sets` -/
def observeSets (s : WindowStats) (rows : List SetRow) : WindowStats := rows.foldl observe s

/-- `WindowStats::from_sets` -/
def fromSets (rows : List SetRow) : WindowStats :=
  { default.observeSets rows with rowsSets := rows.length }

/-- `WindowStats::min_slot_or_zero` -/
def minSlotOrZero (s : WindowStats) : ℕ := if s.minSlot = u64Size - 1 then 0 else s.minSlot

end WindowStats

/-- The part of a `Manifest` that is about the window. -/
structure Manifest where
  /-- The lowest slot. -/
  minSlot : ℕ
  /-- The highest slot. -/
  maxSlot : ℕ
  /-- The rows of the table of sets. -/
  rowsFecSets : ℕ
  /-- The rows of the table of shreds. -/
  rowsShreds : ℕ
  /-- The rows of the table of transactions. -/
  rowsTxns : ℕ
  /-- Invalid shreds. -/
  invalid : ProviderInvalid
  /-- Invalid shreds of each provider. -/
  providerShreds : List ProviderInvalid
  deriving DecidableEq

/-- `build_manifest`, for some providers. -/
def buildManifest (providers : ℕ) (stats : WindowStats) : Manifest where
  minSlot := stats.minSlotOrZero
  maxSlot := stats.maxSlot
  rowsFecSets := stats.rowsSets
  rowsShreds := stats.rowsShreds
  rowsTxns := stats.rowsTxns
  invalid := stats.invalid
  providerShreds := (List.range providers).map fun id =>
    stats.providers.getD id ProviderInvalid.default

/-! ### The sink -/

/-- `Archive`: the tables of an archive; those of shreds and transactions are optional. -/
structure Archive where
  /-- The sets. -/
  sets : List SetRow
  /-- The shreds. -/
  shreds : Option (List VerifiedShred)
  /-- The transactions. -/
  txns : Option (List TxnRow)
  deriving DecidableEq

/-- `Archive::create` -/
def Archive.create (dumpShreds dumpTxns : Bool) : Archive where
  sets := []
  shreds := if dumpShreds then some [] else none
  txns := if dumpTxns then some [] else none

/-- `Archive::write_sets`, with the number of rows written. -/
def Archive.writeSets (a : Archive) (rows : List SetRow) : Archive × ℕ :=
  ({ a with sets := a.sets ++ rows }, rows.length)

/-- `Archive::write_shreds` -/
def Archive.writeShreds (a : Archive) (rows : List VerifiedShred) : Archive × ℕ :=
  match a.shreds with
  | some shreds => ({ a with shreds := some (shreds ++ rows) }, rows.length)
  | none => (a, 0)

/-- `Archive::write_txns` -/
def Archive.writeTxns (a : Archive) (rows : List TxnRow) : Archive × ℕ :=
  match a.txns with
  | some txns => ({ a with txns := some (txns ++ rows) }, rows.length)
  | none => (a, 0)

/-- `ZipSink` -/
structure ZipSink where
  /-- Whether shreds are dumped. -/
  dumpShreds : Bool
  /-- Whether transactions are dumped. -/
  dumpTxns : Bool
  /-- The length of a window in seconds, or 0. -/
  rotateSecs : ℕ
  /-- The archive being written. -/
  archive : Archive

/-- `Sink`; what the Postgres sink folds is not told here. -/
inductive Sink
  | zip (z : ZipSink)
  | pg
  | off

namespace Sink

/-- `Sink::open` for archives. -/
def openZip (dumpShreds dumpTxns : Bool) (rotateSecs : ℕ) : Sink :=
  zip ⟨dumpShreds, dumpTxns, rotateSecs, Archive.create dumpShreds dumpTxns⟩

/-- `Sink::rotate_interval`, whether there is one. -/
def rotates : Sink → Bool
  | zip z => z.rotateSecs > 0
  | _ => false

/-- `Sink::write_sets` -/
def writeSets (rows : List SetRow) : Sink → Sink × ℕ
  | zip z =>
    let (archive, n) := z.archive.writeSets rows
    (zip { z with archive := archive }, n)
  | s => (s, 0)

/-- `Sink::write_shreds` -/
def writeShreds (rows : List VerifiedShred) : Sink → Sink × ℕ
  | zip z =>
    let (archive, n) := z.archive.writeShreds rows
    (zip { z with archive := archive }, n)
  | s => (s, 0)

/-- `Sink::write_txns` -/
def writeTxns (rows : List TxnRow) : Sink → Sink × ℕ
  | zip z =>
    let (archive, n) := z.archive.writeTxns rows
    (zip { z with archive := archive }, n)
  | s => (s, 0)

/-- `Sink::rotate`: the archive and its manifest, and the sink with the next archive. -/
def rotate (manifest : Manifest) : Sink → Sink × Option (Archive × Manifest)
  | zip z =>
    (zip { z with archive := Archive.create z.dumpShreds z.dumpTxns },
      some (z.archive, manifest))
  | s => (s, none)

/-- `Sink::write_live`: the snapshot. -/
def writeLive (rows : List SetRow) (manifest : Manifest) : Sink → Option (List SetRow × Manifest)
  | zip _ => some (rows, manifest)
  | _ => none

/-- `Sink::close` -/
def close (manifest : Manifest) : Sink → Option (Archive × Manifest)
  | zip z => some (z.archive, manifest)
  | _ => none

end Sink

/-! ### The loop -/

/-- What `main` reads of its arguments and the configuration. -/
structure MainArgs where
  /-- `--dump-shreds` -/
  dumpShreds : Bool
  /-- `--live` -/
  live : Bool
  /-- The number of providers. -/
  providers : ℕ

/-- The variables of `main` that windows are about. -/
structure MainLoop where
  /-- The aggregator. -/
  aggregator : Aggregator
  /-- The sums of the window. -/
  stats : WindowStats
  /-- The rows of the window, for snapshots. -/
  windowRows : List SetRow
  /-- The sink. -/
  sink : Sink

/-- What a round of the loop meets with: the shreds of a batch, if one came; the rows of
transactions, if it is time for them; whether it is time for a snapshot; and, if it is time to
rotate, the rows of transactions since. -/
structure MainRound where
  /-- The verified shreds. -/
  shreds : Option (List VerifiedShred)
  /-- The rows of transactions. -/
  txns : Option (List TxnRow)
  /-- Whether a snapshot is due. -/
  live : Bool
  /-- The rows of transactions at a rotation. -/
  rotate : Option (List TxnRow)

/-- What a round publishes. -/
structure MainOutput where
  /-- A snapshot. -/
  live : Option (List SetRow × Manifest)
  /-- An archive. -/
  archive : Option (Archive × Manifest)

namespace MainLoop

variable (args : MainArgs)

/-- The variables as the loop starts. -/
def start (maxWaitSlots : ℕ) (sink : Sink) : MainLoop where
  aggregator := Aggregator.new maxWaitSlots
  stats := WindowStats.default
  windowRows := []
  sink := sink

/-- A batch: the aggregator gets the shreds, and they are dumped if asked for. -/
def ingest (st : MainLoop) (shreds : List VerifiedShred) : MainLoop :=
  let st := { st with aggregator := shreds.foldl Aggregator.ingest st.aggregator }
  if args.dumpShreds then
    let (sink, n) := st.sink.writeShreds shreds
    { st with sink := sink, stats := { st.stats with rowsShreds := st.stats.rowsShreds + n } }
  else st

/-- Rows are summed up and written. -/
def writeSets (st : MainLoop) (rows : List SetRow) : MainLoop :=
  let stats := st.stats.observeSets rows
  let (sink, n) := st.sink.writeSets rows
  { st with sink := sink, stats := { stats with rowsSets := stats.rowsSets + n } }

/-- A harvest of a round. -/
def harvest (st : MainLoop) : MainLoop :=
  let (aggregator, rows) := st.aggregator.harvest false
  let st := { st with aggregator := aggregator }
  if rows.isEmpty then st
  else
    let st := if args.live then { st with windowRows := st.windowRows ++ rows } else st
    st.writeSets rows

/-- `write_txns` -/
def writeTxns (st : MainLoop) (rows : List TxnRow) : MainLoop :=
  if rows.isEmpty then st
  else
    let (sink, n) := st.sink.writeTxns rows
    { st with sink := sink, stats := { st.stats with rowsTxns := st.stats.rowsTxns + n } }

/-- The snapshot of the window so far. -/
def snapshot (st : MainLoop) : Option (List SetRow × Manifest) :=
  st.sink.writeLive st.windowRows
    (buildManifest args.providers (WindowStats.fromSets st.windowRows))

/-- The drain at the end of a window. -/
def drain (st : MainLoop) : MainLoop :=
  let (aggregator, rows) := st.aggregator.harvest true
  { st with aggregator := aggregator }.writeSets rows

/-- The end of a window. -/
def rotate (st : MainLoop) (txns : List TxnRow) : MainLoop × Option (Archive × Manifest) :=
  let st := st.drain.writeTxns txns
  let (sink, archive) := st.sink.rotate (buildManifest args.providers st.stats)
  ({ st with sink := sink, stats := WindowStats.default, windowRows := [] }, archive)

/-- What a round brings: a batch, the rows that are ready, and transactions. -/
def gather (st : MainLoop) (round : MainRound) : MainLoop :=
  let st := round.shreds.elim st (st.ingest args)
  let st := st.harvest args
  round.txns.elim st st.writeTxns

/-- A round of the loop. -/
def step (st : MainLoop) (round : MainRound) : MainLoop × MainOutput :=
  let st := st.gather args round
  let live := if args.live && round.live then st.snapshot args else none
  match round.rotate with
  | some txns =>
    if st.sink.rotates then
      let (st, archive) := st.rotate args txns
      (st, ⟨live, archive⟩)
    else (st, ⟨live, none⟩)
  | none => (st, ⟨live, none⟩)

/-- The batches that wait at the shutdown, a last drain, and the last transactions. -/
def windUp (st : MainLoop) (batches : List (List VerifiedShred)) (txns : Option (List TxnRow)) :
    MainLoop :=
  let st := batches.foldl (ingest args) st
  let rows := (st.aggregator.harvest true).2
  let st := st.drain
  let st := txns.elim st st.writeTxns
  if args.live then { st with windowRows := st.windowRows ++ rows } else st

/-- The shutdown, with a last snapshot and the last archive. -/
def shutdown (st : MainLoop) (batches : List (List VerifiedShred)) (txns : Option (List TxnRow)) :
    MainOutput :=
  let st := st.windUp args batches txns
  let live := if args.live then st.snapshot args else none
  ⟨live, st.sink.close (buildManifest args.providers st.stats)⟩

/-- What a whole run publishes. -/
def run (st : MainLoop) (rounds : List MainRound) (batches : List (List VerifiedShred))
    (txns : Option (List TxnRow)) : List MainOutput :=
  Machine.outputs (step args) st rounds ++
    [(Machine.finalState (step args) st rounds).shutdown args batches txns]

end MainLoop

end ShredTools.Audit
