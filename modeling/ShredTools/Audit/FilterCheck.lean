import ShredTools.Audit.FilterAudit

/-!
# The checker of the filter audit

The checker takes the sampled slots that the windows hand out, fetches the block of each slot and
compares it with what was delivered.  Slots whose block cannot be had are retried, and given up as
unchecked after a few attempts.

A tick of the checker is a sequence of steps (`beginTick`, one `handleGroup` for each slot, and
`endTick`), so that the sources can act between any two of them.  What the node answers and what the
clock says are arguments of the steps.  Instants and durations are in milliseconds.
-/

namespace ShredTools.Audit

/-- `MAX_ATTEMPTS` -/
def maxAttempts : ℕ := 5

/-- `RETRY_AFTER` -/
def retryAfter : ℕ := 4000

/-- `BLOCK_CACHE` -/
def blockCache : ℕ := 12

/-- `GIVE_UP_SECS` -/
def giveUpSecs : ℕ := 600

/-- `LOCAL_VIOLATION_CAP` -/
def localViolationCap : ℕ := 25

/-- `MAX_CALLS_PER_TICK` -/
def maxCallsPerTick : ℕ := 4

/-- `BACKOFF_MIN` -/
def backoffMin : ℕ := 5000

/-- `BACKOFF_MAX` -/
def backoffMax : ℕ := 120000

/-! ### The comparison of a slot -/

/-- `Block` -/
structure Block where
  /-- The transactions of the block. -/
  txs : List TxView

/-- The lookup in `index`, where of equal signatures the last one wins. -/
def Block.find (b : Block) (signature : Signature) : Option TxView :=
  b.txs.reverse.find? (·.signature == signature)

/-- `Fetched` -/
inductive Fetched
  | block (b : Block)
  | skipped

/-- An example of a violation. -/
structure ViolationExample where
  /-- The filter that is concerned. -/
  filter : ℕ
  /-- What is violated. -/
  kind : ViolationKind
  /-- The signature of the transaction. -/
  signature : Signature
  /-- Why it is violated. -/
  reason : String

/-- What the comparison of a slot finds for one filter. -/
structure FilterFindings where
  /-- The counts. -/
  totals : CheckTotals
  /-- Some examples. -/
  examples : List ViolationExample

section Compare

variable (base58 : List UInt8 → String)

/-- Whether a mask has the bit of filter `i`. -/
def hasBit (i : ℕ) (mask : Mask) : Bool := mask &&& filterBit i != 0

/-- The signatures delivered with the bit of filter `i`. -/
def SlotTask.deliveredFor (task : SlotTask) (i : ℕ) : List Signature :=
  (task.deliveries.entries.filter fun e => hasBit i e.2).map Sigma.fst

namespace FilterFindings

/-- One more transaction of the block that the filter accepts. -/
def expect (task : SlotTask) (i : ℕ) (f : Filter) (found : FilterFindings) (tx : TxView) :
    FilterFindings :=
  let t := { found.totals with expected := found.totals.expected + 1 }
  let mask := task.deliveries.lookup tx.signature
  if mask.any (hasBit i) then { found with totals := { t with matched := t.matched + 1 } }
  else
    let t := { t with missed := t.missed + 1 }
    if t.missed ≤ localViolationCap then
      let how := if mask.isSome then "delivered under other tags only" else "not delivered"
      { totals := t
        examples := found.examples ++
          [⟨i, .missed, tx.signature, how ++ "; filter matches: " ++ f.matchReason base58 tx⟩] }
    else { found with totals := t }

/-- One more delivery with the bit of the filter, looked up in the block. -/
def lookUp (b : Block) (i : ℕ) (f : Filter) (found : FilterFindings) (signature : Signature) :
    FilterFindings :=
  match b.find signature with
  | none =>
    let t := { found.totals with extraNotInBlock := found.totals.extraNotInBlock + 1 }
    if t.extraNotInBlock ≤ localViolationCap then
      { totals := t
        examples := found.examples ++
          [⟨i, .extraNotInBlock, signature, "not in the confirmed block"⟩] }
    else { found with totals := t }
  | some tx =>
    match f.mismatch base58 tx with
    | none => found
    | some why =>
      let t := { found.totals with extraInBlock := found.totals.extraInBlock + 1 }
      if t.extraInBlock ≤ localViolationCap then
        { totals := t
          examples := found.examples ++
            [⟨i, .extraInBlock, signature, "in the block, filter rejects it: " ++ why⟩] }
      else { found with totals := t }

end FilterFindings

/-- The body of the loop of `compare` over the filters. -/
def compareFilter (task : SlotTask) (fetched : Fetched) (i : ℕ) (f : Filter) : FilterFindings :=
  let delivered := task.deliveredFor i
  let t := { CheckTotals.default with delivered := delivered.length }
  match fetched with
  | .skipped =>
    { totals := { t with extraNotInBlock := t.delivered }
      examples := (delivered.take localViolationCap).map fun signature =>
        ⟨i, .extraNotInBlock, signature, "the cluster produced no block for this slot"⟩ }
  | .block b =>
    let expected := b.txs.filter f.matchesTx
    delivered.foldl (FilterFindings.lookUp base58 b i f)
      (expected.foldl (FilterFindings.expect base58 task i f) ⟨t, []⟩)

/-- What the comparison of a slot finds, filter by filter. -/
def compareFilters (task : SlotTask) (fetched : Fetched) : List FilterFindings :=
  task.bundle.filters.zipIdx.map fun f => compareFilter base58 task fetched f.2 f.1

/-- How a task ends. -/
inductive Outcome
  | checked
  | skipped
  | unchecked
  deriving DecidableEq

/-- How a task ends that is compared with what was fetched. -/
def Fetched.outcome : Fetched → Outcome
  | block _ => .checked
  | skipped => .skipped

/-- A task ends: it is no longer in flight, and counted by its outcome. -/
def Course.settle (outcome : Outcome) (c : Course) : Course :=
  let c := { c with inFlight := c.inFlight - 1 }
  match outcome with
  | .checked => { c with slotsChecked := c.slotsChecked + 1 }
  | .skipped => { c with slotsSkipped := c.slotsSkipped + 1 }
  | .unchecked => { c with slotsUnchecked := c.slotsUnchecked + 1 }

/-- The loop of `compare` that adds the totals of a slot to those of the window, filter by filter.
A task with more filters than its window does not occur. -/
def addTotals : List CheckTotals → List CheckTotals → List CheckTotals
  | t :: ts, o :: os => t.add o :: addTotals ts os
  | ts, _ => ts

/-- The end of `compare`: the findings go to the window. -/
def Window.compared (task : SlotTask) (fetched : Fetched) (w : Window) : Window :=
  let found := compareFilters base58 task fetched
  let w :=
    { w with
      toCourse := w.settle fetched.outcome
      totals := addTotals w.totals (found.map FilterFindings.totals) }
  (found.flatMap FilterFindings.examples).foldl
    (fun w e => w.violation base58 (some e.filter) e.kind task.slot e.signature e.reason) w

/-- `Worker::compare`, but for the rows that it writes; nothing happens once the window is gone. -/
def FilterAudit.compare (task : SlotTask) (fetched : Fetched) (a : FilterAudit) : FilterAudit :=
  a.withWindow task.key (Window.compared base58 task fetched)

end Compare

/-- `Worker::unchecked` -/
def FilterAudit.unchecked (task : SlotTask) (a : FilterAudit) : FilterAudit :=
  a.withWindow task.key fun w => { w with toCourse := w.settle .unchecked }

/-- The findings do not touch the course any further. -/
theorem Window.toCourse_compared (base58 : List UInt8 → String) (task : SlotTask)
    (fetched : Fetched) (w : Window) :
    (w.compared base58 task fetched).toCourse = w.toCourse.settle fetched.outcome := by
  have hfold : ∀ (es : List ViolationExample) (v : Window),
      (es.foldl (fun v e => v.violation base58 (some e.filter) e.kind task.slot e.signature
        e.reason) v).toCourse = v.toCourse := by
    intro es
    induction es with
    | nil => intro v; rfl
    | cons e es ih =>
      intro v
      rw [List.foldl_cons, ih, Window.toCourse_violation]
  exact hfold _ _

/-- A comparison settles a task of its window. -/
theorem FilterAudit.course_compare (base58 : List UInt8 → String) (task : SlotTask)
    (fetched : Fetched) (a : FilterAudit) (key : WindowKey) :
    (a.compare base58 task fetched).course key =
      if key = task.key then (a.course task.key).map (Course.settle fetched.outcome)
      else a.course key :=
  course_withWindow (fun w _ => Window.toCourse_compared base58 task fetched w) key

/-- Giving a task up settles a task of its window, too. -/
theorem FilterAudit.course_unchecked (task : SlotTask) (a : FilterAudit) (key : WindowKey) :
    (a.unchecked task).course key =
      if key = task.key then (a.course task.key).map (Course.settle .unchecked)
      else a.course key :=
  course_withWindow (fun _ _ => rfl) key

/-! ### The worker -/

/-- What the node answers to `getBlock`. -/
inductive BlockReply
  | block (txs : List TxView)
  | rpcError (code : ℤ)
  | failed

/-- What `fetch` makes of an answer. -/
inductive GetBlock
  | fetched (result : Fetched)
  | notAvailable
  | error

namespace GetBlock

/-- `RPC_SLOT_SKIPPED` -/
def rpcSlotSkipped : ℤ := -32007

/-- `RPC_LONG_TERM_STORAGE_SLOT_SKIPPED` -/
def rpcLongTermStorageSlotSkipped : ℤ := -32009

/-- `RPC_BLOCK_NOT_AVAILABLE` -/
def rpcBlockNotAvailable : ℤ := -32004

end GetBlock

/-- `get_block`, with the distinction of errors that `fetch` makes: the codes of a skipped slot,
then that of a block that is not available. -/
def getBlock : BlockReply → GetBlock
  | .block txs => .fetched (.block ⟨txs⟩)
  | .rpcError code =>
    if code = GetBlock.rpcSlotSkipped ∨ code = GetBlock.rpcLongTermStorageSlotSkipped then
      .fetched .skipped
    else if code = GetBlock.rpcBlockNotAvailable then .notAvailable
    else .error
  | .failed => .error

/-- `Retry` -/
structure Retry where
  /-- The task that waits. -/
  task : SlotTask
  /-- Until when it waits. -/
  notBefore : ℕ

/-- Where the thread of the checker is. -/
inductive Phase
  /-- Between two ticks. -/
  | idle
  /-- In a tick, after so many calls, with the slots still to handle and their tasks. -/
  | ticking (calls : ℕ) (groups : List (ℕ × List SlotTask))
  /-- The thread has ended. -/
  | stopped

/-- Whether the thread is between two ticks. -/
def Phase.isIdle : Phase → Bool
  | idle => true
  | _ => false

/-- `Worker` -/
structure Worker where
  /-- The windows, shared with the sources. -/
  audit : FilterAudit
  /-- How many slots a slot has to be behind the tip. -/
  lagSlots : ℕ
  /-- The tasks to retry. -/
  retries : List Retry
  /-- The last blocks fetched. -/
  cache : List (ℕ × Block)
  /-- Paused until, and the pause to use next time. -/
  backoff : Option (ℕ × ℕ)
  /-- Where the thread is. -/
  phase : Phase

/-- What the clock and the node say while one slot is handled. -/
structure Readings where
  /-- The clock when the pause is looked at. -/
  pausedAt : ℕ
  /-- The clock when tasks are deferred without a pause. -/
  deferredAt : ℕ
  /-- The clock when a call has failed. -/
  failedAt : ℕ
  /-- The clock when a task is put back, by its place among those of the slot. -/
  retriedAt : ℕ → ℕ
  /-- What the node answers, if it is asked. -/
  reply : BlockReply

/-- What a step of the checker reports. -/
inductive CheckEvent
  /-- `take_ready` places the cursor of a window for the first time. -/
  | placed (key : WindowKey) (next : ℕ)
  /-- `take_ready` hands a slot out. -/
  | handed (task : SlotTask)
  /-- A task is compared or given up. -/
  | settled (task : SlotTask)
  /-- A window is emitted. -/
  | emitted (window : FilterAudit.Emitted)

/-- Where `take_ready` places the cursor of a window for the first time, if it does. -/
def Course.placement (n tip : ℕ) (c : Course) : List ℕ :=
  if c.nextCheck = none then ((c.learnTip tip).cursor n tip).toList else []

/-- The windows whose cursor a `take_ready` places for the first time, and where. -/
def FilterAudit.placements (tip : ℕ) (a : FilterAudit) : List (WindowKey × ℕ) :=
  a.windows.entries.flatMap fun e =>
    (e.2.toCourse.placement a.sampleEvery tip).map fun next => (e.1, next)

/-- Put a task to the others of its slot; the slots are in ascending order. -/
def insertTask : List (ℕ × List SlotTask) → SlotTask → List (ℕ × List SlotTask)
  | [], t => [(t.slot, [t])]
  | (slot, tasks) :: rest, t =>
    if t.slot < slot then (t.slot, [t]) :: (slot, tasks) :: rest
    else if t.slot = slot then (slot, tasks ++ [t]) :: rest
    else (slot, tasks) :: insertTask rest t

/-- The tasks by slot, in ascending order of the slots. -/
def groupBySlot (tasks : List SlotTask) : List (ℕ × List SlotTask) := tasks.foldl insertTask []

namespace Worker

/-- `check::spawn` -/
def new (audit : FilterAudit) (lagSlots : ℕ) : Worker where
  audit := audit
  lagSlots := lagSlots
  retries := []
  cache := []
  backoff := none
  phase := .idle

/-- The beginning of `tick`: what is ready and what is due for a retry, by slot. -/
def beginTick (tip now : ℕ) (w : Worker) : Worker × List CheckEvent :=
  match w.phase with
  | .idle =>
    let ready := w.audit.takeReady w.lagSlots tip
    let due := w.retries.filter fun r => r.notBefore ≤ now
    let tasks := ready.2 ++ due.map Retry.task
    ({ w with
        audit := ready.1
        retries := w.retries.filter fun r => ¬ r.notBefore ≤ now
        phase := .ticking 0 (groupBySlot tasks) },
      ((w.audit.placements tip).map fun p => .placed p.1 p.2) ++ ready.2.map .handed)
  | _ => (w, [])

/-- Whether the block of a slot is in the cache. -/
def isCached (slot : ℕ) (w : Worker) : Bool := w.cache.any (·.1 == slot)

/-- `fetch` -/
def fetch (slot : ℕ) (r : Readings) (w : Worker) : Worker × Option Fetched :=
  match w.cache.find? (·.1 == slot) with
  | some cached => (w, some (.block cached.2))
  | none =>
    match getBlock r.reply with
    | .fetched (.block b) =>
      let cache := w.cache ++ [(slot, b)]
      ({ w with
          cache := if blockCache < cache.length then cache.tail else cache
          backoff := none },
        some (.block b))
    | .fetched .skipped => ({ w with backoff := none }, some .skipped)
    | .notAvailable => (w, none)
    | .error =>
      let pause := w.backoff.elim backoffMin Prod.snd
      ({ w with backoff := some (r.failedAt + pause, min (pause * 2) backoffMax) }, none)

/-- Put tasks back for later, until a time for each by its place among them. -/
def putBack (tasks : List SlotTask) (notBefore : ℕ → ℕ) (w : Worker) : Worker :=
  { w with retries := w.retries ++ tasks.zipIdx.map fun t => ⟨t.1, notBefore t.2⟩ }

/-- The tasks that are put back wait with the others. -/
theorem map_task_putBack (tasks : List SlotTask) (notBefore : ℕ → ℕ) (w : Worker) :
    (w.putBack tasks notBefore).retries.map Retry.task = w.retries.map Retry.task ++ tasks := by
  unfold putBack
  dsimp only
  have hback : tasks.zipIdx.map (Retry.task ∘ fun t => ⟨t.1, notBefore t.2⟩) = tasks :=
    List.zipIdx_map_fst 0 tasks
  rw [List.map_append, List.map_map, hback]

/-- Compare all tasks of a slot with what was fetched. -/
def compareAll (base58 : List UInt8 → String) (tasks : List SlotTask) (fetched : Fetched)
    (w : Worker) : Worker :=
  { w with audit := tasks.foldl (fun a task => a.compare base58 task fetched) w.audit }

/-- Give all tasks up. -/
def uncheckAll (tasks : List SlotTask) (w : Worker) : Worker :=
  { w with audit := tasks.foldl (fun a task => a.unchecked task) w.audit }

/-- The rest of the loop of `tick` for a slot that has its turn. -/
def attempt (base58 : List UInt8 → String) (slot : ℕ) (tasks : List SlotTask) (r : Readings)
    (w : Worker) : Worker × List CheckEvent :=
  let attempts := (tasks.map SlotTask.attempts).foldl max 0 + 1
  let fetched := w.fetch slot r
  match fetched.2 with
  | some result => (fetched.1.compareAll base58 tasks result, tasks.map .settled)
  | none =>
    if attempts < maxAttempts then
      (fetched.1.putBack (tasks.map fun task => { task with attempts := attempts })
        (fun i => r.retriedAt i + retryAfter), [])
    else (fetched.1.uncheckAll tasks, tasks.map .settled)

/-- The loop of `tick` on the next slot.  A slot that is not cached waits during a pause and once
enough calls were made, without spending an attempt. -/
def handleGroup (base58 : List UInt8 → String) (r : Readings) (w : Worker) :
    Worker × List CheckEvent :=
  match w.phase with
  | .ticking calls ((slot, tasks) :: rest) =>
    if w.isCached slot then
      { w with phase := .ticking calls rest }.attempt base58 slot tasks r
    else
      let paused := w.backoff.filter fun b => r.pausedAt < b.1
      if paused.isSome ∨ maxCallsPerTick ≤ calls then
        ({ w with phase := .ticking calls rest }.putBack tasks
          (fun _ => paused.elim r.deferredAt Prod.fst), [])
      else { w with phase := .ticking (calls + 1) rest }.attempt base58 slot tasks r
  | _ => (w, [])

/-- The end of `tick`, once all slots are handled. -/
def endTick (tip floor : ℕ) (now : ℤ) (w : Worker) : Worker × List CheckEvent :=
  match w.phase with
  | .ticking _ [] =>
    let done := w.audit.drainViolations.1.takeFinished tip floor now giveUpSecs
    ({ w with audit := done.1, phase := .idle }, done.2.map .emitted)
  | _ => (w, [])

/-- The end of `run`: what still waits is given up, and all windows are emitted. -/
def shutdown (w : Worker) : Worker × List CheckEvent :=
  match w.phase with
  | .idle =>
    let tasks := w.retries.map Retry.task
    let given := { w with retries := [] }.uncheckAll tasks
    let done := given.audit.drainViolations.1.takeAll
    ({ given with audit := done.1, phase := .stopped },
      tasks.map .settled ++ done.2.map .emitted)
  | _ => (w, [])

end Worker

end ShredTools.Audit
