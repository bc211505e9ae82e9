import Mathlib.Data.List.Zip
import Mathlib.Tactic.Common
import ShredTools.Audit.FilterSpec
import ShredTools.Library.KeyedTable

/-!
# One window of the filter audit

A window is the life of one subscription.  It judges the tags of every delivery against the filters
of its bundle, and keeps, for every sampled slot that it can still be checked on, what was delivered
for the slot.  A cursor walks over the sampled slots and hands each of them out once the slot is
old enough.

The fields of a window fall in two: its course, which decides what slots are handed out and with
what deliveries, and its findings on tags and flags.  All slots are 64-bit numbers, whose sums and
products wrap.
-/

namespace ShredTools.Audit

/-- `START_MARGIN` -/
def startMargin : ℕ := 2

/-- `END_MARGIN` -/
def endMargin : ℕ := 3

/-- `VIOLATIONS_PER_KIND` -/
def violationsPerKind : ℕ := 25

/-- `START_WITHOUT_DELIVERY_SLOTS` -/
def startWithoutDeliverySlots : ℕ := 10

/-- `MAX_CURSOR_LAG_SLOTS` -/
def maxCursorLagSlots : ℕ := 600

/-- `MAX_TASKS_PER_WINDOW` -/
def maxTasksPerWindow : ℕ := 32

/-- `SourceKind` -/
inductive SourceKind
  | shred
  | grpc
  | grpcDeshred
  deriving DecidableEq

/-- `SourceKind::label` -/
def SourceKind.label : SourceKind → String
  | shred => "shreds"
  | grpc => "grpc"
  | grpcDeshred => "grpc-deshred"

/-- `commitment_lag` -/
def commitmentLag (kind : SourceKind) (commitment : Option String) : ℕ :=
  if kind = .grpcDeshred then 0
  else if commitment.map String.toLower = some "confirmed" then 4
  else if commitment.map String.toLower = some "finalized" then 40
  else 0

/-- The kinds of violations. -/
inductive ViolationKind
  | tagFalsePositive
  | tagMissing
  | voteFlagMismatch
  | duplicate
  | missed
  | extraInBlock
  | extraNotInBlock
  deriving DecidableEq

/-- The name of a kind of violation in a report. -/
def ViolationKind.label : ViolationKind → String
  | tagFalsePositive => "tag_false_positive"
  | tagMissing => "tag_missing"
  | voteFlagMismatch => "vote_flag_mismatch"
  | duplicate => "duplicate"
  | missed => "missed"
  | extraInBlock => "extra_in_block"
  | extraNotInBlock => "extra_not_in_block"

/-- `ViolationRow`, but for its timestamps. -/
structure ViolationRow where
  /-- The source of the window. -/
  source : String
  /-- The kind of the source. -/
  kind : String
  /-- The bundle of the window. -/
  bundle : String
  /-- The filter that is concerned, or a star. -/
  filter : String
  /-- The slot of the transaction. -/
  slot : ℕ
  /-- The signature of the transaction, in base58. -/
  signature : String
  /-- What is violated. -/
  violation : String
  /-- Why it is. -/
  reason : String
  deriving DecidableEq

/-- `WindowInfo` -/
structure WindowInfo where
  /-- The name of the source. -/
  source : String
  /-- The kind of the source. -/
  kind : SourceKind
  /-- The commitment that the source subscribes with. -/
  commitment : Option String
  /-- The filters that it subscribes with. -/
  bundle : Bundle

/-- `CheckTotals` -/
structure CheckTotals where
  /-- Transactions of the blocks that the filter accepts. -/
  expected : ℕ
  /-- Transactions delivered with the tag of the filter. -/
  delivered : ℕ
  /-- Transactions that are both. -/
  matched : ℕ
  /-- Expected ones that were not delivered. -/
  missed : ℕ
  /-- Delivered ones that are in the block, but that the filter rejects. -/
  extraInBlock : ℕ
  /-- Delivered ones that are not in the block. -/
  extraNotInBlock : ℕ
  deriving DecidableEq

namespace CheckTotals

/-- `CheckTotals::default` -/
def default : CheckTotals := ⟨0, 0, 0, 0, 0, 0⟩

/-- `CheckTotals::add` -/
def add (t o : CheckTotals) : CheckTotals where
  expected := t.expected + o.expected
  delivered := t.delivered + o.delivered
  matched := t.matched + o.matched
  missed := t.missed + o.missed
  extraInBlock := t.extraInBlock + o.extraInBlock
  extraNotInBlock := t.extraNotInBlock + o.extraNotInBlock

end CheckTotals

/-- `WindowKey`: a source and the number of its connection. -/
abbrev WindowKey := ℕ × ℕ

/-- The filters that a delivery was made for, one bit each. -/
abbrev Mask := BitVec 32

/-- What was delivered for one slot: the signatures, each with its mask. -/
abbrev Deliveries := AList fun _ : Signature => Mask

/-- `SlotTask` -/
structure SlotTask where
  /-- The window that hands the slot out. -/
  key : WindowKey
  /-- The slot to check. -/
  slot : ℕ
  /-- The filters of the window. -/
  bundle : Bundle
  /-- What the window delivered for the slot. -/
  deliveries : Deliveries
  /-- How often the block was asked for in vain. -/
  attempts : ℕ

/-- `div_ceil` -/
def divCeil (x n : ℕ) : ℕ := if x % n > 0 then x / n + 1 else x / n

/-- The first multiple of `n` from `x` on, unless it wraps. -/
def roundUp (n x : ℕ) : ℕ := divCeil x n * n % u64Size

/-- The course of a window: the fields of `Window` that decide what is handed out and counted. -/
structure Course where
  /-- What the window was opened with. -/
  info : WindowInfo
  /-- How many slots the commitment of the source lags. -/
  commitmentLag : ℕ
  /-- The tip when the subscription went live, or the first one seen after it. -/
  tipOpen : Option ℕ
  /-- Whether the subscription is live. -/
  subscribed : Bool
  /-- The tip when the window was closed. -/
  tipClose : Option ℕ
  /-- When the window was closed, in nanoseconds. -/
  endedAt : Option ℤ
  /-- Why the window was closed. -/
  endReason : Option String
  /-- The number of deliveries. -/
  delivered : ℕ
  /-- The slot of the first delivery. -/
  firstDeliveredSlot : Option ℕ
  /-- The highest slot delivered. -/
  maxDeliveredSlot : ℕ
  /-- What was delivered for the sampled slots still ahead. -/
  sampled : AList fun _ : ℕ => Deliveries
  /-- The cursor: the next sampled slot to hand out. -/
  nextCheck : Option ℕ
  /-- The tasks handed out and not yet settled, as a 32-bit number. -/
  inFlight : ℕ
  /-- The slots compared with a block. -/
  slotsChecked : ℕ
  /-- The slots without a block. -/
  slotsSkipped : ℕ
  /-- The sampled slots that were not compared. -/
  slotsUnchecked : ℕ
  /-- The first slot handed out. -/
  auditStart : Option ℕ
  /-- The last slot handed out. -/
  auditEnd : Option ℕ

namespace Course

/-- `Window::new` -/
def new (info : WindowInfo) : Course where
  info := info
  commitmentLag := Audit.commitmentLag info.kind info.commitment
  tipOpen := none
  subscribed := false
  tipClose := none
  endedAt := none
  endReason := none
  delivered := 0
  firstDeliveredSlot := none
  maxDeliveredSlot := 0
  sampled := ∅
  nextCheck := none
  inFlight := 0
  slotsChecked := 0
  slotsSkipped := 0
  slotsUnchecked := 0
  auditStart := none
  auditEnd := none

/-- The opening tip is filled from the first real slot seen after the subscription went live. -/
def learnTip (slot : ℕ) (c : Course) : Course :=
  if c.subscribed ∧ c.tipOpen = none ∧ 0 < slot then { c with tipOpen := some slot } else c

/-- `Window::start_slot` -/
def startSlot (c : Course) : Option ℕ :=
  c.tipOpen.map fun tip => (max tip (c.firstDeliveredSlot.getD 0) + startMargin) % u64Size

/-- `Window::start_known` -/
def startKnown (tip : ℕ) (c : Course) : Prop :=
  c.firstDeliveredSlot.isSome ∨ c.endedAt.isSome ∨
    ∃ t ∈ c.tipOpen, (t + startWithoutDeliverySlots) % u64Size ≤ tip

instance (tip : ℕ) (c : Course) : Decidable (c.startKnown tip) :=
  inferInstanceAs (Decidable (_ ∨ _ ∨ _))

/-- `Window::end_slot` -/
def endSlot (tip : ℕ) (c : Course) : ℕ :=
  let last := c.tipClose.getD tip - (endMargin + c.commitmentLag)
  if 0 < c.delivered then min last (c.maxDeliveredSlot - 1) else last

/-- What `subscribed` does to a window; tip 0 is "no slot seen yet". -/
def subscribe (tip : ℕ) (c : Course) : Course :=
  { c with tipOpen := if 0 < tip then some tip else none, subscribed := true }

/-- What `close` does to a window. -/
def close (tip : ℕ) (now : ℤ) (reason : String) (c : Course) : Course :=
  { c with tipClose := some tip, endedAt := some now, endReason := some reason }

/-- The counts at the head of `on_delivery`. -/
def countDelivery (slot : ℕ) (c : Course) : Course :=
  let c := learnTip slot
    { c with
      delivered := c.delivered + 1
      firstDeliveredSlot := some (c.firstDeliveredSlot.getD slot) }
  { c with maxDeliveredSlot := max c.maxDeliveredSlot slot }

/-- Whether `on_delivery` keeps a delivery for a sampled slot, by the start known so far. -/
def Keeps (slot : ℕ) (c : Course) : Prop := ∃ start ∈ c.startSlot, start ≤ slot

instance (slot : ℕ) (c : Course) : Decidable (c.Keeps slot) :=
  inferInstanceAs (Decidable (∃ start ∈ c.startSlot, start ≤ slot))

/-- The signatures already there for a slot. -/
def deliveriesFor (slot : ℕ) (c : Course) : Deliveries := (c.sampled.lookup slot).getD ∅

/-- Keep a delivery for a sampled slot. -/
def keep (slot : ℕ) (signature : Signature) (mask : Mask) (c : Course) : Course :=
  { c with sampled := c.sampled.upsert slot ∅ (AList.insert signature mask) }

section TakeReady

variable (sampleEvery lagSlots tip : ℕ) (key : WindowKey)

/-- The slot that a cursor may not fall behind. -/
def floorSlot : ℕ := tip - (lagSlots + maxCursorLagSlots) % u64Size

/-- The part of `take_ready` that pulls a cursor far behind the tip forward; the sampled slots that
it passes over go on record as unchecked. -/
def catchUp (next : ℕ) (c : Course) : ℕ × Course :=
  if next < floorSlot lagSlots tip then
    let jumped := roundUp sampleEvery (floorSlot lagSlots tip)
    let passed := (jumped + u64Size - next) % u64Size
    (jumped, { c with slotsUnchecked := c.slotsUnchecked + passed / sampleEvery })
  else (next, c)

/-- One slot handed out. -/
def handOne (slot : ℕ) (c : Course) : Course :=
  { c with
    sampled := c.sampled.erase slot
    inFlight := (c.inFlight + 1) % u32Size
    auditStart := some (c.auditStart.getD slot)
    auditEnd := some slot }

/-- The task of a slot handed out. -/
def taskFor (slot : ℕ) (c : Course) : SlotTask where
  key := key
  slot := slot
  bundle := c.info.bundle
  deliveries := c.deliveriesFor slot
  attempts := 0

/-- The condition of the loop of `take_ready`, but for the number of slots handed out. -/
def Due (last next : ℕ) : Prop := next ≤ last ∧ (next + lagSlots) % u64Size ≤ tip

instance (last next : ℕ) : Decidable (Due lagSlots tip last next) :=
  inferInstanceAs (Decidable (_ ∧ _))

/-- The loop of `take_ready`, with `room` slots left to hand out. -/
def handOut (last : ℕ) : ℕ → ℕ → Course → ℕ × Course × List SlotTask
  | 0, next, c => (next, c, [])
  | room + 1, next, c =>
    if Due lagSlots tip last next then
      let rest := handOut last room ((next + sampleEvery) % u64Size) (c.handOne next)
      (rest.1, rest.2.1, c.taskFor key next :: rest.2.2)
    else (next, c, [])

/-- The end of `take_ready`: the cursor moves, and what lies behind it is dropped. -/
def moveCursor (cursor : ℕ) (c : Course) : Course :=
  { c with
    nextCheck := some cursor
    sampled := c.sampled.retain fun slot _ => cursor ≤ slot }

/-- `take_ready` from the place of the cursor on. -/
def advance (next : ℕ) (c : Course) : Course × List SlotTask :=
  let last := c.endSlot tip
  let caught := c.catchUp sampleEvery lagSlots tip next
  let handed := handOut sampleEvery lagSlots tip key last maxTasksPerWindow caught.1 caught.2
  (handed.2.1.moveCursor handed.1, handed.2.2)

/-- Where `take_ready` finds or places the cursor, once the opening tip is filled: nowhere, as long
as the start is not settled. -/
def cursor (c : Course) : Option ℕ :=
  if c.nextCheck = none ∧ ¬ c.startKnown tip then none
  else c.startSlot.map fun start => c.nextCheck.getD (roundUp sampleEvery start)

/-- `FilterAudit::take_ready` on one window. -/
def takeReady (c : Course) : Course × List SlotTask :=
  let c := c.learnTip tip
  match c.cursor sampleEvery tip with
  | none => (c, [])
  | some next => c.advance sampleEvery lagSlots tip key next

end TakeReady

/-- The part of `checks_done` of `take_finished` that compares the cursor with the end. -/
def AllHandedOut (tip : ℕ) (c : Course) : Prop :=
  ∀ start ∈ c.startSlot, c.endSlot tip < c.nextCheck.getD start

instance (tip : ℕ) (c : Course) : Decidable (c.AllHandedOut tip) :=
  inferInstanceAs (Decidable (∀ start ∈ c.startSlot, c.endSlot tip < c.nextCheck.getD start))

/-- Whether `take_finished` takes a window. -/
def Finished (tip floor : ℕ) (now : ℤ) (giveUpSecs : ℕ) (c : Course) : Prop :=
  ∃ ended ∈ c.endedAt,
    (c.inFlight = 0 ∧ c.AllHandedOut tip ∧ (c.delivered = 0 ∨ ∀ t ∈ c.tipClose, t < floor)) ∨
      (ended ≤ now ∧ giveUpSecs ≤ (now - ended) / 1000000000)

instance (tip floor : ℕ) (now : ℤ) (giveUpSecs : ℕ) (c : Course) :
    Decidable (c.Finished tip floor now giveUpSecs) :=
  inferInstanceAs (Decidable (∃ ended ∈ c.endedAt, _ ∨ _))

/-- `Window::finished` -/
def finished (c : Course) : Course := { c with slotsUnchecked := c.slotsUnchecked + c.inFlight }

end Course

/-- What the tags of an update say about its filters. -/
structure TagReading where
  /-- Whether the filters are only inferred, as a bundle of several filters came without tags. -/
  inferred : Bool
  /-- The filters that the update was delivered for. -/
  mask : Mask
  /-- How many tags name no filter. -/
  unknown : ℕ

/-- The bit of filter `i`. -/
def filterBit (i : ℕ) : Mask := 1#32 <<< i

/-- The filters that match a transaction. -/
def Bundle.localMask (bundle : Bundle) (tx : TxView) : Mask :=
  bundle.filters.zipIdx.foldl (fun m f => if f.1.matchesTx tx then m ||| filterBit f.2 else m) 0

/-- The filters that some tags name. -/
def Bundle.tagMask (bundle : Bundle) (tags : List String) : Mask :=
  tags.foldl (fun m tag => (bundle.indexOf tag).elim m fun i => m ||| filterBit i) 0

/-- The part of `on_delivery` that reads the tags: without tags a bundle of several filters falls
back to local matching. -/
def Bundle.readTags (bundle : Bundle) (tx : TxView) (tags : List String) : TagReading :=
  if tags = [] then
    if 1 < bundle.filters.length then ⟨true, bundle.localMask tx, 0⟩ else ⟨false, 1, 0⟩
  else ⟨false, bundle.tagMask tags, tags.countP fun tag => (bundle.indexOf tag).isNone⟩

/-- `Window`: a course, and what was found on the way. -/
structure Window extends Course where
  /-- Updates whose filters were inferred. -/
  untaggedUpdates : ℕ
  /-- Tags that name no filter. -/
  unknownTags : ℕ
  /-- Repeated deliveries in a sampled slot. -/
  duplicates : ℕ
  /-- For each filter, the updates delivered for it. -/
  tagged : List ℕ
  /-- For each filter, the updates tagged with it that it rejects. -/
  tagFalsePositive : List ℕ
  /-- For each filter, the updates that it accepts and that lack its tag. -/
  tagMissing : List ℕ
  /-- Updates whose vote flag disagrees with the simple-vote rule. -/
  voteFlagMismatch : ℕ
  /-- For each filter, the sums over the slots compared. -/
  totals : List CheckTotals
  /-- The violations to report. -/
  violations : List ViolationRow
  /-- How many violations were reported, by filter and kind. -/
  violationCounts : AList fun _ : ℕ × ViolationKind => ℕ

namespace Window

/-- `Window::new` -/
def new (info : WindowInfo) : Window where
  toCourse := Course.new info
  untaggedUpdates := 0
  unknownTags := 0
  duplicates := 0
  tagged := List.replicate info.bundle.filters.length 0
  tagFalsePositive := List.replicate info.bundle.filters.length 0
  tagMissing := List.replicate info.bundle.filters.length 0
  voteFlagMismatch := 0
  totals := List.replicate info.bundle.filters.length CheckTotals.default
  violations := []
  violationCounts := ∅

/-- The name of the filter that a report is about, and a star for none.  The source does not expect
a filter that the bundle lacks. -/
def filterName (filter : Option ℕ) (w : Window) : Option String :=
  filter.elim (some "*") fun f => w.info.bundle.filters[f]?.map Filter.name

/-- The number of a filter among the counts of reports, and that for none. -/
def filterId (filter : Option ℕ) : ℕ := filter.elim (u16Size - 1) (· % u16Size)

variable (base58 : List UInt8 → String)

/-- `Window::violation`: report, unless enough was reported of the kind for the filter. -/
def violation (filter : Option ℕ) (kind : ViolationKind) (slot : ℕ) (signature : Signature)
    (reason : String) (w : Window) : Window :=
  let fid := filterId filter
  let reported := (w.violationCounts.lookup (fid, kind)).getD 0
  if violationsPerKind ≤ reported then
    { w with violationCounts := w.violationCounts.insert (fid, kind) reported }
  else
    let rows := (w.filterName filter).toList.map fun name =>
      { source := w.info.source
        kind := w.info.kind.label
        bundle := w.info.bundle.name
        filter := name
        slot := slot
        signature := base58 signature.toList
        violation := kind.label
        reason := reason }
    { w with
      violationCounts := w.violationCounts.insert (fid, kind) (reported + 1)
      violations := w.violations ++ rows }

/-- The body of the loop of `on_delivery` over the filters. -/
def judgeTag (slot : ℕ) (tx : TxView) (tag : TagReading) (w : Window) (f : Filter × ℕ) : Window :=
  let isTagged := tag.mask.getLsbD f.2
  let w := if isTagged then { w with tagged := w.tagged.modify f.2 (· + 1) } else w
  if tag.inferred then w
  else if isTagged && !f.1.matchesTx tx then
    violation base58 (some f.2) .tagFalsePositive slot tx.signature
      ((f.1.mismatch base58 tx).getD "")
      { w with tagFalsePositive := w.tagFalsePositive.modify f.2 (· + 1) }
  else if !isTagged && f.1.matchesTx tx then
    violation base58 (some f.2) .tagMissing slot tx.signature (f.1.matchReason base58 tx)
      { w with tagMissing := w.tagMissing.modify f.2 (· + 1) }
  else w

/-- The loop of `on_delivery` over the filters, with the counts of the tag reading. -/
def judgeTags (slot : ℕ) (tx : TxView) (tag : TagReading) (w : Window) : Window :=
  let w :=
    { w with
      untaggedUpdates := if tag.inferred then w.untaggedUpdates + 1 else w.untaggedUpdates
      unknownTags := w.unknownTags + tag.unknown }
  w.info.bundle.filters.zipIdx.foldl (judgeTag base58 slot tx tag) w

/-- The part of `on_delivery` that compares the server's vote flag with the simple-vote rule. -/
def judgeVoteFlag (slot : ℕ) (tx : TxView) (serverIsVote : Option Bool) (w : Window) : Window :=
  match serverIsVote with
  | some server =>
    if server = tx.isVote then w
    else
      violation base58 none .voteFlagMismatch slot tx.signature
        ("server is_vote=" ++ toString server ++ ", simple-vote rule=" ++ toString tx.isVote ++
          " (signatures=" ++ toString tx.numSignatures ++ ", legacy=" ++ toString tx.legacy ++
          ", instructions=" ++ toString tx.numInstructions ++ ")")
        { w with voteFlagMismatch := w.voteFlagMismatch + 1 }
  | none => w

/-- Whether a delivery is for the sample: the slot is a sampled one, and the transaction is not a
vote that the blocks will lack. -/
def Sampled (sampleEvery : ℕ) (skipVotes : Bool) (slot : ℕ) (tx : TxView) : Prop :=
  (skipVotes && tx.isVote) = false ∧ sampleEvery ∣ slot

instance (sampleEvery : ℕ) (skipVotes : Bool) (slot : ℕ) (tx : TxView) :
    Decidable (Sampled sampleEvery skipVotes slot tx) :=
  inferInstanceAs (Decidable (_ ∧ _))

/-- The end of `on_delivery`: keep the delivery for the check of its slot. -/
def sample (sampleEvery : ℕ) (skipVotes : Bool) (slot : ℕ) (tx : TxView) (mask : Mask)
    (w : Window) : Window :=
  if Sampled sampleEvery skipVotes slot tx ∧ w.Keeps slot then
    let kept := { w with toCourse := w.keep slot tx.signature mask }
    if tx.signature ∈ w.deliveriesFor slot then
      violation base58 none .duplicate slot tx.signature "delivered more than once in this window"
        { kept with duplicates := kept.duplicates + 1 }
    else kept
  else w

/-- `FilterAudit::on_delivery` on the window. -/
def onDelivery (sampleEvery : ℕ) (skipVotes : Bool) (slot : ℕ) (tx : TxView) (tags : List String)
    (serverIsVote : Option Bool) (w : Window) : Window :=
  let tag := w.info.bundle.readTags tx tags
  let w := { w with toCourse := w.countDelivery slot }
  let w := w.judgeTags base58 slot tx tag
  let w := w.judgeVoteFlag base58 slot tx serverIsVote
  w.sample base58 sampleEvery skipVotes slot tx tag.mask

section Findings

variable {base58 : List UInt8 → String}

/-- A report leaves the course alone. -/
@[simp] theorem toCourse_violation (filter : Option ℕ) (kind : ViolationKind) (slot : ℕ)
    (signature : Signature) (reason : String) (w : Window) :
    (w.violation base58 filter kind slot signature reason).toCourse = w.toCourse := by
  unfold violation
  dsimp only
  split <;> rfl

/-- The verdict on one tag does not touch the course. -/
lemma toCourse_judgeTag (slot : ℕ) (tx : TxView) (tag : TagReading) (w : Window)
    (f : Filter × ℕ) : (w.judgeTag base58 slot tx tag f).toCourse = w.toCourse := by
  unfold judgeTag
  dsimp only
  split_ifs <;> simp

/-- The verdicts on all tags do not touch the course. -/
@[simp] lemma toCourse_judgeTags (slot : ℕ) (tx : TxView) (tag : TagReading) (w : Window) :
    (w.judgeTags base58 slot tx tag).toCourse = w.toCourse := by
  have hfold : ∀ (fs : List (Filter × ℕ)) (v : Window),
      (fs.foldl (judgeTag base58 slot tx tag) v).toCourse = v.toCourse := by
    intro fs
    induction fs with
    | nil => intro v; rfl
    | cons f fs ih =>
      intro v
      rw [List.foldl_cons, ih, toCourse_judgeTag]
  exact hfold _ _

/-- The verdict on the vote flag does not touch the course. -/
@[simp] lemma toCourse_judgeVoteFlag (slot : ℕ) (tx : TxView) (serverIsVote : Option Bool)
    (w : Window) : (w.judgeVoteFlag base58 slot tx serverIsVote).toCourse = w.toCourse := by
  unfold judgeVoteFlag
  split
  · split_ifs <;> simp
  · rfl

end Findings

end Window

namespace Course

/-- What a delivery does to the course of a window. -/
def deliver (sampleEvery : ℕ) (skipVotes : Bool) (slot : ℕ) (tx : TxView) (mask : Mask)
    (c : Course) : Course :=
  let c := c.countDelivery slot
  if Window.Sampled sampleEvery skipVotes slot tx ∧ c.Keeps slot then
    c.keep slot tx.signature mask
  else c

end Course

/-- The verdicts of `on_delivery` do not touch the course. -/
theorem Window.toCourse_onDelivery (base58 : List UInt8 → String) (sampleEvery : ℕ)
    (skipVotes : Bool) (slot : ℕ) (tx : TxView) (tags : List String) (serverIsVote : Option Bool)
    (w : Window) :
    (w.onDelivery base58 sampleEvery skipVotes slot tx tags serverIsVote).toCourse =
      w.toCourse.deliver sampleEvery skipVotes slot tx (w.info.bundle.readTags tx tags).mask := by
  unfold onDelivery sample Course.deliver
  dsimp only
  rw [toCourse_judgeVoteFlag, toCourse_judgeTags]
  split_ifs <;> simp

end ShredTools.Audit
