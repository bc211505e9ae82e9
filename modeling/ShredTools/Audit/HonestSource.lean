import ShredTools.Audit.CheckerUpholds
import ShredTools.Audit.FilterMissed

/-!
# Honest sources

The reports of the audit accuse a source: of wrong or missing tags, of a wrong vote flag, of a
transaction that comes twice, that is not in its block, or that no filter asks for.  An honest
source shows transactions of the confirmed chain, each once, under the filters that accept it
(`HonestDelivery`).  It need not show all of them, and a source that cannot know whether a
transaction failed need not say so, as long as no filter of its bundle asks.

Such a source is never accused: whatever it leaves out, however the steps of the sources and of the
checker interleave, and however often the node gives no answer, what a window counts against its
source stays zero, and the only violations that it reports are misses (`honest_not_accused`).  All
along, the deliveries that are kept for a slot or wait in a task are genuine (`Genuine`), and the
cache holds blocks of the chain.
-/

namespace ShredTools.Audit

/-! ### Honesty -/

/-- What a source shows of a confirmed transaction: all of it, but it may not know whether the
transaction failed, if no filter of its bundle asks. -/
structure TxView.Shows (bundle : Bundle) (seen confirmed : TxView) : Prop where
  /-- All else is the same. -/
  same : { seen with failed := confirmed.failed } = confirmed
  /-- The outcome is the same, or nobody asks. -/
  failed : seen.failed = confirmed.failed ∨ ∀ f ∈ bundle.filters, f.usesFailed = false

/-- A delivery by an honest source.  Votes that the blocks will lack are excused. -/
structure HonestDelivery (chain : Chain) (skipVotes : Bool) (bundle : Bundle) (slot : ℕ)
    (tx : TxView) (tags : List String) (serverIsVote : Option Bool) : Prop where
  /-- The transaction is in the block of the slot. -/
  confirmed : (skipVotes && tx.isVote) = false →
    ∃ block ∈ chain slot, ∃ confirmed ∈ block.find tx.signature, tx.Shows bundle confirmed
  /-- The tags are the names of the filters that accept it. -/
  tagged : tags ≠ [] → ∀ name, name ∈ tags ↔
    ∃ f ∈ bundle.filters, f.name = name ∧ f.matchesTx tx = true
  /-- Without tags it was accepted by the filter, if there is only one. -/
  untagged : tags = [] → ∀ f, bundle.filters = [f] → f.matchesTx tx = true
  /-- The vote flag follows the simple-vote rule. -/
  vote : ∀ server ∈ serverIsVote, server = tx.isVote

/-- A filter that does not ask for the outcome ignores it. -/
lemma Filter.mismatch_withFailed {f : Filter} (hf : f.usesFailed = false)
    (base58 : List UInt8 → String) (failed : Option Bool) (tx : TxView) :
    f.mismatch base58 { tx with failed := failed } = f.mismatch base58 tx := by
  have hnone : f.cfg.failed = none :=
    Option.isNone_iff_eq_none.mp (Option.isSome_eq_false_iff.mp hf)
  have hfailed : ∀ tx, f.failedMismatch tx = none := by
    intro tx
    unfold Filter.failedMismatch
    rw [hnone]
  unfold Filter.mismatch
  rw [hfailed, hfailed]
  rfl

/-- A filter of the bundle judges what is shown as it judges what is confirmed. -/
theorem TxView.Shows.mismatch_eq {bundle : Bundle} {seen confirmed : TxView}
    (h : seen.Shows bundle confirmed) {f : Filter} (hf : f ∈ bundle.filters)
    (base58 : List UInt8 → String) : f.mismatch base58 confirmed = f.mismatch base58 seen := by
  rw [← h.same]
  rcases h.failed with heq | hnone
  · rw [← heq]
  · exact Filter.mismatch_withFailed (hnone f hf) base58 _ _

theorem TxView.Shows.matchesTx_eq {bundle : Bundle} {seen confirmed : TxView}
    (h : seen.Shows bundle confirmed) {f : Filter} (hf : f ∈ bundle.filters) :
    f.matchesTx confirmed = f.matchesTx seen := by
  unfold Filter.matchesTx
  rw [h.mismatch_eq hf]

namespace HonestDelivery

variable {chain : Chain} {skipVotes : Bool} {bundle : Bundle} {slot : ℕ} {tx : TxView}
  {tags : List String} {serverIsVote : Option Bool}

/-- An honest delivery carries exactly the filters that accept it. -/
lemma carries_eq (h : HonestDelivery chain skipVotes bundle slot tx tags serverIsVote)
    (hnd : (bundle.filters.map Filter.name).Nodup) {i : ℕ} {f : Filter}
    (hf : bundle.filters[i]? = some f) : bundle.Carries i tx tags = f.matchesTx tx := by
  have hmem : f ∈ bundle.filters := List.mem_of_getElem? hf
  by_cases htags : tags = []
  · subst htags
    by_cases hmany : 1 < bundle.filters.length
    · unfold Bundle.Carries Bundle.Inferred
      simp [hmany, hf]
    · obtain ⟨g, hg⟩ := List.length_eq_one_iff.mp
        (Nat.le_antisymm (Nat.not_lt.mp hmany) (List.length_pos_of_ne_nil bundle.nonempty))
      have hone : i = 0 ∧ g = f := by
        rw [hg, List.getElem?_singleton] at hf
        split at hf
        next hi => exact ⟨hi, Option.some.inj hf⟩
        next => cases hf
      have hmatch := h.untagged rfl g hg
      obtain ⟨rfl, rfl⟩ := hone
      unfold Bundle.Carries Bundle.Inferred
      simp [hmany, hmatch]
  · rw [Bool.eq_iff_iff, Bundle.carries_iff_mem hnd hf htags, h.tagged htags]
    constructor
    · rintro ⟨g, hg, hname, hmatch⟩
      rwa [List.inj_on_of_nodup_map hnd hg hmem hname] at hmatch
    · exact fun hmatch => ⟨f, hmem, rfl, hmatch⟩

/-- An honest delivery names no unknown filter. -/
lemma unknown_eq_zero (h : HonestDelivery chain skipVotes bundle slot tx tags serverIsVote) :
    (bundle.readTags tx tags).unknown = 0 := by
  unfold Bundle.readTags
  split
  · split <;> rfl
  next htags =>
    refine List.countP_eq_zero.mpr fun tag htag hnone => ?_
    obtain ⟨f, hf, hname, -⟩ := (h.tagged htags tag).mp htag
    have hfound := List.findIdx?_eq_none_iff.mp (Option.isNone_iff_eq_none.mp hnone) f hf
    rw [hname, beq_self_eq_true] at hfound
    cases hfound

end HonestDelivery

/-! ### Genuine deliveries -/

/-- The deliveries of a slot are genuine: each is in the block, and has the bits of the filters that
accept it. -/
def Genuine (chain : Chain) (bundle : Bundle) (slot : ℕ) (deliveries : Deliveries) : Prop :=
  ∀ signature, ∀ mask ∈ deliveries.lookup signature,
    ∃ block ∈ chain slot, ∃ tx ∈ block.find signature,
      ∀ i, ∀ f ∈ bundle.filters[i]?, mask.getLsbD i = f.matchesTx tx

/-- Fewer deliveries are genuine, too. -/
theorem Genuine.mono {chain : Chain} {bundle : Bundle} {slot : ℕ} {m m' : Deliveries}
    (h : Genuine chain bundle slot m)
    (hsub : ∀ signature, ∀ mask ∈ m'.lookup signature, mask ∈ m.lookup signature) :
    Genuine chain bundle slot m' :=
  fun signature mask hmask => h signature mask (hsub signature mask hmask)

lemma genuine_empty (chain : Chain) (bundle : Bundle) (slot : ℕ) :
    Genuine chain bundle slot ∅ := by
  intro signature mask hmask
  rw [AList.lookup_empty] at hmask
  cases hmask

/-- What a task waits to compare is genuine. -/
def SlotTask.IsGenuine (chain : Chain) (task : SlotTask) : Prop :=
  Genuine chain task.bundle task.slot task.deliveries

section Comparison

variable {base58 : List UInt8 → String} {chain : Chain} {task : SlotTask} {i : ℕ} {f : Filter}

/-- What a genuine task has for a filter is in the block, and the filter accepts it. -/
lemma SlotTask.IsGenuine.of_mem (h : task.IsGenuine chain)
    (hf : task.bundle.filters[i]? = some f) {signature : Signature}
    (hmem : signature ∈ task.deliveredFor i) :
    ∃ block ∈ chain task.slot, ∃ tx ∈ block.find signature, f.matchesTx tx = true := by
  obtain ⟨e, he, rfl⟩ := List.mem_map.mp hmem
  obtain ⟨hentry, hbit⟩ := List.mem_filter.mp he
  rw [hasBit_eq] at hbit
  obtain ⟨block, hblock, tx, htx, haccept⟩ :=
    h e.1 e.2 (AList.mem_entries_iff_lookup.mp hentry)
  exact ⟨block, hblock, tx, htx, (haccept i f hf).symm.trans hbit⟩

/-- For a slot that was skipped a genuine task has nothing. -/
theorem SlotTask.IsGenuine.deliveredFor_eq_nil (h : task.IsGenuine chain)
    (hf : task.bundle.filters[i]? = some f) (hnone : chain task.slot = none) :
    task.deliveredFor i = [] := by
  refine List.eq_nil_iff_forall_not_mem.mpr fun s hs => ?_
  obtain ⟨block, hblock, -⟩ := h.of_mem hf hs
  rw [Option.mem_def, hnone] at hblock
  cases hblock

/-- Otherwise it has what is found in the block. -/
theorem SlotTask.IsGenuine.find_of_mem (h : task.IsGenuine chain)
    (hf : task.bundle.filters[i]? = some f) {b : Block} (hb : chain task.slot = some b) :
    ∀ s ∈ task.deliveredFor i, ∃ tx ∈ b.find s, f.matchesTx tx = true := by
  intro s hs
  obtain ⟨block, hblock, htx⟩ := h.of_mem hf hs
  rw [Option.mem_def, hb] at hblock
  rwa [Option.some.inj hblock]

/-- A delivery that the filter accepts in the block is no finding. -/
theorem FilterFindings.foldl_lookUp_eq {b : Block} {sigs : List Signature}
    (h : ∀ s ∈ sigs, ∃ tx ∈ b.find s, f.matchesTx tx = true) (found : FilterFindings) :
    sigs.foldl (FilterFindings.lookUp base58 b i f) found = found := by
  induction sigs with
  | nil => rfl
  | cons s sigs ih =>
    obtain ⟨⟨tx, htx, hmatch⟩, hsigs⟩ := List.forall_mem_cons.mp h
    have hnone : f.mismatch base58 tx = none :=
      Filter.mismatch_eq_none_iff.mpr (Filter.matchesTx_iff.mp hmatch)
    have hsame : found.lookUp base58 b i f s = found := by
      unfold FilterFindings.lookUp
      rw [Option.mem_def.mp htx]
      dsimp only
      rw [hnone]
    rw [List.foldl_cons, hsame]
    exact ih hsigs

/-- Going through the expected transactions finds misses only. -/
lemma FilterFindings.kind_of_mem_foldl_expect {txs : List TxView} {found : FilterFindings}
    (hfound : ∀ e ∈ found.examples, e.kind = .missed) :
    ∀ e ∈ (txs.foldl (FilterFindings.expect base58 task i f) found).examples,
      e.kind = .missed := by
  induction txs generalizing found with
  | nil => exact hfound
  | cons tx txs ih =>
    refine ih ?_
    unfold FilterFindings.expect
    dsimp only
    split
    · exact hfound
    · split
      · intro e he
        rcases List.mem_append.mp he with he | he
        · exact hfound e he
        · rw [List.mem_singleton.mp he]
      · exact hfound

/-- What is held against the source in the findings for a filter: nothing. -/
structure FilterFindings.Harmless (found : FilterFindings) : Prop where
  /-- No delivery is rejected. -/
  extraInBlock : found.totals.extraInBlock = 0
  /-- No delivery is not in the block. -/
  extraNotInBlock : found.totals.extraNotInBlock = 0
  /-- The examples are of misses. -/
  missed : ∀ e ∈ found.examples, e.kind = .missed

/-- **The comparison of a genuine task with the chain finds misses only.** -/
theorem harmless_compareFilter (htask : task.IsGenuine chain)
    (hf : task.bundle.filters[i]? = some f) {fetched : Fetched}
    (hfetched : fetched.Confirmed chain task.slot) :
    (compareFilter base58 task fetched i f).Harmless := by
  cases fetched with
  | skipped =>
    have hnil := htask.deliveredFor_eq_nil hf hfetched
    unfold compareFilter
    dsimp only
    rw [hnil]
    exact ⟨rfl, rfl, fun e he => absurd he List.not_mem_nil⟩
  | block b =>
    have hfound := htask.find_of_mem hf hfetched
    unfold compareFilter
    dsimp only
    rw [FilterFindings.foldl_lookUp_eq hfound]
    refine ⟨?_, ?_, FilterFindings.kind_of_mem_foldl_expect fun e he => absurd he List.not_mem_nil⟩
    · rw [totals_foldl_expect]
      rfl
    · rw [totals_foldl_expect]
      rfl

end Comparison

/-! ### Windows -/

/-- A window holds nothing against its source, except for what it lacks. -/
structure Window.Blameless (w : Window) : Prop where
  /-- All tags were known. -/
  unknownTags : w.unknownTags = 0
  /-- Nothing came twice. -/
  duplicates : w.duplicates = 0
  /-- No tag was wrong. -/
  tagFalsePositive : ∀ count ∈ w.tagFalsePositive, count = 0
  /-- No tag was missing. -/
  tagMissing : ∀ count ∈ w.tagMissing, count = 0
  /-- All vote flags were right. -/
  voteFlagMismatch : w.voteFlagMismatch = 0
  /-- No delivery was rejected, and all were in their blocks. -/
  totals : ∀ t ∈ w.totals, t.extraInBlock = 0 ∧ t.extraNotInBlock = 0
  /-- Only misses are reported. -/
  missed : ∀ r ∈ w.violations, r.violation = ViolationKind.missed.label

namespace Window

variable {base58 : List UInt8 → String} {w : Window}

lemma blameless_new (info : WindowInfo) : (new info).Blameless where
  unknownTags := rfl
  duplicates := rfl
  tagFalsePositive _ hcount := List.eq_of_mem_replicate hcount
  tagMissing _ hcount := List.eq_of_mem_replicate hcount
  voteFlagMismatch := rfl
  totals t ht := by
    rw [List.eq_of_mem_replicate ht]
    exact ⟨rfl, rfl⟩
  missed _ hr := absurd hr List.not_mem_nil

/-- The course of a window has no part in it. -/
theorem Blameless.withCourse (h : w.Blameless) (c : Course) :
    { w with toCourse := c }.Blameless :=
  ⟨h.unknownTags, h.duplicates, h.tagFalsePositive, h.tagMissing, h.voteFlagMismatch, h.totals,
    h.missed⟩

/-- A miss may be reported. -/
theorem Blameless.violation (h : w.Blameless) {filter : Option ℕ} {kind : ViolationKind}
    (hkind : kind = .missed) (slot : ℕ) (signature : Signature) (reason : String) :
    (w.violation base58 filter kind slot signature reason).Blameless := by
  subst hkind
  unfold Window.violation
  dsimp only
  split
  · exact ⟨h.unknownTags, h.duplicates, h.tagFalsePositive, h.tagMissing, h.voteFlagMismatch,
      h.totals, h.missed⟩
  · refine ⟨h.unknownTags, h.duplicates, h.tagFalsePositive, h.tagMissing, h.voteFlagMismatch,
      h.totals, fun r hr => ?_⟩
    rcases List.mem_append.mp hr with hr | hr
    · exact h.missed r hr
    · obtain ⟨name, -, rfl⟩ := List.mem_map.mp hr
      rfl

/-- The verdict on a filter whose bit says whether it accepts the transaction. -/
lemma judgeTag_eq (w : Window) (base58 : List UInt8 → String) (slot : ℕ) {tx : TxView}
    {tag : TagReading} {f : Filter × ℕ} (hbit : tag.mask.getLsbD f.2 = f.1.matchesTx tx) :
    ∃ tagged, w.judgeTag base58 slot tx tag f = { w with tagged := tagged } := by
  unfold judgeTag
  dsimp only
  rw [hbit]
  cases f.1.matchesTx tx with
  | true =>
    simp only [Bool.not_true, Bool.and_false, Bool.false_and, Bool.false_eq_true, if_false,
      if_true, ite_self]
    exact ⟨_, rfl⟩
  | false =>
    simp only [Bool.not_false, Bool.and_false, Bool.false_and, Bool.false_eq_true, if_false,
      ite_self]
    exact ⟨_, rfl⟩

/-- The verdict on an honest delivery. -/
lemma judgeTags_eq (w : Window) (base58 : List UInt8 → String) (slot : ℕ) {tx : TxView}
    {tag : TagReading} (hunknown : tag.unknown = 0)
    (hbits : ∀ f ∈ w.info.bundle.filters.zipIdx, tag.mask.getLsbD f.2 = f.1.matchesTx tx) :
    ∃ tagged untagged, w.judgeTags base58 slot tx tag =
      { w with tagged := tagged, untaggedUpdates := untagged } := by
  have hfold : ∀ (fs : List (Filter × ℕ)),
      (∀ f ∈ fs, tag.mask.getLsbD f.2 = f.1.matchesTx tx) → ∀ v : Window,
        ∃ tagged, fs.foldl (judgeTag base58 slot tx tag) v = { v with tagged := tagged } := by
    intro fs
    induction fs with
    | nil => exact fun _ v => ⟨_, rfl⟩
    | cons f fs ih =>
      intro hfs v
      obtain ⟨hf, hfs⟩ := List.forall_mem_cons.mp hfs
      obtain ⟨tagged, htagged⟩ := judgeTag_eq v base58 slot hf
      rw [List.foldl_cons, htagged]
      exact ih hfs _
  unfold judgeTags
  rw [hunknown]
  obtain ⟨tagged, htagged⟩ := hfold _ hbits _
  exact ⟨tagged, _, htagged⟩

/-- A vote flag that follows the rule is not counted. -/
lemma judgeVoteFlag_eq {slot : ℕ} {tx : TxView} {serverIsVote : Option Bool}
    (h : ∀ server ∈ serverIsVote, server = tx.isVote) :
    w.judgeVoteFlag base58 slot tx serverIsVote = w := by
  unfold judgeVoteFlag
  cases serverIsVote with
  | none => rfl
  | some server => exact if_pos (h server rfl)

/-- A first delivery is kept without a report. -/
lemma sample_eq (w : Window) (base58 : List UInt8 → String) (n : ℕ) (skipVotes : Bool)
    {slot : ℕ} {tx : TxView} (mask : Mask) (hfresh : tx.signature ∉ w.deliveriesFor slot) :
    ∃ c, w.sample base58 n skipVotes slot tx mask = { w with toCourse := c } := by
  unfold sample
  dsimp only
  rw [if_neg hfresh]
  split
  · exact ⟨_, rfl⟩
  · exact ⟨w.toCourse, rfl⟩

/-- **What an honest delivery that comes for the first time does to a window**: it takes its course,
and is counted for the filters that it carries. -/
theorem onDelivery_eq (base58 : List UInt8 → String) (n : ℕ) {chain : Chain} {skipVotes : Bool}
    {slot : ℕ} {tx : TxView} {tags : List String} {serverIsVote : Option Bool}
    (hnd : (w.info.bundle.filters.map Filter.name).Nodup)
    (hhonest : HonestDelivery chain skipVotes w.info.bundle slot tx tags serverIsVote)
    (hfresh : tx.signature ∉ w.deliveriesFor slot) :
    ∃ c tagged untagged, w.onDelivery base58 n skipVotes slot tx tags serverIsVote =
      { w with toCourse := c, tagged := tagged, untaggedUpdates := untagged } := by
  have hinfo : (w.countDelivery slot).info = w.info := Course.info_learnTip slot _
  have hbits : ∀ f ∈ { w with toCourse := w.countDelivery slot }.info.bundle.filters.zipIdx,
      (w.info.bundle.readTags tx tags).mask.getLsbD f.2 = f.1.matchesTx tx := by
    intro f hf
    dsimp only at hf
    rw [hinfo] at hf
    rw [Bundle.getLsbD_readTags]
    exact hhonest.carries_eq hnd (List.mem_zipIdx_iff_getElem?.mp hf)
  obtain ⟨tagged, untagged, hjudged⟩ :=
    judgeTags_eq { w with toCourse := w.countDelivery slot } base58 slot
      hhonest.unknown_eq_zero hbits
  unfold onDelivery
  dsimp only
  rw [judgeVoteFlag_eq hhonest.vote, hjudged]
  have hkept : tx.signature ∉ (w.countDelivery slot).deliveriesFor slot := by
    rwa [Course.deliveriesFor_countDelivery]
  obtain ⟨c, hsampled⟩ := sample_eq
    { { w with toCourse := w.countDelivery slot } with
      tagged := tagged, untaggedUpdates := untagged }
    base58 n skipVotes (w.info.bundle.readTags tx tags).mask hkept
  exact ⟨c, tagged, untagged, hsampled⟩

/-- Totals have a property that sums have, if what is added has it. -/
theorem forall_mem_addTotals {p : CheckTotals → Prop} (hdefault : p .default)
    (hadd : ∀ t o, p t → p o → p (t.add o)) {ts os : List CheckTotals} (hts : ∀ t ∈ ts, p t)
    (hos : ∀ o ∈ os, p o) : ∀ t ∈ addTotals ts os, p t := by
  intro t ht
  obtain ⟨i, hi⟩ := List.mem_iff_getElem?.mp ht
  rw [getElem?_addTotals] at hi
  obtain ⟨t', ht', rfl⟩ := Option.map_eq_some_iff.mp hi
  refine hadd _ _ (hts t' (List.mem_of_getElem? ht')) ?_
  cases ho : os[i]? with
  | none => exact hdefault
  | some o => exact hos o (List.mem_of_getElem? ho)

/-- **A comparison with harmless findings leaves a window without blame.** -/
theorem Blameless.compared (h : w.Blameless) {task : SlotTask} {fetched : Fetched}
    (hfindings : ∀ i f, task.bundle.filters[i]? = some f →
      (compareFilter base58 task fetched i f).Harmless) :
    (w.compared base58 task fetched).Blameless := by
  have hfold : ∀ (es : List ViolationExample), (∀ e ∈ es, e.kind = .missed) →
      ∀ v : Window, v.Blameless →
        (es.foldl (fun v e => v.violation base58 (some e.filter) e.kind task.slot e.signature
          e.reason) v).Blameless := by
    intro es
    induction es with
    | nil => exact fun _ v hv => hv
    | cons e es ih =>
      intro hes v hv
      obtain ⟨he, hes⟩ := List.forall_mem_cons.mp hes
      exact ih hes _ (hv.violation he task.slot e.signature e.reason)
  have hharmless : ∀ found ∈ compareFilters base58 task fetched, found.Harmless := by
    intro found hfound
    obtain ⟨f, hf, rfl⟩ := List.mem_map.mp hfound
    exact hfindings f.2 f.1 (List.mem_zipIdx_iff_getElem?.mp hf)
  have htotals : ∀ t ∈ addTotals w.totals
      ((compareFilters base58 task fetched).map FilterFindings.totals),
      t.extraInBlock = 0 ∧ t.extraNotInBlock = 0 := by
    refine forall_mem_addTotals ⟨rfl, rfl⟩ (fun t o ht ho => ?_) h.totals fun o ho => ?_
    · exact ⟨by simp [CheckTotals.add, ht.1, ho.1], by simp [CheckTotals.add, ht.2, ho.2]⟩
    · obtain ⟨found, hfound, rfl⟩ := List.mem_map.mp ho
      exact ⟨(hharmless found hfound).extraInBlock, (hharmless found hfound).extraNotInBlock⟩
  unfold Window.compared
  dsimp only
  refine hfold _ (fun e he => ?_) _ ⟨h.unknownTags, h.duplicates, h.tagFalsePositive, h.tagMissing,
    h.voteFlagMismatch, htotals, h.missed⟩
  obtain ⟨found, hfound, he⟩ := List.mem_flatMap.mp he
  exact (hharmless found hfound).missed e he

end Window

/-! ### What is kept of the deliveries -/

/-- A delivery that was made: the window, the slot and the signature. -/
abbrev Shown := WindowKey × ℕ × Signature

namespace Course

variable {n lagSlots tip : ℕ} {key : WindowKey} {c : Course} {chain : Chain} {shown : List Shown}

/-- Handing a slot out leaves no more deliveries than before. -/
lemma lookup_of_handOne {slot next : ℕ} {signature : Signature} {mask : Mask}
    (h : ((c.handOne next).deliveriesFor slot).lookup signature = some mask) :
    (c.deliveriesFor slot).lookup signature = some mask := by
  by_cases heq : slot = next
  · have hnone : (c.handOne next).deliveriesFor slot = ∅ := by
      unfold deliveriesFor handOne
      rw [heq, AList.lookup_erase]
      rfl
    rw [hnone, AList.lookup_empty] at h
    cases h
  · rwa [deliveriesFor_handOne heq] at h

/-- What a task is handed out with was kept for its slot. -/
lemma lookup_of_mem_handOut {last room next : ℕ} {t : SlotTask}
    (ht : t ∈ (handOut n lagSlots tip key last room next c).2.2) {signature : Signature}
    {mask : Mask} (hmask : t.deliveries.lookup signature = some mask) :
    (c.deliveriesFor t.slot).lookup signature = some mask := by
  induction room generalizing next c with
  | zero => cases ht
  | succ room ih =>
    unfold handOut at ht
    split at ht
    · rcases List.mem_cons.mp ht with rfl | ht
      · exact hmask
      · exact lookup_of_handOne (ih ht)
    · cases ht

lemma lookup_of_mem_takeReady {t : SlotTask}
    (ht : t ∈ (c.takeReady n lagSlots tip key).2) {signature : Signature} {mask : Mask}
    (hmask : t.deliveries.lookup signature = some mask) :
    (c.deliveriesFor t.slot).lookup signature = some mask := by
  rw [← deliveriesFor_learnTip tip t.slot c]
  unfold takeReady at ht
  dsimp only at ht
  generalize c.learnTip tip = d at ht ⊢
  split at ht
  · cases ht
  next next _ =>
    have hcaught : (d.catchUp n lagSlots tip next).2.sampled = d.sampled := by
      rw [frame_catchUp]
    unfold advance at ht
    dsimp only at ht
    have hkept := lookup_of_mem_handOut ht hmask
    unfold deliveriesFor at hkept ⊢
    rwa [hcaught] at hkept

/-- What a window keeps of its deliveries is genuine, and was shown to it. -/
structure Keeping (chain : Chain) (shown : List Shown) (key : WindowKey) (c : Course) :
    Prop where
  /-- The filters have distinct names. -/
  named : (c.info.bundle.filters.map Filter.name).Nodup
  /-- The deliveries kept for a slot are genuine. -/
  genuine : ∀ slot, Genuine chain c.info.bundle slot (c.deliveriesFor slot)
  /-- Each was shown. -/
  shown : ∀ slot, ∀ signature ∈ c.deliveriesFor slot, (key, slot, signature) ∈ shown

/-- A window may keep less, and more may be shown. -/
theorem Keeping.mono (h : c.Keeping chain shown key) {c' : Course} (hinfo : c'.info = c.info)
    {shown' : List Shown}
    (hshown : ∀ slot signature, (key, slot, signature) ∈ shown → (key, slot, signature) ∈ shown')
    (hsub : ∀ slot signature, ∀ mask ∈ (c'.deliveriesFor slot).lookup signature,
      mask ∈ (c.deliveriesFor slot).lookup signature) : c'.Keeping chain shown' key where
  named := by
    rw [hinfo]
    exact h.named
  genuine slot := by
    rw [hinfo]
    exact (h.genuine slot).mono (hsub slot)
  shown slot signature hmem := by
    obtain ⟨mask, hmask⟩ := Option.isSome_iff_exists.mp (AList.lookup_isSome.mpr hmem)
    have hkept := hsub slot signature mask hmask
    refine hshown slot signature (h.shown slot signature ?_)
    rw [← AList.lookup_isSome, hkept]
    rfl

/-- The deliveries kept stay genuine as long as they stay the same. -/
theorem Keeping.congr (h : c.Keeping chain shown key) {c' : Course} (hinfo : c'.info = c.info)
    (hsampled : c'.sampled = c.sampled) : c'.Keeping chain shown key := by
  refine h.mono hinfo (fun _ _ => id) fun slot signature mask hmask => ?_
  unfold deliveriesFor at hmask ⊢
  rwa [hsampled] at hmask

lemma keeping_new {info : WindowInfo} (hnd : (info.bundle.filters.map Filter.name).Nodup) :
    (Course.new info).Keeping chain shown key := by
  have hempty : ∀ slot, (Course.new info).deliveriesFor slot = ∅ := fun _ => rfl
  refine ⟨hnd, fun slot => ?_, fun slot signature hmem => ?_⟩
  · rw [hempty]
    exact genuine_empty chain _ slot
  · rw [hempty] at hmem
    exact absurd hmem (AList.notMem_empty _)

/-- A hand-out drops deliveries, and its tasks are genuine. -/
theorem Keeping.takeReady (h : c.Keeping chain shown key) :
    (c.takeReady n lagSlots tip key).1.Keeping chain shown key ∧
      ∀ t ∈ (c.takeReady n lagSlots tip key).2, t.IsGenuine chain := by
  constructor
  · refine h.mono (info_takeReady c) (fun _ _ => id) fun slot signature mask hmask => ?_
    rw [deliveriesFor_takeReady] at hmask
    split at hmask
    · exact hmask
    · rw [AList.lookup_empty] at hmask
      cases hmask
  · intro t ht
    unfold SlotTask.IsGenuine
    rw [bundle_of_mem_takeReady ht]
    exact (h.genuine t.slot).mono fun signature mask hmask => lookup_of_mem_takeReady ht hmask

end Course

/-- An honest delivery is kept as a genuine one. -/
lemma Window.keeping_onDelivery {chain : Chain} {shown : List Shown} {key : WindowKey}
    {w : Window} (h : w.toCourse.Keeping chain shown key) {base58 : List UInt8 → String}
    {n slot : ℕ} {skipVotes : Bool} {tx : TxView} {tags : List String}
    {serverIsVote : Option Bool}
    (hhonest : HonestDelivery chain skipVotes w.info.bundle slot tx tags serverIsVote) :
    (w.onDelivery base58 n skipVotes slot tx tags serverIsVote).toCourse.Keeping chain
      ((key, slot, tx.signature) :: shown) key := by
  have hinfo : (w.onDelivery base58 n skipVotes slot tx tags serverIsVote).info = w.info := by
    rw [toCourse_onDelivery, Course.info_deliver]
  refine ⟨?_, fun slot' signature mask hmask => ?_, fun slot' signature hmem => ?_⟩
  · rw [hinfo]
    exact h.named
  · rw [lookup_onDelivery] at hmask
    rw [hinfo]
    split at hmask
    next hkept =>
      obtain ⟨⟨rfl, rfl⟩, hsampled, -⟩ := hkept
      obtain ⟨block, hblock, confirmed, hconfirmed, hshows⟩ := hhonest.confirmed hsampled.1
      refine ⟨block, hblock, confirmed, hconfirmed, fun i f hf => ?_⟩
      rw [← Option.mem_some_iff.mp hmask, Bundle.getLsbD_readTags,
        hhonest.carries_eq h.named hf, hshows.matchesTx_eq (List.mem_of_getElem? hf)]
    · exact h.genuine slot' signature mask hmask
  · rw [← AList.lookup_isSome, lookup_onDelivery] at hmem
    split at hmem
    next hkept =>
      obtain ⟨⟨rfl, rfl⟩, -⟩ := hkept
      exact List.mem_cons_self
    · exact List.mem_cons_of_mem _ (h.shown slot' signature (AList.lookup_isSome.mp hmem))

/-! ### Calls -/

/-- A window of an honest source. -/
structure Window.Honest (chain : Chain) (shown : List Shown) (key : WindowKey) (w : Window) :
    Prop where
  /-- The window holds nothing against its source. -/
  blameless : w.Blameless
  /-- The window keeps genuine deliveries. -/
  keeping : w.toCourse.Keeping chain shown key

/-- What was shown to the windows that there are after a call: a window starts afresh. -/
def shownStep (shown : List Shown) : AuditCall → List Shown
  | .openWindow key _ => shown.filter fun s => s.1 != key
  | .onDelivery key slot tx _ _ => (key, slot, tx.signature) :: shown
  | _ => shown

namespace FilterAudit

/-- A call as an honest source makes it, or the checker for an honest node: the filters of a bundle
have distinct names, and no transaction comes twice for a slot in one window. -/
def HonestCall (chain : Chain) (shown : List Shown) (a : FilterAudit) : AuditCall → Prop
  | .openWindow _ info => (info.bundle.filters.map Filter.name).Nodup
  | .onDelivery key slot tx tags serverIsVote =>
    (∀ w ∈ a.windows.lookup key,
      HonestDelivery chain a.skipVotes w.info.bundle slot tx tags serverIsVote) ∧
      (key, slot, tx.signature) ∉ shown
  | .compare task fetched => task.IsGenuine chain ∧ fetched.Confirmed chain task.slot
  | _ => True

/-- All windows are those of honest sources. -/
def AllHonest (chain : Chain) (shown : List Shown) (a : FilterAudit) : Prop :=
  ∀ key, ∀ w ∈ a.windows.lookup key, w.Honest chain shown key

variable {chain : Chain} {shown : List Shown} {a : FilterAudit}

/-- An honest call that concerns a window leaves it honest. -/
theorem AllHonest.act (h : a.AllHonest chain shown) (base58 : List UInt8 → String)
    {call : AuditCall} (hcall : a.HonestCall chain shown call) {key : WindowKey} {w : Window}
    (hw : a.windows.lookup key = some w) (hopens : ¬ call.Opens key) :
    (w.act base58 a.sampleEvery a.skipVotes key call).Honest chain (shownStep shown call) key := by
  have hw' := h key w hw
  have hsteers := w.act_of_steers base58 a.sampleEvery a.skipVotes key call
  -- the source speaks in deliveries only, and a comparison finds what the deliveries said
  cases call with
  | openWindow key' info =>
    have hne : key' ≠ key := hopens
    refine ⟨hw'.blameless, hw'.keeping.mono rfl (fun slot signature hmem => ?_) fun _ _ _ => id⟩
    refine List.mem_filter.mpr ⟨hmem, ?_⟩
    rw [bne_iff_ne]
    exact hne.symm
  | onDelivery key' slot tx tags serverIsVote =>
    unfold Window.act
    dsimp only
    split
    next hkey =>
      subst hkey
      obtain ⟨hhonest, hfresh⟩ := hcall
      have hhonest := hhonest w hw
      refine ⟨?_, Window.keeping_onDelivery hw'.keeping hhonest⟩
      obtain ⟨c, tagged, untagged, heq⟩ := Window.onDelivery_eq base58 a.sampleEvery
        hw'.keeping.named hhonest fun hmem =>
          hfresh (hw'.keeping.shown slot tx.signature hmem)
      rw [heq]
      have hb := hw'.blameless
      exact ⟨hb.unknownTags, hb.duplicates, hb.tagFalsePositive, hb.tagMissing,
        hb.voteFlagMismatch, hb.totals, hb.missed⟩
    next =>
      exact ⟨hw'.blameless, hw'.keeping.mono rfl (fun _ _ hmem => List.mem_cons_of_mem _ hmem)
        fun _ _ _ => id⟩
  | takeReady lagSlots tip =>
    exact ⟨hw'.blameless.withCourse _, hw'.keeping.takeReady.1⟩
  | compare task fetched =>
    unfold Window.act
    dsimp only
    split
    · obtain ⟨htask, hfetched⟩ := hcall
      refine ⟨hw'.blameless.compared fun i f hf => harmless_compareFilter htask hf hfetched, ?_⟩
      rw [Window.toCourse_compared]
      refine hw'.keeping.congr (Course.info_settle _ _) ?_
      unfold Course.settle
      cases fetched.outcome <;> rfl
    · exact hw'
  | subscribed _ _ | close _ _ _ _ | unchecked _ =>
    obtain ⟨c, hinfo, hsampled, hact⟩ := hsteers trivial
    rw [hact]
    exact ⟨hw'.blameless.withCourse c, hw'.keeping.congr hinfo hsampled⟩
  | drainViolations =>
    have hb := hw'.blameless
    exact ⟨⟨hb.unknownTags, hb.duplicates, hb.tagFalsePositive, hb.tagMissing, hb.voteFlagMismatch,
      hb.totals, fun r hr => absurd hr List.not_mem_nil⟩, hw'.keeping⟩
  | takeFinished _ _ _ _ => exact hw'
  | takeAll => exact hw'

/-- **An honest call leaves all windows honest.** -/
theorem AllHonest.call (h : a.AllHonest chain shown) (base58 : List UInt8 → String)
    (call : AuditCall) (hcall : a.HonestCall chain shown call) :
    (a.call base58 call).1.AllHonest chain (shownStep shown call) := by
  intro key w hw
  rw [Option.mem_def, lookup_call] at hw
  rcases exists_of_windowStep hw with ⟨info, rfl, rfl⟩ | ⟨hopens, v, hv, rfl⟩
  · exact ⟨Window.blameless_new info, Course.keeping_new hcall⟩
  · exact h.act base58 hcall hv hopens

/-- What an honest window is emitted with holds nothing against its source. -/
theorem AllHonest.emits (h : a.AllHonest chain shown) (call : AuditCall) {e : Emitted}
    (he : e ∈ a.emits call) : e.2.Blameless := by
  obtain ⟨w, hw, hemitted⟩ := exists_of_mem_emits he
  rw [hemitted]
  exact (h e.1 w hw).blameless.withCourse _

/-- The checker upholds that all windows are honest and all tasks genuine. -/
lemma upheld_allHonest (base58 : List UInt8 → String) (chain : Chain) (shown : List Shown) :
    Upheld base58 chain (AllHonest chain shown) (SlotTask.IsGenuine chain) where
  compare _ task fetched ha htask hfetched :=
    AllHonest.call ha base58 (.compare task fetched) ⟨htask, hfetched⟩
  unchecked _ task ha := AllHonest.call ha base58 (.unchecked task) trivial
  drainViolations _ ha := AllHonest.call ha base58 .drainViolations trivial
  takeFinished _ tip floor now ha :=
    AllHonest.call ha base58 (.takeFinished tip floor now giveUpSecs) trivial
  takeAll _ ha := AllHonest.call ha base58 .takeAll trivial
  attempts _ _ htask := htask

/-- The tasks that honest windows hand out are genuine. -/
theorem AllHonest.takeReady (h : a.AllHonest chain shown) (lagSlots tip : ℕ) :
    (a.takeReady lagSlots tip).1.AllHonest chain shown ∧
      ∀ t ∈ (a.takeReady lagSlots tip).2, t.IsGenuine chain := by
  refine ⟨h.call (fun _ => "") (.takeReady lagSlots tip) trivial, fun t ht => ?_⟩
  obtain ⟨e, he, ht⟩ := List.mem_flatMap.mp ht
  exact (h e.1 e.2 (AList.mem_entries_iff_lookup.mp he)).keeping.takeReady.2 t ht

end FilterAudit

/-! ### Runs -/

namespace FilterSystem

section Run

variable (base58 : List UInt8 → String) (decode : String → Except String (List UInt8))
  (chain : Chain)

/-- The call that a step of a source makes. -/
def sourceCall (s : FilterSystem) : FilterStep → Option AuditCall
  | .connect sid info => some (.openWindow (sid, s.connections sid) info)
  | .subscribed key tip => some (.subscribed key tip)
  | .onDelivery key slot tx tags serverIsVote =>
    some (.onDelivery key slot tx tags serverIsVote)
  | .close key tip now reason => some (.close key tip now reason)
  | _ => none

/-- What was shown to the windows that there are after a step. -/
def note (shown : List Shown) (s : FilterSystem) (step : FilterStep) : List Shown :=
  (s.sourceCall step).elim shown (shownStep shown)

/-- A step with honest sources, whose bundles passed the checks of the configuration, and an honest
node, which may well fail. -/
def HonestStep (shown : List Shown) (s : FilterSystem) : FilterStep → Prop
  | .connect _ info => info.bundle.Accepted decode
  | .onDelivery key slot tx tags serverIsVote =>
    (∀ w ∈ s.worker.audit.windows.lookup key,
      HonestDelivery chain s.worker.audit.skipVotes w.info.bundle slot tx tags serverIsVote) ∧
      (key, slot, tx.signature) ∉ shown
  | .handleGroup readings =>
    ∀ slot ∈ s.worker.phase.turn, readings.reply.Confirmed chain slot
  | _ => True

/-- A run of such steps. -/
def HonestRun : List Shown → FilterSystem → List FilterStep → Prop
  | _, _, [] => True
  | shown, s, step :: steps =>
    s.HonestStep decode chain shown step ∧
      HonestRun (s.note shown step) (s.step base58 step).1 steps

end Run

/-- Nothing is held against any source, in the windows that there are and in those emitted. -/
structure Unaccused (s : FilterSystem) (log : List CheckEvent) : Prop where
  /-- The windows that there are hold nothing against their sources. -/
  windows : ∀ key, ∀ w ∈ s.worker.audit.windows.lookup key, w.Blameless
  /-- The windows that were emitted held nothing against them. -/
  emitted : ∀ e, .emitted e ∈ log → e.2.Blameless

/-- The windows are honest and the tasks genuine. -/
abbrev Honest (chain : Chain) (shown : List Shown) (s : FilterSystem) : Prop :=
  s.worker.Upholds chain (FilterAudit.AllHonest chain shown) (SlotTask.IsGenuine chain)

variable {base58 : List UInt8 → String} {decode : String → Except String (List UInt8)}
  {chain : Chain} {shown : List Shown} {s : FilterSystem}

/-- **A step of honest sources and an honest node keeps the checker honest**, and emits no window
with blame. -/
theorem Honest.step (h : s.Honest chain shown) {step : FilterStep}
    (hstep : s.HonestStep decode chain shown step) :
    (s.step base58 step).1.Honest chain (s.note shown step) ∧
      ∀ e, .emitted e ∈ (s.step base58 step).2 → e.2.Blameless := by
  have hup := FilterAudit.upheld_allHonest base58 chain shown
  have hnone : ∀ e : FilterAudit.Emitted, CheckEvent.emitted e ∈ [] → e.2.Blameless :=
    fun e he => absurd he List.not_mem_nil
  have hcall := h.windows.call base58
  cases step with
  | connect sid info =>
    have haccepted : info.bundle.Accepted decode := hstep
    exact ⟨h.withAudit (hcall (.openWindow (sid, s.connections sid) info)
      haccepted.nodup_names), hnone⟩
  | subscribed key tip => exact ⟨h.withAudit (hcall (.subscribed key tip) trivial), hnone⟩
  | onDelivery key slot tx tags serverIsVote =>
    exact ⟨h.withAudit (hcall (.onDelivery key slot tx tags serverIsVote) hstep), hnone⟩
  | close key tip now reason =>
    exact ⟨h.withAudit (hcall (.close key tip now reason) trivial), hnone⟩
  | beginTick tip now =>
    refine ⟨h.beginTick (fun _ => h.windows.takeReady _ tip) fun _ => h.windows, fun e he => ?_⟩
    exact absurd he (Worker.not_emitted_beginTick tip now e)
  | handleGroup readings =>
    refine ⟨h.handleGroup hup hstep, fun e he => ?_⟩
    exact absurd he (Worker.not_emitted_handleGroup readings e)
  | endTick tip floor now =>
    obtain ⟨hended, hemitted⟩ := h.endTick hup tip floor now
    refine ⟨hended, fun e he => ?_⟩
    obtain ⟨a, call, ha, he⟩ := hemitted e he
    exact FilterAudit.AllHonest.emits ha call he
  | shutdown =>
    obtain ⟨hended, hemitted⟩ := h.shutdown hup
    refine ⟨hended, fun e he => ?_⟩
    obtain ⟨a, call, ha, he⟩ := hemitted e he
    exact FilterAudit.AllHonest.emits ha call he

/-- Before anything is connected. -/
theorem honest_new (n : ℕ) (hn : 0 < n) (skipVotes : Bool) (lagSlots : ℕ) :
    (new n hn skipVotes lagSlots).Honest chain [] := by
  refine ⟨fun key w hw => ?_, fun t ht => absurd ht List.not_mem_nil,
    fun _ _ hticking => (by cases hticking), fun c hc => absurd hc List.not_mem_nil⟩
  have hnone : (new n hn skipVotes lagSlots).worker.audit.windows.lookup key = none :=
    AList.lookup_empty key
  rw [Option.mem_def, hnone] at hw
  cases hw

/-- **An honest source is never accused**: in every run of the checker and its sources, in which the
sources are honest and the node answers what the cluster confirmed, if it answers, no window holds
anything against its source but that it lacks transactions.  The beginning of an honest run is one,
so this is true of the reports that were drained on the way. -/
theorem honest_not_accused {n : ℕ} (hn : 0 < n) (skipVotes : Bool) (lagSlots : ℕ)
    {steps : List FilterStep}
    (hrun : HonestRun base58 decode chain [] (new n hn skipVotes lagSlots) steps) :
    Unaccused
      (Machine.finalState (FilterSystem.step base58) (new n hn skipVotes lagSlots) steps)
      (Machine.outputs (FilterSystem.step base58) (new n hn skipVotes lagSlots) steps).flatten := by
  have hstart : ∃ shown, HonestRun base58 decode chain shown (new n hn skipVotes lagSlots) steps ∧
      (new n hn skipVotes lagSlots).Honest chain shown ∧
      ∀ e, CheckEvent.emitted e ∈ [] → e.2.Blameless :=
    ⟨[], hrun, honest_new n hn skipVotes lagSlots, fun e he => absurd he List.not_mem_nil⟩
  have hend := Machine.log_induction (FilterSystem.step base58)
    (P := fun s steps log => ∃ shown, HonestRun base58 decode chain shown s steps ∧
      s.Honest chain shown ∧ ∀ e, CheckEvent.emitted e ∈ log → e.2.Blameless)
    (fun s step steps log hbefore => ?_) hstart
  · obtain ⟨shown, -, hhonest, hlog⟩ := hend
    exact ⟨fun key w hw => (hhonest.windows key w hw).blameless, hlog⟩
  · obtain ⟨shown, hrun, hhonest, hlog⟩ := hbefore
    obtain ⟨hnext, hemitted⟩ := hhonest.step hrun.1
    refine ⟨_, hrun.2, hnext, fun e he => ?_⟩
    rcases List.mem_append.mp he with he | he
    · exact hlog e he
    · exact hemitted e he

/-- The chain of the example: two transactions in slot 1010, one in each of two others. -/
def fewTxs : Chain
  | 1003 => some ⟨[plainTx 4]⟩
  | 1010 => some ⟨[plainTx 1, plainTx 2]⟩
  | 1030 => some ⟨[plainTx 3]⟩
  | _ => none

/-- A source that leaves out a transaction of slot 1010; the node fails once. -/
def forgetfulSteps : List FilterStep :=
  [.connect 0 ⟨"g", .grpcDeshred, none, pairBundle⟩, .subscribed (0, 0) 1000,
    .onDelivery (0, 0) 1003 (plainTx 4) [] none,
    .onDelivery (0, 0) 1010 (plainTx 1) ["b", "a", "b"] (some false),
    .onDelivery (0, 0) 1030 (plainTx 3) ["a", "b"] none,
    .beginTick 1042 0, .handleGroup ⟨0, 0, 0, fun _ => 0, .failed⟩, .endTick 1042 0 0,
    .beginTick 1042 8000, .handleGroup ⟨8000, 0, 0, 0, .block [plainTx 1, plainTx 2]⟩]

/-- Both filters of the example accept a transaction that is no vote. -/
theorem honestDelivery_plainTx {slot : ℕ} {byte : UInt8} {b : Block} {tags : List String}
    {vote : Option Bool} (hblock : fewTxs slot = some b)
    (hfind : b.find (plainTx byte).signature = some (plainTx byte))
    (htags : tags ≠ [] → ∀ name, name ∈ tags ↔ name = "a" ∨ name = "b")
    (hvote : ∀ server ∈ vote, server = false) :
    HonestDelivery fewTxs false pairBundle slot (plainTx byte) tags vote where
  confirmed _ := ⟨b, hblock, plainTx byte, hfind, rfl, Or.inl rfl⟩
  tagged hne name := by
    rw [htags hne name]
    constructor
    · rintro (rfl | rfl)
      · exact ⟨_, List.mem_cons_self, rfl, rfl⟩
      · exact ⟨_, List.mem_cons_of_mem _ List.mem_cons_self, rfl, rfl⟩
    · rintro ⟨f, hf, rfl, -⟩
      rcases List.mem_cons.mp hf with rfl | hf
      · exact Or.inl rfl
      · cases List.mem_singleton.mp hf
        exact Or.inr rfl
  untagged _ f hf := by cases hf
  vote := hvote

/-- The source is not accused, though it misses the second transaction. -/
theorem honest_not_accused_forgetful :
    let s := Machine.finalState (FilterSystem.step fun _ => "") (new 10 (by decide) false 32)
      forgetfulSteps
    (s.worker.audit.windows.entries.map fun e => e.2.totals.map CheckTotals.missed) = [[1, 1]] ∧
      Unaccused s (Machine.outputs (FilterSystem.step fun _ => "") (new 10 (by decide) false 32)
        forgetfulSteps).flatten := by
  have hrun : HonestRun (fun _ => "") (fun _ => .error "no keys") fewTxs []
      (new 10 (by decide) false 32) forgetfulSteps := by
    refine ⟨pairBundle_accepted, trivial, ⟨fun w hw => ?_, by decide⟩,
      ⟨fun w hw => ?_, by decide⟩, ⟨fun w hw => ?_, by decide⟩, trivial, ?_, trivial, trivial,
      ?_, trivial⟩
    · cases hw
      exact honestDelivery_plainTx rfl rfl (fun hnil => absurd rfl hnil) nofun
    · cases hw
      exact honestDelivery_plainTx rfl rfl (fun _ name => by simp; tauto) (by simp)
    · cases hw
      exact honestDelivery_plainTx rfl rfl (fun _ name => by simp) nofun
    · intro slot _ result hresult
      cases hresult
    · intro slot hslot result hresult
      cases hslot
      cases hresult
      rfl
  refine ⟨by decide +kernel, ?_⟩
  exact honest_not_accused (by decide) false 32 hrun

end FilterSystem

end ShredTools.Audit
