import ShredTools.Audit.WindowLife
import ShredTools.Library.KeyedTable

/-!
# What the comparison of a slot counts

`compare` goes through the block to count what a filter should have delivered, and through the
deliveries to count what was delivered.  As long as no signature comes twice in a block, the
deliveries that were expected are the same from either side, so expected transactions are matched or
missed, and delivered ones are matched or extra (`totals_partition`).  The totals of a window are
the sums over the slots that were compared for it, in every run.

`totals_compareFilter_block` brings the two loops to counts over the block and over the deliveries,
and `Partitions` relates these.  `comparedIn` is what was compared for a window in a run, so that
its totals are sums that mention no window (`sumsOver_windowAt`).  For a slot without a block every
delivery is an extra one.  In the example one of two transactions of a block was delivered, with one
that is not in it.
-/

namespace ShredTools.Audit

/-- Both sides of a comparison are partitioned. -/
structure CheckTotals.Balances (t : CheckTotals) : Prop where
  /-- What is expected is matched or missed. -/
  expected : t.expected = t.matched + t.missed
  /-- What is delivered is matched, or in the block but not expected, or not in the block. -/
  delivered : t.delivered = t.matched + t.extraInBlock + t.extraNotInBlock

namespace CheckTotals

variable {t o : CheckTotals}

lemma balances_default : default.Balances := ⟨rfl, rfl⟩

theorem Balances.add (ht : t.Balances) (ho : o.Balances) : (t.add o).Balances where
  expected := by
    have h := ht.expected
    have h' := ho.expected
    dsimp only [CheckTotals.add]
    omega
  delivered := by
    have h := ht.delivered
    have h' := ho.delivered
    dsimp only [CheckTotals.add]
    omega

@[simp] lemma add_default (t : CheckTotals) : t.add default = t := rfl

/-- The sum of some totals. -/
def sum (ts : List CheckTotals) : CheckTotals := ts.foldl add default

@[simp] theorem sum_nil : sum [] = default := rfl

lemma sum_concat (ts : List CheckTotals) (t : CheckTotals) :
    sum (ts ++ [t]) = (sum ts).add t := by
  unfold sum
  rw [List.foldl_append]
  rfl

lemma balances_sum {ts : List CheckTotals} (h : ∀ t ∈ ts, t.Balances) : (sum ts).Balances := by
  induction ts using List.reverseRecOn with
  | nil => exact balances_default
  | append_singleton ts t ih =>
    rw [sum_concat]
    exact (ih fun o ho => h o (List.mem_append_left _ ho)).add
      (h t (List.mem_append_right _ (List.mem_singleton_self t)))

end CheckTotals

/-! ### One slot -/

section Slot

variable {base58 : List UInt8 → String} {task : SlotTask} {b : Block} {i : ℕ} {f : Filter}

/-- Whether a task has a signature delivered with the bit of filter `i`. -/
def SlotTask.Has (task : SlotTask) (i : ℕ) (signature : Signature) : Bool :=
  (task.deliveries.lookup signature).any (hasBit i)

/-- Going through the expected transactions counts each as matched or missed. -/
theorem totals_foldl_expect (txs : List TxView) (found : FilterFindings) :
    (txs.foldl (FilterFindings.expect base58 task i f) found).totals =
      { found.totals with
        expected := found.totals.expected + txs.length
        matched := found.totals.matched + txs.countP fun tx => task.Has i tx.signature
        missed := found.totals.missed + txs.countP fun tx => !task.Has i tx.signature } := by
  induction txs generalizing found with
  | nil => rfl
  | cons tx txs ih =>
    have hone : (FilterFindings.expect base58 task i f found tx).totals =
        { found.totals with
          expected := found.totals.expected + 1
          matched := found.totals.matched + if task.Has i tx.signature then 1 else 0
          missed := found.totals.missed + if task.Has i tx.signature then 0 else 1 } := by
      unfold FilterFindings.expect SlotTask.Has
      dsimp only
      by_cases hhas : (task.deliveries.lookup tx.signature).any (hasBit i) = true
      · rw [if_pos hhas, if_pos hhas, if_pos hhas]
        rfl
      · rw [if_neg hhas, if_neg hhas, if_neg hhas]
        split <;> rfl
    rw [List.foldl_cons, ih, hone, List.length_cons, List.countP_cons, List.countP_cons]
    dsimp only
    congr 1
    · omega
    · omega
    · cases task.Has i tx.signature
      · simp
        omega
      · simp

/-- Going through the deliveries counts those that are not in the block, and those in it that the
filter rejects. -/
lemma totals_foldl_lookUp (sigs : List Signature) (found : FilterFindings) :
    (sigs.foldl (FilterFindings.lookUp base58 b i f) found).totals =
      { found.totals with
        extraInBlock := found.totals.extraInBlock +
          sigs.countP fun s => (b.find s).any fun tx => !f.matchesTx tx
        extraNotInBlock := found.totals.extraNotInBlock +
          sigs.countP fun s => (b.find s).isNone } := by
  induction sigs generalizing found with
  | nil => rfl
  | cons s sigs ih =>
    have hone : (FilterFindings.lookUp base58 b i f found s).totals =
        { found.totals with
          extraInBlock := found.totals.extraInBlock +
            if (b.find s).any fun tx => !f.matchesTx tx then 1 else 0
          extraNotInBlock := found.totals.extraNotInBlock +
            if (b.find s).isNone then 1 else 0 } := by
      unfold FilterFindings.lookUp
      cases b.find s with
      | none =>
        dsimp only
        split <;> rfl
      | some tx =>
        have hmismatch : (f.mismatch base58 tx).isSome = !f.matchesTx tx := Filter.mismatch_isSome
        dsimp only [Option.any_some, Option.isNone_some]
        simp only [← hmismatch]
        cases f.mismatch base58 tx with
        | none => rfl
        | some why =>
          dsimp only
          split <;> rfl
    rw [List.foldl_cons, ih, hone, List.countP_cons, List.countP_cons]
    dsimp only
    congr 1
    · omega
    · omega

/-- The transactions of a block that filter `f` accepts. -/
def Block.expected (b : Block) (f : Filter) : List TxView := b.txs.filter f.matchesTx

/-- **What `compare` counts** for one filter, in terms of the block and the deliveries. -/
theorem totals_compareFilter_block :
    (compareFilter base58 task (.block b) i f).totals =
      { expected := (b.expected f).length
        delivered := (task.deliveredFor i).length
        matched := (b.expected f).countP fun tx => task.Has i tx.signature
        missed := (b.expected f).countP fun tx => !task.Has i tx.signature
        extraInBlock := (task.deliveredFor i).countP fun s =>
          (b.find s).any fun tx => !f.matchesTx tx
        extraNotInBlock := (task.deliveredFor i).countP fun s => (b.find s).isNone } := by
  unfold compareFilter Block.expected
  dsimp only
  rw [totals_foldl_lookUp, totals_foldl_expect]
  simp [CheckTotals.default]

/-- The same for a slot that was skipped. -/
lemma totals_compareFilter_skipped :
    (compareFilter base58 task .skipped i f).totals =
      { CheckTotals.default with
        delivered := (task.deliveredFor i).length
        extraNotInBlock := (task.deliveredFor i).length } :=
  rfl

/-- The matches of a slot, counted from the deliveries. -/
lemma matched_eq (hnd : (b.txs.map TxView.signature).Nodup) :
    (b.expected f).countP (fun tx => task.Has i tx.signature) =
      (task.deliveredFor i).countP fun s => (b.find s).any f.matchesTx := by
  have hnd' : (b.txs.reverse.map TxView.signature).Nodup := by
    rw [List.map_reverse]
    exact List.nodup_reverse.mpr hnd
  have hmatch := AList.countP_lookup_eq_countP_find hnd' f.matchesTx (hasBit i) task.deliveries
  rw [List.countP_reverse] at hmatch
  unfold Block.expected SlotTask.Has SlotTask.deliveredFor Block.find
  rw [List.countP_filter, List.countP_map, List.countP_filter]
  calc b.txs.countP (fun tx =>
        (task.deliveries.lookup tx.signature).any (hasBit i) && f.matchesTx tx)
      = b.txs.countP (fun tx =>
          f.matchesTx tx && (task.deliveries.lookup tx.signature).any (hasBit i)) := by
        simp only [Bool.and_comm]
    _ = _ := hmatch
    _ = _ := by
        refine List.countP_congr fun e _ => ?_
        simp [and_comm, beq_eq_decide]

/-- What is delivered is in the block and accepted, or rejected, or not in the block. -/
lemma length_eq_countP_find (sigs : List Signature) :
    sigs.length = sigs.countP (fun s => (b.find s).any f.matchesTx) +
      sigs.countP (fun s => (b.find s).any fun tx => !f.matchesTx tx) +
      sigs.countP fun s => (b.find s).isNone := by
  induction sigs with
  | nil => rfl
  | cons s sigs ih =>
    simp only [List.length_cons, List.countP_cons]
    cases b.find s with
    | none => simp; omega
    | some tx =>
      cases hmatch : f.matchesTx tx
      · simp [hmatch]
        omega
      · simp [hmatch]
        omega

/-- How many transactions of what was fetched a filter accepts. -/
def Fetched.countExpected (f : Filter) : Fetched → ℕ
  | .block b => (b.expected f).length
  | .skipped => 0

/-- The totals of filter `i` for one slot count both sides, and each side is partitioned. -/
structure CheckTotals.Partitions (task : SlotTask) (fetched : Fetched) (i : ℕ) (f : Filter)
    (t : CheckTotals) : Prop where
  /-- The sums agree. -/
  balances : t.Balances
  /-- What the filter accepts is expected. -/
  expected : t.expected = fetched.countExpected f
  /-- What carries the bit of the filter is delivered. -/
  delivered : t.delivered = (task.deliveredFor i).length
  /-- If there is no block, nothing is expected, and all that is delivered is extra. -/
  skipped : fetched = .skipped → t.expected = 0 ∧ t.delivered = t.extraNotInBlock

/-- **The comparison of a slot partitions both sides**, if no signature comes twice in the block. -/
theorem partitions_compareFilter (task : SlotTask) (fetched : Fetched)
    (hdistinct : ∀ b, fetched = .block b → (b.txs.map TxView.signature).Nodup) (i : ℕ)
    (f : Filter) :
    (compareFilter base58 task fetched i f).totals.Partitions task fetched i f := by
  cases fetched with
  | skipped =>
    rw [totals_compareFilter_skipped]
    exact ⟨⟨rfl, (Nat.zero_add _).symm⟩, rfl, rfl, fun _ => ⟨rfl, rfl⟩⟩
  | block b =>
    rw [totals_compareFilter_block]
    refine ⟨⟨?_, ?_⟩, rfl, rfl, fun h => by cases h⟩
    · have hsplit := List.length_eq_countP_add_countP (l := b.expected f) fun tx =>
        task.Has i tx.signature
      simpa using hsplit
    · dsimp only
      rw [matched_eq (hdistinct b rfl)]
      exact length_eq_countP_find _

end Slot

/-! ### The totals of a window -/

section Totals

variable {base58 : List UInt8 → String}

namespace Window

/-- Reports, verdicts on tags and deliveries leave the totals alone. -/
@[simp] lemma totals_violation (filter : Option ℕ) (kind : ViolationKind) (slot : ℕ)
    (signature : Signature) (reason : String) (w : Window) :
    (w.violation base58 filter kind slot signature reason).totals = w.totals := by
  unfold violation
  dsimp only
  split <;> rfl

lemma totals_judgeTag (slot : ℕ) (tx : TxView) (tag : TagReading) (w : Window)
    (f : Filter × ℕ) : (w.judgeTag base58 slot tx tag f).totals = w.totals := by
  unfold judgeTag
  dsimp only
  split_ifs <;> simp

@[simp] lemma totals_judgeTags (slot : ℕ) (tx : TxView) (tag : TagReading) (w : Window) :
    (w.judgeTags base58 slot tx tag).totals = w.totals := by
  have hfold : ∀ (fs : List (Filter × ℕ)) (v : Window),
      (fs.foldl (judgeTag base58 slot tx tag) v).totals = v.totals := by
    intro fs
    induction fs with
    | nil => intro v; rfl
    | cons f fs ih =>
      intro v
      rw [List.foldl_cons, ih, totals_judgeTag]
  exact hfold _ _

@[simp] lemma totals_judgeVoteFlag (slot : ℕ) (tx : TxView) (serverIsVote : Option Bool)
    (w : Window) : (w.judgeVoteFlag base58 slot tx serverIsVote).totals = w.totals := by
  unfold judgeVoteFlag
  split
  · split_ifs <;> simp
  · rfl

lemma totals_onDelivery (n : ℕ) (skipVotes : Bool) (slot : ℕ) (tx : TxView)
    (tags : List String) (serverIsVote : Option Bool) (w : Window) :
    (w.onDelivery base58 n skipVotes slot tx tags serverIsVote).totals = w.totals := by
  unfold onDelivery sample
  dsimp only
  split_ifs <;> simp

/-- A comparison adds its totals to those of the window. -/
lemma totals_compared (task : SlotTask) (fetched : Fetched) (w : Window) :
    (w.compared base58 task fetched).totals =
      addTotals w.totals
        ((compareFilters base58 task fetched).map FilterFindings.totals) := by
  have hfold : ∀ (es : List ViolationExample) (v : Window),
      (es.foldl (fun v e => v.violation base58 (some e.filter) e.kind task.slot e.signature
        e.reason) v).totals = v.totals := by
    intro es
    induction es with
    | nil => intro v; rfl
    | cons e es ih =>
      intro v
      rw [List.foldl_cons, ih, totals_violation]
  exact hfold _ _

end Window

/-- The totals that a comparison finds for filter `i`, if the task has so many filters. -/
def totalsFor (base58 : List UInt8 → String) (i : ℕ) (c : SlotTask × Fetched) : CheckTotals :=
  (c.1.bundle.filters[i]?).elim .default fun f => (compareFilter base58 c.1 c.2 i f).totals

lemma getElem?_addTotals (ts os : List CheckTotals) (i : ℕ) :
    (addTotals ts os)[i]? = (ts[i]?).map fun t => t.add (os[i]?.getD .default) := by
  induction ts generalizing os i with
  | nil => cases os <;> simp [addTotals]
  | cons t ts ih =>
    cases os with
    | nil =>
      unfold addTotals
      cases (t :: ts)[i]? <;> simp
    | cons o os =>
      unfold addTotals
      cases i with
      | zero => simp
      | succ i => simpa using ih os i

/-- The totals of filter `i` after a comparison. -/
lemma getElem?_totals_compared (task : SlotTask) (fetched : Fetched) (w : Window) (i : ℕ) :
    (w.compared base58 task fetched).totals[i]? =
      (w.totals[i]?).map fun t => t.add (totalsFor base58 i (task, fetched)) := by
  rw [Window.totals_compared, getElem?_addTotals]
  unfold totalsFor compareFilters
  rw [List.getElem?_map, List.getElem?_map, List.getElem?_zipIdx, Nat.zero_add]
  cases task.bundle.filters[i]? <;> rfl

end Totals

/-! ### Runs -/

/-- One more call, after which some slots count as compared in a window: opening it starts
afresh. -/
def comparedStep (key : WindowKey) (cs : List (SlotTask × Fetched)) :
    AuditCall → List (SlotTask × Fetched)
  | .openWindow key' _ => if key' = key then [] else cs
  | .compare task fetched => if task.key = key then cs ++ [(task, fetched)] else cs
  | _ => cs

/-- The slots compared in a window since it was opened, each with what was fetched. -/
def comparedIn (key : WindowKey) (calls : List AuditCall) : List (SlotTask × Fetched) :=
  calls.foldl (comparedStep key) []

lemma comparedIn_concat (key : WindowKey) (calls : List AuditCall) (call : AuditCall) :
    comparedIn key (calls ++ [call]) = comparedStep key (comparedIn key calls) call := by
  unfold comparedIn
  rw [List.foldl_append, List.foldl_cons, List.foldl_nil]

/-- What is compared in a window was compared in a call. -/
lemma mem_of_mem_comparedIn {key : WindowKey} {calls : List AuditCall} {c : SlotTask × Fetched}
    (h : c ∈ comparedIn key calls) : .compare c.1 c.2 ∈ calls := by
  induction calls using List.reverseRecOn with
  | nil => cases h
  | append_singleton calls call ih =>
    rw [comparedIn_concat] at h
    cases call with
    | openWindow key' info =>
      unfold comparedStep at h
      dsimp only at h
      split at h
      · cases h
      · exact List.mem_append_left _ (ih h)
    | compare task fetched =>
      unfold comparedStep at h
      dsimp only at h
      split at h
      · rcases List.mem_append.mp h with hmem | hmem
        · exact List.mem_append_left _ (ih hmem)
        · rw [List.mem_singleton.mp hmem]
          exact List.mem_append_right _ (List.mem_singleton_self _)
      · exact List.mem_append_left _ (ih h)
    | _ => exact List.mem_append_left _ (ih h)

/-- The totals of a window are the sums over the slots `cs`. -/
def Window.SumsOver (base58 : List UInt8 → String) (cs : List (SlotTask × Fetched))
    (w : Window) : Prop :=
  ∀ i, ∀ t ∈ w.totals[i]?, t = CheckTotals.sum (cs.map (totalsFor base58 i))

section Run

variable {base58 : List UInt8 → String} {n : ℕ} {skipVotes : Bool} {key : WindowKey}

/-- A window starts with nothing compared. -/
lemma Window.sumsOver_new (info : WindowInfo) : (Window.new info).SumsOver base58 [] := by
  intro i t ht
  unfold Window.new at ht
  rw [List.getElem?_replicate] at ht
  split at ht
  · exact (Option.some.inj ht).symm
  · cases ht

/-- The totals stay sums: a comparison adds its own, and no other call changes them. -/
theorem Window.SumsOver.act {cs : List (SlotTask × Fetched)} {w : Window}
    (h : w.SumsOver base58 cs) {call : AuditCall} (hopens : ¬ call.Opens key) :
    (w.act base58 n skipVotes key call).SumsOver base58 (comparedStep key cs call) := by
  have hsteers := w.act_of_steers base58 n skipVotes key call
  cases call with
  | openWindow key' info =>
    have hne : key' ≠ key := hopens
    unfold comparedStep
    dsimp only
    rw [if_neg hne]
    exact h
  | compare task fetched =>
    unfold comparedStep Window.act
    dsimp only
    by_cases heq : task.key = key
    · rw [if_pos heq, if_pos heq]
      intro i t ht
      rw [getElem?_totals_compared] at ht
      obtain ⟨t', ht', rfl⟩ := Option.map_eq_some_iff.mp ht
      rw [List.map_append, List.map_singleton, CheckTotals.sum_concat, ← h i t' ht']
    · rw [if_neg heq, if_neg heq]
      exact h
  | onDelivery key' slot tx tags serverIsVote =>
    unfold Window.act
    dsimp only
    split_ifs
    · intro i t ht
      rw [Window.totals_onDelivery] at ht
      exact h i t ht
    · exact h
  | subscribed _ _ | close _ _ _ _ | unchecked _ =>
    obtain ⟨c, -, -, hact⟩ := hsteers trivial
    rw [hact]
    exact h
  | _ => exact h

/-- **The totals of a window are the sums over the slots compared for it**, in every run. -/
theorem sumsOver_windowAt {calls : List AuditCall} {w : Window}
    (hw : windowAt base58 n skipVotes key calls = some w) :
    w.SumsOver base58 (comparedIn key calls) := by
  refine windowAt_induction (P := fun calls w => w.SumsOver base58 (comparedIn key calls)) ?_ ?_ hw
  · intro calls info
    rw [comparedIn_concat]
    unfold comparedStep
    dsimp only
    rw [if_pos rfl]
    exact Window.sumsOver_new info
  · intro calls call w hopens _ h
    rw [comparedIn_concat]
    exact h.act hopens

/-- What is found for a slot balances. -/
lemma balances_totalsFor {c : SlotTask × Fetched}
    (hdistinct : ∀ b, c.2 = .block b → (b.txs.map TxView.signature).Nodup) (i : ℕ) :
    (totalsFor base58 i c).Balances := by
  unfold totalsFor
  cases c.1.bundle.filters[i]? with
  | none => exact CheckTotals.balances_default
  | some f => exact (partitions_compareFilter c.1 c.2 hdistinct i f).balances

/-- The totals of a window after some calls: they are the sums over the slots compared for it, and
both sides are partitioned. -/
def Window.TotalsPartition (base58 : List UInt8 → String) (key : WindowKey)
    (calls : List AuditCall) (w : Window) : Prop :=
  w.SumsOver base58 (comparedIn key calls) ∧
    ∀ i : ℕ, ∀ t ∈ w.totals[i]?, t.Balances

/-- The totals of a window balance if those of each slot do. -/
lemma totalsPartition_windowAt {calls : List AuditCall}
    (hdistinct : ∀ task b, .compare task (.block b) ∈ calls → (b.txs.map TxView.signature).Nodup)
    {w : Window} (hw : windowAt base58 n skipVotes key calls = some w) :
    w.TotalsPartition base58 key calls := by
  have hsums := sumsOver_windowAt hw
  refine ⟨hsums, fun i t ht => ?_⟩
  rw [hsums i t ht]
  refine CheckTotals.balances_sum fun o ho => ?_
  obtain ⟨c, hc, rfl⟩ := List.mem_map.mp ho
  have hcall := mem_of_mem_comparedIn hc
  refine balances_totalsFor (fun b hb => ?_) i
  rw [hb] at hcall
  exact hdistinct c.1 b hcall

/-- **Both sides of every comparison are partitioned**: in every run of calls whose blocks have no
signature twice, each comparison counts what is expected and what is delivered, filter by filter,
and the totals of every window, there or emitted, are the sums over its slots. -/
theorem totals_partition (hn : 0 < n) {calls : List AuditCall}
    (hdistinct : ∀ task b, .compare task (.block b) ∈ calls → (b.txs.map TxView.signature).Nodup) :
    (∀ task fetched, .compare task fetched ∈ calls →
      ∀ i, ∀ f ∈ task.bundle.filters[i]?,
        (compareFilter base58 task fetched i f).totals.Partitions task fetched i f) ∧
      let a := Machine.finalState (FilterAudit.call base58) (FilterAudit.new n hn skipVotes) calls
      (∀ key, ∀ w ∈ a.windows.lookup key, w.TotalsPartition base58 key calls) ∧
        ∀ call, ∀ e ∈ a.emits call, e.2.TotalsPartition base58 e.1 calls := by
  have hthere : ∀ key, ∀ w ∈ (Machine.finalState (FilterAudit.call base58)
      (FilterAudit.new n hn skipVotes) calls).windows.lookup key,
      w.TotalsPartition base58 key calls := by
    intro key w hw
    rw [FilterAudit.lookup_finalState] at hw
    exact totalsPartition_windowAt hdistinct hw
  refine ⟨fun task fetched hmem i f _ => ?_, hthere, fun call e he => ?_⟩
  · refine partitions_compareFilter task fetched (fun b hb => ?_) i f
    rw [hb] at hmem
    exact hdistinct task b hmem
  · obtain ⟨w, hw, hemitted⟩ := FilterAudit.exists_of_mem_emits he
    rw [hemitted]
    exact hthere e.1 w hw

end Run

/-! ### A block with one delivery and one miss -/

/-- A slot for which one transaction of the block was delivered, and one that is not in it. -/
def halfDelivered : SlotTask where
  key := (0, 0)
  slot := 1010
  bundle := Bundle.all
  deliveries := ((∅ : Deliveries).insert (plainTx 1).signature 1).insert (plainTx 3).signature 1
  attempts := 0

/-- A window in which the slot is compared with a block of two transactions. -/
def halfDeliveredCalls : List AuditCall :=
  [.openWindow (0, 0) ⟨"g", .grpcDeshred, none, Bundle.all⟩,
    .compare halfDelivered (.block ⟨[plainTx 1, plainTx 2]⟩)]

/-- The totals of the comparison are partitioned. -/
theorem totals_partition_halfDelivered :
    let a := Machine.finalState (FilterAudit.call fun _ => "")
      (FilterAudit.new 10 (by decide) false) halfDeliveredCalls
    (a.emits .takeAll).map (fun e => e.2.totals) = [[⟨2, 2, 1, 1, 0, 1⟩]] ∧
      ∀ e ∈ a.emits .takeAll, e.2.TotalsPartition (fun _ => "") e.1 halfDeliveredCalls := by
  have hdistinct : ∀ task b, .compare task (.block b) ∈ halfDeliveredCalls →
      (b.txs.map TxView.signature).Nodup := by
    intro task b hmem
    rcases List.mem_cons.mp hmem with heq | hmem
    · cases heq
    · cases List.mem_singleton.mp hmem
      decide
  refine ⟨by decide, ?_⟩
  exact (totals_partition (by decide) hdistinct).2.2 .takeAll

end ShredTools.Audit
