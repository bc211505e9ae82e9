import ShredTools.Audit.HonestSource

/-!
# Complete sources

An honest source may still miss transactions.  It is complete if it shows every transaction of the
chain that one of its filters accepts, before the slot is handed out for its check.  If no delivery
is dropped (`FilterAudit.Undropped`) and no block has a signature twice, the windows of complete
sources are spotless: nothing is counted against the source, and nothing is reported
(`complete_spotless`).

Together with `honest_not_accused` this says what the reports are about: of an honest source they
list misses only, and of a complete one nothing.
-/

namespace ShredTools.Audit

/-- Everything in the block that a filter of the bundle accepts was delivered. -/
def SlotTask.Full (chain : Chain) (task : SlotTask) : Prop :=
  ∀ block ∈ chain task.slot, ∀ tx ∈ block.txs, ∀ f ∈ task.bundle.filters,
    f.matchesTx tx = true → tx.signature ∈ task.deliveries

/-- No block has a signature twice. -/
def Chain.Distinct (chain : Chain) : Prop :=
  ∀ slot, ∀ block ∈ chain slot, (block.txs.map TxView.signature).Nodup

/-- A window lacks nothing, and reports nothing. -/
structure Window.Spotless (w : Window) : Prop where
  /-- Nothing was missed. -/
  missed : ∀ t ∈ w.totals, t.missed = 0
  /-- Nothing is reported. -/
  violations : w.violations = []

/-! ### The comparison -/

section Comparison

variable {base58 : List UInt8 → String} {chain : Chain} {task : SlotTask} {i : ℕ} {f : Filter}

/-- In a block without repeated signatures a transaction is found by its signature. -/
theorem Block.find_of_mem {b : Block} (hnd : (b.txs.map TxView.signature).Nodup) {tx : TxView}
    (htx : tx ∈ b.txs) : b.find tx.signature = some tx := by
  unfold Block.find
  cases hfind : b.txs.reverse.find? (·.signature == tx.signature) with
  | none =>
    have hne := List.find?_eq_none.mp hfind tx (List.mem_reverse.mpr htx)
    exact absurd (beq_self_eq_true _) hne
  | some found =>
    have hmem := List.mem_reverse.mp (List.mem_of_find?_eq_some hfind)
    have hsig := List.find?_some hfind
    rw [List.inj_on_of_nodup_map hnd hmem htx (beq_iff_eq.mp hsig)]

/-- A full genuine task has every transaction that the filter expects. -/
theorem SlotTask.Full.has (hfull : task.Full chain) (htask : task.IsGenuine chain)
    (hdistinct : chain.Distinct) (hf : task.bundle.filters[i]? = some f) {b : Block}
    (hb : chain task.slot = some b) : ∀ tx ∈ b.expected f, task.Has i tx.signature = true := by
  intro tx htx
  obtain ⟨hmem, hmatch⟩ := List.mem_filter.mp htx
  have hkept := hfull b hb tx hmem f (List.mem_of_getElem? hf) hmatch
  obtain ⟨mask, hmask⟩ := Option.isSome_iff_exists.mp (AList.lookup_isSome.mpr hkept)
  obtain ⟨block, hblock, found, hfound, hbits⟩ := htask tx.signature mask hmask
  rw [Option.mem_def, hb] at hblock
  cases hblock
  rw [Option.mem_def, Block.find_of_mem (hdistinct task.slot b hb) hmem] at hfound
  cases hfound
  unfold SlotTask.Has
  rw [hmask, Option.any_some, hasBit_eq, hbits i f hf]
  exact hmatch

/-- Expected transactions that were delivered are no finding. -/
lemma FilterFindings.examples_foldl_expect {txs : List TxView}
    (h : ∀ tx ∈ txs, task.Has i tx.signature = true) (found : FilterFindings) :
    (txs.foldl (FilterFindings.expect base58 task i f) found).examples = found.examples := by
  induction txs generalizing found with
  | nil => rfl
  | cons tx txs ih =>
    obtain ⟨htx, htxs⟩ := List.forall_mem_cons.mp h
    unfold SlotTask.Has at htx
    rw [List.foldl_cons, ih htxs]
    unfold FilterFindings.expect
    dsimp only
    rw [if_pos htx]

/-- **The comparison of a full genuine task finds nothing.** -/
theorem compareFilter_of_full (hfull : task.Full chain) (htask : task.IsGenuine chain)
    (hdistinct : chain.Distinct) (hf : task.bundle.filters[i]? = some f) {fetched : Fetched}
    (hfetched : fetched.Confirmed chain task.slot) :
    (compareFilter base58 task fetched i f).totals.missed = 0 ∧
      (compareFilter base58 task fetched i f).examples = [] := by
  cases fetched with
  | skipped =>
    have hnil := htask.deliveredFor_eq_nil hf hfetched
    unfold compareFilter
    dsimp only
    rw [hnil]
    exact ⟨rfl, rfl⟩
  | block b =>
    have hfound := htask.find_of_mem hf hfetched
    have hhas := hfull.has htask hdistinct hf hfetched
    unfold compareFilter
    dsimp only
    rw [FilterFindings.foldl_lookUp_eq hfound]
    constructor
    · rw [totals_foldl_expect]
      dsimp only
      rw [List.countP_eq_zero.mpr fun tx htx => ?_]
      · rfl
      · rw [hhas tx htx]
        exact Bool.false_ne_true
    · exact FilterFindings.examples_foldl_expect hhas _

end Comparison

/-! ### Windows -/

namespace Window

variable {w : Window}

lemma spotless_new (info : WindowInfo) : (new info).Spotless where
  missed t ht := by
    rw [List.eq_of_mem_replicate ht]
    rfl
  violations := rfl

/-- The course of a window has no part in it. -/
theorem Spotless.withCourse (h : w.Spotless) (c : Course) : { w with toCourse := c }.Spotless :=
  ⟨h.missed, h.violations⟩

/-- A comparison that finds nothing leaves a window spotless. -/
theorem Spotless.compared (h : w.Spotless) {base58 : List UInt8 → String} {task : SlotTask}
    {fetched : Fetched}
    (hnothing : ∀ i f, task.bundle.filters[i]? = some f →
      (compareFilter base58 task fetched i f).totals.missed = 0 ∧
        (compareFilter base58 task fetched i f).examples = []) :
    (w.compared base58 task fetched).Spotless := by
  have hclean : ∀ found ∈ compareFilters base58 task fetched,
      found.totals.missed = 0 ∧ found.examples = [] := by
    intro found hfound
    obtain ⟨f, hf, rfl⟩ := List.mem_map.mp hfound
    exact hnothing f.2 f.1 (List.mem_zipIdx_iff_getElem?.mp hf)
  have hexamples : (compareFilters base58 task fetched).flatMap FilterFindings.examples = [] :=
    List.flatMap_eq_nil_iff.mpr fun found hfound => (hclean found hfound).2
  unfold Window.compared
  dsimp only
  rw [hexamples]
  refine ⟨?_, h.violations⟩
  refine forall_mem_addTotals (p := fun t => t.missed = 0) rfl (fun t o ht ho => ?_) h.missed
    fun o ho => ?_
  · simp [CheckTotals.add, ht, ho]
  · obtain ⟨found, hfound, rfl⟩ := List.mem_map.mp ho
    exact (hclean found hfound).1

end Window

namespace FilterAudit

variable {chain : Chain} {shown : List Shown} {a : FilterAudit} {calls : List AuditCall}

/-- All windows are spotless. -/
def AllSpotless (a : FilterAudit) : Prop := ∀ key, ∀ w ∈ a.windows.lookup key, w.Spotless

/-- **An honest call leaves all windows spotless**, if what is compared is full. -/
theorem AllSpotless.call (h : a.AllSpotless) (hhonest : a.AllHonest chain shown)
    (hdistinct : chain.Distinct) (base58 : List UInt8 → String) (call : AuditCall)
    (hcall : a.HonestCall chain shown call)
    (hfull : ∀ task fetched, call = .compare task fetched → task.Full chain) :
    (a.call base58 call).1.AllSpotless := by
  intro key w hw
  rw [Option.mem_def, lookup_call] at hw
  rcases exists_of_windowStep hw with ⟨info, rfl, rfl⟩ | ⟨hopens, v, hv, rfl⟩
  · exact Window.spotless_new info
  · have hv' := h key v hv
    -- only a comparison could add a miss or a violation
    have hsteers := v.act_of_steers base58 a.sampleEvery a.skipVotes key call
    cases call with
    | onDelivery key' slot tx tags serverIsVote =>
      unfold Window.act
      dsimp only
      split
      next hkey =>
        subst hkey
        have hkeeping := (hhonest key' v hv).keeping
        obtain ⟨c, tagged, untagged, heq⟩ := Window.onDelivery_eq base58 a.sampleEvery
          hkeeping.named (hcall.1 v hv) fun hmem =>
            hcall.2 (hkeeping.shown slot tx.signature hmem)
        rw [heq]
        exact ⟨hv'.missed, hv'.violations⟩
      next => exact hv'
    | compare task fetched =>
      unfold Window.act
      dsimp only
      split
      · exact hv'.compared fun i f hf =>
          compareFilter_of_full (hfull task fetched rfl) hcall.1 hdistinct hf hcall.2
      · exact hv'
    | subscribed _ _ | close _ _ _ _ | unchecked _ =>
      obtain ⟨c, -, -, hact⟩ := hsteers trivial
      rw [hact]
      exact hv'.withCourse c
    | takeReady lagSlots tip => exact hv'.withCourse _
    | drainViolations => exact ⟨hv'.missed, rfl⟩
    | openWindow _ _ => exact hv'
    | takeFinished _ _ _ _ => exact hv'
    | takeAll => exact hv'

/-- A call that delivers nothing and opens no window keeps what was covered. -/
theorem AllCovered.settled (h : a.AllCovered calls) (base58 : List UInt8 → String)
    {call : AuditCall} (hcall : a.Undropped call)
    (hstep : ∀ key slot sigs, deliveredStep a.skipVotes key slot sigs call = sigs) :
    (a.call base58 call).1.AllCovered calls := by
  have hcovered : (a.call base58 call).1.AllCovered (calls ++ [call]) := h.call hcall
  intro key c hc
  have hnext := hcovered key c hc
  rw [(config_call base58 a call).2] at hnext ⊢
  simpa only [delivered_concat, hstep] using hnext

/-- What holds of the windows of complete sources. -/
structure AllComplete (chain : Chain) (shown : List Shown) (calls : List AuditCall)
    (a : FilterAudit) : Prop where
  /-- The windows are honest. -/
  honest : a.AllHonest chain shown
  /-- The windows are spotless. -/
  spotless : a.AllSpotless
  /-- The windows keep what was delivered. -/
  covered : a.AllCovered calls

/-- A call of a source leaves its windows complete. -/
theorem AllComplete.call (h : a.AllComplete chain shown calls) (hdistinct : chain.Distinct)
    (base58 : List UInt8 → String) (call : AuditCall) (hcall : a.HonestCall chain shown call)
    (hundropped : a.Undropped call)
    (hfull : ∀ task fetched, call = .compare task fetched → task.Full chain) :
    (a.call base58 call).1.AllComplete chain (shownStep shown call) (calls ++ [call]) :=
  ⟨h.honest.call base58 call hcall,
    h.spotless.call h.honest hdistinct base58 call hcall hfull, h.covered.call hundropped⟩

/-- A call of the checker keeps all windows complete, as nothing more was delivered. -/
theorem AllComplete.settled (h : a.AllComplete chain shown calls) (hdistinct : chain.Distinct)
    (base58 : List UInt8 → String) (call : AuditCall) (hcall : a.HonestCall chain shown call)
    (hundropped : a.Undropped call)
    (hfull : ∀ task fetched, call = .compare task fetched → task.Full chain)
    (hshown : shownStep shown call = shown)
    (hstep : ∀ key slot sigs, deliveredStep a.skipVotes key slot sigs call = sigs) :
    (a.call base58 call).1.AllComplete chain shown calls := by
  have hhonest := h.honest.call base58 call hcall
  rw [hshown] at hhonest
  exact ⟨hhonest, h.spotless.call h.honest hdistinct base58 call hcall hfull,
    h.covered.settled base58 hundropped hstep⟩

/-- The checker upholds that the windows are complete and the tasks genuine and full. -/
lemma upheld_allComplete (hdistinct : chain.Distinct) (base58 : List UInt8 → String)
    (shown : List Shown) (calls : List AuditCall) :
    Upheld base58 chain (AllComplete chain shown calls)
      fun task => task.IsGenuine chain ∧ task.Full chain where
  compare _ task fetched ha htask hfetched := by
    refine ha.settled hdistinct base58 (.compare task fetched) ⟨htask.1, hfetched⟩ trivial
      (fun task' fetched' heq => ?_) rfl fun _ _ _ => rfl
    cases heq
    exact htask.2
  unchecked _ task ha := ha.settled hdistinct base58 (.unchecked task) trivial trivial
    (fun _ _ heq => by cases heq) rfl fun _ _ _ => rfl
  drainViolations _ ha := ha.settled hdistinct base58 .drainViolations trivial trivial
    (fun _ _ heq => by cases heq) rfl fun _ _ _ => rfl
  takeFinished _ tip floor now ha :=
    ha.settled hdistinct base58 (.takeFinished tip floor now giveUpSecs) trivial trivial
      (fun _ _ heq => by cases heq) rfl fun _ _ _ => rfl
  takeAll _ ha := ha.settled hdistinct base58 .takeAll trivial trivial
    (fun _ _ heq => by cases heq) rfl fun _ _ _ => rfl
  attempts _ _ htask := htask

/-- Every transaction of the slot of a task that one of its filters accepts was delivered to its
window. -/
def Prompt (chain : Chain) (skipVotes : Bool) (calls : List AuditCall) (task : SlotTask) : Prop :=
  ∀ block ∈ chain task.slot, ∀ tx ∈ block.txs, ∀ f ∈ task.bundle.filters, f.matchesTx tx = true →
    tx.signature ∈ delivered skipVotes task.key task.slot calls

instance (chain : Chain) (skipVotes : Bool) (calls : List AuditCall) (task : SlotTask) :
    Decidable (Prompt chain skipVotes calls task) :=
  inferInstanceAs (Decidable (∀ block ∈ chain task.slot, ∀ tx ∈ block.txs,
    ∀ f ∈ task.bundle.filters, f.matchesTx tx = true →
      tx.signature ∈ delivered skipVotes task.key task.slot calls))

/-- A hand-out of tasks whose transactions were all delivered. -/
theorem AllComplete.takeReady (h : a.AllComplete chain shown calls) (hdistinct : chain.Distinct)
    {lagSlots tip : ℕ} (hundropped : a.Undropped (.takeReady lagSlots tip))
    (hprompt : ∀ task ∈ (a.takeReady lagSlots tip).2, Prompt chain a.skipVotes calls task) :
    (a.takeReady lagSlots tip).1.AllComplete chain shown calls ∧
      ∀ task ∈ (a.takeReady lagSlots tip).2, task.IsGenuine chain ∧ task.Full chain := by
  refine ⟨h.settled hdistinct (fun _ => "") (.takeReady lagSlots tip) trivial hundropped
    (fun _ _ heq => by cases heq) rfl fun _ _ _ => rfl, fun task htask => ?_⟩
  refine ⟨(h.honest.takeReady lagSlots tip).2 task htask, fun block hblock tx htx f hf hmatch => ?_⟩
  have hdelivered := hprompt task htask block hblock tx htx f hf hmatch
  have hcomplete : Complete a.skipVotes calls task :=
    (h.covered.takeReady hundropped).2 task htask
  rw [← hcomplete, List.mem_toFinset] at hdelivered
  exact AList.mem_keys.mpr hdelivered

end FilterAudit

/-! ### Runs -/

namespace FilterSystem

section Run

variable (base58 : List UInt8 → String) (decode : String → Except String (List UInt8))
  (chain : Chain)

/-- A step with complete sources: no delivery is dropped, and what is handed out was delivered. -/
def CompleteStep (calls : List AuditCall) (s : FilterSystem) : FilterStep → Prop
  | .beginTick tip _ => s.worker.phase.isIdle = true →
    s.worker.audit.Undropped (.takeReady s.worker.lagSlots tip) ∧
      ∀ task ∈ (s.worker.audit.takeReady s.worker.lagSlots tip).2,
        FilterAudit.Prompt chain s.worker.audit.skipVotes calls task
  | step => ∀ call ∈ s.sourceCall step, s.worker.audit.Undropped call

instance (calls : List AuditCall) (s : FilterSystem) (step : FilterStep) :
    Decidable (s.CompleteStep chain calls step) :=
  match step with
  | .beginTick tip _ =>
    inferInstanceAs (Decidable (s.worker.phase.isIdle = true →
      s.worker.audit.Undropped (.takeReady s.worker.lagSlots tip) ∧
        ∀ task ∈ (s.worker.audit.takeReady s.worker.lagSlots tip).2,
          FilterAudit.Prompt chain s.worker.audit.skipVotes calls task))
  | .connect _ _ | .subscribed _ _ | .onDelivery _ _ _ _ _ | .close _ _ _ _ | .handleGroup _
  | .endTick _ _ _ | .shutdown =>
    inferInstanceAs (Decidable (∀ call ∈ s.sourceCall _, s.worker.audit.Undropped call))

/-- A run with honest and complete sources, after some calls of the sources. -/
def CompleteRun : List Shown → List AuditCall → FilterSystem → List FilterStep → Prop
  | _, _, _, [] => True
  | shown, calls, s, step :: steps =>
    (s.HonestStep decode chain shown step ∧ s.CompleteStep chain calls step) ∧
      CompleteRun (s.note shown step) (calls ++ (s.sourceCall step).toList)
        (s.step base58 step).1 steps

end Run

/-- Nothing is held against any source, and nothing was reported. -/
structure AllClear (s : FilterSystem) (log : List CheckEvent) : Prop where
  /-- The windows that there are have a clean record. -/
  windows : ∀ key, ∀ w ∈ s.worker.audit.windows.lookup key, w.Blameless ∧ w.Spotless
  /-- The windows that were emitted had one. -/
  emitted : ∀ e, .emitted e ∈ log → e.2.Blameless ∧ e.2.Spotless

/-- The windows are complete, and the tasks genuine and full. -/
abbrev Clear (chain : Chain) (shown : List Shown) (calls : List AuditCall) (s : FilterSystem) :
    Prop :=
  s.worker.Upholds chain (FilterAudit.AllComplete chain shown calls)
    fun task => task.IsGenuine chain ∧ task.Full chain

variable {base58 : List UInt8 → String} {decode : String → Except String (List UInt8)}
  {chain : Chain} {shown : List Shown} {calls : List AuditCall} {s : FilterSystem}

/-- **A step of complete sources and an honest node keeps all windows clear**, and emits clear
ones. -/
theorem Clear.step (h : s.Clear chain shown calls) (hdistinct : chain.Distinct)
    {step : FilterStep} (hhonest : s.HonestStep decode chain shown step)
    (hcomplete : s.CompleteStep chain calls step) :
    (s.step base58 step).1.Clear chain (s.note shown step)
        (calls ++ (s.sourceCall step).toList) ∧
      ∀ e, .emitted e ∈ (s.step base58 step).2 → e.2.Blameless ∧ e.2.Spotless := by
  have hup := FilterAudit.upheld_allComplete hdistinct base58 shown calls
  have hnone : ∀ e : FilterAudit.Emitted, CheckEvent.emitted e ∈ [] →
      e.2.Blameless ∧ e.2.Spotless := fun e he => absurd he List.not_mem_nil
  have hcall := h.windows.call hdistinct base58
  -- a window that is emitted was there before, honest and spotless
  have hemits : ∀ (a : FilterAudit) call, FilterAudit.AllComplete chain shown calls a →
      ∀ e ∈ a.emits call, e.2.Blameless ∧ e.2.Spotless := by
    intro a call ha e he
    obtain ⟨w, hw, hemitted⟩ := FilterAudit.exists_of_mem_emits he
    rw [hemitted]
    exact ⟨(ha.honest e.1 w hw).blameless.withCourse _, (ha.spotless e.1 w hw).withCourse _⟩
  cases step with
  | connect sid info =>
    have haccepted : info.bundle.Accepted decode := hhonest
    exact ⟨h.withAudit (hcall (.openWindow (sid, s.connections sid) info)
      haccepted.nodup_names (hcomplete _ rfl) fun _ _ heq => by cases heq), hnone⟩
  | subscribed key tip =>
    exact ⟨h.withAudit (hcall (.subscribed key tip) trivial (hcomplete _ rfl)
      fun _ _ heq => by cases heq), hnone⟩
  | onDelivery key slot tx tags serverIsVote =>
    exact ⟨h.withAudit (hcall (.onDelivery key slot tx tags serverIsVote) hhonest
      (hcomplete _ rfl) fun _ _ heq => by cases heq), hnone⟩
  | close key tip now reason =>
    exact ⟨h.withAudit (hcall (.close key tip now reason) trivial (hcomplete _ rfl)
      fun _ _ heq => by cases heq), hnone⟩
  | beginTick tip now =>
    dsimp only [sourceCall, Option.toList]
    rw [List.append_nil]
    refine ⟨h.beginTick (fun hidle => ?_) fun _ => h.windows, fun e he => ?_⟩
    · have hready : s.worker.phase.isIdle = true := by
        rw [hidle]
        rfl
      exact h.windows.takeReady hdistinct (hcomplete hready).1 (hcomplete hready).2
    · exact absurd he (Worker.not_emitted_beginTick tip now e)
  | handleGroup readings =>
    dsimp only [sourceCall, Option.toList]
    rw [List.append_nil]
    refine ⟨h.handleGroup hup hhonest, fun e he => ?_⟩
    exact absurd he (Worker.not_emitted_handleGroup readings e)
  | endTick tip floor now =>
    dsimp only [sourceCall, Option.toList]
    rw [List.append_nil]
    obtain ⟨hended, hemitted⟩ := h.endTick hup tip floor now
    refine ⟨hended, fun e he => ?_⟩
    obtain ⟨a, call, ha, he⟩ := hemitted e he
    exact hemits a call ha e he
  | shutdown =>
    dsimp only [sourceCall, Option.toList]
    rw [List.append_nil]
    obtain ⟨hended, hemitted⟩ := h.shutdown hup
    refine ⟨hended, fun e he => ?_⟩
    obtain ⟨a, call, ha, he⟩ := hemitted e he
    exact hemits a call ha e he

/-- Before anything is connected. -/
lemma clear_new (n : ℕ) (hn : 0 < n) (skipVotes : Bool) (lagSlots : ℕ) :
    (new n hn skipVotes lagSlots).Clear chain [] [] := by
  have hhonest : (new n hn skipVotes lagSlots).Honest chain [] :=
    honest_new n hn skipVotes lagSlots
  refine ⟨⟨hhonest.windows, fun key w hw => ?_, fun key c hc => ?_⟩,
    fun t ht => absurd ht List.not_mem_nil, hhonest.grouped, hhonest.cached⟩
  · have hnone : (new n hn skipVotes lagSlots).worker.audit.windows.lookup key = none :=
      AList.lookup_empty key
    rw [Option.mem_def, hnone] at hw
    cases hw
  · have hnone : (new n hn skipVotes lagSlots).worker.audit.course key = none :=
      FilterAudit.course_new n hn skipVotes key
    rw [Option.mem_def, hnone] at hc
    cases hc

/-- **A complete honest source has a clean record**: in every run in which the sources are honest
and show, before a slot is handed out for its check, every transaction of it that one of their
filters accepts, in which no delivery is dropped, and the node answers what the cluster confirmed,
if it answers, no window counts anything against its source, not even a miss, and no violation is
reported. -/
theorem complete_spotless (hdistinct : chain.Distinct) {n : ℕ} (hn : 0 < n) (skipVotes : Bool)
    (lagSlots : ℕ) {steps : List FilterStep}
    (hrun : CompleteRun base58 decode chain [] [] (new n hn skipVotes lagSlots) steps) :
    AllClear
      (Machine.finalState (FilterSystem.step base58) (new n hn skipVotes lagSlots) steps)
      (Machine.outputs (FilterSystem.step base58) (new n hn skipVotes lagSlots) steps).flatten := by
  have hstart : ∃ shown calls,
      CompleteRun base58 decode chain shown calls (new n hn skipVotes lagSlots) steps ∧
        (new n hn skipVotes lagSlots).Clear chain shown calls ∧
        ∀ e, CheckEvent.emitted e ∈ [] → e.2.Blameless ∧ e.2.Spotless :=
    ⟨[], [], hrun, clear_new n hn skipVotes lagSlots, fun e he => absurd he List.not_mem_nil⟩
  have hend := Machine.log_induction (FilterSystem.step base58)
    (P := fun s steps log => ∃ shown calls, CompleteRun base58 decode chain shown calls s steps ∧
      s.Clear chain shown calls ∧
        ∀ e, CheckEvent.emitted e ∈ log → e.2.Blameless ∧ e.2.Spotless)
    (fun s step steps log hbefore => ?_) hstart
  · obtain ⟨shown, calls, -, hclear, hlog⟩ := hend
    refine ⟨fun key w hw => ?_, hlog⟩
    exact ⟨(hclear.windows.honest key w hw).blameless, hclear.windows.spotless key w hw⟩
  · obtain ⟨shown, calls, hrun, hclear, hlog⟩ := hbefore
    obtain ⟨hnext, hemitted⟩ := hclear.step hdistinct hrun.1.1 hrun.1.2
    refine ⟨_, _, hrun.2, hnext, fun e he => ?_⟩
    rcases List.mem_append.mp he with he | he
    · exact hlog e he
    · exact hemitted e he

/-- A source that shows all of slot 1010; the node fails once, and the window is emitted. -/
def completeSteps : List FilterStep :=
  [.connect 0 ⟨"g", .grpcDeshred, none, pairBundle⟩, .subscribed (0, 0) 1000,
    .onDelivery (0, 0) 1003 (plainTx 4) [] none,
    .onDelivery (0, 0) 1010 (plainTx 1) ["b", "a", "b"] (some false),
    .onDelivery (0, 0) 1010 (plainTx 2) ["a", "b"] none,
    .onDelivery (0, 0) 1030 (plainTx 3) ["a", "b"] none,
    .beginTick 1042 0, .handleGroup ⟨0, 0, 0, fun _ => 0, .failed⟩, .endTick 1042 0 0,
    .beginTick 1042 8000, .handleGroup ⟨8000, 0, 0, 0, .block [plainTx 1, plainTx 2]⟩,
    .endTick 1042 0 0, .close (0, 0) 1042 0 "rotated", .shutdown]

/-- The record of the source is clean: of the one slot compared both filters have all transactions.
-/
theorem complete_spotless_complete :
    let log := (Machine.outputs (FilterSystem.step fun _ => "") (new 10 (by decide) false 32)
      completeSteps).flatten
    (log.filterMap (CheckEvent.emittedAt (0, 0))).map Course.slotsChecked = [1] ∧
      AllClear
        (Machine.finalState (FilterSystem.step fun _ => "") (new 10 (by decide) false 32)
          completeSteps) log := by
  have hdistinct : fewTxs.Distinct := by
    intro slot block hblock
    unfold fewTxs at hblock
    split at hblock <;> cases hblock <;> decide
  -- the steps one by one, each with what it must meet and then the rest of the run
  have hrun : CompleteRun (fun _ => "") (fun _ => .error "no keys") fewTxs [] []
      (new 10 (by decide) false 32) completeSteps := by
    refine ⟨⟨pairBundle_accepted, ?_⟩, ⟨trivial, ?_⟩, ⟨⟨fun w hw => ?_, by decide⟩, ?_⟩,
      ⟨⟨fun w hw => ?_, by decide⟩, ?_⟩, ⟨⟨fun w hw => ?_, by decide⟩, ?_⟩,
      ⟨⟨fun w hw => ?_, by decide⟩, ?_⟩, ⟨trivial, ?_⟩, ⟨?_, ?_⟩, ⟨trivial, ?_⟩, ⟨trivial, ?_⟩,
      ⟨?_, ?_⟩, ⟨trivial, ?_⟩, ⟨trivial, ?_⟩, ⟨trivial, ?_⟩, trivial⟩
    · decide +kernel
    · decide +kernel
    · cases hw
      exact honestDelivery_plainTx rfl rfl (fun hnil => absurd rfl hnil) nofun
    · decide +kernel
    · cases hw
      exact honestDelivery_plainTx rfl rfl (fun _ name => by simp; tauto) (by simp)
    · decide +kernel
    · cases hw
      exact honestDelivery_plainTx rfl rfl (fun _ name => by simp) nofun
    · decide +kernel
    · cases hw
      exact honestDelivery_plainTx rfl rfl (fun _ name => by simp) nofun
    · decide +kernel
    · decide +kernel
    · intro slot _ result hresult
      cases hresult
    · decide +kernel
    · decide +kernel
    · decide +kernel
    · intro slot hslot result hresult
      cases hslot
      cases hresult
      rfl
    · decide +kernel
    · decide +kernel
    · decide +kernel
    · decide +kernel
  refine ⟨by decide +kernel, ?_⟩
  exact complete_spotless hdistinct (by decide) false 32 hrun

end FilterSystem

end ShredTools.Audit
