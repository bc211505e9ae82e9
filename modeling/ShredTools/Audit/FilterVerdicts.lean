import ShredTools.Audit.FilterTags

/-!
# The verdicts on tags

For each filter a window counts the deliveries that carry it, those that carry it though it rejects
them, and those that it accepts though they lack it.  The counts are exact over the whole life of
the window (`Tallies`).  Violations are reported besides, up to a cap for each filter and kind,
which holds however often the reports are drained (`Capped`).

Both invariants are kept along the calls of one window, the counts against the updates delivered so
far (`updatesIn`) and the cap against the rows drained so far (`drainedFrom`).  A tag is good if it
resolves to the bit of its filter, which the distinct names of a bundle ensure
(`Bundle.ResolvesTags`).  Kinds of violations that concern no filter are kept apart (`IsGlobal`),
since their rows carry a star for its name.  `tagVerdicts_exact` puts the three together for windows
that are there and for those that were emitted.
-/

namespace ShredTools.Audit

/-! ### Counts -/

/-- What an update brings: the transaction and the tags. -/
abbrev Update := TxView × List String

/-- One more call, after which some updates count as delivered in a window: opening it starts
afresh. -/
def updatesStep (key : WindowKey) (us : List Update) : AuditCall → List Update
  | .openWindow key' _ => if key' = key then [] else us
  | .onDelivery key' _ tx tags _ => if key' = key then us ++ [(tx, tags)] else us
  | _ => us

/-- The updates delivered in a window since it was opened. -/
def updatesIn (key : WindowKey) (calls : List AuditCall) : List Update :=
  calls.foldl (updatesStep key) []

lemma updatesIn_concat (key : WindowKey) (calls : List AuditCall) (call : AuditCall) :
    updatesIn key (calls ++ [call]) = updatesStep key (updatesIn key calls) call := by
  unfold updatesIn
  rw [List.foldl_append, List.foldl_cons, List.foldl_nil]

namespace Bundle

/-- Whether an update is tagged with filter `i`, though the filter rejects it. -/
def WrongTag (bundle : Bundle) (i : ℕ) (f : Filter) (u : Update) : Bool :=
  !bundle.Inferred u.2 && bundle.Carries i u.1 u.2 && !f.matchesTx u.1

/-- Whether an update is not tagged with filter `i`, though the filter accepts it. -/
def LacksTag (bundle : Bundle) (i : ℕ) (f : Filter) (u : Update) : Bool :=
  !bundle.Inferred u.2 && !bundle.Carries i u.1 u.2 && f.matchesTx u.1

end Bundle

/-- What a window counts for one filter. -/
structure TagCounts where
  /-- The updates delivered for it. -/
  tagged : Option ℕ
  /-- The updates tagged with it that it rejects. -/
  falsePositive : Option ℕ
  /-- The updates that it accepts and that lack its tag. -/
  missing : Option ℕ
  deriving DecidableEq

/-- One more update counts, or not. -/
def TagCounts.bump (tagged falsePositive missing : Bool) (c : TagCounts) : TagCounts where
  tagged := c.tagged.map (· + tagged.toNat)
  falsePositive := c.falsePositive.map (· + falsePositive.toNat)
  missing := c.missing.map (· + missing.toNat)

@[simp] lemma TagCounts.bump_false (c : TagCounts) : c.bump false false false = c := by
  obtain ⟨tagged, falsePositive, missing⟩ := c
  simp [bump]

/-- What a window counts for filter `i`. -/
def Window.tagCounts (i : ℕ) (w : Window) : TagCounts where
  tagged := w.tagged[i]?
  falsePositive := w.tagFalsePositive[i]?
  missing := w.tagMissing[i]?

namespace Window

variable {base58 : List UInt8 → String}

section Violation

variable (filter : Option ℕ) (kind : ViolationKind) (slot : ℕ) (signature : Signature)
  (reason : String) (w : Window)

@[simp] lemma tagged_violation :
    (w.violation base58 filter kind slot signature reason).tagged = w.tagged := by
  unfold violation
  dsimp only
  split <;> rfl

@[simp] lemma tagFalsePositive_violation :
    (w.violation base58 filter kind slot signature reason).tagFalsePositive =
      w.tagFalsePositive := by
  unfold violation
  dsimp only
  split <;> rfl

@[simp] lemma tagMissing_violation :
    (w.violation base58 filter kind slot signature reason).tagMissing = w.tagMissing := by
  unfold violation
  dsimp only
  split <;> rfl

/-- Reports do not count. -/
@[simp] lemma tagCounts_violation (i : ℕ) :
    (w.violation base58 filter kind slot signature reason).tagCounts i = w.tagCounts i := by
  unfold tagCounts
  simp

end Violation

/-- The vote flag does not count. -/
@[simp] lemma tagCounts_judgeVoteFlag (i slot : ℕ) (tx : TxView) (serverIsVote : Option Bool)
    (w : Window) : (w.judgeVoteFlag base58 slot tx serverIsVote).tagCounts i = w.tagCounts i := by
  unfold judgeVoteFlag
  split
  · split
    · rfl
    · rw [tagCounts_violation]
      rfl
  · rfl

/-- What is kept for the check does not count. -/
@[simp] lemma tagCounts_sample (i n : ℕ) (skipVotes : Bool) (slot : ℕ) (tx : TxView) (mask : Mask)
    (w : Window) : (w.sample base58 n skipVotes slot tx mask).tagCounts i = w.tagCounts i := by
  unfold sample
  dsimp only
  split
  · split
    · rw [tagCounts_violation]
      rfl
    · rfl
  · rfl

/-- A comparison does not count. -/
@[simp] lemma tagCounts_compared (i : ℕ) (task : SlotTask) (fetched : Fetched) (w : Window) :
    (w.compared base58 task fetched).tagCounts i = w.tagCounts i := by
  have hfold : ∀ (es : List ViolationExample) (v : Window),
      (es.foldl (fun v e => v.violation base58 (some e.filter) e.kind task.slot e.signature
        e.reason) v).tagCounts i = v.tagCounts i := by
    intro es
    induction es with
    | nil => intro v; rfl
    | cons e es ih =>
      intro v
      rw [List.foldl_cons, ih, tagCounts_violation]
  exact hfold _ _

/-- The verdict on one filter counts for this filter only. -/
lemma tagCounts_judgeTag (i slot : ℕ) (tx : TxView) (tag : TagReading) (w : Window)
    (f : Filter × ℕ) :
    (w.judgeTag base58 slot tx tag f).tagCounts i =
      if f.2 = i then
        (w.tagCounts i).bump (tag.mask.getLsbD i)
          (!tag.inferred && tag.mask.getLsbD i && !f.1.matchesTx tx)
          (!tag.inferred && !tag.mask.getLsbD i && f.1.matchesTx tx)
      else w.tagCounts i := by
  unfold judgeTag tagCounts TagCounts.bump
  dsimp only
  by_cases hi : f.2 = i
  · rw [hi, if_pos rfl]
    cases tag.mask.getLsbD i <;> cases tag.inferred <;> cases f.1.matchesTx tx <;>
      simp
  · rw [if_neg hi]
    split_ifs <;> simp [hi]

/-- The only filter of a number. -/
lemma filter_zipIdx {α : Type} (l : List α) (i : ℕ) :
    (l.zipIdx.filter fun g => g.2 = i) = (l[i]?.map fun a => (a, i)).toList := by
  induction l using List.reverseRecOn with
  | nil => simp
  | append_singleton l a ih =>
    rw [List.zipIdx_append, List.filter_append, ih, Nat.zero_add]
    rcases Nat.lt_trichotomy i l.length with hi | rfl | hi
    · rw [List.getElem?_append_left hi]
      simp [Nat.ne_of_gt hi]
    · simp
    · have hnone : (l ++ [a])[i]? = none := by
        rw [List.getElem?_eq_none_iff, List.length_append, List.length_singleton]
        exact hi
      rw [hnone, List.getElem?_eq_none (Nat.le_of_lt hi)]
      simp [Nat.ne_of_lt hi]

/-- An update counts for each filter by its own verdict. -/
lemma tagCounts_judgeTags {i : ℕ} {f : Filter} {w : Window}
    (hf : w.info.bundle.filters[i]? = some f) (slot : ℕ) (tx : TxView) (tag : TagReading) :
    (w.judgeTags base58 slot tx tag).tagCounts i =
      (w.tagCounts i).bump (tag.mask.getLsbD i)
        (!tag.inferred && tag.mask.getLsbD i && !f.matchesTx tx)
        (!tag.inferred && !tag.mask.getLsbD i && f.matchesTx tx) := by
  have honly : (w.info.bundle.filters.zipIdx.filter fun g => g.2 = i) = [(f, i)] := by
    rw [filter_zipIdx, hf]
    rfl
  unfold judgeTags
  dsimp only
  rw [List.foldl_project (judgeTag base58 slot tx tag) (tagCounts i) (fun g => g.2 = i)
    (fun c g => c.bump (tag.mask.getLsbD i)
      (!tag.inferred && tag.mask.getLsbD i && !g.1.matchesTx tx)
      (!tag.inferred && !tag.mask.getLsbD i && g.1.matchesTx tx))
    (fun _ => True) (fun _ _ _ => trivial)
    (fun v g _ => tagCounts_judgeTag i slot tx tag v g) _ trivial, honly]
  rfl

/-- **What a delivery counts** for a filter. -/
theorem tagCounts_onDelivery {i : ℕ} {f : Filter} {w : Window}
    (hf : w.info.bundle.filters[i]? = some f) (n : ℕ) (skipVotes : Bool) (slot : ℕ) (tx : TxView)
    (tags : List String) (serverIsVote : Option Bool) :
    (w.onDelivery base58 n skipVotes slot tx tags serverIsVote).tagCounts i =
      (w.tagCounts i).bump (w.info.bundle.Carries i tx tags)
        (w.info.bundle.WrongTag i f (tx, tags)) (w.info.bundle.LacksTag i f (tx, tags)) := by
  have hf' : ({ w with toCourse := w.countDelivery slot } : Window).info.bundle.filters[i]? =
      some f := by
    have hinfo : (w.toCourse.countDelivery slot).info = w.info := Course.info_learnTip slot _
    dsimp only
    rw [hinfo]
    exact hf
  unfold onDelivery
  dsimp only
  rw [tagCounts_sample, tagCounts_judgeVoteFlag, tagCounts_judgeTags hf',
    Bundle.getLsbD_readTags, Bundle.inferred_readTags]
  rfl

/-- The counts of a window are those of the updates `us`. -/
def Tallies (us : List Update) (w : Window) : Prop :=
  ∀ i, ∀ f ∈ w.info.bundle.filters[i]?,
    w.tagCounts i =
      { tagged := some (us.countP fun u => w.info.bundle.Carries i u.1 u.2)
        falsePositive := some (us.countP (w.info.bundle.WrongTag i f))
        missing := some (us.countP (w.info.bundle.LacksTag i f)) }

/-- A window starts without updates. -/
lemma tallies_new (info : WindowInfo) : (new info).Tallies [] := by
  intro i f hf
  have hi : i < info.bundle.filters.length := (List.getElem?_eq_some_iff.mp hf).1
  unfold tagCounts new
  simp [hi]

/-- The counts stay exact: a delivery counts by its verdicts, and no other call counts. -/
theorem Tallies.act {us : List Update} {w : Window} (h : w.Tallies us) {n : ℕ} {skipVotes : Bool}
    {key : WindowKey} {call : AuditCall} (hopens : ¬ call.Opens key) :
    (w.act base58 n skipVotes key call).Tallies (updatesStep key us call) := by
  intro i f hf
  rw [info_act] at hf ⊢
  have hi := h i f hf
  have hsteers := w.act_of_steers base58 n skipVotes key call
  cases call with
  | openWindow key' info =>
    have hne : key' ≠ key := hopens
    unfold updatesStep
    dsimp only
    rw [if_neg hne]
    exact hi
  | onDelivery key' slot tx tags serverIsVote =>
    unfold updatesStep Window.act
    dsimp only
    by_cases heq : key' = key
    · rw [if_pos heq, if_pos heq, tagCounts_onDelivery hf, hi]
      unfold TagCounts.bump
      simp [List.countP_append, List.countP_singleton, Bool.toNat, Bool.cond_eq_ite]
    · rw [if_neg heq, if_neg heq]
      exact hi
  | compare task fetched =>
    unfold Window.act
    dsimp only
    split
    · rw [tagCounts_compared]
      exact hi
    · exact hi
  | subscribed _ _ | close _ _ _ _ | unchecked _ =>
    obtain ⟨c, -, -, hact⟩ := hsteers trivial
    rw [hact]
    exact hi
  | _ => exact hi

end Window

/-- **The verdicts on tags are exact** for every sequence of deliveries. -/
theorem tallies_windowAt {base58 : List UInt8 → String} {n : ℕ} {skipVotes : Bool}
    {key : WindowKey} {calls : List AuditCall} {w : Window}
    (hw : windowAt base58 n skipVotes key calls = some w) : w.Tallies (updatesIn key calls) := by
  refine windowAt_induction (P := fun calls w => w.Tallies (updatesIn key calls)) ?_ ?_ hw
  · intro calls info
    rw [updatesIn_concat]
    unfold updatesStep
    dsimp only
    rw [if_pos rfl]
    exact Window.tallies_new info
  · intro calls call w hopens _ h
    rw [updatesIn_concat]
    exact h.act hopens

/-! ### Reports -/

namespace ViolationKind

/-- Whether violations of a kind are about an update as a whole. -/
def IsGlobal : ViolationKind → Prop
  | voteFlagMismatch | duplicate => True
  | _ => False

/-- Whether violations of a kind are reported for a filter, or for none. -/
def Concerns (kind : ViolationKind) (filter : Option ℕ) : Prop := kind.IsGlobal ↔ filter = none

lemma concerns_some (kind : ViolationKind) (h : ¬ kind.IsGlobal) (i : ℕ) :
    kind.Concerns (some i) :=
  ⟨fun hglobal => absurd hglobal h, fun hnone => absurd hnone (Option.some_ne_none i)⟩

lemma concerns_none (kind : ViolationKind) (h : kind.IsGlobal) : kind.Concerns none :=
  ⟨fun _ => rfl, fun _ => h⟩

/-- Kinds have different names. -/
lemma label_inj {kind kind' : ViolationKind} : kind.label = kind'.label ↔ kind = kind' := by
  constructor
  · intro h
    cases kind <;> cases kind' <;> first | rfl | exact absurd h (by decide)
  · exact congrArg label

end ViolationKind

/-- Whether a row is a report of a kind for the filter of a name. -/
def ViolationRow.IsOf (name : String) (kind : ViolationKind) (r : ViolationRow) : Bool :=
  r.filter == name && r.violation == kind.label

namespace Window

/-- How many violations of a kind were reported for a filter. -/
def reported (filter : Option ℕ) (kind : ViolationKind) (w : Window) : ℕ :=
  (w.violationCounts.lookup (filterId filter, kind)).getD 0

/-- The rows of a window so far are counted, and the counts keep to the cap. -/
structure Capped (rows : List ViolationRow) (w : Window) : Prop where
  /-- Every row is a report for one of the filters, or for none. -/
  source : ∀ r ∈ rows, ∃ filter kind, ViolationKind.Concerns kind filter ∧
    w.filterName filter = some r.filter ∧ r.violation = kind.label
  /-- The rows of a kind for a filter are counted. -/
  counted : ∀ filter kind, ViolationKind.Concerns kind filter → ∀ name ∈ w.filterName filter,
    rows.countP (ViolationRow.IsOf name kind) ≤ w.reported filter kind
  /-- The counts keep to the cap. -/
  cap : ∀ k, (w.violationCounts.lookup k).getD 0 ≤ violationsPerKind

/-- No more rows of a kind than the cap allows are reported for a filter. -/
theorem Capped.countP_le {rows : List ViolationRow} {w : Window} (h : w.Capped rows)
    (name : String) (kind : ViolationKind) :
    rows.countP (ViolationRow.IsOf name kind) ≤ violationsPerKind := by
  by_cases hrow : ∃ r ∈ rows, r.IsOf name kind = true
  · obtain ⟨r, hr, hof⟩ := hrow
    obtain ⟨filter, kind', hconcerns, hname, hlabel⟩ := h.source r hr
    unfold ViolationRow.IsOf at hof
    rw [Bool.and_eq_true, beq_iff_eq, beq_iff_eq] at hof
    obtain ⟨rfl, hkind⟩ := hof
    rw [hlabel, ViolationKind.label_inj] at hkind
    subst hkind
    exact Nat.le_trans (h.counted filter kind' hconcerns _ hname) (h.cap _)
  · have hzero : rows.countP (ViolationRow.IsOf name kind) = 0 := by
      rw [List.countP_eq_zero]
      intro r hr hof
      exact hrow ⟨r, hr, hof⟩
    rw [hzero]
    exact Nat.zero_le _

/-- A window starts without rows. -/
lemma capped_new (info : WindowInfo) : (new info).Capped [] where
  source _ h := absurd h List.not_mem_nil
  counted _ _ _ _ _ := Nat.zero_le _
  cap k := by
    unfold new
    rw [AList.lookup_empty]
    exact Nat.zero_le _

/-- Different filters have different names. -/
lemma eq_of_filterName {w : Window} (hnd : (w.info.bundle.filters.map Filter.name).Nodup)
    {filter filter' : Option ℕ} (hnone : filter = none ↔ filter' = none) {name : String}
    (h : w.filterName filter = some name) (h' : w.filterName filter' = some name) :
    filter = filter' := by
  cases filter with
  | none => exact (hnone.mp rfl).symm
  | some i =>
    cases filter' with
    | none => exact absurd (hnone.mpr rfl) (Option.some_ne_none i)
    | some j =>
      have hi : (w.info.bundle.filters.map Filter.name)[i]? = some name := by
        rw [List.getElem?_map]
        exact h
      have hj : (w.info.bundle.filters.map Filter.name)[j]? = some name := by
        rw [List.getElem?_map]
        exact h'
      obtain ⟨hilt, hiname⟩ := List.getElem?_eq_some_iff.mp hi
      obtain ⟨hjlt, hjname⟩ := List.getElem?_eq_some_iff.mp hj
      exact congrArg some (hnd.getElem_inj_iff.mp (hiname.trans hjname.symm))

/-- What a count is after another one was set. -/
lemma getD_lookup_insert (counts : AList fun _ : ℕ × ViolationKind => ℕ)
    (k k' : ℕ × ViolationKind) (v : ℕ) :
    ((counts.insert k v).lookup k').getD 0 = if k' = k then v else (counts.lookup k').getD 0 := by
  by_cases hk : k' = k
  · subst hk
    rw [AList.lookup_insert, if_pos rfl]
    rfl
  · rw [AList.lookup_insert_ne hk, if_neg hk]

/-- A window whose reports of a kind are used up keeps to the cap. -/
theorem Capped.skip {rows : List ViolationRow} {w : Window} (h : w.Capped rows)
    (filter : Option ℕ) (kind : ViolationKind) :
    Capped rows { w with
      violationCounts :=
        w.violationCounts.insert (filterId filter, kind) (w.reported filter kind) } where
  source := h.source
  counted filter' kind' hconcerns name hname := by
    apply Nat.le_trans (h.counted filter' kind' hconcerns name hname)
    unfold reported
    rw [getD_lookup_insert]
    split
    next heq => rw [heq]
    next => exact Nat.le_refl _
  cap k := by
    dsimp only
    rw [getD_lookup_insert]
    split
    · exact h.cap _
    · exact h.cap k

/-- A window that makes one more report keeps to the cap, if it was not reached. -/
theorem Capped.report {rows new : List ViolationRow} {w : Window} (h : w.Capped rows)
    (hnd : (w.info.bundle.filters.map Filter.name).Nodup) {filter : Option ℕ}
    {kind : ViolationKind} (hconcerns : kind.Concerns filter)
    (hlt : w.reported filter kind < violationsPerKind) (hlen : new.length ≤ 1)
    (hnew : ∀ r ∈ new, w.filterName filter = some r.filter ∧ r.violation = kind.label)
    (pending : List ViolationRow) :
    Capped (rows ++ new) { w with
      violationCounts :=
        w.violationCounts.insert (filterId filter, kind) (w.reported filter kind + 1)
      violations := pending } where
  source r hr := by
    rcases List.mem_append.mp hr with hr | hr
    · exact h.source r hr
    · exact ⟨filter, kind, hconcerns, hnew r hr⟩
  counted filter' kind' hconcerns' name hname := by
    have hold := h.counted filter' kind' hconcerns' name hname
    unfold reported at hold ⊢
    rw [List.countP_append, getD_lookup_insert]
    by_cases heq : filter' = filter ∧ kind' = kind
    · obtain ⟨rfl, rfl⟩ := heq
      have hone : new.countP (ViolationRow.IsOf name kind') ≤ 1 :=
        Nat.le_trans List.countP_le_length hlen
      rw [if_pos rfl]
      omega
    · -- the new row is about another filter, or of another kind
      have hzero : new.countP (ViolationRow.IsOf name kind') = 0 := by
        rw [List.countP_eq_zero]
        intro r hr hof
        obtain ⟨hrname, hrkind⟩ := hnew r hr
        unfold ViolationRow.IsOf at hof
        rw [Bool.and_eq_true, beq_iff_eq, beq_iff_eq, hrkind, ViolationKind.label_inj] at hof
        obtain ⟨rfl, rfl⟩ := hof
        have hnone : filter' = none ↔ filter = none := hconcerns'.symm.trans hconcerns
        exact heq ⟨eq_of_filterName hnd hnone hname hrname, rfl⟩
      rw [hzero, Nat.add_zero]
      apply Nat.le_trans hold
      split
      next hk =>
        rw [hk]
        exact Nat.le_succ _
      next => exact Nat.le_refl _
  cap k := by
    dsimp only
    rw [getD_lookup_insert]
    split
    · exact hlt
    · exact h.cap k

/-- **Reports keep to the cap**: one more report is counted, or not made. -/
theorem Capped.violation {drained : List ViolationRow} {w : Window}
    (h : w.Capped (drained ++ w.violations))
    (hnd : (w.info.bundle.filters.map Filter.name).Nodup) {filter : Option ℕ}
    {kind : ViolationKind} (hconcerns : kind.Concerns filter) (slot : ℕ) (signature : Signature)
    (reason : String) :
    (w.violation base58 filter kind slot signature reason).Capped
      (drained ++ (w.violation base58 filter kind slot signature reason).violations) := by
  unfold Window.violation
  dsimp only
  split
  next => exact h.skip filter kind
  next hlt =>
    dsimp only
    rw [← List.append_assoc]
    refine h.report hnd hconcerns (Nat.lt_of_not_le hlt) ?_ ?_ _
    · rw [List.length_map]
      cases w.filterName filter <;> simp
    · intro r hr
      obtain ⟨name, hname, rfl⟩ := List.mem_map.mp hr
      exact ⟨Option.mem_toList.mp hname, rfl⟩

/-- The cap is about the names of the filters and the counts. -/
theorem Capped.congr {rows : List ViolationRow} {w w' : Window} (h : w.Capped rows)
    (hinfo : w'.info = w.info) (hcounts : w'.violationCounts = w.violationCounts) :
    w'.Capped rows := by
  have hname : ∀ filter, w'.filterName filter = w.filterName filter := by
    intro filter
    unfold filterName
    rw [hinfo]
  refine ⟨fun r hr => ?_, fun filter kind hconcerns name hfilter => ?_, fun k => ?_⟩
  · obtain ⟨filter, kind, hconcerns, hfilter, hlabel⟩ := h.source r hr
    exact ⟨filter, kind, hconcerns, (hname filter).trans hfilter, hlabel⟩
  · rw [hname] at hfilter
    unfold reported
    rw [hcounts]
    exact h.counted filter kind hconcerns name hfilter
  · rw [hcounts]
    exact h.cap k

/-- A window and the rows drained from it keep to the cap. -/
structure KeepsCap (drained : List ViolationRow) (w : Window) : Prop where
  /-- Names tell the filters apart. -/
  names : (w.info.bundle.filters.map Filter.name).Nodup
  /-- The rows drained and those still there are capped. -/
  capped : w.Capped (drained ++ w.violations)

section KeepsCap

variable {n : ℕ} {skipVotes : Bool} {key : WindowKey} {drained : List ViolationRow}
  {w w' : Window}

/-- What is not a report does not touch the cap. -/
theorem KeepsCap.congr (h : w.KeepsCap drained) (hinfo : w'.info = w.info)
    (hcounts : w'.violationCounts = w.violationCounts) (hrows : w'.violations = w.violations) :
    w'.KeepsCap drained where
  names := by
    rw [hinfo]
    exact h.names
  capped := by
    rw [hrows]
    exact h.capped.congr hinfo hcounts

theorem KeepsCap.violation (h : w.KeepsCap drained) {filter : Option ℕ} {kind : ViolationKind}
    (hconcerns : kind.Concerns filter) (slot : ℕ) (signature : Signature) (reason : String) :
    (w.violation base58 filter kind slot signature reason).KeepsCap drained where
  names := by
    rw [toCourse_violation]
    exact h.names
  capped := h.capped.violation h.names hconcerns slot signature reason

theorem KeepsCap.judgeTag (h : w.KeepsCap drained) (slot : ℕ) (tx : TxView) (tag : TagReading)
    (f : Filter × ℕ) : (w.judgeTag base58 slot tx tag f).KeepsCap drained := by
  unfold Window.judgeTag
  dsimp only
  generalize hv : (if tag.mask.getLsbD f.2 = true then
    ({ w with tagged := w.tagged.modify f.2 (· + 1) } : Window) else w) = v
  have hcount : v.KeepsCap drained := by
    rw [← hv]
    split
    · exact h.congr rfl rfl rfl
    · exact h
  split_ifs
  · exact hcount
  · refine KeepsCap.violation ?_ (ViolationKind.concerns_some .tagFalsePositive id _) _ _ _
    exact hcount.congr rfl rfl rfl
  · refine KeepsCap.violation ?_ (ViolationKind.concerns_some .tagMissing id _) _ _ _
    exact hcount.congr rfl rfl rfl
  · exact hcount

theorem KeepsCap.judgeTags (h : w.KeepsCap drained) (slot : ℕ) (tx : TxView) (tag : TagReading) :
    (w.judgeTags base58 slot tx tag).KeepsCap drained := by
  have hfold : ∀ (fs : List (Filter × ℕ)) (v : Window), v.KeepsCap drained →
      (fs.foldl (Window.judgeTag base58 slot tx tag) v).KeepsCap drained := by
    intro fs
    induction fs with
    | nil => exact fun v hv => hv
    | cons f fs ih => exact fun v hv => ih _ (hv.judgeTag slot tx tag f)
  exact hfold _ _ (h.congr rfl rfl rfl)

theorem KeepsCap.judgeVoteFlag (h : w.KeepsCap drained) (slot : ℕ) (tx : TxView)
    (serverIsVote : Option Bool) :
    (w.judgeVoteFlag base58 slot tx serverIsVote).KeepsCap drained := by
  unfold Window.judgeVoteFlag
  split
  · split
    · exact h
    · refine KeepsCap.violation ?_ (ViolationKind.concerns_none .voteFlagMismatch trivial) _ _ _
      exact h.congr rfl rfl rfl
  · exact h

theorem KeepsCap.sample (h : w.KeepsCap drained) (slot : ℕ) (tx : TxView) (mask : Mask) :
    (w.sample base58 n skipVotes slot tx mask).KeepsCap drained := by
  unfold Window.sample
  dsimp only
  split
  · split
    · refine KeepsCap.violation ?_ (ViolationKind.concerns_none .duplicate trivial) _ _ _
      exact h.congr rfl rfl rfl
    · exact h.congr rfl rfl rfl
  · exact h

/-- A delivery keeps to the cap. -/
theorem KeepsCap.onDelivery (h : w.KeepsCap drained) (slot : ℕ) (tx : TxView) (tags : List String)
    (serverIsVote : Option Bool) :
    (w.onDelivery base58 n skipVotes slot tx tags serverIsVote).KeepsCap drained := by
  have hcount : (w.toCourse.countDelivery slot).info = w.info := Course.info_learnTip slot _
  have hstart : KeepsCap drained { w with toCourse := w.countDelivery slot } :=
    h.congr hcount rfl rfl
  exact ((hstart.judgeTags slot tx _).judgeVoteFlag slot tx serverIsVote).sample slot tx _

/-- What the comparison of a slot reports is about its filters. -/
lemma not_isGlobal_of_mem_examples {task : SlotTask} {fetched : Fetched} {i : ℕ} {f : Filter} :
    ∀ e ∈ (compareFilter base58 task fetched i f).examples, ¬ e.kind.IsGlobal := by
  -- each turn of either loop adds at most one example, and none of a global kind
  have happend : ∀ (es : List ViolationExample) (e' : ViolationExample), ¬ e'.kind.IsGlobal →
      (∀ e ∈ es, ¬ e.kind.IsGlobal) → ∀ e ∈ es ++ [e'], ¬ e.kind.IsGlobal := by
    intro es e' he' hes e he
    rcases List.mem_append.mp he with he | he
    · exact hes e he
    · rw [List.mem_singleton.mp he]
      exact he'
  have hexpect : ∀ (txs : List TxView) (found : FilterFindings),
      (∀ e ∈ found.examples, ¬ e.kind.IsGlobal) →
      ∀ e ∈ (txs.foldl (FilterFindings.expect base58 task i f) found).examples,
        ¬ e.kind.IsGlobal := by
    intro txs
    induction txs with
    | nil => exact fun found hfound => hfound
    | cons tx txs ih =>
      intro found hfound
      apply ih
      unfold FilterFindings.expect
      dsimp only
      split
      · exact hfound
      · split
        · exact happend _ _ id hfound
        · exact hfound
  have hlookUp : ∀ (b : Block) (sigs : List Signature) (found : FilterFindings),
      (∀ e ∈ found.examples, ¬ e.kind.IsGlobal) →
      ∀ e ∈ (sigs.foldl (FilterFindings.lookUp base58 b i f) found).examples,
        ¬ e.kind.IsGlobal := by
    intro b sigs
    induction sigs with
    | nil => exact fun found hfound => hfound
    | cons s sigs ih =>
      intro found hfound
      apply ih
      unfold FilterFindings.lookUp
      cases b.find s with
      | none =>
        dsimp only
        split
        · exact happend _ _ id hfound
        · exact hfound
      | some tx =>
        dsimp only
        cases f.mismatch base58 tx with
        | none => exact hfound
        | some why =>
          dsimp only
          split
          · exact happend _ _ id hfound
          · exact hfound
  cases fetched with
  | skipped =>
    intro e he
    obtain ⟨s, -, rfl⟩ := List.mem_map.mp he
    exact id
  | block b => exact hlookUp b _ _ (hexpect _ _ fun e he => absurd he List.not_mem_nil)

/-- A comparison keeps to the cap. -/
theorem KeepsCap.compared (h : w.KeepsCap drained) (task : SlotTask) (fetched : Fetched) :
    (w.compared base58 task fetched).KeepsCap drained := by
  have hfold : ∀ (es : List ViolationExample), (∀ e ∈ es, ¬ e.kind.IsGlobal) →
      ∀ v : Window, v.KeepsCap drained →
        (es.foldl (fun v e => v.violation base58 (some e.filter) e.kind task.slot e.signature
          e.reason) v).KeepsCap drained := by
    intro es
    induction es with
    | nil => exact fun _ v hv => hv
    | cons e es ih =>
      intro hes v hv
      obtain ⟨he, hes⟩ := List.forall_mem_cons.mp hes
      exact ih hes _ (hv.violation (ViolationKind.concerns_some e.kind he e.filter) _ _ _)
  unfold Window.compared
  dsimp only
  refine hfold _ (fun e he => ?_) _ (h.congr (Course.info_settle _ _) rfl rfl)
  obtain ⟨found, hfound, he⟩ := List.mem_flatMap.mp he
  obtain ⟨f, -, rfl⟩ := List.mem_map.mp hfound
  exact not_isGlobal_of_mem_examples e he

end KeepsCap

end Window

/-! ### Runs -/

/-- The rows drained from a window, after one more call: opening it starts afresh. -/
def drainedStep (key : WindowKey) (before : Option Window) (rows : List ViolationRow) :
    AuditCall → List ViolationRow
  | .openWindow key' _ => if key' = key then [] else rows
  | .drainViolations => rows ++ before.elim [] Window.violations
  | _ => rows

section Run

variable (base58 : List UInt8 → String) (n : ℕ) (skipVotes : Bool) (key : WindowKey)

/-- The rows drained from the window of a key since it was opened. -/
def drainedFrom (calls : List AuditCall) : List ViolationRow :=
  trackedAt base58 n skipVotes key (drainedStep key) [] calls

lemma drainedFrom_concat (calls : List AuditCall) (call : AuditCall) :
    drainedFrom base58 n skipVotes key (calls ++ [call]) =
      drainedStep key (windowAt base58 n skipVotes key calls)
        (drainedFrom base58 n skipVotes key calls) call :=
  trackedAt_concat base58 n skipVotes key _ _ calls call

variable {base58 n skipVotes key}

/-- The cap is kept: rows that are drained are counted as before. -/
theorem Window.KeepsCap.act {drained : List ViolationRow} {w : Window}
    (h : w.KeepsCap drained) {call : AuditCall} (hopens : ¬ call.Opens key) :
    (w.act base58 n skipVotes key call).KeepsCap (drainedStep key (some w) drained call) := by
  have hsteers := w.act_of_steers base58 n skipVotes key call
  cases call with
  | openWindow key' info =>
    have hne : key' ≠ key := hopens
    unfold drainedStep
    dsimp only
    rw [if_neg hne]
    exact h
  | onDelivery key' slot tx tags serverIsVote =>
    unfold Window.act
    dsimp only
    split
    · exact h.onDelivery slot tx tags serverIsVote
    · exact h
  | compare task fetched =>
    unfold Window.act
    dsimp only
    split
    · exact h.compared task fetched
    · exact h
  | takeReady lagSlots tip => exact h.congr (Course.info_takeReady _) rfl rfl
  | drainViolations =>
    refine ⟨h.names, ?_⟩
    have hrows : Window.Capped ((drained ++ w.violations) ++ []) { w with violations := [] } := by
      rw [List.append_nil]
      exact h.capped.congr rfl rfl
    exact hrows
  | subscribed _ _ | close _ _ _ _ | unchecked _ =>
    obtain ⟨c, hinfo, -, hact⟩ := hsteers trivial
    rw [hact]
    exact h.congr hinfo rfl rfl
  | _ => exact h

/-- The cap is kept in every run, if the names of the filters differ. -/
lemma keepsCap_windowAt {calls : List AuditCall} {w : Window}
    (hw : windowAt base58 n skipVotes key calls = some w)
    (hnd : (w.info.bundle.filters.map Filter.name).Nodup) :
    w.KeepsCap (drainedFrom base58 n skipVotes key calls) := by
  have hall : (w.info.bundle.filters.map Filter.name).Nodup →
      w.KeepsCap (drainedFrom base58 n skipVotes key calls) := by
    refine windowAt_induction (P := fun calls w => (w.info.bundle.filters.map Filter.name).Nodup →
      w.KeepsCap (drainedFrom base58 n skipVotes key calls)) ?_ ?_ hw
    · intro calls info hnd
      refine ⟨hnd, ?_⟩
      rw [drainedFrom_concat]
      unfold drainedStep
      dsimp only
      rw [if_pos rfl]
      exact Window.capped_new info
    · intro calls call w hopens hw h hnd
      rw [drainedFrom_concat, hw]
      rw [Window.info_act] at hnd
      exact (h hnd).act hopens
  exact hall hnd

/-- What a tag is good for: it sets the bit of the filter that has it for a name and no other, and
without tags nothing is blamed on a bundle of several filters. -/
structure Bundle.ResolvesTags (bundle : Bundle) : Prop where
  /-- The bits of the mask are the filters that the update carries. -/
  bits : ∀ i tx tags, (bundle.readTags tx tags).mask.getLsbD i = bundle.Carries i tx tags
  /-- With tags these are the filters that they name. -/
  named : ∀ i, ∀ f ∈ bundle.filters[i]?, ∀ tx tags, tags ≠ [] →
    (bundle.Carries i tx tags = true ↔ f.name ∈ tags)
  /-- There are no other bits. -/
  beyond : ∀ i tx tags, bundle.filters.length ≤ i → bundle.Carries i tx tags = false
  /-- Without tags a bundle of several filters counts no error. -/
  untagged : 1 < bundle.filters.length → ∀ i f tx,
    bundle.WrongTag i f (tx, []) = false ∧ bundle.LacksTag i f (tx, []) = false

/-- The tags of an accepted bundle resolve. -/
lemma Bundle.Accepted.resolvesTags {bundle : Bundle}
    {decode : String → Except String (List UInt8)} (h : bundle.Accepted decode) :
    bundle.ResolvesTags where
  bits i tx tags := getLsbD_readTags i tx tags
  named _ _ hf _ _ htags := carries_iff_mem h.nodup_names hf htags
  beyond _ tx tags hi := not_carries_of_le hi tx tags
  untagged hmany i f tx := by
    unfold WrongTag LacksTag Inferred
    simp [hmany]

/-- What is known of the tags of a window after some calls: they resolve, their counts are exact,
and the reports keep to the cap. -/
def Window.TagsExact (base58 : List UInt8 → String) (n : ℕ) (skipVotes : Bool) (key : WindowKey)
    (calls : List AuditCall) (w : Window) : Prop :=
  w.info.bundle.ResolvesTags ∧ w.Tallies (updatesIn key calls) ∧
    ∀ name kind, (drainedFrom base58 n skipVotes key calls ++ w.violations).countP
      (ViolationRow.IsOf name kind) ≤ violationsPerKind

/-- **The verdicts on tags are exact, and their reports are capped**: in every run of calls, for
every window, there or emitted, whose bundle passed the checks of the configuration. -/
theorem tagVerdicts_exact (base58 : List UInt8 → String)
    (decode : String → Except String (List UInt8)) (hn : 0 < n) (skipVotes : Bool)
    (calls : List AuditCall) :
    let a := Machine.finalState (FilterAudit.call base58) (FilterAudit.new n hn skipVotes) calls
    (∀ key, ∀ w ∈ a.windows.lookup key, w.info.bundle.Accepted decode →
      w.TagsExact base58 n skipVotes key calls) ∧
      ∀ call, ∀ e ∈ a.emits call, e.2.info.bundle.Accepted decode →
        e.2.TagsExact base58 n skipVotes e.1 calls := by
  have hthere : ∀ key, ∀ w ∈ (Machine.finalState (FilterAudit.call base58)
      (FilterAudit.new n hn skipVotes) calls).windows.lookup key, w.info.bundle.Accepted decode →
      w.TagsExact base58 n skipVotes key calls := by
    intro key w hw haccepted
    rw [FilterAudit.lookup_finalState] at hw
    refine ⟨haccepted.resolvesTags, tallies_windowAt hw, fun name kind => ?_⟩
    exact (keepsCap_windowAt hw haccepted.nodup_names).capped.countP_le name kind
  refine ⟨hthere, fun call e he haccepted => ?_⟩
  obtain ⟨w, hw, hemitted⟩ := FilterAudit.exists_of_mem_emits he
  rw [hemitted] at haccepted ⊢
  exact hthere e.1 w hw haccepted

end Run

/-! ### A vote that comes twice -/

/-- A bundle with a filter for everything and one for everything but votes. -/
def pairCfg : BundleCfg where
  name := "pair"
  filters := Std.TreeMap.ofList
    [("a", FilterText.default), ("b", { FilterText.default with vote := some false })]

/-- The bundle that is made of it. -/
def pairBundle : Bundle where
  name := "pair"
  filters := [⟨"a", ⟨none, none⟩, ∅, ∅, []⟩, ⟨"b", ⟨some false, none⟩, ∅, ∅, []⟩]
  nonempty := List.cons_ne_nil _ _
  length_le := by decide

/-- The bundle passes the checks. -/
theorem pairBundle_accepted : pairBundle.Accepted fun _ => .error "no keys" :=
  ⟨[pairCfg], false, false, false, by decide +kernel, by decide +kernel⟩

/-- A vote that is delivered twice for the second filter, which rejects it, and for no known one. -/
def misdirectedCalls : List AuditCall :=
  let vote : TxView :=
    { plainTx 1 with legacy := true, numInstructions := 1, firstProgram := some voteProgramId }
  [.openWindow (0, 0) ⟨"g", .grpcDeshred, none, pairBundle⟩,
    .onDelivery (0, 0) 1010 vote ["b", "c", "b"] none, .drainViolations,
    .onDelivery (0, 0) 1010 vote ["c", "b"] none]

/-- The verdicts on the delivery are exact. -/
theorem tagVerdicts_exact_misdirected :
    let a := Machine.finalState (FilterAudit.call fun _ => "")
      (FilterAudit.new 10 (by decide) false) misdirectedCalls
    (a.emits .takeAll).map (fun e => e.2.tagCounts 0) = [⟨some 0, some 0, some 2⟩] ∧
      (a.emits .takeAll).map (fun e => e.2.tagCounts 1) = [⟨some 2, some 2, some 0⟩] ∧
      ∀ e ∈ a.emits .takeAll, e.2.TagsExact (fun _ => "") 10 false e.1 misdirectedCalls := by
  refine ⟨by decide +kernel, by decide +kernel, fun e he => ?_⟩
  have hbundle : ∀ e ∈ (Machine.finalState (FilterAudit.call fun _ => "")
      (FilterAudit.new 10 (by decide) false) misdirectedCalls).emits .takeAll,
      e.2.info.bundle = pairBundle := by
    intro e he
    cases List.mem_singleton.mp he
    rfl
  refine (tagVerdicts_exact (fun _ => "") (fun _ => .error "no keys") (by decide) false
    misdirectedCalls).2 .takeAll e he ?_
  rw [hbundle e he]
  exact pairBundle_accepted

end ShredTools.Audit
