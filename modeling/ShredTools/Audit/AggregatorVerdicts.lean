import ShredTools.Audit.AggregatorRow

/-!
# Verdicts on failed shreds

When a row is emitted, each failed shred of its set is compared with the leader-signed copy that the
truth table holds for it.  The table holds one copy of a shred, the last one accepted by any set
(`lookup_truth`), while a leader may have signed several versions, and a signed copy may not have
been accepted.  So no provider is accused unjustly exactly where the last accepted copy has the data
of a failed shred whose data the leader signed (`fairlyCounted_iff`).

`SignedCopy` says what a leader has signed, over all shreds of the run and not only those accepted,
and `FairlyCounted` is the classification that the table of the source should give.  `shown` are the
copies that were accepted, in order, so that the truth table is the last of them for each key.  In
the examples provider 1 brings the data of a version that the leader signed, and it is the only
version, or the first of two.
-/

namespace ShredTools.Audit

namespace Aggregator

/-- Whether a call brings the payload of a shred to its set. -/
def Op.repeats (s : VerifiedShred) : Op → Bool
  | .ingest copy => copy.setKey = s.setKey ∧ copy.payloadHash = s.payloadHash
  | .harvest => false

/-- The data that a call shows to be signed by the leader: the shred is authentic, and its payload
has not come to its set before. -/
def shows (before : List Op) (key : TruthKey) : Op → List Hash
  | .ingest s =>
    if s.isAuthentic = true ∧ s.truthKey = key ∧ before.any (Op.repeats s) = false then
      s.dataHash.toList
    else []
  | .harvest => []

/-- The data shown to be signed by the leader, after some calls. -/
def shownFrom (key : TruthKey) : List Op → List Op → List Hash
  | _, [] => []
  | before, op :: ops => shows before key op ++ shownFrom key (before ++ [op]) ops

/-- The data of a shred shown to be signed by the leader, in the order of the calls. -/
def shown (key : TruthKey) (ops : List Op) : List Hash := shownFrom key [] ops

/-- A leader-signed copy of a shred, among the shreds of a run. -/
structure SignedCopy (ops : List Op) (s copy : VerifiedShred) : Prop where
  /-- The copy was ingested. -/
  ingested : .ingest copy ∈ ops
  /-- The leader signed it. -/
  authentic : copy.isAuthentic = true
  /-- The copy is one of the same shred. -/
  truthKey : copy.truthKey = s.truthKey

/-- What a failed shred is counted as: its data matches the copy of the truth table, differs from
it, or cannot be compared. -/
def verdict (agg : Aggregator) (s : VerifiedShred) : Option Bool :=
  matchesTruth agg.truth s.slot s.fecSetIndex (s.isCode, s.shredIndex, s.dataHash)

/-- The failed shreds that went into the pending set of a key. -/
def failedShreds (wait : ℕ) (ops : List Op) (key : SetKey) : List VerifiedShred :=
  failedOf (gathered wait key ops)

/-- How many of them have a verdict, in a counter of 32 bits. -/
def countVerdict (wait : ℕ) (ops : List Op) (key : SetKey) (result : Option Bool) : ℕ :=
  ((failedShreds wait ops key).countP fun s => (stateAfter wait ops).verdict s = result) % u32Size

/-- The row of a harvest after some calls counts each failed shred in one class, and in that of
altered data only if the leader signed the shred, and never signed its data. -/
structure FairlyCounted (wait : ℕ) (ops : List Op) (row : SetRow) : Prop where
  /-- All failed shreds are counted. -/
  invalid : row.invalid = (failedShreds wait ops row.key).length % u32Size
  /-- The classes are those of the verdicts. -/
  classes : row.invalidSig = countVerdict wait ops row.key (some true) ∧
    row.invalidData = countVerdict wait ops row.key (some false) ∧
    row.invalidUnknown = countVerdict wait ops row.key none
  /-- Data is counted as altered only against every copy that the leader signed. -/
  altered : ∀ s ∈ failedShreds wait ops row.key,
    (stateAfter wait ops).verdict s = some false →
      (∃ copy, SignedCopy ops s copy ∧ copy.dataHash.isSome = true) ∧
      ∀ copy, SignedCopy ops s copy → copy.dataHash ≠ s.dataHash
  /-- Data that the leader signed is counted as unaltered. -/
  unaltered : ∀ s ∈ failedShreds wait ops row.key, s.dataHash.isSome = true →
    ∀ copy, SignedCopy ops s copy → copy.dataHash = s.dataHash →
      (stateAfter wait ops).verdict s = some true

/-! ### The truth table -/

/-- Going on after more calls. -/
lemma shownFrom_append (key : TruthKey) (before ops ops' : List Op) :
    shownFrom key before (ops ++ ops') =
      shownFrom key before ops ++ shownFrom key (before ++ ops) ops' := by
  induction ops generalizing before with
  | nil => rw [List.append_nil]; rfl
  | cons op ops ih =>
    rw [List.cons_append, shownFrom, ih, shownFrom, List.append_assoc, List.append_assoc]
    rfl

/-- One more call. -/
lemma shown_concat (key : TruthKey) (ops : List Op) (op : Op) :
    shown key (ops ++ [op]) = shown key ops ++ shows ops key op := by
  unfold shown
  rw [shownFrom_append, shownFrom, shownFrom, List.append_nil, List.nil_append]

/-- What was shown to be signed is the data of a signed copy. -/
lemma exists_signedCopy_of_mem_shown {ops : List Op} {s : VerifiedShred} {hash : Hash}
    (h : hash ∈ shown s.truthKey ops) :
    ∃ copy, SignedCopy ops s copy ∧ copy.dataHash = some hash := by
  induction ops using List.reverseRecOn with
  | nil => simp [shown, shownFrom] at h
  | append_singleton ops op ih =>
    rw [shown_concat, List.mem_append] at h
    rcases h with hold | hnew
    · obtain ⟨copy, hcopy, hhash⟩ := ih hold
      exact ⟨copy, ⟨List.mem_append_left _ hcopy.ingested, hcopy.authentic, hcopy.truthKey⟩, hhash⟩
    · cases op with
      | harvest => simp [shows] at hnew
      | ingest copy =>
        rw [shows] at hnew
        by_cases hshows : copy.isAuthentic = true ∧ copy.truthKey = s.truthKey ∧
            ops.any (Op.repeats copy) = false
        · rw [if_pos hshows, Option.mem_toList] at hnew
          exact ⟨copy, ⟨by simp, hshows.1, hshows.2.1⟩, hnew⟩
        · rw [if_neg hshows] at hnew
          simp at hnew

/-- A shred that is not late is accepted when it is authentic and no call repeats it. -/
lemma fate_setFor_eq_accepted_iff {wait : ℕ} {ops : List Op} {s : VerifiedShred}
    (hopen : (stateAfter wait ops).evictedUpto < s.slot) :
    ((stateAfter wait ops).setFor s).fate s = .accepted ↔
      s.isAuthentic = true ∧ ops.any (Op.repeats s) = false := by
  have hlate : ¬ (stateAfter wait ops).Late s := not_le.mpr hopen
  have hiff : (stateAfter wait ops).Accepts s ↔
      ((stateAfter wait ops).setFor s).fate s = .accepted := and_iff_right hlate
  have hpassed : ¬ HarvestPassed wait ops s.slot := mt (late_iff wait ops s).mpr hlate
  rw [← hiff, accepts_iff, and_iff_right hpassed]
  refine and_congr_right fun _ => ?_
  rw [← Bool.not_eq_true, List.any_eq_true]
  constructor
  · intro h ⟨op, hmem, hrepeats⟩
    cases op with
    | harvest => simp [Op.repeats] at hrepeats
    | ingest copy =>
      obtain ⟨hkey, hpayload⟩ := of_decide_eq_true hrepeats
      exact h copy hmem hkey hpayload
  · intro h copy hmem hkey hpayload
    exact h ⟨.ingest copy, hmem, decide_eq_true ⟨hkey, hpayload⟩⟩

/-- The truth table after a shred that is not late. -/
lemma truth_ingest {agg : Aggregator} {s : VerifiedShred} (hopen : agg.evictedUpto < s.slot) :
    (agg.ingest s).truth =
      if (agg.setFor s).fate s = .accepted then recordTruth agg.truth s else agg.truth := by
  unfold ingest
  dsimp only
  rw [if_neg (not_le.mpr hopen)]
  rfl

/-- A late shred does not change the truth table. -/
lemma truth_ingest_of_late {agg : Aggregator} {s : VerifiedShred}
    (hlate : s.slot ≤ agg.evictedUpto) : (agg.ingest s).truth = agg.truth := by
  unfold ingest
  dsimp only
  rw [if_pos hlate]

/-- An accepted shred is recorded under its own key. -/
lemma lookup_recordTruth (truth : Truth) (s : VerifiedShred) (key : TruthKey) :
    (recordTruth truth s).lookup key =
      if s.truthKey = key then s.dataHash.or (truth.lookup key) else truth.lookup key := by
  unfold recordTruth
  cases hhash : s.dataHash with
  | none => rw [Option.none_or, ite_self]
  | some hash =>
    by_cases hkey : s.truthKey = key
    · rw [if_pos hkey, ← hkey, AList.lookup_insert]
      rfl
    · rw [if_neg hkey, AList.lookup_insert_ne (Ne.symm hkey)]

/-- A harvest keeps the copies above the floor that it sets. -/
lemma lookup_truth_harvest {agg : Aggregator} {key : TruthKey}
    (hopen : (agg.harvest false).1.evictedUpto < key.slot) :
    (agg.harvest false).1.truth.lookup key = agg.truth.lookup key := by
  rw [harvest_evictedUpto, if_neg Bool.false_ne_true] at hopen
  unfold harvest
  rw [if_neg Bool.false_ne_true]
  by_cases hadvance : agg.cutoff > agg.evictedUpto
  · have hkeep : decide (agg.cutoff < key.slot) = true :=
      decide_eq_true ((le_max_right _ _).trans_lt hopen)
    rw [if_pos hadvance, AList.lookup_retain]
    cases hlookup : agg.truth.lookup key with
    | none => rfl
    | some hash => simp [Option.filter, hkeep]
  · rw [if_neg hadvance]

/-- Above the floor the truth table holds the data last shown to be signed by the leader. -/
lemma lookup_truth (wait : ℕ) (ops : List Op) {key : TruthKey}
    (hopen : (stateAfter wait ops).evictedUpto < key.slot) :
    (stateAfter wait ops).truth.lookup key = (shown key ops).getLast? := by
  induction ops using List.reverseRecOn with
  | nil => rfl
  | append_singleton ops op ih =>
    have hbefore := Nat.lt_of_le_of_lt (evictedUpto_le_step wait ops op) hopen
    rw [stateAfter_concat] at hopen ⊢
    rw [shown_concat]
    cases op with
    | harvest =>
      change ((stateAfter wait ops).harvest false).1.truth.lookup key =
        (shown key ops ++ []).getLast?
      rw [lookup_truth_harvest hopen, ih hbefore, List.append_nil]
    | ingest s =>
      change ((stateAfter wait ops).ingest s).truth.lookup key = _
      by_cases hlate : s.slot ≤ (stateAfter wait ops).evictedUpto
      · have hkey : s.truthKey ≠ key := by
          intro heq
          have hslot : s.slot = key.slot := congrArg TruthKey.slot heq
          omega
        rw [truth_ingest_of_late hlate, ih hbefore, shows, if_neg (fun h => hkey h.2.1),
          List.append_nil]
      · rw [truth_ingest (not_le.mp hlate), shows]
        have hiff := fate_setFor_eq_accepted_iff (not_le.mp hlate)
        by_cases hfate : ((stateAfter wait ops).setFor s).fate s = .accepted
        · obtain ⟨hauth, hfresh⟩ := hiff.mp hfate
          rw [if_pos hfate, lookup_recordTruth, ih hbefore]
          by_cases hkey : s.truthKey = key
          · rw [if_pos hkey, if_pos ⟨hauth, hkey, hfresh⟩]
            cases s.dataHash with
            | none => rw [Option.toList_none, List.append_nil, Option.none_or]
            | some hash => rw [Option.toList_some, List.getLast?_concat, Option.some_or]
          · rw [if_neg hkey, if_neg (fun h => hkey h.2.1), List.append_nil]
        · rw [if_neg hfate, if_neg (fun h => hfate (hiff.mpr ⟨h.1, h.2.2⟩)), List.append_nil,
            ih hbefore]

/-! ### Verdicts -/

/-- A verdict compares the data with what was last shown to be signed by the leader. -/
lemma verdict_eq {wait : ℕ} {ops : List Op} {s : VerifiedShred}
    (hopen : (stateAfter wait ops).evictedUpto < s.slot) : (stateAfter wait ops).verdict s =
      s.dataHash.bind fun got => (shown s.truthKey ops).getLast?.map fun want => got == want := by
  have hlookup : (stateAfter wait ops).truth.lookup
      ⟨s.slot, s.fecSetIndex, s.isCode, s.shredIndex⟩ = (shown s.truthKey ops).getLast? :=
    lookup_truth wait ops hopen
  unfold verdict matchesTruth
  dsimp only
  rw [hlookup]
  cases s.dataHash <;> cases (shown s.truthKey ops).getLast? <;> rfl

/-- The data is counted as unaltered if it was the last data shown. -/
lemma verdict_eq_some_true_iff {wait : ℕ} {ops : List Op} {s : VerifiedShred}
    (hopen : (stateAfter wait ops).evictedUpto < s.slot) :
    (stateAfter wait ops).verdict s = some true ↔
      s.dataHash.isSome = true ∧ (shown s.truthKey ops).getLast? = s.dataHash := by
  rw [verdict_eq hopen]
  cases s.dataHash with
  | none => simp
  | some got =>
    cases (shown s.truthKey ops).getLast? with
    | none => simp
    | some want =>
      rw [and_iff_right Option.isSome_some, Option.bind_some, Option.map_some, Option.some.injEq,
        Option.some.injEq, beq_iff_eq, eq_comm]

/-- The data is counted as altered if other data was the last data shown. -/
lemma verdict_eq_some_false_iff {wait : ℕ} {ops : List Op} {s : VerifiedShred}
    (hopen : (stateAfter wait ops).evictedUpto < s.slot) :
    (stateAfter wait ops).verdict s = some false ↔ s.dataHash.isSome = true ∧
      (shown s.truthKey ops).getLast?.isSome = true ∧
      (shown s.truthKey ops).getLast? ≠ s.dataHash := by
  rw [verdict_eq hopen]
  cases s.dataHash with
  | none => simp
  | some got =>
    cases (shown s.truthKey ops).getLast? with
    | none => simp
    | some want =>
      rw [and_iff_right Option.isSome_some, and_iff_right Option.isSome_some, Option.bind_some,
        Option.map_some, Option.some.injEq, beq_eq_false_iff_ne, ne_comm, ne_eq, ne_eq,
        Option.some.injEq]

/-- The failed shreds of a pending set have its slot and its index. -/
lemma setKey_of_mem_failedShreds {wait : ℕ} {ops : List Op} {key : SetKey}
    (hopen : (stateAfter wait ops).evictedUpto < key.slot) {s : VerifiedShred}
    (hs : s ∈ failedShreds wait ops key) : s.setKey = key := by
  have hmem : s ∈ gathered wait key ops :=
    (List.filter_sublist.trans (List.firstsBy_sublist _ _)).subset hs
  exact ((mem_gathered_iff ((tracks_run wait ops).floor ▸ hopen)).mp hmem).2

/-- A row counts the verdicts on the failed shreds of its set. -/
lemma counts_of_mem_harvest {wait : ℕ} {ops : List Op} {drainAll : Bool} {row : SetRow}
    (hrow : row ∈ ((stateAfter wait ops).harvest drainAll).2) :
    (stateAfter wait ops).evictedUpto < row.key.slot ∧
    row.invalid = (failedShreds wait ops row.key).length % u32Size ∧
    row.invalidSig = countVerdict wait ops row.key (some true) ∧
    row.invalidData = countVerdict wait ops row.key (some false) ∧
    row.invalidUnknown = countVerdict wait ops row.key none := by
  obtain ⟨key, st, hlookup, -, rfl⟩ := mem_harvest_iff.mp hrow
  obtain ⟨hopen, hset⟩ := (tracks_run wait ops).of_lookup hlookup
  have hshreds : st.invalidShreds = (failedShreds wait ops key).map
      fun s => (s.isCode, s.shredIndex, s.dataHash) :=
    (SetState.contains_of_setOf hset).invalidShreds
  have hverdicts : st.invalidShreds.map
      (matchesTruth (stateAfter wait ops).truth key.slot key.fecSetIndex) =
        (failedShreds wait ops key).map (stateAfter wait ops).verdict := by
    rw [hshreds, List.map_map]
    apply List.map_congr_left
    intro s hs
    have hkey := setKey_of_mem_failedShreds hopen hs
    have hslot : s.slot = key.slot := congrArg SetKey.slot hkey
    have hindex : s.fecSetIndex = key.fecSetIndex := congrArg SetKey.fecSetIndex hkey
    unfold verdict
    rw [hslot, hindex]
    rfl
  have hcount : ∀ result, ((failedShreds wait ops key).map
      (stateAfter wait ops).verdict).count result % u32Size = countVerdict wait ops key result := by
    intro result
    rw [countVerdict, List.count, List.countP_map]
    congr 2
    funext s
    exact beq_eq_decide _ _
  refine ⟨hopen, ?_, ?_, ?_, ?_⟩
  · rw [key_finalize]
    unfold finalize
    dsimp only
    rw [hshreds, List.length_map]
  · rw [key_finalize, ← hcount, ← hverdicts]
    rfl
  · rw [key_finalize, ← hcount, ← hverdicts]
    rfl
  · rw [key_finalize, ← hcount, ← hverdicts]
    rfl

/-- **No provider is accused of altering data exactly where the last copy shown agrees.**  In every
run without an early drain, a row counts its failed shreds fairly if and only if, for each of them
whose data some ingested leader-signed copy has, the leader-signed copy that was accepted last has
the same data. -/
theorem fairlyCounted_iff (wait : ℕ) (ops : List Op) (drainAll : Bool) :
    ∀ row ∈ ((stateAfter wait ops).harvest drainAll).2, FairlyCounted wait ops row ↔
      ∀ s ∈ failedShreds wait ops row.key, s.dataHash.isSome = true →
        (∃ copy, SignedCopy ops s copy ∧ copy.dataHash = s.dataHash) →
          (shown s.truthKey ops).getLast? = s.dataHash := by
  intro row hrow
  obtain ⟨hopen, hinvalid, hclasses⟩ := counts_of_mem_harvest hrow
  have hslot : ∀ s ∈ failedShreds wait ops row.key,
      (stateAfter wait ops).evictedUpto < s.slot := by
    intro s hs
    have hkey : s.slot = row.key.slot :=
      congrArg SetKey.slot (setKey_of_mem_failedShreds hopen hs)
    exact hkey ▸ hopen
  constructor
  · intro h s hs hsome ⟨copy, hcopy, hhash⟩
    have hverdict := h.unaltered s hs hsome copy hcopy hhash
    exact ((verdict_eq_some_true_iff (hslot s hs)).mp hverdict).2
  · intro h
    refine ⟨hinvalid, hclasses, ?_, ?_⟩
    · intro s hs hverdict
      obtain ⟨hsome, hlast, hne⟩ := (verdict_eq_some_false_iff (hslot s hs)).mp hverdict
      obtain ⟨hash, hhash⟩ := Option.isSome_iff_exists.mp hlast
      constructor
      · obtain ⟨copy, hcopy, hcopyHash⟩ :=
          exists_signedCopy_of_mem_shown (List.mem_of_getLast? hhash)
        exact ⟨copy, hcopy, by rw [hcopyHash]; rfl⟩
      · intro copy hcopy hsame
        exact hne (h s hs hsome ⟨copy, hcopy, hsame⟩)
    · intro s hs hsome copy hcopy hhash
      exact (verdict_eq_some_true_iff (hslot s hs)).mpr ⟨hsome, h s hs hsome ⟨copy, hcopy, hhash⟩⟩

/-- A shred of slot 100 at position 0, with its provider, its verdict, its payload and its data. -/
def versionShred (provider : ℕ) (sigOk : Bool) (payloadHash : ℕ) (data : UInt8) : VerifiedShred :=
  { genuineShred 100 0 1000 payloadHash with
    provider := provider
    sigOk := some sigOk
    dataHash := some (Vector.replicate 32 data) }

/-- Provider 0 delivers a signed shred, and provider 1 its data with a broken proof. -/
def oneVersion : List Op :=
  [.ingest (versionShred 0 true 1 1), .ingest (versionShred 1 false 3 1)]

/-- Against one version the data of provider 1 is fairly counted. -/
theorem fairlyCounted_iff_oneVersion :
    ∃ row ∈ ((stateAfter 10 oneVersion).harvest true).2,
      row.key = ⟨1, 100, 0⟩ ∧ row.invalidSig = 1 ∧ FairlyCounted 10 oneVersion row := by
  refine ⟨_, mem_harvest_iff.mpr ⟨⟨1, 100, 0⟩, _, rfl, rfl, rfl⟩, rfl, by decide, ?_⟩
  have hlast : ∀ s ∈ failedShreds 10 oneVersion ⟨1, 100, 0⟩,
      (shown s.truthKey oneVersion).getLast? = s.dataHash := by decide
  exact (fairlyCounted_iff 10 oneVersion true _
    (mem_harvest_iff.mpr ⟨⟨1, 100, 0⟩, _, rfl, rfl, rfl⟩)).mpr fun s hs _ _ => hlast s hs

/-- The leader signed two versions of the shred, which provider 0 delivers one after the other. -/
def twoVersions : List Op :=
  [.ingest (versionShred 0 true 1 1), .ingest (versionShred 0 true 2 2),
    .ingest (versionShred 1 false 3 1)]

/-- Against two versions the data of provider 1 is counted as altered, though the leader signed
it. -/
theorem not_fairlyCounted_twoVersions :
    ∃ row ∈ ((stateAfter 10 twoVersions).harvest true).2,
      row.key = ⟨1, 100, 0⟩ ∧ row.invalidData = 1 ∧ ¬ FairlyCounted 10 twoVersions row := by
  refine ⟨_, mem_harvest_iff.mpr ⟨⟨1, 100, 0⟩, _, rfl, rfl, rfl⟩, rfl, by decide, ?_⟩
  intro hfair
  have hverdict := hfair.unaltered (versionShred 1 false 3 1) (by decide) rfl
    (versionShred 0 true 1 1) ⟨by decide, rfl, rfl⟩ rfl
  revert hverdict
  decide

end Aggregator

end ShredTools.Audit
