import ShredTools.Audit.AggregatorRun

/-!
# Genuine shreds among forged ones

Two runs of the aggregator are compared: one with every shred, and one without the shreds that are
not authentic.  Timing should count good shreds only, so the authentic shreds should be accepted in
both or neither, and the rows that hold them should have the same timing.

That is so exactly when forged shreds never come first (`GenuineLeads`): they neither push the
highest slot so far ahead that a harvest closes the window over an authentic shred, nor bring its
payload to its set before an authentic copy does.  `accepts_iff` says when a shred is accepted in
terms of the calls before it alone, and `toAccepted_eq` that the accepted parts of the pending sets
of the two runs agree.
-/

namespace ShredTools.Audit

namespace Aggregator

/-- Whether a call is kept when the shreds that are not authentic are deleted. -/
def Op.genuine : Op → Bool
  | .ingest s => s.isAuthentic
  | .harvest => true

/-- A run without the shreds that are not authentic. -/
def genuineOnly (ops : List Op) : List Op := ops.filter Op.genuine

/-- `ingest` drops the shred as late. -/
def Late (agg : Aggregator) (s : VerifiedShred) : Prop := s.slot ≤ agg.evictedUpto

/-- `ingest` accepts the shred. -/
def Accepts (agg : Aggregator) (s : VerifiedShred) : Prop :=
  ¬ agg.Late s ∧ (agg.setFor s).fate s = .accepted

/-- The fields of a row that time it. -/
structure Timing where
  /-- The first arrival. -/
  firstNs : ℤ
  /-- When the set became decodable. -/
  decodeNs : Option ℤ
  /-- The last arrival. -/
  lastNs : ℤ
  /-- Distinct data positions. -/
  nData : ℕ
  /-- Distinct coding positions. -/
  nCode : ℕ

end Aggregator

/-- The timing of a row. -/
def SetRow.timing (row : SetRow) : Aggregator.Timing :=
  ⟨row.firstNs, row.decodeNs, row.lastNs, row.nData, row.nCode⟩

namespace Aggregator

/-- A run has accepted a shred of the key. -/
def HoldsAccepted (wait : ℕ) (ops : List Op) (key : SetKey) : Prop :=
  ∃ before op later, ops = before ++ op :: later ∧
    ∃ s, op = .ingest s ∧ s.setKey = key ∧ (stateAfter wait before).Accepts s

/-- Every row of `ops` that holds an accepted shred has its like among the rows of `ops'`. -/
def SameTiming (wait : ℕ) (ops ops' : List Op) : Prop :=
  ∀ row ∈ (emitted wait ops).flatten, HoldsAccepted wait ops row.key →
    ∃ row' ∈ (emitted wait ops').flatten, row'.key = row.key ∧ row'.timing = row.timing

/-- Deleting the shreds that are not authentic changes neither which authentic shreds are accepted
nor which are dropped as late, nor the timing of a row that holds an accepted shred. -/
structure Undisturbed (wait : ℕ) (ops : List Op) : Prop where
  /-- The same authentic shreds are late. -/
  late : ∀ before s later, ops = before ++ .ingest s :: later → s.isAuthentic = true →
    ((stateAfter wait before).Late s ↔ (stateAfter wait (genuineOnly before)).Late s)
  /-- The same authentic shreds are accepted. -/
  accepts : ∀ before s later, ops = before ++ .ingest s :: later → s.isAuthentic = true →
    ((stateAfter wait before).Accepts s ↔ (stateAfter wait (genuineOnly before)).Accepts s)
  /-- The rows are there without the forged shreds. -/
  rows : SameTiming wait ops (genuineOnly ops)
  /-- The rows are there with the forged shreds. -/
  genuineRows : SameTiming wait (genuineOnly ops) ops

/-! ### What a run of calls brings -/

/-- The highest slot that some calls bring. -/
def highestSlot (ops : List Op) : ℕ :=
  ops.foldr (fun op slot => match op with
    | .ingest s => max s.slot slot
    | .harvest => slot) 0

/-- Some harvest came when a slot at least `wait` above the given one had been seen; nothing needs
to have been seen for slot zero. -/
def HarvestPassed (wait : ℕ) (ops : List Op) (slot : ℕ) : Prop :=
  slot = 0 ∨ ∃ earlier op later, ops = earlier ++ op :: later ∧
    op = .harvest ∧ slot ≤ highestSlot earlier - wait

/-- Forged shreds never come first: whatever harvest closes the window over an authentic shred, one
does so for the authentic shreds alone; and a payload that comes to a set before an authentic copy
of it has come before in an authentic copy. -/
structure GenuineLeads (wait : ℕ) (ops : List Op) : Prop where
  /-- The window. -/
  window : ∀ before s later, ops = before ++ .ingest s :: later → s.isAuthentic = true →
    HarvestPassed wait before s.slot → HarvestPassed wait (genuineOnly before) s.slot
  /-- The payloads. -/
  payload : ∀ before s later, ops = before ++ .ingest s :: later → s.isAuthentic = true →
    ¬ HarvestPassed wait before s.slot →
    ∀ copy, .ingest copy ∈ before → copy.setKey = s.setKey → copy.payloadHash = s.payloadHash →
      ∃ genuine, .ingest genuine ∈ before ∧ genuine.isAuthentic = true ∧
        genuine.setKey = s.setKey ∧ genuine.payloadHash = s.payloadHash

/-- One more shred. -/
lemma highestSlot_concat (ops : List Op) (op : Op) :
    highestSlot (ops ++ [op]) = max (highestSlot ops) (highestSlot [op]) := by
  induction ops with
  | nil => simp [highestSlot]
  | cons first ops ih =>
    unfold highestSlot at ih ⊢
    cases first with
    | ingest s =>
      simp only [List.cons_append, List.foldr_cons] at ih ⊢
      omega
    | harvest => exact ih

/-- The window has seen the highest slot. -/
lemma highest_after (wait : ℕ) (ops : List Op) :
    (Window.after ops : Window wait).highest = highestSlot ops := by
  induction ops using List.reverseRecOn with
  | nil => rfl
  | append_singleton ops op ih =>
    rw [Window.after_concat, highestSlot_concat]
    cases op with
    | ingest s =>
      change max (Window.after ops).highest s.slot = max (highestSlot ops) (max s.slot 0)
      rw [ih, Nat.max_zero]
    | harvest =>
      change (Window.after ops).highest = max (highestSlot ops) 0
      rw [ih, Nat.max_zero]

/-- One more call passes what was passed before, and a harvest what lies behind the window. -/
lemma harvestPassed_concat (wait : ℕ) (ops : List Op) (op : Op) (slot : ℕ) :
    HarvestPassed wait (ops ++ [op]) slot ↔
      HarvestPassed wait ops slot ∨ (op = .harvest ∧ slot ≤ highestSlot ops - wait) := by
  unfold HarvestPassed
  rw [List.exists_split_concat (P := fun earlier op =>
    op = .harvest ∧ slot ≤ highestSlot earlier - wait), or_assoc]

/-- The window is closed over a slot when a harvest has passed it. -/
lemma le_floor_iff (wait : ℕ) (ops : List Op) (slot : ℕ) :
    slot ≤ (Window.after ops : Window wait).floor ↔ HarvestPassed wait ops slot := by
  induction ops using List.reverseRecOn with
  | nil =>
    have hfloor : (Window.after [] : Window wait).floor = 0 := rfl
    rw [hfloor, Nat.le_zero]
    constructor
    · exact Or.inl
    · intro h
      rcases h with hzero | ⟨earlier, op, later, hops, -⟩
      · exact hzero
      · simp at hops
  | append_singleton ops op ih =>
    rw [Window.after_concat, harvestPassed_concat, ← ih]
    cases op with
    | ingest s => simp [Window.step]
    | harvest =>
      have hmono := (Window.after ops : Window wait).floor_le
      rw [highest_after] at hmono
      simp only [Window.step, highest_after, true_and]
      constructor
      · exact Or.inr
      · intro h
        rcases h with hle | hle
        · exact hle.trans hmono
        · exact hle

/-- A shred is late when a harvest has passed its slot. -/
theorem late_iff (wait : ℕ) (ops : List Op) (s : VerifiedShred) :
    (stateAfter wait ops).Late s ↔ HarvestPassed wait ops s.slot := by
  unfold Late
  rw [(tracks_run wait ops).floor, le_floor_iff]

/-- The calls kept are calls. -/
lemma genuineOnly_concat (ops : List Op) (op : Op) :
    genuineOnly (ops ++ [op]) =
      if op.genuine = true then genuineOnly ops ++ [op] else genuineOnly ops := by
  unfold genuineOnly
  rw [List.filter_append, List.filter_singleton]
  cases op.genuine <;> simp

/-- Authentic shreds alone raise the highest slot no further. -/
lemma highestSlot_genuineOnly_le (ops : List Op) :
    highestSlot (genuineOnly ops) ≤ highestSlot ops := by
  induction ops using List.reverseRecOn with
  | nil => exact le_rfl
  | append_singleton ops op ih =>
    rw [genuineOnly_concat, highestSlot_concat]
    by_cases hop : op.genuine = true
    · rw [if_pos hop, highestSlot_concat]
      exact max_le_max_right _ ih
    · rw [if_neg hop]
      exact ih.trans (le_max_left _ _)

/-- What is late among authentic shreds alone is late among all. -/
lemma HarvestPassed.of_genuineOnly {wait : ℕ} {ops : List Op} {slot : ℕ}
    (h : HarvestPassed wait (genuineOnly ops) slot) : HarvestPassed wait ops slot := by
  induction ops using List.reverseRecOn with
  | nil => exact h
  | append_singleton ops op ih =>
    rw [harvestPassed_concat]
    rw [genuineOnly_concat] at h
    by_cases hop : op.genuine = true
    · rw [if_pos hop, harvestPassed_concat] at h
      refine h.imp ih ?_
      intro ⟨hharvest, hle⟩
      exact ⟨hharvest, hle.trans (Nat.sub_le_sub_right (highestSlot_genuineOnly_le ops) wait)⟩
    · rw [if_neg hop] at h
      exact Or.inl (ih h)

/-- While the window is open over a key, everything that came for it was gathered. -/
theorem mem_gathered_iff {wait : ℕ} {ops : List Op} {key : SetKey}
    (hopen : (Window.after ops : Window wait).floor < key.slot) {t : VerifiedShred} :
    t ∈ gathered wait key ops ↔ .ingest t ∈ ops ∧ t.setKey = key := by
  induction ops using List.reverseRecOn with
  | nil => simp
  | append_singleton ops op ih =>
    rw [Window.after_concat] at hopen
    have hopen' := Nat.lt_of_le_of_lt (Window.floor_le_step _ op) hopen
    rw [gathered_concat, List.mem_append, ih hopen', List.mem_append, List.mem_singleton]
    cases op with
    | harvest => simp [Window.takesIn]
    | ingest s =>
      by_cases hkey : s.setKey = key
      · have hslot : s.slot = key.slot := congrArg SetKey.slot hkey
        rw [Window.takesIn, if_pos ⟨hkey, hslot ▸ hopen'⟩, List.mem_singleton, Op.ingest.injEq]
        constructor
        · intro h
          rcases h with ⟨hmem, ht⟩ | rfl
          · exact ⟨Or.inl hmem, ht⟩
          · exact ⟨Or.inr rfl, hkey⟩
        · rintro ⟨hmem | rfl, ht⟩
          · exact Or.inl ⟨hmem, ht⟩
          · exact Or.inr rfl
      · rw [Window.takesIn, if_neg (fun h => hkey h.1), Op.ingest.injEq]
        constructor
        · intro h
          rcases h with ⟨hmem, ht⟩ | hnil
          · exact ⟨Or.inl hmem, ht⟩
          · simp at hnil
        · rintro ⟨hmem | rfl, ht⟩
          · exact Or.inl ⟨hmem, ht⟩
          · exact absurd ht hkey

end Aggregator

/-- Absorbing shreds adds their payloads to those seen. -/
lemma mem_seen_foldl_absorb {l : List VerifiedShred} {st : SetState} {hash : ℕ} :
    hash ∈ (l.foldl SetState.absorb st).seen ↔
      hash ∈ st.seen ∨ ∃ t ∈ l, t.payloadHash = hash := by
  induction l generalizing st with
  | nil => simp
  | cons s l ih =>
    rw [List.foldl_cons, ih, SetState.absorb_seen, Finset.mem_insert]
    simp only [List.mem_cons, exists_eq_or_imp]
    constructor
    · rintro ((rfl | hseen) | hlater)
      · exact Or.inr (Or.inl rfl)
      · exact Or.inl hseen
      · exact Or.inr (Or.inr hlater)
    · rintro (hseen | rfl | hlater)
      · exact Or.inl (Or.inr hseen)
      · exact Or.inl (Or.inl rfl)
      · exact Or.inr hlater

/-- A set that some shreds made, or a new one, has seen just their payloads. -/
theorem mem_seen_setOf {l : List VerifiedShred} {leader : Option Pubkey} {ns : ℤ} {hash : ℕ} :
    hash ∈ ((setOf l).getD (SetState.new leader ns)).seen ↔ ∃ t ∈ l, t.payloadHash = hash := by
  cases l with
  | nil => simp [SetState.new]
  | cons s l =>
    have hnew : hash ∉ (SetState.new s.leader s.rxUnixNs).seen := Finset.notMem_empty _
    rw [setOf, Option.getD_some, mem_seen_foldl_absorb, or_iff_right hnew]

namespace Aggregator

/-- The set that a shred goes into, unless it is late, is made of what was gathered for its key. -/
lemma setFor_stateAfter {wait : ℕ} {ops : List Op} {s : VerifiedShred}
    (hopen : ¬ (stateAfter wait ops).Late s) : (stateAfter wait ops).setFor s =
      (setOf (gathered wait s.setKey ops)).getD (SetState.new s.leader s.rxUnixNs) := by
  have hslot : ¬ s.setKey.slot ≤ (stateAfter wait ops).evictedUpto := hopen
  rw [setFor, (tracks_run wait ops).pending, if_neg hslot]

/-- **When a shred is accepted.**  It is authentic, no harvest has passed its slot, and its payload
has not come to its set before. -/
theorem accepts_iff (wait : ℕ) (ops : List Op) (s : VerifiedShred) :
    (stateAfter wait ops).Accepts s ↔
      ¬ HarvestPassed wait ops s.slot ∧ s.isAuthentic = true ∧
        ∀ copy, .ingest copy ∈ ops → copy.setKey = s.setKey →
          copy.payloadHash ≠ s.payloadHash := by
  rw [Accepts, SetState.fate_eq_accepted_iff, late_iff]
  refine and_congr_right fun hopen => and_congr_right fun _ => ?_
  have hfloor : (Window.after ops : Window wait).floor < s.setKey.slot :=
    not_le.mp (mt (le_floor_iff wait ops s.slot).mp hopen)
  rw [setFor_stateAfter (mt (late_iff wait ops s).mp hopen), mem_seen_setOf]
  constructor
  · intro h copy hmem hkey heq
    exact h ⟨copy, (mem_gathered_iff hfloor).mpr ⟨hmem, hkey⟩, heq⟩
  · intro h ⟨copy, hmem, heq⟩
    obtain ⟨hmem, hkey⟩ := (mem_gathered_iff hfloor).mp hmem
    exact h copy hmem hkey heq

/-- A shred of the run without forged ones. -/
lemma mem_genuineOnly {ops : List Op} {s : VerifiedShred} :
    .ingest s ∈ genuineOnly ops ↔ .ingest s ∈ ops ∧ s.isAuthentic = true :=
  List.mem_filter

/-- Where forged shreds do not come first, the same authentic shreds are late. -/
lemma GenuineLeads.late_iff_late {wait : ℕ} {ops : List Op} (h : GenuineLeads wait ops)
    {before : List Op} {s : VerifiedShred} {later : List Op}
    (hops : ops = before ++ .ingest s :: later) (hs : s.isAuthentic = true) :
    (stateAfter wait before).Late s ↔ (stateAfter wait (genuineOnly before)).Late s := by
  rw [late_iff, late_iff]
  exact ⟨h.window before s later hops hs, HarvestPassed.of_genuineOnly⟩

/-- Where forged shreds do not come first, the same authentic shreds are accepted. -/
lemma GenuineLeads.accepts_iff_accepts {wait : ℕ} {ops : List Op} (h : GenuineLeads wait ops)
    {before : List Op} {s : VerifiedShred} {later : List Op}
    (hops : ops = before ++ .ingest s :: later) (hs : s.isAuthentic = true) :
    (stateAfter wait before).Accepts s ↔ (stateAfter wait (genuineOnly before)).Accepts s := by
  rw [accepts_iff, accepts_iff]
  constructor
  · intro ⟨hopen, _, hfresh⟩
    refine ⟨mt HarvestPassed.of_genuineOnly hopen, hs, ?_⟩
    intro copy hmem
    exact hfresh copy (mem_genuineOnly.mp hmem).1
  · intro ⟨hopen, _, hfresh⟩
    have hopen' : ¬ HarvestPassed wait before s.slot := mt (h.window before s later hops hs) hopen
    refine ⟨hopen', hs, ?_⟩
    intro copy hmem hkey heq
    obtain ⟨genuine, hgenuine, hauth, hkey', heq'⟩ :=
      h.payload before s later hops hs hopen' copy hmem hkey heq
    exact hfresh genuine (mem_genuineOnly.mpr ⟨hgenuine, hauth⟩) hkey' heq'

/-! ### The accepted part of the sets -/

/-- The accepted part of the set that a run gathers for a key. -/
def acceptedPart (wait : ℕ) (key : SetKey) (ops : List Op) : Accepted :=
  (setOf (gathered wait key ops)).elim Accepted.new SetState.toAccepted

/-- Only an accepted shred of the key changes the accepted part. -/
lemma acceptedPart_concat (wait : ℕ) (key : SetKey) (ops : List Op) (op : Op) :
    (∃ s, op = .ingest s ∧ s.setKey = key ∧ (stateAfter wait ops).Accepts s ∧
      acceptedPart wait key (ops ++ [op]) = (acceptedPart wait key ops).accept s) ∨
    ((∀ s, op = .ingest s → s.setKey = key → ¬ (stateAfter wait ops).Accepts s) ∧
      acceptedPart wait key (ops ++ [op]) = acceptedPart wait key ops) := by
  cases op with
  | harvest =>
    right
    unfold acceptedPart
    rw [gathered_harvest]
    exact ⟨by simp, rfl⟩
  | ingest s =>
    have hfloor := (tracks_run wait ops).floor
    -- a shred of another set, or one that comes too late, leaves the set alone
    by_cases htaken : s.setKey = key ∧ (Window.after ops : Window wait).floor < s.slot
    · obtain ⟨rfl, hlt⟩ := htaken
      have hopen : ¬ (stateAfter wait ops).Late s := by
        rw [Late, hfloor]
        exact not_le.mpr hlt
      have hpart : acceptedPart wait s.setKey (ops ++ [.ingest s]) =
          (((stateAfter wait ops).setFor s).absorb s).toAccepted := by
        rw [acceptedPart, gathered_concat, Window.takesIn, if_pos ⟨rfl, hlt⟩, setOf_concat,
          setFor_stateAfter hopen]
        rfl
      have hbefore : ((stateAfter wait ops).setFor s).toAccepted =
          acceptedPart wait s.setKey ops := by
        rw [setFor_stateAfter hopen, acceptedPart]
        cases setOf (gathered wait s.setKey ops) <;> rfl
      rw [SetState.absorb_toAccepted, hbefore] at hpart
      by_cases hfate : ((stateAfter wait ops).setFor s).fate s = .accepted
      · rw [if_pos hfate] at hpart
        exact Or.inl ⟨s, rfl, rfl, ⟨hopen, hfate⟩, hpart⟩
      · rw [if_neg hfate] at hpart
        refine Or.inr ⟨?_, hpart⟩
        intro s' hs' _ haccepts
        cases hs'
        exact hfate haccepts.2
    · right
      refine ⟨?_, ?_⟩
      · intro s' hs' hkey haccepts
        cases hs'
        have hopen := haccepts.1
        rw [Late, hfloor, not_le] at hopen
        exact htaken ⟨hkey, hopen⟩
      · unfold acceptedPart
        rw [gathered_concat, Window.takesIn, if_neg htaken, List.append_nil]

/-- One more call leaves what was accepted, and may be a shred that is. -/
lemma holdsAccepted_concat (wait : ℕ) (ops : List Op) (op : Op) (key : SetKey) :
    HoldsAccepted wait (ops ++ [op]) key ↔ HoldsAccepted wait ops key ∨
      ∃ s, op = .ingest s ∧ s.setKey = key ∧ (stateAfter wait ops).Accepts s := by
  unfold HoldsAccepted
  exact List.exists_split_concat (P := fun before op =>
    ∃ s, op = .ingest s ∧ s.setKey = key ∧ (stateAfter wait before).Accepts s) ops op

/-- A run that accepted a shred of a key has its first and its last arrival. -/
theorem HoldsAccepted.isSome {wait : ℕ} {ops : List Op} {key : SetKey}
    (h : HoldsAccepted wait ops key) : (acceptedPart wait key ops).firstNs.isSome = true ∧
      (acceptedPart wait key ops).lastNs.isSome = true := by
  induction ops using List.reverseRecOn with
  | nil =>
    obtain ⟨before, op, later, hops, -⟩ := h
    simp at hops
  | append_singleton ops op ih =>
    rcases acceptedPart_concat wait key ops op with ⟨s, -, -, -, hpart⟩ | ⟨hnone, hpart⟩
    · rw [hpart]
      exact ⟨rfl, rfl⟩
    · rw [hpart]
      apply ih
      refine ((holdsAccepted_concat wait ops op key).mp h).resolve_right ?_
      intro ⟨s, hop, hkey, haccepts⟩
      exact hnone s hop hkey haccepts

/-- What holds of a run holds of its first calls. -/
lemma GenuineLeads.of_concat {wait : ℕ} {ops : List Op} {op : Op}
    (h : GenuineLeads wait (ops ++ [op])) : GenuineLeads wait ops where
  window before s later hops := h.window before s (later ++ [op]) (by simp [hops])
  payload before s later hops := h.payload before s (later ++ [op]) (by simp [hops])

/-- Where forged shreds do not come first, the sets of the two runs have the same accepted part. -/
lemma GenuineLeads.acceptedPart_eq {wait : ℕ} {ops : List Op} (h : GenuineLeads wait ops)
    (key : SetKey) : acceptedPart wait key ops = acceptedPart wait key (genuineOnly ops) := by
  induction ops using List.reverseRecOn with
  | nil => rfl
  | append_singleton ops op ih =>
    have hsame : ∀ s, op = .ingest s → s.isAuthentic = true →
        ((stateAfter wait ops).Accepts s ↔ (stateAfter wait (genuineOnly ops)).Accepts s) := by
      intro s hop hs
      have hsplit : ops ++ [op] = ops ++ .ingest s :: [] := by rw [hop]
      exact h.accepts_iff_accepts hsplit hs
    rw [genuineOnly_concat]
    by_cases hgenuine : op.genuine = true
    · rw [if_pos hgenuine]
      rcases acceptedPart_concat wait key ops op with ⟨s, hop, hkey, hacc, hpart⟩ | ⟨hnone, hpart⟩
      · have hs : s.isAuthentic = true := by rw [hop] at hgenuine; exact hgenuine
        rcases acceptedPart_concat wait key (genuineOnly ops) op with
          ⟨s', hop', -, -, hpart'⟩ | ⟨hnone', -⟩
        · cases Op.ingest.inj (hop.symm.trans hop')
          rw [hpart, hpart', ih h.of_concat]
        · exact absurd ((hsame s hop hs).mp hacc) (hnone' s hop hkey)
      · rcases acceptedPart_concat wait key (genuineOnly ops) op with
          ⟨s, hop, hkey, hacc, -⟩ | ⟨-, hpart'⟩
        · have hs : s.isAuthentic = true := by rw [hop] at hgenuine; exact hgenuine
          exact absurd ((hsame s hop hs).mpr hacc) (hnone s hop hkey)
        · rw [hpart, hpart', ih h.of_concat]
    · rw [if_neg hgenuine]
      rcases acceptedPart_concat wait key ops op with ⟨s, hop, -, hacc, -⟩ | ⟨-, hpart⟩
      · rw [hop] at hgenuine
        exact absurd ((accepts_iff wait ops s).mp hacc).2.1 hgenuine
      · rw [hpart, ih h.of_concat]

/-! ### The rows of the two runs -/

/-- The timing of a row depends on the accepted part of its set only, if that is not empty. -/
lemma timing_finalize_congr {st st' : SetState} (h : st.toAccepted = st'.toAccepted)
    (hfirst : st.firstNs.isSome = true) (hlast : st.lastNs.isSome = true) (key : SetKey)
    (truth truth' : Truth) :
    (finalize key st truth).timing = (finalize key st' truth').timing := by
  obtain ⟨first, hfirst⟩ := Option.isSome_iff_exists.mp hfirst
  obtain ⟨last, hlast⟩ := Option.isSome_iff_exists.mp hlast
  unfold SetRow.timing finalize
  dsimp only
  rw [← h, hfirst, hlast]
  rfl

/-- Runs whose sets have the same accepted part have rows of the same timing. -/
lemma sameTiming_of_acceptedPart {wait : ℕ} {ops ops' : List Op}
    (h : ∀ key, acceptedPart wait key ops = acceptedPart wait key ops') :
    SameTiming wait ops ops' := by
  intro row hrow hholds
  obtain ⟨hfirst, hlast⟩ := hholds.isSome
  obtain ⟨-, st, truth, hset, hrow⟩ := (emits_emitted wait ops).made row hrow
  have hpart : acceptedPart wait row.key ops = st.toAccepted := by
    rw [acceptedPart, hset]
    rfl
  -- the other run gathered something for the key, since its accepted part is not that of a new set
  have hne : gathered wait row.key ops' ≠ [] := by
    intro hnil
    have hnew : acceptedPart wait row.key ops' = Accepted.new := by
      rw [acceptedPart, hnil]
      rfl
    rw [h, hnew] at hfirst
    simp [Accepted.new] at hfirst
  obtain ⟨row', hrow', hkey⟩ := (emits_emitted wait ops').complete row.key trivial hne
  obtain ⟨-, st', truth', hset', hmade'⟩ := (emits_emitted wait ops').made row' hrow'
  rw [hkey] at hset' hmade'
  have hpart' : acceptedPart wait row.key ops' = st'.toAccepted := by
    rw [acceptedPart, hset']
    rfl
  refine ⟨row', hrow', hkey, ?_⟩
  rw [hpart] at hfirst hlast
  rw [hmade', hrow]
  exact (timing_finalize_congr (by rw [← hpart, h, hpart']) hfirst hlast _ _ _).symm

/-- **Forged shreds leave genuine ones alone exactly when they never come first.** -/
theorem undisturbed_iff_genuineLeads (maxWaitSlots : ℕ) (ops : List Op) :
    Undisturbed maxWaitSlots ops ↔ GenuineLeads maxWaitSlots ops := by
  constructor
  · intro h
    refine ⟨?_, ?_⟩
    · intro before s later hops hs hpassed
      rw [← late_iff] at hpassed ⊢
      exact (h.late before s later hops hs).mp hpassed
    · intro before s later hops hs hopen copy hcopy hkey heq
      by_contra hnone
      -- without the forged shreds the payload is new, so the shred is accepted
      have hgenuine : (stateAfter maxWaitSlots (genuineOnly before)).Accepts s := by
        rw [accepts_iff]
        refine ⟨mt HarvestPassed.of_genuineOnly hopen, hs, ?_⟩
        intro genuine hmem hkey' heq'
        obtain ⟨hmem, hauth⟩ := mem_genuineOnly.mp hmem
        exact hnone ⟨genuine, hmem, hauth, hkey', heq'⟩
      have hall := (h.accepts before s later hops hs).mpr hgenuine
      exact ((accepts_iff maxWaitSlots before s).mp hall).2.2 copy hcopy hkey heq
  · intro h
    refine ⟨?_, ?_, ?_, ?_⟩
    · intro before s later hops hs
      exact h.late_iff_late hops hs
    · intro before s later hops hs
      exact h.accepts_iff_accepts hops hs
    · exact sameTiming_of_acceptedPart h.acceptedPart_eq
    · exact sameTiming_of_acceptedPart fun key => (h.acceptedPart_eq key).symm

/-- An authentic data shred. -/
def genuineShred (slot position : ℕ) (rxUnixNs : ℤ) (payloadHash : ℕ) : VerifiedShred where
  packetIndex := 0
  provider := 0
  rxUnixNs := rxUnixNs
  slot := slot
  fecSetIndex := 0
  shredIndex := position
  isCode := false
  position := position
  lastInSlot := false
  dataComplete := false
  numData := none
  numCoding := none
  leader := some (Vector.replicate 32 7)
  sigOk := some true
  merkleOk := true
  proofStripped := false
  payloadHash := payloadHash
  dataHash := none

/-- A run of one provider with a window of 10 slots: the first shred of slot 100, a forged shred
that claims slot 200, a harvest, and the second shred of slot 100. -/
def forgedAhead : List Op :=
  [.ingest (genuineShred 100 0 1000 1),
   .ingest { genuineShred 200 0 1100 2 with provider := 1, sigOk := some false },
   .harvest,
   .ingest (genuineShred 100 1 1200 3)]

/-- A forged shred closes the window over a genuine one. -/
theorem not_undisturbed_forgedAhead : ¬ Undisturbed 10 forgedAhead := by
  intro h
  have hlate := h.late (forgedAhead.take 3) (genuineShred 100 1 1200 3) [] rfl (by decide)
  revert hlate
  unfold Late
  decide

end Aggregator

end ShredTools.Audit
