import ShredTools.Audit.AggregatorRow

/-!
# The order of arrival

Authentic shreds of one set, each at its own place and with headers that agree, are ingested in two
orders.  The bits, the times and the number of data shreds come out the same, since they depend on
the accepted shreds only as a collection (`Accepted.Contains`).  The number of coding shreds does
not: `ingest` reads it off a coding shred only while the number of data shreds is unknown, and the
last data shred of the set tells that number as well.  So a row does not depend on the order, and
has the size that the coding shreds tell, exactly for collections without the one or without the
other (`orderFree_iff`).
-/

namespace ShredTools.Audit

/-- Authentic shreds of one set with distinct places and payloads, whose headers agree that there
are `nd` data shreds and `nc` coding shreds. -/
structure Agreeing (key : SetKey) (nd nc : ℕ) (l : List VerifiedShred) : Prop where
  /-- The shreds belong to one set. -/
  setKey : ∀ s ∈ l, s.setKey = key
  /-- The leader signed them. -/
  authentic : ∀ s ∈ l, s.isAuthentic = true
  /-- Their positions have bits. -/
  position : ∀ s ∈ l, s.position < maxPosition
  /-- Their positions are distinct among those of a kind. -/
  places : (l.map VerifiedShred.place).Nodup
  /-- Their payloads are distinct. -/
  payloads : (l.map VerifiedShred.payloadHash).Nodup
  /-- Coding shreds carry the size of the set. -/
  coding : ∀ s ∈ l, s.isCode = true → s.numData = some nd ∧ s.numCoding = some nc
  /-- Only the last data shred is flagged. -/
  dataComplete : ∀ s ∈ l, s.isCode = false → s.dataComplete = true → s.position + 1 = nd

/-- The fields of a row that say how a set was delivered. -/
structure SetOutcome where
  /-- Distinct data positions. -/
  nData : ℕ
  /-- Distinct coding positions. -/
  nCode : ℕ
  /-- The number of shreds of the set, if known. -/
  expectedTotal : Option ℕ
  /-- Shreds that did not come. -/
  missed : ℕ
  /-- When the set became decodable. -/
  decodeNs : Option ℤ
  /-- The first arrival. -/
  firstNs : ℤ
  /-- The last arrival. -/
  lastNs : ℤ
  /-- Whether the set decoded and everything in it verified. -/
  isValid : Bool
  deriving DecidableEq

/-- The outcome that a row reports. -/
def SetRow.outcome (row : SetRow) : SetOutcome :=
  ⟨row.nData, row.nCode, row.expectedTotal, row.missed, row.decodeNs, row.firstNs, row.lastNs,
    row.isValid⟩

namespace Aggregator

/-- However the shreds of a set are ordered, and whatever comes between them, rows made of them have
the same outcome, and the size that a coding shred among them tells. -/
structure OrderFree (key : SetKey) (nd nc : ℕ) (l : List VerifiedShred) : Prop where
  /-- The outcome is the same. -/
  outcome : ∀ (wait wait' : ℕ) (calls calls' : List Call) (drainAll drainAll' : Bool),
    (pendingShreds wait key calls).Perm l → (pendingShreds wait' key calls').Perm l →
    ∀ row ∈ ((afterCalls wait calls).harvest drainAll).2,
      ∀ row' ∈ ((afterCalls wait' calls').harvest drainAll').2,
        row.key = key → row'.key = key → row.outcome = row'.outcome
  /-- The size is known with a coding shred. -/
  size : ∀ (wait : ℕ) (calls : List Call) (drainAll : Bool),
    (pendingShreds wait key calls).Perm l → (∃ s ∈ l, s.isCode = true) →
    ∀ row ∈ ((afterCalls wait calls).harvest drainAll).2, row.key = key →
      row.expectedTotal = some (nd + nc) ∧ row.missed = nd + nc - (row.nData + row.nCode)

end Aggregator

/-! ### The size that shreds tell -/

/-- Only a coding shred tells the number of coding shreds, while that of data shreds is unknown. -/
lemma Accepted.numCoding_accept (acc : Accepted) (s : VerifiedShred) :
    (acc.accept s).numCoding =
      if s.isCode = true ∧ acc.numData = none then s.numCoding else acc.numCoding := by
  unfold accept place
  cases s.isCode <;> cases acc.numData <;> rfl

/-- A set that knows its number of data shreds learns no other. -/
lemma Accepted.numCoding_foldl {acc : Accepted} (h : acc.numData.isSome = true)
    (l : List VerifiedShred) : (l.foldl Accepted.accept acc).numCoding = acc.numCoding := by
  induction l generalizing acc with
  | nil => rfl
  | cons s l ih =>
    have hne : acc.numData ≠ none := Option.isSome_iff_ne_none.mp h
    have hnext : (acc.accept s).numData.isSome = true := by
      rw [numData_accept, Option.isSome_or, h]
      rfl
    rw [List.foldl_cons, ih hnext, numCoding_accept, if_neg (fun hboth => hne hboth.2)]

/-- Data shreds do not tell the number of coding shreds. -/
lemma Accepted.numCoding_ofShreds_eq_none {l : List VerifiedShred}
    (h : ∀ s ∈ l, s.isCode = false) : (Accepted.ofShreds l).numCoding = none := by
  induction l using List.reverseRecOn with
  | nil => rfl
  | append_singleton l s ih =>
    have hs : s.isCode = false := h s (by simp)
    rw [ofShreds_concat, numCoding_accept, if_neg (by simp [hs])]
    exact ih fun t ht => h t (List.mem_append_left _ ht)

namespace Agreeing

variable {key : SetKey} {nd nc : ℕ} {l l' : List VerifiedShred}

/-- The order does not matter to the agreement. -/
theorem perm (h : Agreeing key nd nc l) (hperm : l'.Perm l) : Agreeing key nd nc l' where
  setKey s hs := h.setKey s (hperm.mem_iff.mp hs)
  authentic s hs := h.authentic s (hperm.mem_iff.mp hs)
  position s hs := h.position s (hperm.mem_iff.mp hs)
  places := (hperm.map _).nodup_iff.mpr h.places
  payloads := (hperm.map _).nodup_iff.mpr h.payloads
  coding s hs := h.coding s (hperm.mem_iff.mp hs)
  dataComplete s hs := h.dataComplete s (hperm.mem_iff.mp hs)

/-- The shreds are all fresh. -/
lemma freshOf_eq (h : Agreeing key nd nc l) : freshOf l = l := List.firstsBy_eq_self _ h.payloads

/-- The shreds are all accepted. -/
lemma acceptedOf_eq (h : Agreeing key nd nc l) : acceptedOf l = l := by
  rw [acceptedOf, h.freshOf_eq]
  exact List.filter_eq_self.mpr h.authentic

/-- The shreds are all at places of their own. -/
lemma placed_eq (h : Agreeing key nd nc l) : placed l = l := by
  have hfilter : (l.filter fun s => s.position < maxPosition) = l :=
    List.filter_eq_self.mpr fun s hs => decide_eq_true (h.position s hs)
  rw [placed, hfilter]
  exact List.firstsBy_eq_self _ h.places

/-- No shred failed. -/
lemma failedOf_eq (h : Agreeing key nd nc l) : failedOf l = [] := by
  rw [failedOf, h.freshOf_eq, List.filter_eq_nil_iff]
  intro s hs hfailed
  have hauth := h.authentic s hs
  revert hauth hfailed
  unfold VerifiedShred.isAuthentic VerifiedShred.failed
  cases s.merkleOk <;> rcases s.sigOk with _ | _ | _ <;> simp

/-- No shred lacks a verdict. -/
lemma unverifiableOf_eq (h : Agreeing key nd nc l) : unverifiableOf l = [] := by
  rw [unverifiableOf, h.freshOf_eq, List.filter_eq_nil_iff]
  intro s hs hunverifiable
  have hauth := h.authentic s hs
  revert hauth hunverifiable
  unfold VerifiedShred.isAuthentic VerifiedShred.unverifiable
  cases s.merkleOk <;> rcases s.sigOk with _ | _ | _ <;> simp

/-- Every shred that tells the number of data shreds tells the same. -/
lemma eq_of_tellsNumData (h : Agreeing key nd nc l) {s : VerifiedShred} (hs : s ∈ l) {k : ℕ}
    (hk : s.tellsNumData = some k) : k = nd := by
  unfold VerifiedShred.tellsNumData at hk
  cases hkind : s.isCode with
  | true =>
    rw [hkind, if_pos rfl, (h.coding s hs hkind).1] at hk
    exact (Option.some.inj hk).symm
  | false =>
    rw [hkind, if_neg Bool.false_ne_true] at hk
    by_cases hcomplete : s.dataComplete = true
    · have hnd := h.dataComplete s hs hkind hcomplete
      have hpos := h.position s hs
      rw [if_pos hcomplete, Option.some.injEq] at hk
      unfold maxPosition at hpos
      unfold u16Size at hk
      omega
    · rw [if_neg hcomplete] at hk
      simp at hk

/-- What the shreds tell about the number of data shreds. -/
lemma learnedNumData_eq_some_iff (h : Agreeing key nd nc l) {k : ℕ} :
    learnedNumData l = some k ↔ k = nd ∧ ∃ s ∈ l, s.tellsNumData = some k := by
  unfold learnedNumData
  constructor
  · intro hlearned
    obtain ⟨s, hs, htells⟩ := List.exists_of_findSome?_eq_some hlearned
    exact ⟨h.eq_of_tellsNumData hs htells, s, hs, htells⟩
  · intro ⟨hk, s, hs, htells⟩
    cases hlearned : l.findSome? VerifiedShred.tellsNumData with
    | none =>
      rw [List.findSome?_eq_none_iff] at hlearned
      rw [hlearned s hs] at htells
      simp at htells
    | some k' =>
      obtain ⟨t, ht, htells'⟩ := List.exists_of_findSome?_eq_some hlearned
      rw [h.eq_of_tellsNumData ht htells', hk]

/-- The order does not matter to what is learned. -/
lemma learnedNumData_perm (h : Agreeing key nd nc l) (hperm : l'.Perm l) :
    learnedNumData l' = learnedNumData l := by
  apply Option.ext
  intro k
  rw [(h.perm hperm).learnedNumData_eq_some_iff, h.learnedNumData_eq_some_iff]
  simp only [hperm.mem_iff]

/-- With coding shreds and without the last data shred the set learns its size from a coding
shred. -/
lemma numCoding_of_coding (h : Agreeing key nd nc l) (hcoding : ∃ s ∈ l, s.isCode = true)
    (hlast : ∀ s ∈ l, s.isCode = false → s.dataComplete = false) :
    (Accepted.ofShreds l).numData = some nd ∧ (Accepted.ofShreds l).numCoding = some nc := by
  -- as long as no coding shred came nothing is known
  have hknown : ∀ before, before.Sublist l → (Accepted.ofShreds before).numData = none ∨
      ((Accepted.ofShreds before).numData = some nd ∧
        (Accepted.ofShreds before).numCoding = some nc) := by
    intro before
    induction before using List.reverseRecOn with
    | nil => exact fun _ => Or.inl rfl
    | append_singleton before s ih =>
      intro hsub
      have hs : s ∈ l := hsub.subset (by simp)
      rw [Accepted.ofShreds_concat, Accepted.numData_accept, Accepted.numCoding_accept]
      rcases ih ((List.sublist_append_left _ _).trans hsub) with hnone | ⟨hdata, hcode⟩
      · rw [hnone, Option.none_or]
        cases hkind : s.isCode with
        | true =>
          right
          rw [VerifiedShred.tellsNumData, hkind, if_pos rfl, if_pos ⟨rfl, rfl⟩]
          exact h.coding s hs hkind
        | false =>
          left
          rw [VerifiedShred.tellsNumData, hkind, if_neg Bool.false_ne_true,
            hlast s hs hkind, if_neg Bool.false_ne_true]
      · right
        rw [hdata, hcode, Option.some_or, if_neg (by simp)]
        exact ⟨rfl, rfl⟩
  rcases hknown l (List.Sublist.refl l) with hnone | hboth
  · obtain ⟨s, hs, hkind⟩ := hcoding
    rw [(Accepted.contains_ofShreds l).numData, learnedNumData,
      List.findSome?_eq_none_iff] at hnone
    have htells := hnone s hs
    rw [VerifiedShred.tellsNumData, hkind, if_pos rfl, (h.coding s hs hkind).1] at htells
    simp at htells
  · exact hboth

/-! ### The rows -/

/-- The set of the shreds delivers each of them. -/
theorem countOnes_bits (h : Agreeing key nd nc l) {st : SetState} (hset : setOf l = some st)
    (isCode : Bool) : countOnes (st.bits isCode) = l.countP fun s => s.isCode == isCode := by
  have hpart := (SetState.contains_of_setOf hset).toAccepted_contains
  rw [hpart.countOnes_bits, h.acceptedOf_eq, h.placed_eq]

/-- Two orders of the same shreds make rows of the same outcome, if they make the same of the
number of shreds. -/
lemma outcome_finalize_eq (h : Agreeing key nd nc l) (h' : Agreeing key nd nc l')
    (hperm : l'.Perm l) {st st' : SetState} (hset : setOf l = some st) (hset' : setOf l' = some st')
    (htotal : st'.expectedTotal = st.expectedTotal) (truth truth' : Truth) :
    (finalize key st' truth').outcome = (finalize key st truth).outcome := by
  have hne : acceptedOf l ≠ [] := by
    rw [h.acceptedOf_eq]
    intro hnil
    rw [setOf_eq_none_iff.mpr hnil] at hset
    simp at hset
  have hne' : acceptedOf l' ≠ [] := by
    rw [h.acceptedOf_eq] at hne
    rw [h'.acceptedOf_eq]
    exact fun hnil => hne (List.nil_perm.mp (hnil ▸ hperm))
  have haccounts := accountsFor_finalize hset key truth
  have haccounts' := accountsFor_finalize hset' key truth'
  obtain ⟨hfirst, hlast⟩ := haccounts.accepted hne
  obtain ⟨hfirst', hlast'⟩ := haccounts'.accepted hne'
  rw [h.acceptedOf_eq] at hfirst hlast
  rw [h'.acceptedOf_eq, (hperm.map _).min?_eq, hfirst, Option.some.injEq] at hfirst'
  rw [h'.acceptedOf_eq, (hperm.map _).max?_eq, hlast, Option.some.injEq] at hlast'
  have hbits : ∀ isCode, countOnes (st'.bits isCode) = countOnes (st.bits isCode) := by
    intro isCode
    rw [h'.countOnes_bits hset', h.countOnes_bits hset, hperm.countP_eq]
  have hdata : countOnes st'.dataPos = countOnes st.dataPos := hbits false
  have hcode : countOnes st'.codePos = countOnes st.codePos := hbits true
  -- the time of decoding is the k-th smallest of the times, whatever order they come in
  have hdecode : st'.decodeNs = st.decodeNs := by
    apply Option.ext
    intro t
    have hpart := (SetState.contains_of_setOf hset).toAccepted_contains
    have hpart' := (SetState.contains_of_setOf hset').toAccepted_contains
    rw [Accepted.decodeNs_eq_some_iff hpart', Accepted.decodeNs_eq_some_iff hpart,
      h.acceptedOf_eq, h'.acceptedOf_eq, h.placed_eq, h'.placed_eq, h.learnedNumData_perm hperm,
      hperm.length_eq]
    refine exists_congr fun k => and_congr_right fun _ => and_congr_right fun _ =>
      and_congr_right fun _ => ?_
    exact ⟨fun hkth => hkth.perm (hperm.map _), fun hkth => hkth.perm (hperm.symm.map _)⟩
  have hvalid : (finalize key st' truth').isValid = (finalize key st truth).isValid := by
    rw [Bool.eq_iff_iff, haccounts'.isValid, haccounts.isValid, h.failedOf_eq, h'.failedOf_eq,
      h.unverifiableOf_eq, h'.unverifiableOf_eq]
    change st'.decodeNs.isSome = true ∧ _ ↔ st.decodeNs.isSome = true ∧ _
    rw [hdecode]
  unfold SetRow.outcome
  rw [← hfirst', ← hlast', hvalid]
  unfold finalize
  dsimp only
  rw [hdata, hcode, htotal, hdecode]

/-- With coding shreds and without the last data shred the size is known. -/
lemma expectedTotal_of_coding (h : Agreeing key nd nc l) (hcoding : ∃ s ∈ l, s.isCode = true)
    (hlast : ∀ s ∈ l, s.isCode = false → s.dataComplete = false) {st : SetState}
    (hset : setOf l = some st) : st.expectedTotal = some (nd + nc) := by
  obtain ⟨hdata, hcode⟩ := h.numCoding_of_coding hcoding hlast
  have hpart := (SetState.contains_of_setOf hset).accepted
  rw [h.acceptedOf_eq] at hpart
  rw [hpart, Accepted.expectedTotal, hdata, hcode]

/-- Without coding shreds the size is not known. -/
lemma expectedTotal_of_data (h : Agreeing key nd nc l) (hdata : ∀ s ∈ l, s.isCode = false)
    {st : SetState} (hset : setOf l = some st) : st.expectedTotal = none := by
  have hpart := (SetState.contains_of_setOf hset).accepted
  rw [h.acceptedOf_eq] at hpart
  rw [hpart, Accepted.expectedTotal, Accepted.numCoding_ofShreds_eq_none hdata]
  cases (Accepted.ofShreds l).numData <;> rfl

/-- What is known of the size of a set depends on its shreds only, unless there are both a coding
shred and a last data shred. -/
lemma expectedTotal_eq (h : Agreeing key nd nc l)
    (hcond : ¬ ((∃ s ∈ l, s.isCode = true) ∧
      ∃ s ∈ l, s.isCode = false ∧ s.dataComplete = true))
    (hperm : l'.Perm l) {st : SetState} (hset : setOf l' = some st) :
    st.expectedTotal = if ∃ s ∈ l, s.isCode = true then some (nd + nc) else none := by
  by_cases hcoding : ∃ s ∈ l, s.isCode = true
  · rw [if_pos hcoding]
    refine (h.perm hperm).expectedTotal_of_coding ?_ ?_ hset
    · obtain ⟨s, hs, hkind⟩ := hcoding
      exact ⟨s, hperm.mem_iff.mpr hs, hkind⟩
    · intro s hs hkind
      by_contra hcomplete
      rw [Bool.not_eq_false] at hcomplete
      exact hcond ⟨hcoding, s, hperm.mem_iff.mp hs, hkind, hcomplete⟩
  · rw [if_neg hcoding]
    refine (h.perm hperm).expectedTotal_of_data ?_ hset
    intro s hs
    by_contra hkind
    rw [Bool.not_eq_false] at hkind
    exact hcoding ⟨s, hperm.mem_iff.mp hs, hkind⟩

end Agreeing

/-- If the last data shred comes first, the set never learns the number of coding shreds. -/
lemma expectedTotal_of_dataComplete_first {s : VerifiedShred} (hkind : s.isCode = false)
    (hcomplete : s.dataComplete = true) (later : List VerifiedShred) :
    (Accepted.ofShreds (s :: later)).expectedTotal = none := by
  have hdata : (Accepted.new.accept s).numData.isSome = true := by
    rw [Accepted.numData_accept, VerifiedShred.tellsNumData, hkind, hcomplete]
    rfl
  have hcode : (Accepted.new.accept s).numCoding = none := by
    rw [Accepted.numCoding_accept, hkind, if_neg (by simp)]
    rfl
  unfold Accepted.expectedTotal Accepted.ofShreds
  rw [List.foldl_cons, Accepted.numCoding_foldl hdata, hcode]
  cases (later.foldl Accepted.accept (Accepted.new.accept s)).numData <;> rfl

namespace Aggregator

/-- A row is made of the set of its key. -/
lemma exists_setOf_of_mem_harvest {wait : ℕ} {calls : List Call} {drainAll : Bool} {row : SetRow}
    (hrow : row ∈ ((afterCalls wait calls).harvest drainAll).2) :
    ∃ st, setOf (pendingShreds wait row.key calls) = some st ∧
      row = finalize row.key st (afterCalls wait calls).truth := by
  obtain ⟨key, st, hlookup, -, rfl⟩ := mem_harvest_iff.mp hrow
  rw [lookup_afterCalls] at hlookup
  exact ⟨st, hlookup, rfl⟩

/-- Nothing goes into a set of slot zero. -/
lemma pendingShredsFrom_of_slot_zero {key : SetKey} (hzero : key.slot = 0) (calls : List Call)
    (agg : Aggregator) : pendingShredsFrom key agg [] calls = [] := by
  induction calls generalizing agg with
  | nil => rfl
  | cons c calls ih =>
    have hstep : agg.shredsAfter key [] c = [] := by
      cases c with
      | ingest s =>
        apply if_neg
        intro ⟨hkey, hopen⟩
        have hslot : key.slot = s.slot := congrArg SetKey.slot hkey
        omega
      | harvest drainAll => exact ite_self []
    rw [pendingShredsFrom, hstep, ih]

/-- A set that is there has a slot above zero. -/
lemma slot_pos_of_setOf {wait : ℕ} {calls : List Call} {key : SetKey} {st : SetState}
    (hset : setOf (pendingShreds wait key calls) = some st) : 0 < key.slot := by
  rw [Nat.pos_iff_ne_zero]
  intro hzero
  rw [pendingShreds, pendingShredsFrom_of_slot_zero hzero] at hset
  simp at hset

/-- **A row does not depend on the order of arrival, except for the size of the set.**  For shreds
of one set whose headers agree, the outcome is the same in every order and has the size that coding
shreds tell if and only if there are not both coding shreds and the last data shred (or the slot is
zero, of which nothing goes into a set). -/
theorem orderFree_iff {key : SetKey} {nd nc : ℕ} {l : List VerifiedShred}
    (h : Agreeing key nd nc l) : OrderFree key nd nc l ↔
      (0 < key.slot → ¬ ((∃ s ∈ l, s.isCode = true) ∧
        ∃ s ∈ l, s.isCode = false ∧ s.dataComplete = true)) := by
  constructor
  · intro hfree hslot ⟨hcoding, s, hs, hkind, hcomplete⟩
    -- ingest the last data shred first
    have hperm : (s :: l.erase s).Perm l := (List.perm_cons_erase hs).symm
    have h' : Agreeing key nd nc (s :: l.erase s) := h.perm hperm
    have hpending : pendingShreds 0 key ((s :: l.erase s).map Call.ingest) = s :: l.erase s :=
      pendingShreds_map_ingest 0 hslot h'.setKey
    obtain ⟨st, hset⟩ : ∃ st, setOf (s :: l.erase s) = some st := ⟨_, rfl⟩
    have hlookup := lookup_afterCalls 0 ((s :: l.erase s).map Call.ingest) key
    rw [hpending, hset] at hlookup
    rw [← hpending] at hperm
    have hsize := (hfree.size 0 _ true hperm hcoding _
      (mem_harvest_iff.mpr ⟨key, st, hlookup, rfl, rfl⟩) rfl).1
    have hpart := (SetState.contains_of_setOf hset).accepted
    rw [h'.acceptedOf_eq] at hpart
    have hnone : st.expectedTotal = none := by
      rw [hpart]
      exact expectedTotal_of_dataComplete_first hkind hcomplete _
    change st.expectedTotal = _ at hsize
    rw [hnone] at hsize
    simp at hsize
  · intro hcond
    refine ⟨?_, ?_⟩
    · intro wait wait' calls calls' drainAll drainAll' hperm hperm' row hrow row' hrow' hkey hkey'
      obtain ⟨st, hset, hmade⟩ := exists_setOf_of_mem_harvest hrow
      obtain ⟨st', hset', hmade'⟩ := exists_setOf_of_mem_harvest hrow'
      have hslot : 0 < key.slot := hkey ▸ slot_pos_of_setOf hset
      rw [hkey] at hset hmade
      rw [hkey'] at hset' hmade'
      rw [hmade, hmade']
      refine (h.perm hperm').outcome_finalize_eq (h.perm hperm) (hperm.trans hperm'.symm) hset' hset
        ?_ _ _
      rw [h.expectedTotal_eq (hcond hslot) hperm hset,
        h.expectedTotal_eq (hcond hslot) hperm' hset']
    · intro wait calls drainAll hperm hcoding row hrow hkey
      obtain ⟨st, hset, hmade⟩ := exists_setOf_of_mem_harvest hrow
      have hslot : 0 < key.slot := hkey ▸ slot_pos_of_setOf hset
      rw [hkey] at hset hmade
      have hsize := h.expectedTotal_eq (hcond hslot) hperm hset
      rw [if_pos hcoding] at hsize
      rw [hmade]
      unfold finalize
      dsimp only
      rw [hsize]
      exact ⟨rfl, rfl⟩

/-- A coding shred of the set that `genuineShred` makes data shreds of. -/
def codingShred (numData numCoding position : ℕ) (rxUnixNs : ℤ) (payloadHash : ℕ) : VerifiedShred :=
  { genuineShred 100 position rxUnixNs payloadHash with
    isCode := true
    numData := some numData
    numCoding := some numCoding }

/-- A data shred that is not the last one and a coding shred. -/
theorem orderFree_iff_data_coding : OrderFree ⟨0, 100, 0⟩ 2 1
    [genuineShred 100 0 1000 1, codingShred 2 1 0 1100 2] := by
  refine (orderFree_iff ⟨?_, ?_, ?_, ?_, ?_, ?_, ?_⟩).mpr ?_ <;> decide

/-- The last data shred and a coding shred agree, but if the data shred comes first, the size is not
known. -/
theorem not_orderFree_dataComplete :
    Agreeing ⟨0, 100, 0⟩ 1 1
      [{ genuineShred 100 0 1000 1 with dataComplete := true }, codingShred 1 1 0 1100 2] ∧
    ¬ OrderFree ⟨0, 100, 0⟩ 1 1
      [{ genuineShred 100 0 1000 1 with dataComplete := true }, codingShred 1 1 0 1100 2] := by
  constructor
  · refine ⟨?_, ?_, ?_, ?_, ?_, ?_, ?_⟩ <;> decide
  · intro hfree
    have hsize := hfree.size 10
      [.ingest { genuineShred 100 0 1000 1 with dataComplete := true },
        .ingest (codingShred 1 1 0 1100 2)] true (List.Perm.refl _) (by decide) _
      (mem_harvest_iff.mpr ⟨⟨0, 100, 0⟩, _, rfl, rfl, rfl⟩) rfl
    revert hsize
    decide

end Aggregator

end ShredTools.Audit
