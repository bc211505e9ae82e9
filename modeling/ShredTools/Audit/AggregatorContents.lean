import ShredTools.Audit.AggregatorIsolation
import ShredTools.Library.Selection

/-!
# What a set holds

The state of a set in terms of the shreds that went into it.  A shred is fresh if no earlier one has
its payload; what verification says divides the fresh ones into accepted, failed and unverifiable
shreds.  The counters of a set count these classes, and its bits, times and sizes are those of the
accepted shreds alone (`contains_setOf`).

Of the accepted shreds the first one of each position counts as an arrival, so the arrivals are as
many as the bits set (`countOnes_add_countOnes`).
-/

namespace ShredTools.Audit

namespace VerifiedShred

/-- Verification failed. -/
def failed (s : VerifiedShred) : Bool := !s.merkleOk || s.sigOk == some false

/-- There is a merkle root, but no verdict about its signature. -/
def unverifiable (s : VerifiedShred) : Bool := s.merkleOk && s.sigOk == none

/-- The place of a shred among those of its set. -/
def place (s : VerifiedShred) : Bool × ℕ := (s.isCode, s.position)

/-- The number of data shreds that the set learns from it. -/
def tellsNumData (s : VerifiedShred) : Option ℕ :=
  if s.isCode then s.numData
  else if s.dataComplete then some ((s.position + 1) % u16Size) else none

end VerifiedShred

/-- The shreds with a payload that has not come before. -/
def freshOf (l : List VerifiedShred) : List VerifiedShred := l.firstsBy VerifiedShred.payloadHash

/-- The fresh shreds that are authentic. -/
def acceptedOf (l : List VerifiedShred) : List VerifiedShred :=
  (freshOf l).filter VerifiedShred.isAuthentic

/-- The fresh shreds that failed verification. -/
def failedOf (l : List VerifiedShred) : List VerifiedShred :=
  (freshOf l).filter VerifiedShred.failed

/-- The fresh shreds without a verdict. -/
def unverifiableOf (l : List VerifiedShred) : List VerifiedShred :=
  (freshOf l).filter VerifiedShred.unverifiable

/-- The first ones of their places, among shreds whose positions have a bit. -/
def placed (l : List VerifiedShred) : List VerifiedShred :=
  (l.filter fun s => s.position < maxPosition).firstsBy VerifiedShred.place

/-- The number of data shreds, from the first shred that tells it. -/
def learnedNumData (l : List VerifiedShred) : Option ℕ := l.findSome? VerifiedShred.tellsNumData

/-! ### Position bits -/

/-- A position below the bound is marked, and no other bit changes. -/
lemma getLsbD_markPosition (bits : BitVec maxPosition) (pos i : ℕ) :
    (markPosition bits pos).1.getLsbD i =
      (bits.getLsbD i || decide (pos < maxPosition ∧ i = pos)) := by
  unfold markPosition
  by_cases hpos : pos ≥ maxPosition
  · rw [if_pos hpos]
    simp [not_lt.mpr hpos]
  · rw [if_neg hpos, ← BitVec.twoPow_eq, BitVec.getLsbD_or, BitVec.getLsbD_twoPow]
    simp [not_le.mp hpos, eq_comm]

/-- A position is new if it is below the bound and not marked. -/
lemma markPosition_snd (bits : BitVec maxPosition) (pos : ℕ) :
    (markPosition bits pos).2 = (decide (pos < maxPosition) && !bits.getLsbD pos) := by
  unfold markPosition
  by_cases hpos : pos ≥ maxPosition
  · rw [if_pos hpos]
    simp [not_lt.mpr hpos]
  · have hlt : pos < maxPosition := not_le.mp hpos
    have hne : BitVec.twoPow maxPosition pos ≠ 0 := by
      intro heq
      have hbit := congrArg (fun bits => bits.getLsbD pos) heq
      simp [hlt] at hbit
    rw [if_neg hpos, ← BitVec.twoPow_eq]
    dsimp only
    rw [BitVec.and_twoPow]
    cases hbit : bits.getLsbD pos with
    | true => simpa [hlt] using hne
    | false => simp [hlt]

/-- The bits of one kind. -/
def Accepted.bits (acc : Accepted) (isCode : Bool) : BitVec maxPosition :=
  if isCode then acc.codePos else acc.dataPos

/-- An accepted shred marks its position, if it is new, among those of its kind. -/
lemma Accepted.getLsbD_bits_accept (acc : Accepted) (s : VerifiedShred) (isCode : Bool) (i : ℕ) :
    ((acc.accept s).bits isCode).getLsbD i =
      ((acc.bits isCode).getLsbD i ||
        decide (s.position < maxPosition ∧ (isCode, i) = s.place)) := by
  unfold Accepted.bits Accepted.accept Accepted.place VerifiedShred.place
  cases hkind : s.isCode <;> cases isCode <;> simp [getLsbD_markPosition]

/-- An accepted shred arrives at a new position. -/
lemma Accepted.arrivals_accept (acc : Accepted) (s : VerifiedShred) :
    (acc.accept s).arrivals =
      if s.position < maxPosition ∧ (acc.bits s.isCode).getLsbD s.position = false then
        acc.arrivals ++ [s.rxUnixNs]
      else acc.arrivals := by
  unfold Accepted.bits Accepted.accept Accepted.place
  cases hkind : s.isCode <;> simp [markPosition_snd]

/-- The set learns its number of data shreds once. -/
theorem Accepted.numData_accept (acc : Accepted) (s : VerifiedShred) :
    (acc.accept s).numData = acc.numData.or s.tellsNumData := by
  unfold Accepted.accept Accepted.place VerifiedShred.tellsNumData
  cases hkind : s.isCode <;> cases hnum : acc.numData <;> simp

/-! ### What accepted shreds make -/

/-- The accepted part that some shreds make. -/
def Accepted.ofShreds (l : List VerifiedShred) : Accepted := l.foldl Accepted.accept Accepted.new

/-- One more accepted shred. -/
theorem Accepted.ofShreds_concat (l : List VerifiedShred) (s : VerifiedShred) :
    Accepted.ofShreds (l ++ [s]) = (Accepted.ofShreds l).accept s := by
  unfold Accepted.ofShreds
  rw [List.foldl_append, List.foldl_cons, List.foldl_nil]

/-- The accepted part of a set, in terms of the accepted shreds. -/
structure Accepted.Contains (acc : Accepted) (l : List VerifiedShred) : Prop where
  /-- The bits are those of the places. -/
  bits : ∀ isCode i, (acc.bits isCode).getLsbD i = true ↔
    ∃ s ∈ l, s.position < maxPosition ∧ s.place = (isCode, i)
  /-- The number of data shreds is the first one told. -/
  numData : acc.numData = learnedNumData l
  /-- The first shred of each place arrived. -/
  arrivals : acc.arrivals = (placed l).map VerifiedShred.rxUnixNs
  /-- The first time. -/
  firstNs : acc.firstNs = (l.map VerifiedShred.rxUnixNs).min?
  /-- The last time. -/
  lastNs : acc.lastNs = (l.map VerifiedShred.rxUnixNs).max?
  /-- The flags of the data shreds together. -/
  lastInSlot : acc.lastInSlot = l.any fun s => !s.isCode && s.lastInSlot

/-- One more placed shred, if its position has a bit and its place is new. -/
lemma placed_concat (l : List VerifiedShred) (s : VerifiedShred) :
    placed (l ++ [s]) =
      if s.position < maxPosition ∧
          ¬ ∃ t ∈ l, t.position < maxPosition ∧ t.place = s.place then placed l ++ [s]
      else placed l := by
  unfold placed
  rw [List.filter_append]
  by_cases hpos : s.position < maxPosition
  · have hmem : (∃ t ∈ l.filter fun t => t.position < maxPosition, t.place = s.place) ↔
        ∃ t ∈ l, t.position < maxPosition ∧ t.place = s.place := by
      simp only [List.mem_filter, decide_eq_true_eq, and_assoc]
    rw [List.filter_cons_of_pos (by simpa using hpos), List.filter_nil, List.firstsBy_concat]
    by_cases hold : ∃ t ∈ l, t.position < maxPosition ∧ t.place = s.place
    · rw [if_pos (hmem.mpr hold), if_neg (fun h => h.2 hold)]
    · rw [if_neg (mt hmem.mp hold), if_pos ⟨hpos, hold⟩]
  · rw [List.filter_cons_of_neg (by simpa using hpos), List.filter_nil, List.append_nil,
      if_neg (fun h => hpos h.1)]

/-- One more accepted shred keeps the description. -/
theorem Accepted.Contains.accept {acc : Accepted} {l : List VerifiedShred} (h : acc.Contains l)
    (s : VerifiedShred) : (acc.accept s).Contains (l ++ [s]) where
  bits isCode i := by
    rw [Accepted.getLsbD_bits_accept, Bool.or_eq_true, h.bits, decide_eq_true_eq]
    constructor
    · rintro (⟨t, ht, hplace⟩ | ⟨hpos, hplace⟩)
      · exact ⟨t, List.mem_append_left _ ht, hplace⟩
      · exact ⟨s, List.mem_append_right _ (List.mem_singleton_self s), hpos, hplace.symm⟩
    · rintro ⟨t, ht, hpos, hplace⟩
      rcases List.mem_append.mp ht with hold | hnew
      · exact Or.inl ⟨t, hold, hpos, hplace⟩
      · rw [List.mem_singleton.mp hnew] at hpos hplace
        exact Or.inr ⟨hpos, hplace.symm⟩
  numData := by
    rw [Accepted.numData_accept, h.numData, learnedNumData, learnedNumData, List.findSome?_append]
    cases htells : s.tellsNumData <;> simp [List.findSome?, htells]
  arrivals := by
    have hbit : (acc.bits s.isCode).getLsbD s.position = false ↔
        ¬ ∃ t ∈ l, t.position < maxPosition ∧ t.place = s.place := by
      rw [← Bool.not_eq_true, h.bits]
      rfl
    rw [Accepted.arrivals_accept, placed_concat, h.arrivals]
    by_cases hnew : s.position < maxPosition ∧ (acc.bits s.isCode).getLsbD s.position = false
    · rw [if_pos hnew, if_pos ⟨hnew.1, hbit.mp hnew.2⟩, List.map_append, List.map_singleton]
    · rw [if_neg hnew, if_neg (fun h' => hnew ⟨h'.1, hbit.mpr h'.2⟩)]
  firstNs := by
    rw [List.map_append, List.map_singleton, List.min?_concat, ← h.firstNs]
    unfold Accepted.accept Accepted.place
    cases s.isCode <;> rfl
  lastNs := by
    rw [List.map_append, List.map_singleton, List.max?_concat, ← h.lastNs]
    unfold Accepted.accept Accepted.place
    cases s.isCode <;> rfl
  lastInSlot := by
    rw [List.any_append, ← h.lastInSlot]
    unfold Accepted.accept Accepted.place
    cases hkind : s.isCode <;> simp [hkind]

/-- The accepted part that some shreds make contains them. -/
theorem Accepted.contains_ofShreds (l : List VerifiedShred) :
    (Accepted.ofShreds l).Contains l := by
  induction l using List.reverseRecOn with
  | nil =>
    refine ⟨?_, rfl, rfl, rfl, rfl, rfl⟩
    intro isCode i
    cases isCode <;> simp [Accepted.ofShreds, Accepted.bits, Accepted.new]
  | append_singleton l s ih =>
    rw [Accepted.ofShreds_concat]
    exact ih.accept s

/-- The bits of one kind are as many as the places of that kind. -/
theorem Accepted.Contains.countOnes_bits {acc : Accepted} {l : List VerifiedShred}
    (h : acc.Contains l) (isCode : Bool) :
    countOnes (acc.bits isCode) = (placed l).countP fun s => s.isCode == isCode := by
  have hplaces : (((placed l).filter fun s => s.isCode == isCode).map
      VerifiedShred.position).Perm
        ((List.range maxPosition).filter (acc.bits isCode).getLsbD) := by
    refine (List.perm_ext_iff_of_nodup ?_ (List.nodup_range.filter _)).mpr ?_
    · have hnodup := (List.nodup_map_firstsBy VerifiedShred.place
        (l.filter fun s => s.position < maxPosition)).of_map
      refine List.Nodup.map_on ?_ (hnodup.filter _)
      intro s hs t ht heq
      obtain ⟨hs, hkind⟩ := List.mem_filter.mp hs
      obtain ⟨ht, hkind'⟩ := List.mem_filter.mp ht
      rw [beq_iff_eq] at hkind hkind'
      refine List.inj_on_of_nodup_map (List.nodup_map_firstsBy VerifiedShred.place _) hs ht ?_
      exact Prod.ext (hkind.trans hkind'.symm) heq
    · intro i
      rw [List.mem_map, List.mem_filter, List.mem_range, h.bits]
      have hfirsts := List.exists_mem_firstsBy_iff VerifiedShred.place
        (l := l.filter fun s => s.position < maxPosition) (k := (isCode, i))
      constructor
      · intro ⟨s, hs, hpos⟩
        obtain ⟨hs, hkind⟩ := List.mem_filter.mp hs
        have hplace : s.place = (isCode, i) := Prod.ext (beq_iff_eq.mp hkind) hpos
        obtain ⟨hmem, hlt⟩ := List.mem_filter.mp ((List.firstsBy_sublist _ _).subset hs)
        rw [decide_eq_true_eq] at hlt
        exact ⟨hpos ▸ hlt, s, hmem, hlt, hplace⟩
      · intro ⟨_, s, hs, hlt, hplace⟩
        obtain ⟨t, ht, htplace⟩ :=
          hfirsts.mpr ⟨s, List.mem_filter.mpr ⟨hs, decide_eq_true hlt⟩, hplace⟩
        refine ⟨t, List.mem_filter.mpr ⟨ht, ?_⟩, congrArg Prod.snd htplace⟩
        exact beq_iff_eq.mpr (congrArg Prod.fst htplace)
  have hlength := hplaces.length_eq
  rw [List.length_map] at hlength
  rw [countOnes, List.countP_eq_length_filter, List.countP_eq_length_filter, hlength]

/-- The arrivals are as many as the bits set. -/
theorem Accepted.Contains.countOnes_add_countOnes {acc : Accepted} {l : List VerifiedShred}
    (h : acc.Contains l) : countOnes acc.dataPos + countOnes acc.codePos = (placed l).length := by
  have hdata := h.countOnes_bits false
  have hcode := h.countOnes_bits true
  have hsplit := List.length_eq_countP_add_countP (fun s : VerifiedShred => s.isCode == false)
    (l := placed l)
  have hother : ((placed l).countP fun s : VerifiedShred => !(s.isCode == false)) =
      (placed l).countP fun s => s.isCode == true := by
    apply List.countP_congr
    intro s _
    cases s.isCode <;> simp
  have hdataBits : countOnes acc.dataPos = (placed l).countP fun s => s.isCode == false := hdata
  have hcodeBits : countOnes acc.codePos = (placed l).countP fun s => s.isCode == true := hcode
  rw [hdataBits, hcodeBits, hsplit, ← hother]
  simp

/-! ### What all shreds make -/

/-- A set in terms of the shreds that went into it. -/
structure SetState.Contains (st : SetState) (l : List VerifiedShred) : Prop where
  /-- The accepted part is that of the accepted shreds. -/
  accepted : st.toAccepted = Accepted.ofShreds (acceptedOf l)
  /-- The shreds kept for comparison are those that failed. -/
  invalidShreds : st.invalidShreds =
    (failedOf l).map fun s => (s.isCode, s.shredIndex, s.dataHash)
  /-- The counter of unverifiable shreds has 32 bits. -/
  unverifiable : st.unverifiable = (unverifiableOf l).length % u32Size
  /-- The counter of repeated payloads has 32 bits. -/
  duplicated : st.duplicated = (l.length - (freshOf l).length) % u32Size

/-- The accepted part contains the accepted shreds. -/
theorem SetState.Contains.toAccepted_contains {st : SetState} {l : List VerifiedShred}
    (h : st.Contains l) : st.toAccepted.Contains (acceptedOf l) := by
  rw [h.accepted]
  exact Accepted.contains_ofShreds _

/-- A new set contains nothing. -/
lemma SetState.contains_new (leader : Option Pubkey) (ns : ℤ) :
    (SetState.new leader ns).Contains [] where
  accepted := rfl
  invalidShreds := rfl
  unverifiable := rfl
  duplicated := rfl

/-- A shred with a payload that has come before is a duplicate, and nothing else changes. -/
lemma SetState.Contains.absorb_duplicate {st : SetState} {l : List VerifiedShred}
    (h : st.Contains l) {s : VerifiedShred} (hseen : s.payloadHash ∈ st.seen)
    (hold : ∃ t ∈ l, t.payloadHash = s.payloadHash) : (st.absorb s).Contains (l ++ [s]) := by
  have hfresh : freshOf (l ++ [s]) = freshOf l := by
    rw [freshOf, List.firstsBy_concat, if_pos hold, freshOf]
  have hfate : st.fate s = .duplicate := if_pos hseen
  have hle : (freshOf l).length ≤ l.length := (List.firstsBy_sublist _ l).length_le
  unfold absorb
  rw [hfate]
  refine ⟨?_, ?_, ?_, ?_⟩
  · rw [acceptedOf, hfresh]
    exact h.accepted
  · rw [failedOf, hfresh]
    exact h.invalidShreds
  · rw [unverifiableOf, hfresh]
    exact h.unverifiable
  · dsimp only
    rw [hfresh, h.duplicated, List.length_append, List.length_singleton, Nat.mod_add_mod,
      Nat.sub_add_comm hle]

/-- A fresh shred is counted in the class that verification put it into. -/
lemma SetState.Contains.absorb_fresh {st : SetState} {l : List VerifiedShred}
    (h : st.Contains l) {s : VerifiedShred} (hseen : s.payloadHash ∉ st.seen)
    (hnew : ¬ ∃ t ∈ l, t.payloadHash = s.payloadHash) : (st.absorb s).Contains (l ++ [s]) := by
  have hfresh : freshOf (l ++ [s]) = freshOf l ++ [s] := by
    rw [freshOf, List.firstsBy_concat, if_neg hnew, freshOf]
  have hduplicated : st.duplicated =
      ((l ++ [s]).length - (freshOf (l ++ [s])).length) % u32Size := by
    rw [h.duplicated, hfresh, List.length_append, List.length_append, Nat.add_sub_add_right]
  have hkeep : ∀ p : VerifiedShred → Bool, p s = false →
      (freshOf (l ++ [s])).filter p = (freshOf l).filter p := by
    intro p hp
    rw [hfresh, List.filter_append, List.filter_cons_of_neg (by simp [hp]), List.filter_nil,
      List.append_nil]
  have hadd : ∀ p : VerifiedShred → Bool, p s = true →
      (freshOf (l ++ [s])).filter p = (freshOf l).filter p ++ [s] := by
    intro p hp
    rw [hfresh, List.filter_append, List.filter_cons_of_pos hp, List.filter_nil]
  have hfate : st.fate s = if s.isAuthentic then .accepted
      else if s.failed then .invalid else .unverifiable := by
    rw [fate, if_neg hseen, VerifiedShred.isAuthentic, VerifiedShred.failed]
    cases s.merkleOk <;> rcases s.sigOk with _ | _ | _ <;> rfl
  have hclass : s.unverifiable = (!s.isAuthentic && !s.failed) := by
    unfold VerifiedShred.unverifiable VerifiedShred.isAuthentic VerifiedShred.failed
    cases s.merkleOk <;> rcases s.sigOk with _ | _ | _ <;> rfl
  have hdisjoint : s.isAuthentic = true → s.failed = false := by
    unfold VerifiedShred.isAuthentic VerifiedShred.failed
    cases s.merkleOk <;> rcases s.sigOk with _ | _ | _ <;> simp
  unfold absorb
  -- a shred is counted in one of three ways, and the other two keep what they count
  by_cases hauth : s.isAuthentic = true
  · have hfailed : s.failed = false := hdisjoint hauth
    rw [hauth, hfailed] at hclass
    rw [hfate, if_pos hauth]
    refine ⟨?_, ?_, ?_, hduplicated⟩
    · rw [acceptedOf, hadd _ hauth, Accepted.ofShreds_concat, ← acceptedOf, ← h.accepted]
    · rw [failedOf, hkeep _ hfailed]
      exact h.invalidShreds
    · rw [unverifiableOf, hkeep _ hclass]
      exact h.unverifiable
  · rw [Bool.not_eq_true] at hauth
    rw [hauth] at hclass
    by_cases hfailed : s.failed = true
    · rw [hfailed] at hclass
      rw [hfate, hauth, hfailed, if_neg Bool.false_ne_true, if_pos rfl]
      refine ⟨?_, ?_, ?_, hduplicated⟩
      · rw [acceptedOf, hkeep _ hauth]
        exact h.accepted
      · dsimp only
        rw [failedOf, hadd _ hfailed, List.map_append, List.map_singleton, h.invalidShreds]
        rfl
      · rw [unverifiableOf, hkeep _ hclass]
        exact h.unverifiable
    · rw [Bool.not_eq_true] at hfailed
      rw [hfailed] at hclass
      rw [hfate, hauth, hfailed, if_neg Bool.false_ne_true, if_neg Bool.false_ne_true]
      refine ⟨?_, ?_, ?_, hduplicated⟩
      · rw [acceptedOf, hkeep _ hauth]
        exact h.accepted
      · rw [failedOf, hkeep _ hfailed]
        exact h.invalidShreds
      · dsimp only
        rw [unverifiableOf, hadd _ hclass, List.length_append, List.length_singleton,
          h.unverifiable, Nat.mod_add_mod]
        rfl

/-- The set that some shreds make, or a new one, contains them. -/
lemma contains_setOf (l : List VerifiedShred) (leader : Option Pubkey) (ns : ℤ) :
    ((setOf l).getD (SetState.new leader ns)).Contains l := by
  induction l using List.reverseRecOn generalizing leader ns with
  | nil => exact SetState.contains_new leader ns
  | append_singleton l s ih =>
    rw [setOf_concat, Option.getD_some]
    by_cases hold : ∃ t ∈ l, t.payloadHash = s.payloadHash
    · exact (ih _ _).absorb_duplicate (mem_seen_setOf.mpr hold) hold
    · exact (ih _ _).absorb_fresh (mt mem_seen_setOf.mp hold) hold

/-- A set that some shreds made contains them. -/
theorem SetState.contains_of_setOf {l : List VerifiedShred} {st : SetState}
    (h : setOf l = some st) : st.Contains l := by
  have hcontains := contains_setOf l none 0
  rwa [h] at hcontains

/-- No shred changes the time that the first one gave the set. -/
lemma SetState.createdNs_foldl_absorb (l : List VerifiedShred) (st : SetState) :
    (l.foldl SetState.absorb st).createdNs = st.createdNs := by
  induction l generalizing st with
  | nil => rfl
  | cons s l ih =>
    have hstep : (st.absorb s).createdNs = st.createdNs := by
      unfold absorb
      cases st.fate s <;> rfl
    rw [List.foldl_cons, ih, hstep]

/-- The first shred gave the set its time. -/
theorem createdNs_of_setOf {l : List VerifiedShred} {st : SetState} (h : setOf l = some st) :
    l.head?.map VerifiedShred.rxUnixNs = some st.createdNs := by
  cases l with
  | nil => simp at h
  | cons s later =>
    rw [setOf, Option.some.injEq] at h
    rw [← h, SetState.createdNs_foldl_absorb]
    rfl

end ShredTools.Audit
