import Mathlib.Data.Finset.Card
import Mathlib.Data.List.MinMax
import Mathlib.Logic.Function.Basic
import ShredTools.Library.KeyedTable
import ShredTools.Library.Run

/-!
# The index of delivered signatures

`SlotSigIndex` keeps, for every slot near the tip and every source, the signatures that the source
delivered for the slot.  All sources share one tip, the highest slot that any of them reported, and
slots too far behind it are dropped; that they lie within the window is part of the type.

What `take` hands out is described by `view_after`: for each source the deliveries of that source
alone, since the slot was last taken, as long as the slot is inside the window.  So sources are kept
apart except for the window, which any of them can move (`taken_eq_iff`).
-/

namespace ShredTools.Audit

/-- The bytes of a signature. -/
abbrev Signature := Vector UInt8 64

/-- `sig_key`: the first 16 bytes of a signature, as a little-endian number. -/
def sigKey (sig : Signature) : ℕ :=
  (sig.toList.take 16).foldr (fun byte key => byte.toNat + 256 * key) 0

/-- `SourceSlot`: what one source delivered for one slot. -/
@[ext] structure SourceSlot where
  /-- The keys of the signatures delivered. -/
  sigs : Finset ℕ
  /-- Deliveries of a key that was there already. -/
  duplicated : ℕ
  deriving DecidableEq

namespace SourceSlot

/-- `SourceSlot::default` -/
def default : SourceSlot := ⟨∅, 0⟩

/-- `SourceSlot::is_empty` -/
def isEmpty (s : SourceSlot) : Bool := decide (s.sigs = ∅) && s.duplicated == 0

/-- The end of `record`: one more delivery. -/
def deliver (s : SourceSlot) (key : ℕ) : SourceSlot :=
  if key ∈ s.sigs then { s with duplicated := s.duplicated + 1 }
  else { s with sigs := insert key s.sigs }

/-- What some deliveries amount to: the set of keys, and how many deliveries were repeats. -/
def ofKeys (keys : List ℕ) : SourceSlot := ⟨keys.toFinset, keys.length - keys.toFinset.card⟩

@[simp] lemma ofKeys_nil : ofKeys [] = default := rfl

/-- One more delivery. -/
theorem deliver_ofKeys (keys : List ℕ) (key : ℕ) :
    (ofKeys keys).deliver key = ofKeys (keys ++ [key]) := by
  have hcard : keys.toFinset.card ≤ keys.length := List.toFinset_card_le keys
  have hinsert : (keys ++ [key]).toFinset = insert key keys.toFinset := by
    ext k
    simp
  unfold deliver ofKeys
  rw [hinsert, List.length_append, List.length_singleton]
  dsimp only
  by_cases hmem : key ∈ keys.toFinset
  · rw [if_pos hmem, Finset.insert_eq_of_mem hmem, Nat.sub_add_comm hcard]
  · rw [if_neg hmem, Finset.card_insert_of_notMem hmem, Nat.add_sub_add_right]

/-- No delivery is nothing delivered. -/
theorem ofKeys_eq_default_iff {keys : List ℕ} : ofKeys keys = default ↔ keys = [] := by
  constructor
  · intro h
    have hempty : keys.toFinset = ∅ := congrArg SourceSlot.sigs h
    exact (List.toFinset_eq_empty_iff keys).mp hempty
  · intro h
    rw [h, ofKeys_nil]

/-- Deliveries are empty when there are none. -/
theorem isEmpty_ofKeys {keys : List ℕ} : (ofKeys keys).isEmpty = true ↔ keys = [] := by
  rw [← ofKeys_eq_default_iff, SourceSlot.ext_iff]
  simp [isEmpty, default]

end SourceSlot

/-- `SlotSigIndex`, of `n` sources. -/
structure SlotSigIndex (n : ℕ) where
  /-- What every source delivered, by slot. -/
  slots : AList fun _ : ℕ => (Fin n → SourceSlot)
  /-- The highest slot reported. -/
  tip : ℕ
  /-- How far behind the tip slots are kept. -/
  retainSlots : ℕ
  /-- Only slots within `retainSlots` of the tip are held. -/
  retained : ∀ slot ∈ slots, tip - retainSlots ≤ slot

namespace SlotSigIndex

variable {n : ℕ}

/-- `SlotSigIndex::new` -/
def new (n retainSlots : ℕ) : SlotSigIndex n where
  slots := ∅
  tip := 0
  retainSlots := retainSlots
  retained slot hslot := absurd hslot (AList.notMem_empty slot)

/-- The slot below which nothing is held. -/
def floor (index : SlotSigIndex n) : ℕ := index.tip - index.retainSlots

/-- The part of `record` that moves the tip: drop the slots that leave the window. -/
def advance (index : SlotSigIndex n) (slot : ℕ) : SlotSigIndex n where
  slots := index.slots.retain fun s _ => slot - index.retainSlots ≤ s
  tip := slot
  retainSlots := index.retainSlots
  retained s hs := by
    obtain ⟨sources, hsources⟩ := AList.mem_keys_iff_lookup.mp (AList.mem_keys.mp hs)
    rw [AList.lookup_retain, Option.filter_eq_some_iff] at hsources
    exact of_decide_eq_true hsources.2

/-- The part of `record` that stores a delivery for a slot inside the window. -/
def store (index : SlotSigIndex n) (sid : Fin n) (slot : ℕ) (sig : Signature)
    (hslot : index.floor ≤ slot) : SlotSigIndex n where
  slots := index.slots.upsert slot (fun _ => SourceSlot.default) fun sources =>
    Function.update sources sid ((sources sid).deliver (sigKey sig))
  tip := index.tip
  retainSlots := index.retainSlots
  retained s hs := by
    rcases AList.mem_upsert.mp hs with rfl | hs
    · exact hslot
    · exact index.retained s hs

/-- `SlotSigIndex::record` -/
def record (index : SlotSigIndex n) (sid : Fin n) (slot : ℕ) (sig : Signature) : SlotSigIndex n :=
  if slot = 0 then index
  else
    let index := if slot > index.tip then index.advance slot else index
    if hslot : index.floor ≤ slot then index.store sid slot sig hslot else index

/-- `SlotSigIndex::take` -/
def take (index : SlotSigIndex n) (slot : ℕ) : SlotSigIndex n × Option (Fin n → SourceSlot) :=
  ({ slots := index.slots.erase slot
     tip := index.tip
     retainSlots := index.retainSlots
     retained := fun s hs => index.retained s (AList.mem_erase.mp hs).2 },
   index.slots.lookup slot)

/-- What a source delivered, of what `take` hands out; nothing where it hands out nothing. -/
def ofSource (taken : Option (Fin n → SourceSlot)) (sid : Fin n) : SourceSlot :=
  taken.elim SourceSlot.default fun sources => sources sid

/-- What the index holds for a slot and a source. -/
def view (index : SlotSigIndex n) (slot : ℕ) (sid : Fin n) : SourceSlot :=
  ofSource (index.take slot).2 sid

/-! ### One call -/

/-- Nothing is held below the window. -/
lemma view_of_lt_floor {index : SlotSigIndex n} {slot : ℕ} (h : slot < index.floor)
    (sid : Fin n) : index.view slot sid = SourceSlot.default := by
  have hnot : slot ∉ index.slots := fun hmem => absurd (index.retained slot hmem) (not_le.mpr h)
  unfold view ofSource take
  rw [AList.lookup_eq_none.mpr hnot, Option.elim_none]

/-- Moving the tip leaves what lies inside the window. -/
lemma view_advance (index : SlotSigIndex n) (tip slot : ℕ) (sid : Fin n)
    (h : tip - index.retainSlots ≤ slot) :
    (index.advance tip).view slot sid = index.view slot sid := by
  unfold view take advance
  dsimp only
  rw [AList.lookup_retain]
  cases index.slots.lookup slot with
  | none => rfl
  | some sources => rw [Option.filter_some, if_pos (decide_eq_true h)]

/-- A delivery is stored for its slot and its source only. -/
lemma view_store (index : SlotSigIndex n) (sid : Fin n) (slot : ℕ) (sig : Signature)
    (h : index.floor ≤ slot) (slot' : ℕ) (sid' : Fin n) :
    (index.store sid slot sig h).view slot' sid' =
      if slot' = slot ∧ sid' = sid then (index.view slot' sid').deliver (sigKey sig)
      else index.view slot' sid' := by
  unfold view take store
  dsimp only
  rw [AList.lookup_upsert]
  by_cases hslot : slot' = slot
  · subst hslot
    rw [if_pos rfl]
    by_cases hsid : sid' = sid
    · subst hsid
      rw [if_pos ⟨rfl, rfl⟩]
      cases index.slots.lookup slot' <;> simp [ofSource]
    · rw [if_neg (fun hboth => hsid hboth.2)]
      cases index.slots.lookup slot' <;> simp [ofSource, hsid]
  · rw [if_neg hslot, if_neg (fun hboth => hslot hboth.1)]

/-- A delivery raises the tip to its slot. -/
@[simp] theorem record_tip (index : SlotSigIndex n) (sid : Fin n) (slot : ℕ) (sig : Signature) :
    (index.record sid slot sig).tip = max index.tip slot := by
  unfold record
  by_cases hzero : slot = 0
  · rw [if_pos hzero, hzero, Nat.max_zero]
  · rw [if_neg hzero]
    by_cases htip : slot > index.tip
    · rw [if_pos htip, max_eq_right htip.le]
      dsimp only
      split_ifs <;> rfl
    · rw [if_neg htip, max_eq_left (not_lt.mp htip)]
      dsimp only
      split_ifs <;> rfl

/-- A delivery does not change the width of the window. -/
@[simp] theorem record_retainSlots (index : SlotSigIndex n) (sid : Fin n) (slot : ℕ)
    (sig : Signature) : (index.record sid slot sig).retainSlots = index.retainSlots := by
  unfold record
  dsimp only
  split_ifs <;> rfl

/-- Inside the window, a delivery counts for its slot and its source only. -/
theorem view_record (index : SlotSigIndex n) (sid : Fin n) (slot : ℕ) (sig : Signature)
    (slot' : ℕ) (sid' : Fin n) (h : (index.record sid slot sig).floor ≤ slot') :
    (index.record sid slot sig).view slot' sid' =
      if slot ≠ 0 ∧ slot' = slot ∧ sid' = sid then (index.view slot' sid').deliver (sigKey sig)
      else index.view slot' sid' := by
  have hfloor : (index.record sid slot sig).floor = max index.tip slot - index.retainSlots := by
    rw [floor, record_tip, record_retainSlots]
  rw [hfloor] at h
  unfold record
  by_cases hzero : slot = 0
  · rw [if_pos hzero, if_neg (fun hall => hall.1 hzero)]
  · rw [if_neg hzero]
    have hcond : (slot ≠ 0 ∧ slot' = slot ∧ sid' = sid) ↔ (slot' = slot ∧ sid' = sid) :=
      ⟨fun hall => hall.2, fun hall => ⟨hzero, hall⟩⟩
    rw [if_congr hcond rfl rfl]
    by_cases htip : slot > index.tip
    · have hinside : (index.advance slot).floor ≤ slot := Nat.sub_le _ _
      rw [max_eq_right htip.le] at h
      simp only [if_pos htip, dif_pos hinside]
      rw [view_store, view_advance index slot slot' sid' h]
    · simp only [if_neg htip]
      by_cases hinside : index.floor ≤ slot
      · rw [dif_pos hinside, view_store]
      · -- the delivery is too late to be stored, and so is its slot to be looked at
        rw [dif_neg hinside, if_neg]
        intro hall
        rw [max_eq_left (not_lt.mp htip), hall.1] at h
        exact hinside h

/-- Taking a slot leaves the other slots. -/
theorem view_take (index : SlotSigIndex n) (slot slot' : ℕ) (sid : Fin n) :
    (index.take slot).1.view slot' sid =
      if slot' = slot then SourceSlot.default else index.view slot' sid := by
  unfold view take
  dsimp only
  by_cases hslot : slot' = slot
  · rw [if_pos hslot, hslot, AList.lookup_erase]
    rfl
  · rw [if_neg hslot, AList.lookup_erase_ne hslot]

/-! ### Whole runs -/

/-- A call of a run. -/
inductive Op (n : ℕ) where
  | record (sid : Fin n) (slot : ℕ) (sig : Signature)
  | take (slot : ℕ)
  deriving DecidableEq

/-- The index after one call. -/
def apply (index : SlotSigIndex n) : Op n → SlotSigIndex n
  | .record sid slot sig => index.record sid slot sig
  | .take slot => (index.take slot).1

/-- The index after some calls. -/
def after (retainSlots : ℕ) (ops : List (Op n)) : SlotSigIndex n :=
  ops.foldl apply (new n retainSlots)

/-- The highest slot that some calls report. -/
def highestReported (ops : List (Op n)) : ℕ :=
  ops.foldl (fun slot op => match op with
    | .record _ slot' _ => max slot slot'
    | .take _ => slot) 0

/-- The deliveries for a slot by a source, given those before. -/
def recordedStep (slot : ℕ) (sid : Fin n) (keys : List ℕ) : Op n → List ℕ
  | .record sid' slot' sig =>
    if slot' ≠ 0 ∧ slot = slot' ∧ sid = sid' then keys ++ [sigKey sig] else keys
  | .take slot' => if slot = slot' then [] else keys

/-- The keys that a source delivered for a slot since the slot was last taken. -/
def recorded (slot : ℕ) (sid : Fin n) (ops : List (Op n)) : List ℕ :=
  ops.foldl (recordedStep slot sid) []

/-- One more call. -/
theorem after_concat (retainSlots : ℕ) (ops : List (Op n)) (op : Op n) :
    after retainSlots (ops ++ [op]) = (after retainSlots ops).apply op := by
  rw [after, List.foldl_append]
  rfl

/-- The window after some calls: it depends on the slots reported only. -/
lemma floor_after (retainSlots : ℕ) (ops : List (Op n)) :
    (after retainSlots ops).floor = highestReported ops - retainSlots := by
  have htip : (after retainSlots ops).tip = highestReported ops ∧
      (after retainSlots ops).retainSlots = retainSlots := by
    induction ops using List.reverseRecOn with
    | nil => exact ⟨rfl, rfl⟩
    | append_singleton ops op ih =>
      rw [after_concat, highestReported, List.foldl_append]
      cases op with
      | record sid slot sig =>
        rw [apply, record_tip, record_retainSlots, ih.1, ih.2]
        exact ⟨rfl, rfl⟩
      | take slot => exact ih
  rw [floor, htip.1, htip.2]

/-- No call lowers the window. -/
theorem floor_le_apply (index : SlotSigIndex n) (op : Op n) :
    index.floor ≤ (index.apply op).floor := by
  cases op with
  | record sid slot sig =>
    unfold floor apply
    rw [record_tip, record_retainSlots]
    exact Nat.sub_le_sub_right (le_max_left _ _) _
  | take slot => exact le_rfl

/-- **What the index holds.**  Inside the window, for each slot and source the deliveries of that
source since the slot was last taken; below it, nothing. -/
theorem view_after (retainSlots : ℕ) (ops : List (Op n)) (slot : ℕ) (sid : Fin n) :
    (after retainSlots ops).view slot sid =
      if highestReported ops - retainSlots ≤ slot then SourceSlot.ofKeys (recorded slot sid ops)
      else SourceSlot.default := by
  rw [← floor_after]
  by_cases hinside : (after retainSlots ops).floor ≤ slot
  · rw [if_pos hinside]
    induction ops using List.reverseRecOn with
    | nil => rfl
    | append_singleton ops op ih =>
      rw [after_concat] at hinside ⊢
      have hview := ih ((floor_le_apply _ op).trans hinside)
      rw [recorded, List.foldl_append, List.foldl_cons, List.foldl_nil, ← recorded]
      cases op with
      | record sid' slot' sig =>
        rw [apply, view_record _ _ _ _ _ _ hinside, hview, recordedStep, SourceSlot.deliver_ofKeys]
        split_ifs <;> rfl
      | take slot' =>
        rw [apply, view_take, hview, recordedStep]
        split_ifs <;> rfl
  · rw [if_neg hinside]
    exact view_of_lt_floor (not_le.mp hinside) sid

/-! ### Sources kept apart -/

/-- Whether a call is a delivery of the source, or a `take`. -/
def Op.concerns (sid : Fin n) : Op n → Bool
  | .record sid' _ _ => sid' == sid
  | .take _ => true

/-- What a source has delivered depends on its own deliveries and on what was taken. -/
lemma recorded_filter (slot : ℕ) (sid : Fin n) (ops : List (Op n)) :
    recorded slot sid (ops.filter (Op.concerns sid)) = recorded slot sid ops := by
  induction ops using List.reverseRecOn with
  | nil => rfl
  | append_singleton ops op ih =>
    unfold recorded at ih ⊢
    rw [List.filter_append, List.foldl_append, List.foldl_append, ih]
    cases op with
    | take slot' => rfl
    | record sid' slot' sig =>
      by_cases hsid : sid' = sid
      · have hkept : (Op.record sid' slot' sig).concerns sid = true := beq_iff_eq.mpr hsid
        rw [List.filter_cons_of_pos hkept, List.filter_nil]
      · have hdropped : ¬ (Op.record sid' slot' sig).concerns sid = true := mt beq_iff_eq.mp hsid
        rw [List.filter_cons_of_neg hdropped, List.filter_nil, List.foldl_nil, List.foldl_cons,
          List.foldl_nil, recordedStep, if_neg (fun hall => hsid hall.2.2.symm)]

/-- **Sources are kept apart but for the window.**  Two runs with the same deliveries of a source
and the same `take` calls, whatever the other sources report: after each, `take(slot)` yields the
same for the source exactly when it has delivered nothing for the slot since it was last taken, or
the slot has left the window in both runs or in neither. -/
theorem taken_eq_iff (retainSlots : ℕ) (sid : Fin n) (ops ops' : List (Op n)) (slot : ℕ)
    (hsame : ops.filter (Op.concerns sid) = ops'.filter (Op.concerns sid)) :
    ofSource ((after retainSlots ops).take slot).2 sid =
        ofSource ((after retainSlots ops').take slot).2 sid ↔
      recorded slot sid ops = [] ∨
        (slot < highestReported ops - retainSlots ↔ slot < highestReported ops' - retainSlots) := by
  have hrecorded : recorded slot sid ops' = recorded slot sid ops := by
    rw [← recorded_filter, ← hsame, recorded_filter]
  have hview := view_after retainSlots ops slot sid
  have hview' := view_after retainSlots ops' slot sid
  rw [hrecorded] at hview'
  unfold view at hview hview'
  rw [hview, hview', ← not_le, ← not_le, not_iff_not]
  by_cases hin : highestReported ops - retainSlots ≤ slot
  · by_cases hin' : highestReported ops' - retainSlots ≤ slot
    · simp [hin, hin']
    · simp [hin, hin', SourceSlot.ofKeys_eq_default_iff]
  · by_cases hin' : highestReported ops' - retainSlots ≤ slot
    · rw [if_neg hin, if_pos hin', eq_comm, SourceSlot.ofKeys_eq_default_iff]
      simp [hin, hin']
    · simp [hin, hin']

/-- With another source 20 slots ahead, the window still holds slot 100. -/
theorem taken_eq_of_near :
    let sig : Signature := Vector.replicate 64 1
    let ops : List (Op 2) := [.record 0 100 sig]
    let ops' : List (Op 2) := [.record 0 100 sig, .record 1 120 sig]
    ofSource ((after 48 ops).take 100).2 0 = ofSource ((after 48 ops').take 100).2 0 :=
  (taken_eq_iff 48 0 _ _ 100 (by decide)).mpr (Or.inr (by decide))

/-- A source that reports slot 1000 makes the deliveries of another for slot 100 be discarded. -/
theorem taken_ne_of_far :
    let sig : Signature := Vector.replicate 64 1
    let ops : List (Op 2) := [.record 0 100 sig]
    let ops' : List (Op 2) := [.record 0 100 sig, .record 1 1000 sig]
    ops.filter (Op.concerns 0) = ops'.filter (Op.concerns 0) ∧
      ofSource ((after 48 ops).take 100).2 0 ≠ ofSource ((after 48 ops').take 100).2 0 := by
  decide

end SlotSigIndex

end ShredTools.Audit
