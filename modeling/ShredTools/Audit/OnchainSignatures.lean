import Mathlib.Data.List.Forall2
import Mathlib.Data.List.ReduceOption
import ShredTools.Audit.SlotSigIndex
import ShredTools.Audit.VerifiedShred
import ShredTools.Library.Checks

/-!
# The on-chain audit

Every few seconds the audit takes the slot `lag_slots` behind the tip out of the index, asks the
node for its block and compares the block with what each source delivered.

The index keeps 16 slots more than the lag, so a slot is taken while nothing of it can have been
dropped (`Tracks.held`), and the slots taken ascend, so none is taken twice.  Hence the score of a
source is exact for every slot sampled, and over a whole run the two ways to count the deliveries
that are on chain agree.

The sum of the lag and the margin wraps around at `u64`, as it does in a release build.  A lag that
close to the end leaves a window shorter than itself, so the index may have nothing left of a slot
that is due, and then nothing is compared.  What it does hand out is complete in any case, because
the index holds no slot outside its window (`Tracks.taken_eq`).
-/

namespace ShredTools.Audit

/-- `RETAIN_MARGIN_SLOTS` -/
def retainMarginSlots : ℕ := 16

/-- `SourceAudit`: the score of a source. -/
structure SourceAudit where
  /-- Sampled slots that the source delivered something for. -/
  slotsChecked : ℕ
  /-- Sampled slots that it delivered nothing for; these are not scored. -/
  slotsAbsent : ℕ
  /-- Transactions of the blocks compared. -/
  onchainTxns : ℕ
  /-- In the block, not delivered. -/
  missed : ℕ
  /-- Delivered, not in the block. -/
  corrupted : ℕ
  /-- Delivered more than once. -/
  duplicated : ℕ
  deriving DecidableEq

/-- `SourceAudit::default` -/
def SourceAudit.default : SourceAudit := ⟨0, 0, 0, 0, 0, 0⟩

/-- `OnchainAudit`, of `n` sources. -/
structure OnchainAudit (n : ℕ) where
  /-- The score of each source. -/
  sources : Fin n → SourceAudit
  /-- Slots compared. -/
  slotsChecked : ℕ
  /-- Slots without a block. -/
  slotsUnavailable : ℕ
  /-- Requests that failed. -/
  rpcErrors : ℕ
  /-- What the last failed request said. -/
  lastError : Option String

/-- `OnchainAudit::new` -/
def OnchainAudit.new (n : ℕ) : OnchainAudit n where
  sources _ := SourceAudit.default
  slotsChecked := 0
  slotsUnavailable := 0
  rpcErrors := 0
  lastError := none

/-! ### The block -/

/-- What the node answers to `getBlock`. -/
inductive Reply where
  /-- A block, by its signatures in base 58. -/
  | block (signatures : List String)
  /-- An error of the node, by its code and message. -/
  | rpcError (code : ℤ) (message : String)
  /-- Any other failure. -/
  | failed (text : String)

namespace Reply

/-- `RPC_BLOCK_CLEANED_UP` -/
def rpcBlockCleanedUp : ℤ := -32001

/-- `RPC_BLOCK_NOT_AVAILABLE` -/
def rpcBlockNotAvailable : ℤ := -32004

/-- `RPC_SLOT_SKIPPED` -/
def rpcSlotSkipped : ℤ := -32007

/-- `RPC_LONG_TERM_STORAGE_SLOT_SKIPPED` -/
def rpcLongTermStorageSlotSkipped : ℤ := -32009

end Reply

/-- `is_no_block`: the codes of a slot without a block. -/
def isNoBlock (code : ℤ) : Bool :=
  code == Reply.rpcSlotSkipped || code == Reply.rpcLongTermStorageSlotSkipped ||
    code == Reply.rpcBlockNotAvailable || code == Reply.rpcBlockCleanedUp

/-- The key of a signature of a block, given what base 58 decoding does. -/
def blockSigKey (decode : String → Except String (List UInt8)) (slot : ℕ) (text : String) :
    Except String ℕ :=
  match decode text with
  | .error e => .error ("undecodable signature in block " ++ toString slot ++ ": " ++ e)
  | .ok raw =>
    if h : raw.toArray.size = 64 then .ok (sigKey ⟨raw.toArray, h⟩)
    else .error ("signature of " ++ toString raw.length ++ " bytes in block " ++ toString slot)

/-- `block_signatures`: the keys of the block, if there is one.  One bad signature fails the whole
sample. -/
def blockSignatures (decode : String → Except String (List UInt8)) (slot : ℕ) :
    Reply → Except String (Option (Finset ℕ))
  | .block signatures => (signatures.mapM (blockSigKey decode slot)).map fun keys => keys.toFinset
  | .rpcError code message =>
    if isNoBlock code then .ok none
    else .error ("rpc error " ++ toString code ++ ": " ++ message)
  | .failed text => .error text

/-- The keys of the block that the node answers with: each of its signatures decodes to 64 bytes. -/
def BlockKeys (decode : String → Except String (List UInt8)) (reply : Reply)
    (onchain : Finset ℕ) : Prop :=
  ∃ signatures keys, reply = .block signatures ∧
    List.Forall₂
      (fun text key => ∃ sig : Signature, decode text = .ok sig.toList ∧ sigKey sig = key)
      signatures keys ∧
    keys.toFinset = onchain

/-- A signature of a block has a key if it decodes to 64 bytes. -/
lemma blockSigKey_eq_ok_iff {decode : String → Except String (List UInt8)} {slot : ℕ}
    {text : String} {key : ℕ} :
    blockSigKey decode slot text = .ok key ↔
      ∃ sig : Signature, decode text = .ok sig.toList ∧ sigKey sig = key := by
  unfold blockSigKey
  cases hdecode : decode text with
  | error e =>
    constructor
    · intro h
      cases h
    · rintro ⟨sig, hsig, -⟩
      cases hsig
  | ok raw =>
    dsimp only
    constructor
    · intro h
      split at h
      next hsize =>
        exact ⟨⟨raw.toArray, hsize⟩, congrArg Except.ok (List.toList_toArray ..).symm,
          Except.ok.inj h⟩
      next => cases h
    · rintro ⟨sig, hsig, rfl⟩
      obtain rfl : raw = sig.toList := Except.ok.inj hsig
      have hsize : sig.toList.toArray.size = 64 := by simp
      rw [dif_pos hsize]
      rfl

/-- `block_signatures` finds a block exactly when the node answers with one that decodes. -/
lemma blockSignatures_eq_ok_some_iff {decode : String → Except String (List UInt8)} {slot : ℕ}
    {reply : Reply} {onchain : Finset ℕ} :
    blockSignatures decode slot reply = .ok (some onchain) ↔ BlockKeys decode reply onchain := by
  unfold blockSignatures BlockKeys
  cases reply with
  | block signatures =>
    dsimp only
    constructor
    · intro h
      cases hkeys : signatures.mapM (blockSigKey decode slot) with
      | error e =>
        rw [hkeys] at h
        cases h
      | ok keys =>
        rw [hkeys] at h
        cases h
        refine ⟨signatures, keys, rfl, ?_, rfl⟩
        exact (Except.mapM_eq_ok_iff.mp hkeys).imp fun _ _ => blockSigKey_eq_ok_iff.mp
    · rintro ⟨signatures', keys, hreply, hkeys, rfl⟩
      cases hreply
      rw [Except.mapM_eq_ok_iff.mpr (hkeys.imp fun _ _ => blockSigKey_eq_ok_iff.mpr)]
      rfl
  | rpcError code message =>
    dsimp only
    constructor
    · intro h
      split at h <;> cases h
    · rintro ⟨signatures, keys, hreply, -⟩
      cases hreply
  | failed text =>
    constructor
    · intro h
      cases h
    · rintro ⟨signatures, keys, hreply, -⟩
      cases hreply

/-! ### The comparison -/

/-- What `compare_slot` does for a source that is not skipped. -/
def SourceAudit.compare (a : SourceAudit) (onchain : Finset ℕ) (s : SourceSlot) : SourceAudit :=
  if s.isEmpty then { a with slotsAbsent := a.slotsAbsent + 1 }
  else
    let hit := (s.sigs.filter fun key => key ∈ onchain).card
    { a with
      slotsChecked := a.slotsChecked + 1
      onchainTxns := a.onchainTxns + onchain.card
      missed := a.missed + (onchain.card - hit)
      corrupted := a.corrupted + (s.sigs.card - hit)
      duplicated := a.duplicated + s.duplicated }

/-- `compare_slot` -/
def compareSlot {n : ℕ} (onchain : Finset ℕ) (sources : Fin n → SourceSlot) (skip : Fin n → Bool)
    (audit : OnchainAudit n) : OnchainAudit n :=
  { audit with
    slotsChecked := audit.slotsChecked + 1
    sources := fun sid =>
      if skip sid then audit.sources sid else (audit.sources sid).compare onchain (sources sid) }

/-- The deliveries on chain are no more than the block, nor than the deliveries. -/
lemma card_hit_le (sigs onchain : Finset ℕ) :
    (sigs.filter fun key => key ∈ onchain).card ≤ onchain.card ∧
      (sigs.filter fun key => key ∈ onchain).card ≤ sigs.card := by
  refine ⟨Finset.card_le_card ?_, Finset.card_filter_le _ _⟩
  intro key hkey
  exact (Finset.mem_filter.mp hkey).2

/-- What is in the block and was not delivered. -/
lemma card_sub_hit (sigs onchain : Finset ℕ) :
    onchain.card - (sigs.filter fun key => key ∈ onchain).card = (onchain \ sigs).card := by
  rw [Finset.filter_mem_eq_inter, Finset.card_sdiff]

/-- What was delivered and is not in the block. -/
lemma card_sub_hit' (sigs onchain : Finset ℕ) :
    sigs.card - (sigs.filter fun key => key ∈ onchain).card = (sigs \ onchain).card := by
  rw [Finset.filter_mem_eq_inter, Finset.inter_comm, Finset.card_sdiff]

/-- **The three counts of a comparison.**  For deliveries that are not empty, the score grows by
what is only in the block, by what is only in the deliveries, and by the repeats. -/
theorem SourceAudit.compare_ofKeys (a : SourceAudit) (onchain : Finset ℕ) (keys : List ℕ) :
    a.compare onchain (SourceSlot.ofKeys keys) =
      if keys = [] then { a with slotsAbsent := a.slotsAbsent + 1 }
      else { a with
        slotsChecked := a.slotsChecked + 1
        onchainTxns := a.onchainTxns + onchain.card
        missed := a.missed + (onchain \ keys.toFinset).card
        corrupted := a.corrupted + (keys.toFinset \ onchain).card
        duplicated := a.duplicated + (keys.length - keys.toFinset.card) } := by
  unfold compare
  rw [if_congr SourceSlot.isEmpty_ofKeys rfl rfl, ← card_sub_hit, ← card_sub_hit']
  rfl

/-! ### Sampling -/

/-- The index of the registry and the `Worker` that samples it. -/
structure OnchainVerifier (n : ℕ) where
  /-- The index. -/
  index : SlotSigIndex n
  /-- Whether a source rotates its filters; such sources are not scored. -/
  rotating : Fin n → Bool
  /-- How far behind the tip slots are sampled. -/
  lagSlots : ℕ
  /-- The last slot sampled. -/
  lastSampled : ℕ
  /-- The score. -/
  audit : OnchainAudit n

/-- A slot taken for comparison. -/
structure Sample (n : ℕ) where
  /-- The slot. -/
  slot : ℕ
  /-- What the index handed out. -/
  taken : Option (Fin n → SourceSlot)
  /-- The block it was compared with, if it was. -/
  onchain : Option (Finset ℕ)

/-- An event of a run. -/
inductive Event (n : ℕ) where
  | record (sid : Fin n) (slot : ℕ) (sig : Signature)
  | sample (cancelled : Bool) (reply : Reply)

namespace OnchainVerifier

variable {n : ℕ}

/-- `OnchainVerifier::start` -/
def start (lagSlots : ℕ) (rotating : Fin n → Bool) : OnchainVerifier n where
  index := SlotSigIndex.new n ((lagSlots + retainMarginSlots) % u64Size)
  rotating := rotating
  lagSlots := lagSlots
  lastSampled := 0
  audit := OnchainAudit.new n

/-- The end of `sample`, once a slot has been taken. -/
def settle (decode : String → Except String (List UInt8)) (v : OnchainVerifier n) (slot : ℕ)
    (sources : Fin n → SourceSlot) (reply : Reply) : OnchainAudit n × Option (Finset ℕ) :=
  match blockSignatures decode slot reply with
  | .ok (some onchain) => (compareSlot onchain sources v.rotating v.audit, some onchain)
  | .ok none => ({ v.audit with slotsUnavailable := v.audit.slotsUnavailable + 1 }, none)
  | .error e =>
    ({ v.audit with rpcErrors := v.audit.rpcErrors + 1, lastError := some e }, none)

/-- `Worker::sample`, with the slot it takes. -/
def sample (decode : String → Except String (List UInt8)) (v : OnchainVerifier n)
    (cancelled : Bool) (reply : Reply) : OnchainVerifier n × Option (Sample n) :=
  let target := v.index.tip - v.lagSlots
  if target = 0 ∨ target ≤ v.lastSampled then (v, none)
  else
    let (index, taken) := v.index.take target
    let v := { v with lastSampled := target, index := index }
    match taken with
    | none => (v, some ⟨target, none, none⟩)
    | some sources =>
      if cancelled then (v, some ⟨target, some sources, none⟩)
      else
        let (audit, onchain) := v.settle decode target sources reply
        ({ v with audit := audit }, some ⟨target, some sources, onchain⟩)

/-- One event, and the slot it takes. -/
def step (decode : String → Except String (List UInt8)) (v : OnchainVerifier n) :
    Event n → OnchainVerifier n × Option (Sample n)
  | .record sid slot sig => ({ v with index := v.index.record sid slot sig }, none)
  | .sample cancelled reply => v.sample decode cancelled reply

/-! ### What a run brings -/

/-- The highest slot that some events report. -/
def highestReported (events : List (Event n)) : ℕ :=
  events.foldl (fun slot event => match event with
    | .record _ slot' _ => max slot slot'
    | .sample _ _ => slot) 0

/-- The key that an event delivers for a slot by a source, if it does. -/
def deliveredBy (slot : ℕ) (sid : Fin n) : Event n → Option ℕ
  | .record sid' slot' sig => if slot = slot' ∧ sid = sid' then some (sigKey sig) else none
  | .sample _ _ => none

/-- The keys that a source delivered for a slot. -/
def delivered (slot : ℕ) (sid : Fin n) (events : List (Event n)) : List ℕ :=
  events.filterMap (deliveredBy slot sid)

/-- The number of distinct deliveries of a source that a slot was compared with. -/
def Sample.compared (sid : Fin n) (sample : Sample n) : ℕ :=
  if sample.onchain.isSome then (SlotSigIndex.ofSource sample.taken sid).sigs.card else 0

/-- The distinct deliveries of a source, summed over the slots compared. -/
def comparedTotal (sid : Fin n) : List (Option (Sample n)) → ℕ
  | [] => 0
  | none :: samples => comparedTotal sid samples
  | some sample :: samples => Sample.compared sid sample + comparedTotal sid samples

/-- The slots taken, in order. -/
def slotsTaken (samples : List (Option (Sample n))) : List ℕ :=
  samples.reduceOption.map Sample.slot

/-! ### One tick -/

variable (decode : String → Except String (List UInt8)) {v : OnchainVerifier n}

/-- How the score of a source changes with a tick: compared with the block if there is one and the
source is scored, and not at all otherwise. -/
def Scored (sample : Sample n) (sid : Fin n) (rotating : Bool) (a a' : SourceAudit) : Prop :=
  a' = match sample.onchain with
    | some onchain =>
      if rotating then a else a.compare onchain (SlotSigIndex.ofSource sample.taken sid)
    | none => a

/-- **What a tick does.**  Either nothing, if the slot `lag_slots` behind the tip is 0 or not above
the last one taken, or it takes that slot out of the index and scores every source with it.  It is
compared with a block exactly when the index had the slot, the audit goes on and the node answers
with a block. -/
theorem sample_cases (v : OnchainVerifier n) (cancelled : Bool) (reply : Reply) :
    ((v.index.tip - v.lagSlots = 0 ∨ v.index.tip - v.lagSlots ≤ v.lastSampled) ∧
      v.sample decode cancelled reply = (v, none)) ∨
    ∃ sample v', v.sample decode cancelled reply = (v', some sample) ∧
      sample.slot = v.index.tip - v.lagSlots ∧ 0 < sample.slot ∧ v.lastSampled < sample.slot ∧
      sample.taken = (v.index.take sample.slot).2 ∧
      (∀ onchain, sample.onchain = some onchain ↔
        sample.taken.isSome = true ∧ cancelled = false ∧ BlockKeys decode reply onchain) ∧
      v'.index = (v.index.take sample.slot).1 ∧ v'.rotating = v.rotating ∧
      v'.lagSlots = v.lagSlots ∧ v'.lastSampled = sample.slot ∧
      ∀ sid, Scored sample sid (v.rotating sid) (v.audit.sources sid) (v'.audit.sources sid) := by
  unfold sample
  dsimp only
  -- the slot that is due has to be above 0 and above the last one taken
  by_cases hnone : v.index.tip - v.lagSlots = 0 ∨ v.index.tip - v.lagSlots ≤ v.lastSampled
  · rw [if_pos hnone]
    exact Or.inl ⟨hnone, rfl⟩
  · rw [if_neg hnone]
    rw [not_or, not_le] at hnone
    have hpos : 0 < v.index.tip - v.lagSlots := Nat.pos_of_ne_zero hnone.1
    right
    cases htaken : (v.index.take (v.index.tip - v.lagSlots)).2 with
    | none =>
      refine ⟨_, _, rfl, rfl, hpos, hnone.2, htaken.symm, ?_, rfl, rfl, rfl, rfl, fun _ => rfl⟩
      intro onchain
      simp
    | some sources =>
      by_cases hcancelled : cancelled = true
      · simp only [if_pos hcancelled]
        refine ⟨_, _, rfl, rfl, hpos, hnone.2, htaken.symm, ?_, rfl, rfl, rfl, rfl, fun _ => rfl⟩
        intro onchain
        simp [hcancelled]
      · simp only [if_neg hcancelled]
        refine ⟨_, _, rfl, rfl, hpos, hnone.2, htaken.symm, ?_, rfl, rfl, rfl, rfl, ?_⟩
        · intro onchain
          rw [← @blockSignatures_eq_ok_some_iff decode (v.index.tip - v.lagSlots)]
          unfold settle
          dsimp only
          rw [Bool.not_eq_true] at hcancelled
          cases blockSignatures decode (v.index.tip - v.lagSlots) reply with
          | error e => simp
          | ok block => cases block <;> simp [hcancelled]
        · intro sid
          unfold Scored settle
          dsimp only
          cases blockSignatures decode (v.index.tip - v.lagSlots) reply with
          | error e => rfl
          | ok block => cases block <;> rfl

/-! ### Whole runs -/

/-- The index holds every delivery of a slot that may still be sampled, the slots taken ascend, and
the hits counted in the two ways agree. -/
structure Tracks (lagSlots : ℕ) (rotating : Fin n → Bool) (events : List (Event n))
    (v : OnchainVerifier n) (samples : List (Option (Sample n))) : Prop where
  /-- The configured lag. -/
  lag : v.lagSlots = lagSlots
  /-- The sources that are not scored. -/
  flags : v.rotating = rotating
  /-- The width of the window. -/
  retain : v.index.retainSlots = (lagSlots + retainMarginSlots) % u64Size
  /-- The tip. -/
  tip : v.index.tip = highestReported events
  /-- Above the last slot sampled and inside the window, nothing is lost. -/
  held : ∀ slot sid, v.lastSampled < slot → v.index.floor ≤ slot →
    v.index.view slot sid = SourceSlot.ofKeys (delivered slot sid events)
  /-- No slot was taken above the last one sampled. -/
  taken_le : ∀ slot ∈ slotsTaken samples, slot ≤ v.lastSampled
  /-- The last slot sampled was taken, if any was. -/
  last : v.lastSampled = 0 ∨ v.lastSampled ∈ slotsTaken samples
  /-- The slots taken ascend. -/
  ascending : (slotsTaken samples).Pairwise (· < ·)
  /-- The deliveries found on chain, as transactions not missed and as deliveries not corrupted. -/
  hits : ∀ sid, rotating sid = false → ∃ hits,
    (v.audit.sources sid).onchainTxns = (v.audit.sources sid).missed + hits ∧
    comparedTotal sid samples = (v.audit.sources sid).corrupted + hits

/-- One more event without a sample. -/
@[simp] lemma slotsTaken_concat_none (samples : List (Option (Sample n))) :
    slotsTaken (samples ++ [none]) = slotsTaken samples := by
  simp [slotsTaken, List.reduceOption_append]

/-- One more sample. -/
@[simp] lemma slotsTaken_concat_some (samples : List (Option (Sample n))) (sample : Sample n) :
    slotsTaken (samples ++ [some sample]) = slotsTaken samples ++ [sample.slot] := by
  simp [slotsTaken, List.reduceOption_append]

/-- Totals add up. -/
lemma comparedTotal_append (sid : Fin n) (samples samples' : List (Option (Sample n))) :
    comparedTotal sid (samples ++ samples') =
      comparedTotal sid samples + comparedTotal sid samples' := by
  induction samples with
  | nil => exact (Nat.zero_add _).symm
  | cons first samples ih =>
    cases first with
    | none => exact ih
    | some sample => rw [List.cons_append, comparedTotal, comparedTotal, ih, Nat.add_assoc]

/-- A tick delivers nothing. -/
@[simp] lemma delivered_sample (slot : ℕ) (sid : Fin n) (events : List (Event n))
    (cancelled : Bool) (reply : Reply) :
    delivered slot sid (events ++ [.sample cancelled reply]) = delivered slot sid events := by
  simp [delivered, deliveredBy]

/-- A comparison counts the same hits on both sides. -/
lemma hits_compare {a : SourceAudit} {onchain : Finset ℕ} {s : SourceSlot} {total hits : ℕ}
    (hblock : a.onchainTxns = a.missed + hits) (hdelivered : total = a.corrupted + hits) :
    ∃ hits, (a.compare onchain s).onchainTxns = (a.compare onchain s).missed + hits ∧
      total + s.sigs.card = (a.compare onchain s).corrupted + hits := by
  obtain ⟨hle, hle'⟩ := card_hit_le s.sigs onchain
  unfold SourceAudit.compare
  by_cases hempty : s.isEmpty = true
  · rw [if_pos hempty]
    have hsigs : s.sigs = ∅ := by
      simp only [SourceSlot.isEmpty, Bool.and_eq_true, decide_eq_true_eq] at hempty
      exact hempty.1
    refine ⟨hits, hblock, ?_⟩
    rw [hsigs, Finset.card_empty, Nat.add_zero, hdelivered]
  · rw [if_neg hempty]
    refine ⟨hits + (s.sigs.filter fun key => key ∈ onchain).card, ?_, ?_⟩
    · dsimp only
      omega
    · dsimp only
      omega

namespace Tracks

variable {lagSlots : ℕ} {rotating : Fin n → Bool} {events : List (Event n)}
  {samples : List (Option (Sample n))}

/-- A delivery keeps the invariant. -/
theorem record (h : Tracks lagSlots rotating events v samples) (sid : Fin n) (slot : ℕ)
    (sig : Signature) : Tracks lagSlots rotating (events ++ [.record sid slot sig])
      { v with index := v.index.record sid slot sig } (samples ++ [none]) where
  lag := h.lag
  flags := h.flags
  retain := by rw [SlotSigIndex.record_retainSlots, h.retain]
  tip := by
    rw [SlotSigIndex.record_tip, h.tip, highestReported, highestReported, List.foldl_append]
    rfl
  held slot' sid' hlast hfloor := by
    have hpos : slot' ≠ 0 := Nat.ne_of_gt (Nat.zero_lt_of_lt hlast)
    have hfloor' : v.index.floor ≤ slot' :=
      (SlotSigIndex.floor_le_apply v.index (.record sid slot sig)).trans hfloor
    rw [SlotSigIndex.view_record _ _ _ _ _ _ hfloor, h.held slot' sid' hlast hfloor', delivered,
      delivered, List.filterMap_append]
    by_cases hboth : slot' = slot ∧ sid' = sid
    · rw [if_pos ⟨hboth.1 ▸ hpos, hboth⟩, SourceSlot.deliver_ofKeys]
      simp [deliveredBy, hboth]
    · rw [if_neg (fun hall => hboth hall.2)]
      simp [deliveredBy, hboth]
  taken_le := by
    rw [slotsTaken_concat_none]
    exact h.taken_le
  last := by
    rw [slotsTaken_concat_none]
    exact h.last
  ascending := by
    rw [slotsTaken_concat_none]
    exact h.ascending
  hits sid' hsid := by
    rw [comparedTotal_append]
    exact h.hits sid' hsid

/-- What the index hands out for the slot of a tick is every delivery for it. -/
theorem taken_eq (h : Tracks lagSlots rotating events v samples) {slot : ℕ}
    (hlast : v.lastSampled < slot) {sources : Fin n → SourceSlot}
    (htaken : (v.index.take slot).2 = some sources) (sid : Fin n) :
    sources sid = SourceSlot.ofKeys (delivered slot sid events) := by
  have hmem : slot ∈ v.index.slots := AList.mem_keys.mpr (AList.mem_keys_iff_lookup.mpr ⟨_, htaken⟩)
  have hview : v.index.view slot sid = sources sid := by
    unfold SlotSigIndex.view
    rw [htaken]
    rfl
  rw [← hview]
  exact h.held slot sid hlast (v.index.retained slot hmem)

/-- A slot hands nothing out if nothing was delivered, or if its window wrapped around. -/
lemma delivered_eq_nil (h : Tracks lagSlots rotating events v samples) {slot : ℕ}
    (hslot : slot = v.index.tip - v.lagSlots) (hlast : v.lastSampled < slot)
    (htaken : (v.index.take slot).2 = none) (hfits : lagSlots + retainMarginSlots < u64Size)
    (sid : Fin n) : delivered slot sid events = [] := by
  have hfloor : v.index.floor ≤ slot := by
    rw [hslot, SlotSigIndex.floor, h.retain, h.lag, Nat.mod_eq_of_lt hfits]
    omega
  have hview := h.held slot sid hlast hfloor
  unfold SlotSigIndex.view at hview
  rw [htaken] at hview
  exact SourceSlot.ofKeys_eq_default_iff.mp hview.symm

/-- A tick keeps the invariant. -/
theorem sample (h : Tracks lagSlots rotating events v samples) (cancelled : Bool) (reply : Reply) :
    Tracks lagSlots rotating (events ++ [.sample cancelled reply])
      (v.sample decode cancelled reply).1 (samples ++ [(v.sample decode cancelled reply).2]) := by
  have htip : highestReported (events ++ [.sample cancelled reply]) = highestReported events := by
    rw [highestReported, highestReported, List.foldl_append]
    rfl
  rcases sample_cases decode v cancelled reply with
    ⟨-, hsame⟩ |
    ⟨sample, v', hsample, hslot, -, hlast, htaken, -, hindex, hflags, hlag, hlast', hscored⟩
  · -- the tick does nothing
    rw [hsame]
    refine ⟨h.lag, h.flags, h.retain, htip ▸ h.tip, ?_, ?_, ?_, ?_, ?_⟩
    · intro slot sid
      rw [delivered_sample]
      exact h.held slot sid
    · rw [slotsTaken_concat_none]
      exact h.taken_le
    · rw [slotsTaken_concat_none]
      exact h.last
    · rw [slotsTaken_concat_none]
      exact h.ascending
    · intro sid
      rw [comparedTotal_append]
      exact h.hits sid
  · -- the tick takes a slot above all those before
    rw [hsample]
    refine ⟨hlag.trans h.lag, hflags.trans h.flags, ?_, ?_, ?_, ?_, ?_, ?_, ?_⟩
    · rw [hindex]
      exact h.retain
    · rw [hindex, htip]
      exact h.tip
    · intro slot sid hlater hfloor
      rw [hlast'] at hlater
      rw [hindex] at hfloor ⊢
      rw [SlotSigIndex.view_take, if_neg (Nat.ne_of_gt hlater), delivered_sample]
      exact h.held slot sid (hlast.trans hlater) hfloor
    · intro slot hmem
      rw [slotsTaken_concat_some, List.mem_append, List.mem_singleton] at hmem
      rw [hlast']
      rcases hmem with hold | rfl
      · exact (h.taken_le slot hold).trans hlast.le
      · exact le_rfl
    · rw [slotsTaken_concat_some, hlast']
      exact Or.inr (List.mem_append_right _ (List.mem_singleton_self _))
    · rw [slotsTaken_concat_some]
      refine List.pairwise_append.mpr ⟨h.ascending, List.pairwise_singleton _ _, ?_⟩
      intro slot hslot' last hlast''
      rw [List.mem_singleton.mp hlast'']
      exact Nat.lt_of_le_of_lt (h.taken_le slot hslot') hlast
    · intro sid hsid
      obtain ⟨hits, hblock, hdelivered⟩ := h.hits sid hsid
      have hscore := hscored sid
      rw [Scored, h.flags, hsid] at hscore
      have htotal : comparedTotal sid (samples ++ [some sample]) =
          comparedTotal sid samples + Sample.compared sid sample := by
        rw [comparedTotal_append]
        rfl
      rw [htotal, Sample.compared]
      cases honchain : sample.onchain with
      | none =>
        rw [honchain] at hscore
        rw [hscore, Option.isSome_none, if_neg Bool.false_ne_true, Nat.add_zero]
        exact ⟨hits, hblock, hdelivered⟩
      | some onchain =>
        rw [honchain] at hscore
        rw [hscore, Option.isSome_some, if_pos rfl]
        exact hits_compare hblock hdelivered

end Tracks

/-- The invariant holds at the start. -/
lemma tracks_start (lagSlots : ℕ) (rotating : Fin n → Bool) :
    Tracks lagSlots rotating [] (start lagSlots rotating) [] where
  lag := rfl
  flags := rfl
  retain := rfl
  tip := rfl
  held _ _ _ _ := rfl
  taken_le := by simp [slotsTaken]
  last := Or.inl rfl
  ascending := List.Pairwise.nil
  hits _ _ := ⟨0, rfl, rfl⟩

/-- The invariant holds along every run. -/
theorem tracks_run (lagSlots : ℕ) (rotating : Fin n → Bool) (events : List (Event n)) :
    Tracks lagSlots rotating events
      (Machine.finalState (step decode) (start lagSlots rotating) events)
      (Machine.outputs (step decode) (start lagSlots rotating) events) := by
  refine Machine.run_induction (step decode)
    (P := fun events v samples => Tracks lagSlots rotating events v samples)
    (tracks_start lagSlots rotating) ?_ events
  intro events event v samples h
  cases event with
  | record sid slot sig => exact h.record sid slot sig
  | sample cancelled reply => exact h.sample decode cancelled reply

/-- A tick takes a slot exactly when the one that is due is above all those taken before. -/
lemma isSome_sample_iff {lagSlots : ℕ} {rotating : Fin n → Bool} {events : List (Event n)}
    {samples : List (Option (Sample n))} (h : Tracks lagSlots rotating events v samples)
    (cancelled : Bool) (reply : Reply) :
    (v.sample decode cancelled reply).2.isSome = true ↔
      0 < highestReported events - lagSlots ∧
        ∀ slot ∈ slotsTaken samples, slot < highestReported events - lagSlots := by
  rw [← h.tip, ← h.lag]
  rcases sample_cases decode v cancelled reply with
    ⟨hnone, hsame⟩ | ⟨sample, v', hsample, hslot, hpos, hlast, -⟩
  · rw [hsame]
    refine iff_of_false (by simp) ?_
    rintro ⟨hpos, hall⟩
    rcases hnone with hzero | hle
    · omega
    · rcases h.last with hstart | hmem
      · omega
      · exact absurd (hall _ hmem) (not_lt.mpr hle)
  · rw [hsample]
    refine iff_of_true rfl ⟨hslot ▸ hpos, fun slot hmem => ?_⟩
    exact Nat.lt_of_le_of_lt (h.taken_le slot hmem) (hslot ▸ hlast)

/-- **The score is exact on every sampled slot.**  In every run of `record` calls and ticks with any
answers of the node: no slot is taken twice; a tick takes the slot `lag_slots` behind the tip
exactly when it is above 0 and above all slots taken before; what the index hands out for it is, for
each source, the set of keys of all its deliveries for the slot and how many of these were repeats,
and if it hands out nothing, nothing was delivered or the sum of the lag and the margin wraps
around. The slot is compared exactly when the index handed it out, the audit was not cancelled and
the node answered with a block that decodes, and then with the keys of that block: each scored
source with deliveries has the block without the deliveries added to `missed`, the deliveries
without the block to `corrupted` and the repeats to `duplicated`, a source without deliveries is
only counted absent, and nothing else changes a score.  Over the whole run, the transactions not
missed are as many as the deliveries not corrupted.  No subtraction goes below zero. -/
theorem sample_scores_exactly (lagSlots : ℕ) (rotating : Fin n → Bool) (events : List (Event n)) :
    let samples := Machine.outputs (step decode) (start lagSlots rotating) events
    let stateAfter := Machine.finalState (step decode) (start lagSlots rotating)
    (slotsTaken samples).Nodup ∧
    (∀ before cancelled reply later, events = before ++ .sample cancelled reply :: later →
      let due := highestReported before - lagSlots
      let result := ((stateAfter before).sample decode cancelled reply).2
      (result.isSome = true ↔ 0 < due ∧
        ∀ slot ∈ slotsTaken (Machine.outputs (step decode) (start lagSlots rotating) before),
          slot < due) ∧
      ∀ sample, result = some sample →
        sample.slot = due ∧
        (sample.taken = none → lagSlots + retainMarginSlots < u64Size →
          ∀ sid, delivered sample.slot sid before = []) ∧
        (∀ onchain, sample.onchain = some onchain ↔
          sample.taken.isSome = true ∧ cancelled = false ∧ BlockKeys decode reply onchain) ∧
        ∀ sid, let keys := delivered sample.slot sid before
          let a := (stateAfter before).audit.sources sid
          let a' := (stateAfter (before ++ [.sample cancelled reply])).audit.sources sid
          (∀ sources, sample.taken = some sources →
            (sources sid).sigs = keys.toFinset ∧
            (sources sid).duplicated = keys.length - keys.toFinset.card) ∧
          keys.toFinset.card ≤ keys.length ∧
          a' = match sample.onchain with
            | none => a
            | some onchain =>
              if rotating sid then a
              else if keys = [] then { a with slotsAbsent := a.slotsAbsent + 1 }
              else { a with
                slotsChecked := a.slotsChecked + 1
                onchainTxns := a.onchainTxns + onchain.card
                missed := a.missed + (onchain \ keys.toFinset).card
                corrupted := a.corrupted + (keys.toFinset \ onchain).card
                duplicated := a.duplicated + (keys.length - keys.toFinset.card) }) ∧
    (∀ sigs onchain : Finset ℕ, (sigs.filter fun key => key ∈ onchain).card ≤ onchain.card ∧
      (sigs.filter fun key => key ∈ onchain).card ≤ sigs.card) ∧
    ∀ sid, rotating sid = false →
      let a := (stateAfter events).audit.sources sid
      a.missed ≤ a.onchainTxns ∧ a.corrupted ≤ comparedTotal sid samples ∧
        a.onchainTxns - a.missed = comparedTotal sid samples - a.corrupted := by
  refine ⟨?_, ?_, card_hit_le, ?_⟩
  · have hascending := (tracks_run decode lagSlots rotating events).ascending
    exact hascending.imp fun hlt => Nat.ne_of_lt hlt
  · intro before cancelled reply later _
    have h := tracks_run decode lagSlots rotating before
    dsimp only
    rw [Machine.finalState_concat]
    generalize Machine.finalState (step decode) (start lagSlots rotating) before = v at h ⊢
    refine ⟨isSome_sample_iff decode h cancelled reply, fun sample hsome => ?_⟩
    rcases sample_cases decode v cancelled reply with ⟨-, hsame⟩ |
      ⟨sample', v', hsample, hslot, -, hlast, htaken, honchain, -, -, -, -, hscored⟩
    · rw [hsame] at hsome
      cases hsome
    · rw [hsample] at hsome
      obtain rfl : sample' = sample := Option.some.inj hsome
      refine ⟨by rw [hslot, h.tip, h.lag], fun hnone hfits sid => ?_, honchain, fun sid => ?_⟩
      · exact h.delivered_eq_nil hslot hlast (htaken ▸ hnone) hfits sid
      · have hsources : ∀ sources, sample'.taken = some sources →
            sources sid = SourceSlot.ofKeys (delivered sample'.slot sid before) :=
          fun sources hsome => h.taken_eq hlast (htaken ▸ hsome) sid
        refine ⟨fun sources hsome => ?_, List.toFinset_card_le _, ?_⟩
        · rw [hsources sources hsome]
          exact ⟨rfl, rfl⟩
        · have hscore := hscored sid
          rw [Scored, h.flags] at hscore
          rw [step, hsample, hscore]
          cases hcompared : sample'.onchain with
          | none => rfl
          | some onchain =>
            -- a slot that is compared was handed out, so what it is compared with is complete
            obtain ⟨sources, hsome⟩ :=
              Option.isSome_iff_exists.mp ((honchain onchain).mp hcompared).1
            dsimp only
            rw [hsome, SlotSigIndex.ofSource, Option.elim_some, hsources sources hsome,
              SourceAudit.compare_ofKeys]
  · intro sid hsid
    obtain ⟨hits, hblock, hdelivered⟩ :=
      (tracks_run decode lagSlots rotating events).hits sid hsid
    dsimp only
    omega

/-- A signature that begins with a byte and goes on with zeros. -/
def plainSignature (byte : UInt8) : Signature := (Vector.replicate 64 0).set 0 byte

/-- What base 58 decoding makes of the texts of two of them. -/
def plainDecode (text : String) : Except String (List UInt8) :=
  if text =
      "2AFv15MNPuA84RmU66xw2uMzGipcVxNpzAffoacGVvjFue3CBmf633fAWuiP9cwL9C3z3CJiGgRSFjJfeEcA6QX"
  then .ok (plainSignature 1).toList
  else if text =
      "4Umk1E47BhUNBHJQGJto6i5xpATqVs8UxW11QjpoVnBmiv7aZJyG78yVYj99SrozRa9x7av8p3GJmBuzvhpUHDZ"
  then .ok (plainSignature 3).toList
  else .error "provided string contained invalid character"

/-- A block of these two. -/
def plainBlock : Reply := .block
  ["2AFv15MNPuA84RmU66xw2uMzGipcVxNpzAffoacGVvjFue3CBmf633fAWuiP9cwL9C3z3CJiGgRSFjJfeEcA6QX",
    "4Umk1E47BhUNBHJQGJto6i5xpATqVs8UxW11QjpoVnBmiv7aZJyG78yVYj99SrozRa9x7av8p3GJmBuzvhpUHDZ"]

/-- One source delivers the first signature of the block twice and one that is not in it, for slot
100, and the other source moves the tip to 132. -/
def plainEvents (source other : Fin 2) : List (Event 2) :=
  [.record source 100 (plainSignature 1), .record source 100 (plainSignature 2),
    .record source 100 (plainSignature 1), .record other 132 (plainSignature 3)]

/-- The block of slot 100 is compared: source 0 has missed one of its two transactions, delivered
one that is not in it and one twice, and source 1 is absent. -/
theorem sample_scores_exactly_plain :
    let v := Machine.finalState (step plainDecode) (start 32 fun _ => false)
      (plainEvents 0 1 ++ [.sample false plainBlock])
    v.audit.sources 0 = ⟨1, 0, 2, 1, 1, 1⟩ ∧ v.audit.sources 1 = ⟨0, 1, 0, 0, 0, 0⟩ := by
  obtain ⟨hdue, hscore⟩ := (sample_scores_exactly plainDecode 32 (fun _ => false)
    (plainEvents 0 1 ++ [.sample false plainBlock])).2.1 (plainEvents 0 1) false plainBlock [] rfl
  obtain ⟨sample, hsome⟩ := Option.isSome_iff_exists.mp (hdue.mpr (by decide))
  obtain ⟨hslot, hnone, honchain, hsids⟩ := hscore sample hsome
  have hslot' : sample.slot = 100 := hslot
  rw [hslot'] at hnone hsids
  have htaken : sample.taken.isSome = true := by
    cases htaken : sample.taken with
    | none => exact absurd (hnone htaken (by decide) 0) (by decide)
    | some sources => rfl
  have hkeys : BlockKeys plainDecode plainBlock {1, 3} := by
    refine ⟨_, [1, 3], rfl, ?_, by decide⟩
    exact .cons ⟨plainSignature 1, by decide, by decide⟩
      (.cons ⟨plainSignature 3, by decide, by decide⟩ .nil)
  have hblock := (honchain {1, 3}).mpr ⟨htaken, rfl, hkeys⟩
  have hfirst := (hsids 0).2.2
  have hsecond := (hsids 1).2.2
  rw [hblock] at hfirst hsecond
  exact ⟨hfirst.trans (by decide), hsecond.trans (by decide)⟩

end OnchainVerifier

end ShredTools.Audit
