import Mathlib.Data.Finset.Sort
import ShredTools.Audit.ProviderStreams
import ShredTools.Library.Checks
import ShredTools.Library.KeyedTable
import ShredTools.Library.Run
import ShredTools.Library.Segments
import ShredTools.Library.Selection

/-!
# Triggers from shreds

The example watches a wallet.  It keeps the data shreds of each slot, decodes every data set as soon
as all its shreds are there, and triggers on a transaction that touches the wallet, once for each
signature.  Slots that were quiet for a while are dropped, and the signatures are forgotten when
there are too many.

`ingest_shred_triggers` says which triggers a shred of a well-formed block gives: the transactions
of the data sets that it completes, in order, without those that triggered before.

`Complete` says which data sets of a block are complete in what was received: all their shreds are
there, and so is the end of the data set before.  `SlotState.Follows` is the invariant of one slot
against the block, and `Knows` that of the decoder, with the signatures heard so far.  Unlike the
reconstruction crate the example recovers nothing, and takes end markers from data shreds alone.
-/

namespace ShredTools.Example

open Deshred (Agave Block CompletedDataSet Shred)
open Audit (Entry Key ShredLibrary Signature VersionedTransaction)

/-! ### The decoder -/

/-- `ShredPacket` -/
structure ShredPacket where
  /-- The bytes. -/
  data : List UInt8
  /-- When it came. -/
  receivedAt : ℕ

/-- `SlotState` -/
structure SlotState where
  /-- The data shreds by index. -/
  dataShreds : AList fun _ : ℕ => Shred
  /-- The indices of those that end a data set. -/
  completeIndices : Finset ℕ
  /-- The ends of the data sets that were decoded. -/
  processedEnds : Finset ℕ
  /-- When the last shred came. -/
  lastReceived : ℕ

/-- The state of a slot before its first shred. -/
def SlotState.new (receivedAt : ℕ) : SlotState := ⟨∅, ∅, ∅, receivedAt⟩

/-- The slots and the signatures that triggered, which the main loop keeps. -/
structure Decoder where
  /-- The slots. -/
  slots : AList fun _ : ℕ => SlotState
  /-- The signatures. -/
  seenTriggers : Finset Signature

/-- The variables of `ingest_shred` in the loop over the ends. -/
structure Scan where
  /-- Where the next range begins. -/
  start : ℕ
  /-- The ends of the data sets that were decoded. -/
  processedEnds : Finset ℕ
  /-- The signatures that triggered. -/
  seenTriggers : Finset Signature
  /-- The triggers. -/
  hits : List (ℕ × Signature)

/-- The first signature of a transaction that touches the wallet. -/
def touch (watchWallet : Key) (txn : VersionedTransaction) : Option Signature :=
  if txn.message.fields.staticAccountKeys.contains watchWallet then txn.signatures.head? else none

/-- A signature triggers if it did not before. -/
def Scan.hit (slot : ℕ) (scan : Scan) (sig : Signature) : Scan :=
  if sig ∈ scan.seenTriggers then scan
  else
    { scan with
      seenTriggers := insert sig scan.seenTriggers
      hits := scan.hits ++ [(slot, sig)] }

section Ingest

variable (lib : ShredLibrary) (watchWallet : Key)

/-- The body of the loop over the ends. -/
def Scan.step (slot : ℕ) (dataShreds : AList fun _ : ℕ => Shred) (scan : Scan) (stop : ℕ) : Scan :=
  let range := rangeInclusive scan.start stop
  let scan := { scan with start := stop + 1 }
  if stop ∈ scan.processedEnds then scan
  else
    match range.mapM fun i => (dataShreds.lookup i).map Shred.payload with
    | none => scan
    | some payloads =>
      let scan := { scan with processedEnds := insert stop scan.processedEnds }
      match (lib.agave.deshred payloads).bind lib.agave.deserialize with
      | none => scan
      | some entries =>
        ((entries.flatMap Entry.transactions).filterMap (touch watchWallet)).foldl (Scan.hit slot)
          scan

/-- A data shred is stored. -/
def SlotState.store (state : SlotState) (shred : Shred) (receivedAt : ℕ) : SlotState :=
  { state with
    lastReceived := receivedAt
    completeIndices :=
      if shred.dataComplete then insert shred.index state.completeIndices
      else state.completeIndices
    dataShreds := state.dataShreds.insert shred.index shred }

/-- The data shred in a packet. -/
def dataShred (packet : ShredPacket) : Option Shred :=
  (lib.newFromSerializedShred packet.data).filter Shred.isData

/-- `ingest_shred` -/
def ingestShred (d : Decoder) (packet : ShredPacket) : Decoder × List (ℕ × Signature) :=
  match dataShred lib packet with
  | none => (d, [])
  | some shred =>
    let state := ((d.slots.lookup shred.slot).getD (SlotState.new packet.receivedAt)).store shred
      packet.receivedAt
    let scan := (state.completeIndices.sort (· ≤ ·)).foldl
      (Scan.step lib watchWallet shred.slot state.dataShreds)
      ⟨0, state.processedEnds, d.seenTriggers, []⟩
    ({ slots := d.slots.insert shred.slot { state with processedEnds := scan.processedEnds }
       seenTriggers := scan.seenTriggers }, scan.hits)

/-- The main loop prunes, from time to time. -/
def prune (ttl now : ℕ) (d : Decoder) : Decoder where
  slots := d.slots.retain fun _ s => now - s.lastReceived < ttl
  seenTriggers := if d.seenTriggers.card > 100000 then ∅ else d.seenTriggers

/-- What the main loop does with the decoder. -/
inductive Event
  | packet (p : ShredPacket)
  | prune (now : ℕ)

/-- One event: the triggers, and whether the signatures were forgotten. -/
def step (ttl : ℕ) (d : Decoder) : Event → Decoder × (List (ℕ × Signature) × Bool)
  | .packet p =>
    let (d, hits) := ingestShred lib watchWallet d p
    (d, hits, false)
  | .prune now => (prune ttl now d, [], d.seenTriggers.card > 100000)

/-- The decoder as the main loop starts. -/
def Decoder.start : Decoder := ⟨∅, ∅⟩

end Ingest

/-! ### Triggers -/

/-- The loop over transactions triggers on each signature that is new, once. -/
lemma foldl_hit (slot : ℕ) (sigs : List Signature) (scan : Scan) :
    sigs.foldl (Scan.hit slot) scan =
      { scan with
        seenTriggers := scan.seenTriggers ∪ sigs.toFinset
        hits := scan.hits ++ ((sigs.firstsBy id).filter (· ∉ scan.seenTriggers)).map
          fun sig => (slot, sig) } := by
  induction sigs using List.reverseRecOn with
  | nil => simp
  | append_singleton sigs sig ih =>
    rw [List.foldl_append, List.foldl_cons, List.foldl_nil, ih, List.firstsBy_concat]
    unfold Scan.hit
    by_cases hold : ∃ other ∈ sigs, id other = id sig
    · have hmem : sig ∈ sigs := by
        obtain ⟨other, hother, heq⟩ := hold
        rwa [← show other = sig from heq]
      rw [if_pos hold, if_pos (Finset.mem_union_right _ (List.mem_toFinset.mpr hmem))]
      have hsame : (sigs ++ [sig]).toFinset = sigs.toFinset := by
        rw [List.toFinset_append]
        simp [hmem]
      rw [hsame]
    · have hnot : sig ∉ sigs := fun hmem => hold ⟨sig, hmem, rfl⟩
      rw [if_neg hold, List.filter_append, List.map_append, ← List.append_assoc]
      by_cases hseen : sig ∈ scan.seenTriggers
      · rw [if_pos (Finset.mem_union_left _ hseen)]
        have hsame : scan.seenTriggers ∪ (sigs ++ [sig]).toFinset =
            scan.seenTriggers ∪ sigs.toFinset := by
          rw [List.toFinset_append, ← Finset.union_assoc]
          simp [hseen]
        rw [hsame]
        simp [hseen]
      · have hfresh : sig ∉ scan.seenTriggers ∪ sigs.toFinset := by simp [hseen, hnot]
        rw [if_neg hfresh]
        simp [hseen, List.toFinset_append]

section Scan

variable (lib : ShredLibrary) (watchWallet : Key)

/-- The payloads of the shreds of a range, if they are all there. -/
def payloadsOf (dataShreds : AList fun _ : ℕ => Shred) (range : ℕ × ℕ) :
    Option (List (List UInt8)) :=
  (rangeInclusive range.1 range.2).mapM fun i => (dataShreds.lookup i).map Shred.payload

/-- The signatures that a data set is to trigger on. -/
def touchesOf (payloads : List (List UInt8)) : List Signature :=
  ((lib.agave.deshred payloads).bind lib.agave.deserialize).elim [] fun entries =>
    (entries.flatMap Entry.transactions).filterMap (touch watchWallet)

/-- A range is decoded if it was not yet and its shreds are there. -/
def IsNew (dataShreds : AList fun _ : ℕ => Shred) (processedEnds : Finset ℕ) (range : ℕ × ℕ) :
    Prop :=
  range.2 ∉ processedEnds ∧ (payloadsOf dataShreds range).isSome = true

instance (dataShreds : AList fun _ : ℕ => Shred) (processedEnds : Finset ℕ) (range : ℕ × ℕ) :
    Decidable (IsNew dataShreds processedEnds range) :=
  inferInstanceAs (Decidable (_ ∧ _))

/-- The ranges that the loop decodes. -/
def SlotState.newRanges (state : SlotState) : List (ℕ × ℕ) :=
  (cutAt 0 (state.completeIndices.sort (· ≤ ·))).filter fun range =>
    IsNew state.dataShreds state.processedEnds range

/-- The signatures that a range is to trigger on. -/
def rangeTouches (dataShreds : AList fun _ : ℕ => Shred) (range : ℕ × ℕ) : List Signature :=
  (payloadsOf dataShreds range).elim [] (touchesOf lib watchWallet)

/-- A turn of the loop, for the range that it looks at. -/
lemma Scan.step_eq (slot : ℕ) (dataShreds : AList fun _ : ℕ => Shred) (scan : Scan) (stop : ℕ) :
    scan.step lib watchWallet slot dataShreds stop =
      if IsNew dataShreds scan.processedEnds (scan.start, stop) then
        (rangeTouches lib watchWallet dataShreds (scan.start, stop)).foldl (Scan.hit slot)
          { scan with start := stop + 1, processedEnds := insert stop scan.processedEnds }
      else { scan with start := stop + 1 } := by
  unfold Scan.step rangeTouches
  by_cases hprocessed : stop ∈ scan.processedEnds
  · have hnot : ¬ IsNew dataShreds scan.processedEnds (scan.start, stop) :=
      fun h => h.1 hprocessed
    rw [if_pos hprocessed, if_neg hnot]
  · rw [if_neg hprocessed]
    change (match payloadsOf dataShreds (scan.start, stop) with
      | none => _
      | some payloads => _) = _
    cases hpayloads : payloadsOf dataShreds (scan.start, stop) with
    | none =>
      have hnot : ¬ IsNew dataShreds scan.processedEnds (scan.start, stop) := by
        intro h
        rw [IsNew, hpayloads] at h
        exact Bool.noConfusion h.2
      rw [if_neg hnot]
    | some payloads =>
      have hnew : IsNew dataShreds scan.processedEnds (scan.start, stop) :=
        ⟨hprocessed, by rw [hpayloads, Option.isSome_some]⟩
      rw [if_pos hnew, Option.elim_some, touchesOf]
      dsimp only
      cases (lib.agave.deshred payloads).bind lib.agave.deserialize <;> rfl

/-- Triggering leaves the rest of the variables alone. -/
lemma foldl_hit_frame (slot : ℕ) (sigs : List Signature) (scan : Scan) (start : ℕ)
    (processedEnds : Finset ℕ) :
    sigs.foldl (Scan.hit slot) { scan with start := start, processedEnds := processedEnds } =
      { sigs.foldl (Scan.hit slot) scan with start := start, processedEnds := processedEnds } := by
  rw [foldl_hit, foldl_hit]

/-- The loop over the ends decodes the ranges that are new, and triggers on what they touch. -/
lemma foldl_step (slot : ℕ) (dataShreds : AList fun _ : ℕ => Shred) {ends : List ℕ}
    (hsorted : ends.Pairwise (· < ·)) (scan : Scan) :
    let new := (cutAt scan.start ends).filter fun range =>
      IsNew dataShreds scan.processedEnds range
    ∃ start, ends.foldl (Scan.step lib watchWallet slot dataShreds) scan =
      { (new.flatMap (rangeTouches lib watchWallet dataShreds)).foldl (Scan.hit slot) scan with
        start := start
        processedEnds := scan.processedEnds ∪ (new.map Prod.snd).toFinset } := by
  induction ends generalizing scan with
  | nil => exact ⟨scan.start, by simp [cutAt]⟩
  | cons stop ends ih =>
    obtain ⟨hbelow, hsorted⟩ := List.pairwise_cons.mp hsorted
    -- the later ranges are as new as before
    have hlater : (cutAt (stop + 1) ends).filter (fun range =>
          IsNew dataShreds (insert stop scan.processedEnds) range) =
        (cutAt (stop + 1) ends).filter fun range =>
          IsNew dataShreds scan.processedEnds range := by
      refine List.filter_congr fun range hrange => decide_eq_decide.mpr ?_
      have hend : range.2 ∈ ends := by
        have := List.mem_map_of_mem (f := Prod.snd) hrange
        rwa [map_snd_cutAt] at this
      have hne : range.2 ≠ stop := (hbelow _ hend).ne'
      unfold IsNew
      rw [Finset.mem_insert, or_iff_right hne]
    rw [List.foldl_cons, Scan.step_eq, cutAt]
    by_cases hnew : IsNew dataShreds scan.processedEnds (scan.start, stop)
    · have hcons : ((scan.start, stop) :: cutAt (stop + 1) ends).filter (fun range =>
            IsNew dataShreds scan.processedEnds range) =
          (scan.start, stop) :: (cutAt (stop + 1) ends).filter fun range =>
            IsNew dataShreds scan.processedEnds range :=
        List.filter_cons_of_pos (decide_eq_true hnew)
      rw [if_pos hnew, foldl_hit_frame, hcons]
      obtain ⟨start, hscan⟩ := ih hsorted _
      refine ⟨start, hscan.trans ?_⟩
      dsimp only
      rw [hlater, List.flatMap_cons, List.foldl_append, foldl_hit_frame, List.map_cons,
        List.toFinset_cons, Finset.union_insert, Finset.insert_union]
    · have hcons : ((scan.start, stop) :: cutAt (stop + 1) ends).filter (fun range =>
            IsNew dataShreds scan.processedEnds range) =
          (cutAt (stop + 1) ends).filter fun range =>
            IsNew dataShreds scan.processedEnds range :=
        List.filter_cons_of_neg (by simpa using hnew)
      rw [if_neg hnew, hcons]
      obtain ⟨start, hscan⟩ := ih hsorted { scan with start := stop + 1 }
      refine ⟨start, hscan.trans ?_⟩
      dsimp only
      rw [foldl_hit_frame]

/-- The state of the slot of a data shred, with the shred. -/
def stored (d : Decoder) (shred : Shred) (receivedAt : ℕ) : SlotState :=
  ((d.slots.lookup shred.slot).getD (SlotState.new receivedAt)).store shred receivedAt

/-- What a data shred changes, and its triggers. -/
lemma ingestShred_eq {packet : ShredPacket} {shred : Shred}
    (hpacket : dataShred lib packet = some shred) (d : Decoder) :
    let state := stored d shred packet.receivedAt
    let sigs := state.newRanges.flatMap (rangeTouches lib watchWallet state.dataShreds)
    ingestShred lib watchWallet d packet =
      ({ slots := d.slots.insert shred.slot
          { state with
            processedEnds := state.processedEnds ∪ (state.newRanges.map Prod.snd).toFinset }
         seenTriggers := d.seenTriggers ∪ sigs.toFinset },
        ((sigs.firstsBy id).filter (· ∉ d.seenTriggers)).map fun sig => (shred.slot, sig)) := by
  intro state sigs
  have hshape : ingestShred lib watchWallet d packet =
      (fun scan : Scan =>
        (Decoder.mk
          (d.slots.insert shred.slot { state with processedEnds := scan.processedEnds })
          scan.seenTriggers, scan.hits))
      ((state.completeIndices.sort (· ≤ ·)).foldl
        (Scan.step lib watchWallet shred.slot state.dataShreds)
        ⟨0, state.processedEnds, d.seenTriggers, []⟩) := by
    unfold ingestShred
    rw [hpacket]
    rfl
  obtain ⟨start, hscan⟩ := foldl_step lib watchWallet shred.slot state.dataShreds
    (Finset.sortedLT_sort state.completeIndices).pairwise
    ⟨0, state.processedEnds, d.seenTriggers, []⟩
  rw [hshape, hscan, foldl_hit]
  rfl

end Scan

/-! ### Blocks -/

/-- A data set of a block is complete if all its shreds were received, and the last one of the data
set before it. -/
def Complete (b : Block) (received : List Shred) (s e : ℕ) : Prop :=
  Segment b.EndsAt s e ∧ (∀ i, s ≤ i → i ≤ e → Block.Received received i) ∧
    (s = 0 ∨ Block.Received received (s - 1))

/-- The signatures that a data set of a block is to trigger on. -/
def blockTouches (lib : ShredLibrary) (watchWallet : Key) (b : Block) (range : ℕ × ℕ) :
    List Signature :=
  (b.decoded lib.agave range).elim [] fun set =>
    (Audit.transactions set).filterMap (touch watchWallet)

/-- The state of a slot holds the data shreds of a block that were received. -/
structure SlotState.Stores (b : Block) (received : List Shred) (state : SlotState) : Prop where
  /-- The shreds. -/
  dataShreds : ∀ i shred, state.dataShreds.lookup i = some shred ↔
    b.data[i]? = some shred ∧ Block.Received received i
  /-- The ends. -/
  completeIndices : ∀ i, i ∈ state.completeIndices ↔ b.EndsAt i ∧ Block.Received received i

/-- One more shred. -/
lemma received_concat {received : List Shred} {shred : Shred} (hdata : shred.isData = true)
    (i : ℕ) : Block.Received (received ++ [shred]) i ↔
      Block.Received received i ∨ shred.index = i := by
  unfold Block.Received
  simp only [List.mem_append, List.mem_singleton]
  constructor
  · rintro ⟨other, hmem | rfl, hisData, hindex⟩
    · exact Or.inl ⟨other, hmem, hisData, hindex⟩
    · exact Or.inr hindex
  · rintro (⟨other, hmem, hisData, hindex⟩ | hindex)
    · exact ⟨other, Or.inl hmem, hisData, hindex⟩
    · exact ⟨shred, Or.inr rfl, hdata, hindex⟩

namespace SlotState.Stores

variable {b : Block} {received : List Shred} {state : SlotState}

/-- A new state holds nothing. -/
theorem new (b : Block) (receivedAt : ℕ) : (SlotState.new receivedAt).Stores b [] where
  dataShreds i shred := by
    have hnone : ¬ Block.Received [] i := fun ⟨_, hmem, _⟩ => List.not_mem_nil hmem
    refine ⟨fun h => ?_, fun h => absurd h.2 hnone⟩
    cases h
  completeIndices i := by
    have hnone : ¬ Block.Received [] i := fun ⟨_, hmem, _⟩ => List.not_mem_nil hmem
    exact ⟨fun h => absurd h (Finset.notMem_empty i), fun h => absurd h.2 hnone⟩

/-- A data shred of the block is stored. -/
theorem store (h : state.Stores b received) {shred : Shred} (hmem : shred ∈ b.data)
    (receivedAt : ℕ) : (state.store shred receivedAt).Stores b (received ++ [shred]) where
  dataShreds i other := by
    have hget := Block.getElem?_index hmem
    rw [received_concat (b.data_isData shred hmem)]
    change (state.dataShreds.insert shred.index shred).lookup i = some other ↔ _
    by_cases hi : i = shred.index
    · rw [hi, AList.lookup_insert, hget]
      exact ⟨fun heq => ⟨heq, Or.inr rfl⟩, fun heq => heq.1⟩
    · rw [AList.lookup_insert_ne hi, h.dataShreds, or_iff_left (Ne.symm hi)]
  completeIndices i := by
    have hget := Block.getElem?_index hmem
    rw [received_concat (b.data_isData shred hmem)]
    change i ∈ (if shred.dataComplete then insert shred.index state.completeIndices
      else state.completeIndices) ↔ _
    by_cases hi : i = shred.index
    · have hends : b.EndsAt i ↔ shred.dataComplete = true := by
        rw [hi]
        constructor
        · rintro ⟨other, hother, hcomplete⟩
          rw [hget] at hother
          rwa [Option.some.inj hother]
        · exact fun hcomplete => ⟨shred, hget, hcomplete⟩
      rw [hends]
      split_ifs with hcomplete
      · simp [hi, hcomplete]
      · rw [h.completeIndices, hends]
        simp [hcomplete]
    · rw [or_iff_left (Ne.symm hi), ← h.completeIndices]
      split_ifs
      · rw [Finset.mem_insert, or_iff_right hi]
      · rfl

/-- The payloads of a range are there if its shreds were received, which are those of the block. -/
lemma payloadsOf_eq_some (h : state.Stores b received) {s e : ℕ} (he : e < b.data.length)
    (hreceived : ∀ i, s ≤ i → i ≤ e → Block.Received received i) :
    payloadsOf state.dataShreds (s, e) =
      some (((b.data.drop s).take (e + 1 - s)).map Shred.payload) := by
  refine List.mapM_eq_some_iff.mpr ?_
  have hlookup : ∀ i ∈ rangeInclusive s e, state.dataShreds.lookup i = b.data[i]? := by
    intro i hi
    obtain ⟨hs, hle⟩ := mem_rangeInclusive.mp hi
    have hget : b.data[i]? = some b.data[i] := List.getElem?_eq_getElem (hle.trans_lt he)
    rw [hget, h.dataShreds]
    exact ⟨hget, hreceived i hs hle⟩
  have hsome : ∀ i ∈ rangeInclusive s e, (b.data[i]?).isSome = true := by
    intro i hi
    rw [List.getElem?_eq_getElem ((mem_rangeInclusive.mp hi).2.trans_lt he), Option.isSome_some]
  have hpayloads : ∀ i ∈ rangeInclusive s e, (state.dataShreds.lookup i).map Shred.payload =
      (b.data[i]?).map Shred.payload := by
    intro i hi
    rw [hlookup i hi]
  rw [← Block.filterMap_getElem?_range', List.map_congr_left hpayloads]
  exact List.map_eq_map_filterMap Shred.payload hsome

/-- Only then are they there. -/
lemma received_of_payloadsOf (h : state.Stores b received) {range : ℕ × ℕ}
    (hsome : (payloadsOf state.dataShreds range).isSome = true) {i : ℕ} (hs : range.1 ≤ i)
    (hle : i ≤ range.2) : Block.Received received i := by
  obtain ⟨payloads, hpayloads⟩ := Option.isSome_iff_exists.mp hsome
  have hmap := List.mapM_eq_some_iff.mp hpayloads
  have hmem : (state.dataShreds.lookup i).map Shred.payload ∈ payloads.map some := by
    rw [← hmap]
    exact List.mem_map_of_mem (mem_rangeInclusive.mpr ⟨hs, hle⟩)
  obtain ⟨payload, -, heq⟩ := List.mem_map.mp hmem
  obtain ⟨shred, hshred, -⟩ := Option.map_eq_some_iff.mp heq.symm
  exact ((h.dataShreds i shred).mp hshred).2

end SlotState.Stores

/-- The state of a slot holds what was received of a block, and the data sets that were complete are
decoded. -/
structure SlotState.Follows (b : Block) (received : List Shred) (state : SlotState) : Prop extends
    state.Stores b received where
  /-- The data sets. -/
  processedEnds : ∀ e, e ∈ state.processedEnds ↔ ∃ s, Complete b received s e

section Ranges

variable {b : Block} {received received' : List Shred} {state : SlotState}

/-- The ranges that the loop decodes are the data sets that the shred completes. -/
lemma mem_new_iff (h : state.Stores b received')
    (hprocessed : ∀ e, e ∈ state.processedEnds ↔ ∃ s, Complete b received s e) (s e : ℕ) :
    (s, e) ∈ state.newRanges ↔ Complete b received' s e ∧ ¬ Complete b received s e := by
  have hcut : (s, e) ∈ cutAt 0 (state.completeIndices.sort (· ≤ ·)) ↔
      Segment (fun i => b.EndsAt i ∧ Block.Received received' i) s e := by
    have hmarks : ∀ j, j ∈ state.completeIndices.sort (· ≤ ·) ↔
        (b.EndsAt j ∧ Block.Received received' j) ∧ 0 ≤ j := by
      intro j
      rw [Finset.mem_sort, h.completeIndices, and_iff_left (Nat.zero_le j)]
    rw [mem_cutAt_iff (Finset.sortedLT_sort _).pairwise hmarks (Or.inl rfl)]
    exact and_iff_left (Nat.zero_le s)
  rw [SlotState.newRanges, List.mem_filter, decide_eq_true_eq, hcut]
  constructor
  · intro ⟨hsegment, hfresh, hsome⟩
    have hreceived : ∀ i, s ≤ i → i ≤ e → Block.Received received' i :=
      fun i hs hle => h.received_of_payloadsOf hsome hs hle
    refine ⟨⟨⟨hsegment.le, hsegment.ends.1, hsegment.starts.imp_right And.left, ?_⟩, hreceived,
      hsegment.starts.imp_right And.right⟩, fun hold => hfresh ((hprocessed e).mpr ⟨s, hold⟩)⟩
    exact fun j hs hlt hends => hsegment.inner j hs hlt ⟨hends, hreceived j hs hlt.le⟩
  · intro ⟨⟨hsegment, hreceived, hbefore⟩, hnot⟩
    have hlt : e < b.data.length := by
      obtain ⟨shred, hget, -⟩ := hsegment.ends
      exact (List.getElem?_eq_some_iff.mp hget).1
    refine ⟨⟨hsegment.le, ⟨hsegment.ends, hreceived e hsegment.le le_rfl⟩, ?_, ?_⟩, ?_, ?_⟩
    · rcases hsegment.starts with h0 | hends
      · exact Or.inl h0
      · exact hbefore.imp_right fun hlast => ⟨hends, hlast⟩
    · exact fun j hs hj hends => hsegment.inner j hs hj hends.1
    · intro hmem
      obtain ⟨s', hold⟩ := (hprocessed e).mp hmem
      rw [hsegment.start_eq hold.1] at hnot
      exact hnot hold
    · rw [h.payloadsOf_eq_some hlt hreceived, Option.isSome_some]

/-- A complete data set triggers on what it touches. -/
lemma rangeTouches_eq (lib : ShredLibrary) (watchWallet : Key) (h : state.Stores b received)
    {range : ℕ × ℕ} (hcomplete : Complete b received range.1 range.2) :
    rangeTouches lib watchWallet state.dataShreds range = blockTouches lib watchWallet b range := by
  have hlt : range.2 < b.data.length := by
    obtain ⟨shred, hget, -⟩ := hcomplete.1.ends
    exact (List.getElem?_eq_some_iff.mp hget).1
  have hpayloads := h.payloadsOf_eq_some hlt hcomplete.2.1
  unfold rangeTouches blockTouches Block.decoded Deshred.decode
  rw [show payloadsOf state.dataShreds range = _ from hpayloads, Option.elim_some, touchesOf]
  cases lib.agave.deshred _ with
  | none => rfl
  | some bytes =>
    rw [Option.bind_some, Option.bind_some]
    cases lib.agave.deserialize bytes <;> rfl

/-- Later a data set is complete if it was. -/
theorem Complete.concat {shred : Shred} {s e : ℕ} (h : Complete b received s e) :
    Complete b (received ++ [shred]) s e :=
  ⟨h.1, fun i hs hle => (h.2.1 i hs hle).append shred,
    h.2.2.imp_right fun hlast => hlast.append shred⟩

end Ranges

/-! ### Runs -/

section Run

variable (lib : ShredLibrary) (watchWallet : Key) (ttl : ℕ)

/-- The data shreds of a slot that came since it was dropped for the last time, and when the last of
them came. -/
def hear (slot : ℕ) (heard : Option (List Shred × ℕ)) : Event → Option (List Shred × ℕ)
  | .packet packet =>
    match dataShred lib packet with
    | none => heard
    | some shred =>
      if shred.slot = slot then some (heard.elim [] Prod.fst ++ [shred], packet.receivedAt)
      else heard
  | .prune now => heard.filter fun h => now - h.2 < ttl

/-- The data shreds of a slot in some events, since it was dropped for the last time. -/
def heardOf (slot : ℕ) (events : List Event) : List Shred :=
  (events.foldl (hear lib ttl slot) none).elim [] Prod.fst

/-- The signatures that triggered since they were forgotten for the last time. -/
def triggered (outputs : List (List (ℕ × Signature) × Bool)) : List Signature :=
  outputs.foldl (fun sigs output => if output.2 then [] else sigs ++ output.1.map Prod.snd) []

lemma triggered_concat (outputs : List (List (ℕ × Signature) × Bool))
    (output : List (ℕ × Signature) × Bool) :
    triggered (outputs ++ [output]) =
      if output.2 then [] else triggered outputs ++ output.1.map Prod.snd := by
  unfold triggered
  rw [List.foldl_append, List.foldl_cons, List.foldl_nil]

/-- A packet without a data shred changes nothing. -/
lemma ingestShred_of_none {packet : ShredPacket} (hpacket : dataShred lib packet = none)
    (d : Decoder) : ingestShred lib watchWallet d packet = (d, []) := by
  unfold ingestShred
  rw [hpacket]

/-- The triggers of a packet have signatures that are new and that differ. -/
lemma ingestShred_fresh (d : Decoder) (packet : ShredPacket) :
    let result := ingestShred lib watchWallet d packet
    (result.2.map Prod.snd).Nodup ∧ (∀ sig ∈ result.2.map Prod.snd, sig ∉ d.seenTriggers) ∧
      result.1.seenTriggers = d.seenTriggers ∪ (result.2.map Prod.snd).toFinset := by
  intro result
  unfold result
  cases hpacket : dataShred lib packet with
  | none =>
    rw [ingestShred_of_none lib watchWallet hpacket]
    simp
  | some shred =>
    rw [ingestShred_eq lib watchWallet hpacket]
    dsimp only
    generalize (stored d shred packet.receivedAt).newRanges.flatMap _ = sigs
    have hsnd : (((sigs.firstsBy id).filter (· ∉ d.seenTriggers)).map
        fun sig => (shred.slot, sig)).map Prod.snd =
        (sigs.firstsBy id).filter (· ∉ d.seenTriggers) := by
      rw [List.map_map]
      exact List.map_id _
    rw [hsnd]
    refine ⟨List.Nodup.filter _ ?_, fun sig hsig => by simpa using (List.mem_filter.mp hsig).2, ?_⟩
    · have := List.nodup_map_firstsBy id sigs
      rwa [List.map_id] at this
    · ext sig
      have hfirst : sig ∈ sigs.firstsBy id ↔ sig ∈ sigs := by
        have := List.exists_mem_firstsBy_iff id (l := sigs) (k := sig)
        simpa using this
      simp only [Finset.mem_union, List.mem_toFinset, List.mem_filter, decide_eq_true_eq, hfirst]
      tauto

/-- The decoder remembers the signatures that triggered, and none of them triggers twice. -/
lemma seenTriggers_run (events : List Event) :
    let outputs := Machine.outputs (step lib watchWallet ttl) Decoder.start events
    (triggered outputs).Nodup ∧
      (Machine.finalState (step lib watchWallet ttl) Decoder.start events).seenTriggers =
        (triggered outputs).toFinset := by
  refine Machine.run_induction _ (P := fun _ (d : Decoder) outputs =>
    (triggered outputs).Nodup ∧ d.seenTriggers = (triggered outputs).toFinset)
    ⟨List.nodup_nil, rfl⟩ ?_ events
  intro _ event d outputs ⟨hnodup, hseen⟩
  rw [triggered_concat]
  cases event with
  | packet packet =>
    obtain ⟨hnew, hfresh, hseen'⟩ := ingestShred_fresh lib watchWallet d packet
    change (triggered outputs ++ (ingestShred lib watchWallet d packet).2.map Prod.snd).Nodup ∧
      (ingestShred lib watchWallet d packet).1.seenTriggers =
        (triggered outputs ++ (ingestShred lib watchWallet d packet).2.map Prod.snd).toFinset
    refine ⟨List.Nodup.append hnodup hnew ?_, ?_⟩
    · intro sig hold hsig
      exact hfresh sig hsig (hseen ▸ List.mem_toFinset.mpr hold)
    · rw [hseen', hseen, List.toFinset_append]
  | prune now =>
    change (if decide (d.seenTriggers.card > 100000) = true then []
        else triggered outputs ++ []).Nodup ∧
      (if d.seenTriggers.card > 100000 then ∅ else d.seenTriggers) =
        (if decide (d.seenTriggers.card > 100000) = true then []
          else triggered outputs ++ []).toFinset
    rw [List.append_nil]
    by_cases hmany : d.seenTriggers.card > 100000
    · rw [if_pos hmany, if_pos (decide_eq_true hmany)]
      exact ⟨List.nodup_nil, rfl⟩
    · rw [if_neg hmany, if_neg (by simpa using hmany)]
      exact ⟨hnodup, hseen⟩

/-- The state of the slot of a block is what was heard of it. -/
def Knows (b : Block) : Option (List Shred × ℕ) → Option SlotState → Prop :=
  Option.Rel fun heard state => state.Follows b heard.1 ∧ state.lastReceived = heard.2

variable {b : Block} {heard : Option (List Shred × ℕ)} {d : Decoder}

/-- A slot that is not there is as one of which nothing was heard. -/
theorem Knows.getD (h : Knows b heard (d.slots.lookup b.slot)) (receivedAt : ℕ) :
    ((d.slots.lookup b.slot).getD (SlotState.new receivedAt)).Follows b
      (heard.elim [] Prod.fst) := by
  revert h
  cases heard with
  | none =>
    cases d.slots.lookup b.slot with
    | none =>
      intro
      refine ⟨.new b receivedAt, fun e => ⟨fun h => absurd h (Finset.notMem_empty e), ?_⟩⟩
      rintro ⟨s, hsegment, hreceived, -⟩
      obtain ⟨_, hmem, -⟩ := hreceived e hsegment.le le_rfl
      exact absurd hmem List.not_mem_nil
    | some state => exact fun h => nomatch h
  | some heard =>
    cases d.slots.lookup b.slot with
    | none => exact fun h => nomatch h
    | some state =>
      rintro (⟨hfollows, -⟩ | _)
      exact hfollows

/-- A data shred of the block is stored, and the data sets that it completes are decoded. -/
theorem SlotState.Follows.store {received : List Shred} {state : SlotState}
    (h : state.Follows b received) {shred : Shred} (hmem : shred ∈ b.data) (receivedAt : ℕ) :
    let state' := state.store shred receivedAt
    SlotState.Follows b (received ++ [shred])
      { state' with
        processedEnds := state'.processedEnds ∪ (state'.newRanges.map Prod.snd).toFinset } := by
  intro state'
  have hstores : state'.Stores b (received ++ [shred]) := h.toStores.store hmem receivedAt
  refine ⟨⟨hstores.1, hstores.2⟩, fun e => ?_⟩
  have hnew := mem_new_iff hstores h.processedEnds
  rw [Finset.mem_union, List.mem_toFinset, List.mem_map]
  constructor
  · rintro (hold | ⟨⟨s, _⟩, hrange, rfl⟩)
    · obtain ⟨s, hs⟩ := (h.processedEnds e).mp hold
      exact ⟨s, hs.concat⟩
    · exact ⟨s, ((hnew s _).mp hrange).1⟩
  · intro ⟨s, hs⟩
    by_cases hold : Complete b received s e
    · exact Or.inl ((h.processedEnds e).mpr ⟨s, hold⟩)
    · exact Or.inr ⟨(s, e), (hnew s e).mpr ⟨hs, hold⟩, rfl⟩

/-- A step keeps what is known of the slot. -/
theorem Knows.step (h : Knows b heard (d.slots.lookup b.slot)) (event : Event)
    (hblock : ∀ packet shred, event = .packet packet → dataShred lib packet = some shred →
      shred.slot = b.slot → shred ∈ b.data) :
    Knows b (hear lib ttl b.slot heard event)
      ((step lib watchWallet ttl d event).1.slots.lookup b.slot) := by
  cases event with
  | packet packet =>
    change Knows b _ ((ingestShred lib watchWallet d packet).1.slots.lookup b.slot)
    dsimp only [hear]
    cases hpacket : dataShred lib packet with
    | none =>
      rw [ingestShred_of_none lib watchWallet hpacket]
      exact h
    | some shred =>
      rw [ingestShred_eq lib watchWallet hpacket]
      dsimp only
      by_cases hslot : shred.slot = b.slot
      · have hmem := hblock packet shred rfl hpacket hslot
        unfold stored
        rw [if_pos hslot, hslot, AList.lookup_insert]
        exact .some ⟨(h.getD packet.receivedAt).store hmem packet.receivedAt, rfl⟩
      · rw [if_neg hslot, AList.lookup_insert_ne (Ne.symm hslot)]
        exact h
  | prune now =>
    change Knows b (heard.filter _) ((d.slots.retain _).lookup b.slot)
    rw [AList.lookup_retain]
    generalize d.slots.lookup b.slot = state at h
    cases h with
    | none => exact .none
    | some h =>
      obtain ⟨hfollows, hlast⟩ := h
      rw [Option.filter_some, Option.filter_some, hlast]
      split_ifs
      · exact .some ⟨hfollows, hlast⟩
      · exact .none

/-- What the packets bring of the slot of a block are data shreds of the block. -/
def Brings (b : Block) (events : List Event) : Prop :=
  ∀ packet shred, .packet packet ∈ events → dataShred lib packet = some shred →
    shred.slot = b.slot → shred ∈ b.data

/-- After every run the state of the slot is what was heard of it. -/
lemma knows_run {events : List Event} (hblock : Brings lib b events) :
    Knows b (events.foldl (hear lib ttl b.slot) none)
      ((Machine.finalState (step lib watchWallet ttl) Decoder.start events).slots.lookup
        b.slot) := by
  refine Machine.run_induction _ (P := fun events (d : Decoder) _ => Brings lib b events →
    Knows b (events.foldl (hear lib ttl b.slot) none) (d.slots.lookup b.slot)) ?_ ?_ events hblock
  · exact fun _ => Option.Rel.none
  intro events event d _ ih hblock
  rw [List.foldl_append, List.foldl_cons, List.foldl_nil]
  have hbefore : Brings lib b events := fun packet shred hmem =>
    hblock packet shred (List.mem_append_left _ hmem)
  refine (ih hbefore).step lib watchWallet ttl event fun packet shred heq => ?_
  exact hblock packet shred (heq ▸ List.mem_append_right _ (List.mem_singleton_self _))

/-- **A shred triggers exactly on what it completes.**  Whatever else the packets bring, and
whenever slots are dropped and signatures forgotten: if what they bring of one slot are data shreds
of a well-formed block, then a data shred of the block triggers on the transactions that touch the
wallet in the data sets that it completes among those heard since the slot was dropped for the last
time, in order, each signature once, and none that triggered since they were forgotten for the last
time. -/
theorem ingest_shred_triggers {events : List Event} {packet : ShredPacket} {shred : Shred}
    (hblock : Brings lib b (events ++ [.packet packet]))
    (hpacket : dataShred lib packet = some shred) (hslot : shred.slot = b.slot) :
    let d := Machine.finalState (step lib watchWallet ttl) Decoder.start events
    let before := triggered (Machine.outputs (step lib watchWallet ttl) Decoder.start events)
    let received := heardOf lib ttl b.slot events
    ∃ completed : List (ℕ × ℕ),
      completed.Pairwise (fun range range' => range.2 < range'.1) ∧
        (∀ s e, (s, e) ∈ completed ↔
          Complete b (received ++ [shred]) s e ∧ ¬ Complete b received s e) ∧
        (ingestShred lib watchWallet d packet).2 =
          (((completed.flatMap (blockTouches lib watchWallet b)).firstsBy id).filter
            (· ∉ before)).map fun sig => (b.slot, sig) := by
  intro d before received
  have hbefore : Brings lib b events := fun packet shred hmem =>
    hblock packet shred (List.mem_append_left _ hmem)
  have hmem : shred ∈ b.data :=
    hblock packet shred (List.mem_append_right _ (List.mem_singleton_self _)) hpacket hslot
  have hfollows := (knows_run lib watchWallet ttl hbefore).getD packet.receivedAt
  have hseen : d.seenTriggers = before.toFinset := (seenTriggers_run lib watchWallet ttl events).2
  set state := stored d shred packet.receivedAt with hstate
  have hstores : state.Stores b (received ++ [shred]) := by
    rw [hstate, stored, hslot]
    exact hfollows.toStores.store hmem packet.receivedAt
  have hprocessed : ∀ e, e ∈ state.processedEnds ↔ ∃ s, Complete b received s e := by
    rw [hstate, stored, hslot]
    exact hfollows.processedEnds
  refine ⟨state.newRanges, ?_, mem_new_iff hstores hprocessed, ?_⟩
  · exact (pairwise_cutAt (Finset.sortedLT_sort _).pairwise).filter _
  · have htouches : state.newRanges.flatMap (rangeTouches lib watchWallet state.dataShreds) =
        state.newRanges.flatMap (blockTouches lib watchWallet b) :=
      List.flatMap_congr fun range hrange =>
        rangeTouches_eq lib watchWallet hstores ((mem_new_iff hstores hprocessed _ _).mp hrange).1
    rw [ingestShred_eq lib watchWallet hpacket, ← hstate, htouches, hseen, hslot]
    simp only [List.mem_toFinset]

end Run

/-- Whatever packets come, they bring data shreds of `pair`. -/
lemma brings_pair (events : List Event) : Brings Audit.pairLibrary Block.pair events := by
  intro packet shred _ hpacket _
  obtain ⟨hfound, hdata⟩ := Option.filter_eq_some_iff.mp hpacket
  rcases List.mem_append.mp (List.mem_of_find?_eq_some hfound) with hmem | hmem
  · exact hmem
  · have hcoding : ∀ shred ∈ Block.pair.fecSets.flatMap Deshred.FecSet.coding,
        shred.isData = false := by
      decide
    rw [hcoding shred hmem] at hdata
    exact Bool.noConfusion hdata

/-- The second shred of `pair` triggers on the vote. -/
theorem ingest_shred_triggers_pair :
    let wallet := Vector.replicate 32 0
    let d := Machine.finalState (step Audit.pairLibrary wallet 10) Decoder.start
      [.packet ⟨[1], 0⟩, .prune 9]
    (7, Vector.replicate 64 0) ∈ (ingestShred Audit.pairLibrary wallet d ⟨[2], 9⟩).2 := by
  intro wallet d
  have hsecond : dataShred Audit.pairLibrary ⟨[2], 9⟩ = Block.pair.data[1]? := by decide
  obtain ⟨completed, -, hcompleted, hhits⟩ := ingest_shred_triggers Audit.pairLibrary wallet 10
    (brings_pair ([.packet ⟨[1], 0⟩, .prune 9] ++ [.packet ⟨[2], 9⟩])) hsecond rfl
  have hheard : heardOf Audit.pairLibrary 10 Block.pair.slot [.packet ⟨[1], 0⟩, .prune 9] =
      Block.pair.data.take 1 := by
    decide
  have hmem : (0, 1) ∈ completed := by
    rw [hcompleted, hheard]
    refine ⟨⟨Audit.pair_decodable.1, ?_, Or.inl rfl⟩, fun hcomplete => ?_⟩
    · intro i _ hi
      unfold Block.Received
      rcases Nat.le_one_iff_eq_zero_or_eq_one.mp hi with rfl | rfl <;> decide
    · obtain ⟨shred, hshred, -, hindex⟩ := hcomplete.2.1 1 (by decide) le_rfl
      rw [List.mem_singleton.mp hshred] at hindex
      exact absurd hindex (by decide)
  have hvote : Vector.replicate 64 0 ∈ blockTouches Audit.pairLibrary wallet Block.pair (0, 1) := by
    decide
  have hbefore : triggered (Machine.outputs (step Audit.pairLibrary wallet 10) Decoder.start
      [.packet ⟨[1], 0⟩, .prune 9]) = [] := by
    decide +kernel
  rw [hbefore] at hhits
  rw [hhits]
  refine List.mem_map.mpr ⟨_, List.mem_filter.mpr ⟨?_, rfl⟩, rfl⟩
  have := (List.exists_mem_firstsBy_iff id (k := Vector.replicate 64 (0 : UInt8))).mpr
    ⟨_, List.mem_flatMap_of_mem hmem hvote, rfl⟩
  simpa using this

end ShredTools.Example
