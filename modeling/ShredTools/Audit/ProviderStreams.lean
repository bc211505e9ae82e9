import ShredTools.Audit.VotePaths
import ShredTools.Deshred.Decodable

/-!
# Transactions from the shreds of each provider

The transaction comparison keeps a deshredder for each shred provider.  `ingest` takes a shred of
one provider, inserts it into the deshredder of that provider, and records every transaction of the
data sets that this completes as delivered by the provider.  Its outputs here are the calls of
`record_first`, in order.

A provider is judged by its own shreds alone (`ingest_isolated`), and a shred of a well-formed block
delivers exactly the transactions of the data sets that it makes decodable (`ingest_delivers`).

`Follows` is the invariant for one provider: its deshredder is the one that its own shreds give, and
its counters are those of the shreds that were fed for it.  Shreds that the full channel drops are
counted, and never reach the reconstruction.  `Decodable` data sets are taken from the shred level,
and their transactions are read in the order of the entries, each with the stamp of the shred that
completed the set.
-/

namespace ShredTools.Audit

open Deshred (Agave CompletedDataSet Shred TakenDataSet takenAlong)

/-- `Entry`, what is read of it. -/
structure Entry where
  /-- The transactions. -/
  transactions : List VersionedTransaction

/-- `CompletedDataSet::transactions` -/
def transactions (set : CompletedDataSet Entry) : List VersionedTransaction :=
  set.entries.flatMap Entry.transactions

/-- `first_signature` -/
def firstSignature (tx : VersionedTransaction) : Option Signature := tx.signatures.head?

/-- The libraries that the reconstruction calls. -/
structure ShredLibrary where
  /-- `Shred::new_from_serialized_shred`, whose error is not read. -/
  newFromSerializedShred : List UInt8 → Option Shred
  /-- The functions that the deshredder calls. -/
  agave : Agave Entry
  /-- `VersionedMessage::address_table_lookups` -/
  addressTableLookups : VersionedMessage → Option (List Key)

/-- `deshred::Deshredder::insert_bytes` -/
def insertBytes (lib : ShredLibrary) (stream : Deshred.Deshredder) (payload : List UInt8) :
    Option (Deshred.Deshredder × List (CompletedDataSet Entry)) :=
  (lib.newFromSerializedShred payload).map fun shred =>
    let (stream, taken) := stream.insertShred lib.agave shred
    (stream, Deshred.completedDataSets taken)

/-- `ShredInput` -/
structure ShredInput where
  /-- The kernel's receive stamp. -/
  rxUnixNs : ℤ
  /-- The provider. -/
  provider : ℕ
  /-- The bytes of the shred. -/
  data : List UInt8
  deriving DecidableEq

/-- `ProviderCounters` -/
structure ProviderCounters where
  /-- Shreds that reached the deshredder. -/
  fed : ℕ
  /-- Shreds that found the queue full. -/
  dropped : ℕ
  /-- Shreds that would not parse. -/
  parseErrors : ℕ
  /-- Recoveries that failed. -/
  recoveryErrors : ℕ
  /-- Complete data sets that would not decode. -/
  decodeErrors : ℕ
  /-- Complete data sets that did. -/
  dataSets : ℕ
  deriving DecidableEq

/-- `ProviderCounters::default` -/
def ProviderCounters.default : ProviderCounters := ⟨0, 0, 0, 0, 0, 0⟩

/-- `Deshredder`, for `p` providers: their counters, which are shared with the feeding thread, and
the deshredder of each.  A provider that sent nothing yet has the one that it would be given. -/
structure Deshredder (p : ℕ) where
  /-- The counters. -/
  metrics : Fin p → ProviderCounters
  /-- The deshredders. -/
  streams : Fin p → Deshred.Deshredder

namespace Deshredder

variable {p : ℕ}

/-- `Deshredder::new`, with new counters. -/
def new (p : ℕ) : Deshredder p where
  metrics _ := ProviderCounters.default
  streams _ := Deshred.Deshredder.default

/-- `DeshredMetrics::record_dropped` -/
def recordDropped (provider : ℕ) (d : Deshredder p) : Deshredder p :=
  if h : provider < p then
    let counters := d.metrics ⟨provider, h⟩
    { d with
      metrics := Function.update d.metrics ⟨provider, h⟩
        { counters with dropped := counters.dropped + 1 } }
  else d

/-- The body of the loop of `ingest` over the transactions of a data set: what is recorded of a
transaction, if it has a signature.  The gRPC sources come after the providers. -/
def delivery (lib : ShredLibrary) (g : ℕ) (provider : Fin p) (rxUnixNs : ℤ) (slot : ℕ)
    (tx : VersionedTransaction) : Option (Delivery (p + g)) :=
  (firstSignature tx).map fun sig =>
    let vote := isVote lib.addressTableLookups tx
    { sid := Fin.castAdd g provider
      sig := sig
      ns := rxUnixNs
      slot := slot
      txnMeta := { TxnMeta.default with isVote := some vote, version := some (version tx vote) } }

/-- The loop of `ingest` over the data sets. -/
def deliveries (lib : ShredLibrary) (g : ℕ) (provider : Fin p) (rxUnixNs : ℤ)
    (completed : List (CompletedDataSet Entry)) : List (Delivery (p + g)) :=
  completed.flatMap fun set =>
    (transactions set).filterMap (delivery lib g provider rxUnixNs set.slot)

/-- `Deshredder::ingest`, with the calls of `record_first`. -/
def ingest (lib : ShredLibrary) (g : ℕ) (d : Deshredder p) (input : ShredInput) :
    Deshredder p × List (Delivery (p + g)) :=
  if h : input.provider < p then
    let provider : Fin p := ⟨input.provider, h⟩
    let counters := d.metrics provider
    let counters := { counters with fed := counters.fed + 1 }
    match insertBytes lib (d.streams provider) input.data with
    | none =>
      let counters := { counters with parseErrors := counters.parseErrors + 1 }
      ({ d with metrics := Function.update d.metrics provider counters }, [])
    | some (stream, completed) =>
      let counters :=
        { counters with
          recoveryErrors := stream.stats.recoveryErrors
          decodeErrors := stream.stats.decodeErrors
          dataSets := counters.dataSets + completed.length }
      ({ metrics := Function.update d.metrics provider counters
         streams := Function.update d.streams provider stream },
        deliveries lib g provider input.rxUnixNs completed)
  else (d, [])

/-- The calls of `record_first` reach the registry one after the other. -/
def record {n : ℕ} (reg : SigRegistry n) (calls : List (Delivery n)) : SigRegistry n :=
  calls.foldl SigRegistry.recordFirst reg

end Deshredder

/-! ### One shred -/

section Step

variable {p : ℕ} (lib : ShredLibrary) (g : ℕ) (d : Deshredder p) {input : ShredInput}

/-- A packet of an unknown provider does nothing. -/
lemma ingest_of_unknown (h : ¬ input.provider < p) : d.ingest lib g input = (d, []) :=
  dif_neg h

/-- A packet that does not parse is counted. -/
lemma ingest_of_unparsed {provider : Fin p} (hprovider : input.provider = provider)
    (hparse : lib.newFromSerializedShred input.data = none) :
    d.ingest lib g input =
      ({ d with
         metrics := Function.update d.metrics provider
           { d.metrics provider with
             fed := (d.metrics provider).fed + 1
             parseErrors := (d.metrics provider).parseErrors + 1 } }, []) := by
  have hlt : input.provider < p := hprovider ▸ provider.isLt
  obtain rfl : (⟨input.provider, hlt⟩ : Fin p) = provider := Fin.ext hprovider
  unfold Deshredder.ingest insertBytes
  rw [dif_pos hlt, hparse]
  rfl

/-- A shred goes to the deshredder of its provider. -/
lemma ingest_of_parsed {provider : Fin p} (hprovider : input.provider = provider) {shred : Shred}
    (hparse : lib.newFromSerializedShred input.data = some shred) :
    d.ingest lib g input =
      let stream := ((d.streams provider).insertShred lib.agave shred).1
      let completed :=
        Deshred.completedDataSets ((d.streams provider).insertShred lib.agave shred).2
      ({ metrics := Function.update d.metrics provider
           { d.metrics provider with
             fed := (d.metrics provider).fed + 1
             recoveryErrors := stream.stats.recoveryErrors
             decodeErrors := stream.stats.decodeErrors
             dataSets := (d.metrics provider).dataSets + completed.length }
         streams := Function.update d.streams provider stream },
        Deshredder.deliveries lib g provider input.rxUnixNs completed) := by
  have hlt : input.provider < p := hprovider ▸ provider.isLt
  obtain rfl : (⟨input.provider, hlt⟩ : Fin p) = provider := Fin.ext hprovider
  unfold Deshredder.ingest insertBytes
  rw [dif_pos hlt, hparse]
  rfl

end Step

/-! ### One provider -/

/-- The inputs of one provider. -/
def ofProvider (provider : ℕ) (inputs : List ShredInput) : List ShredInput :=
  inputs.filter fun input => input.provider = provider

/-- The shreds that one provider sent. -/
def shredsOf (lib : ShredLibrary) (provider : ℕ) (inputs : List ShredInput) : List Shred :=
  (ofProvider provider inputs).filterMap fun input => lib.newFromSerializedShred input.data

lemma ofProvider_concat_self {provider : ℕ} {input : ShredInput}
    (h : input.provider = provider) (inputs : List ShredInput) :
    ofProvider provider (inputs ++ [input]) = ofProvider provider inputs ++ [input] := by
  unfold ofProvider
  rw [List.filter_append, List.filter_cons_of_pos (by simpa using h), List.filter_nil]

lemma ofProvider_concat_of_ne {provider : ℕ} {input : ShredInput}
    (h : input.provider ≠ provider) (inputs : List ShredInput) :
    ofProvider provider (inputs ++ [input]) = ofProvider provider inputs := by
  unfold ofProvider
  rw [List.filter_append, List.filter_cons_of_neg (by simpa using h), List.filter_nil,
    List.append_nil]

lemma shredsOf_concat_self (lib : ShredLibrary) {provider : ℕ} {input : ShredInput}
    (h : input.provider = provider) (inputs : List ShredInput) :
    shredsOf lib provider (inputs ++ [input]) =
      shredsOf lib provider inputs ++ (lib.newFromSerializedShred input.data).toList := by
  unfold shredsOf
  rw [ofProvider_concat_self h, List.filterMap_append]
  cases hparse : lib.newFromSerializedShred input.data <;> simp [hparse]

lemma shredsOf_concat_of_ne (lib : ShredLibrary) {provider : ℕ} {input : ShredInput}
    (h : input.provider ≠ provider) (inputs : List ShredInput) :
    shredsOf lib provider (inputs ++ [input]) = shredsOf lib provider inputs := by
  unfold shredsOf
  rw [ofProvider_concat_of_ne h]

/-- What the counters of a provider say, given its inputs. -/
def countersOf (lib : ShredLibrary) (provider : ℕ) (inputs : List ShredInput) :
    ProviderCounters :=
  let shreds := shredsOf lib provider inputs
  let stats := (Machine.finalState (Deshred.Deshredder.insertShred lib.agave)
    Deshred.Deshredder.default shreds).stats
  { fed := (ofProvider provider inputs).length
    dropped := 0
    parseErrors := (ofProvider provider inputs).length - shreds.length
    recoveryErrors := stats.recoveryErrors
    decodeErrors := stats.decodeErrors
    dataSets := (Deshred.completedDataSets
      (takenAlong lib.agave Deshred.Deshredder.default shreds)).length }

section Run

variable {p : ℕ} (lib : ShredLibrary) (g : ℕ)

/-- A shred of another provider leaves the deshredder of a provider and its counters alone, and
records nothing for it. -/
lemma ingest_other (d : Deshredder p) {input : ShredInput} {q : Fin p}
    (h : input.provider ≠ q) :
    (d.ingest lib g input).1.streams q = d.streams q ∧
      (d.ingest lib g input).1.metrics q = d.metrics q ∧
      ∀ call ∈ (d.ingest lib g input).2, call.sid ≠ Fin.castAdd g q := by
  by_cases hlt : input.provider < p
  · have hne : q ≠ ⟨input.provider, hlt⟩ := by
      rintro rfl
      exact h rfl
    cases hparse : lib.newFromSerializedShred input.data with
    | none =>
      have hprovider : input.provider = (⟨input.provider, hlt⟩ : Fin p) := rfl
      rw [ingest_of_unparsed lib g d hprovider hparse]
      exact ⟨rfl, Function.update_of_ne hne _ _, fun _ hmem => absurd hmem List.not_mem_nil⟩
    | some shred =>
      have hprovider : input.provider = (⟨input.provider, hlt⟩ : Fin p) := rfl
      rw [ingest_of_parsed lib g d hprovider hparse]
      refine ⟨Function.update_of_ne hne _ _, Function.update_of_ne hne _ _, ?_⟩
      intro call hmem hsid
      obtain ⟨set, -, hcall⟩ := List.mem_flatMap.mp hmem
      obtain ⟨tx, -, htx⟩ := List.mem_filterMap.mp hcall
      obtain ⟨sig, -, rfl⟩ := Option.map_eq_some_iff.mp htx
      exact hne (Fin.castAdd_injective p g hsid).symm
  · rw [ingest_of_unknown lib g d hlt]
    exact ⟨rfl, rfl, fun _ hmem => absurd hmem List.not_mem_nil⟩

/-- The deshredder and the counters of a provider are those that its own shreds make, apart from
the drops, which the feeding thread counts. -/
structure Follows (q : Fin p) (inputs : List ShredInput) (dropped : ℕ) (d : Deshredder p) :
    Prop where
  /-- The deshredder. -/
  stream : d.streams q = Machine.finalState (Deshred.Deshredder.insertShred lib.agave)
    Deshred.Deshredder.default (shredsOf lib q inputs)
  /-- The counters. -/
  metrics : d.metrics q = { countersOf lib q inputs with dropped := dropped }

theorem Follows.new (q : Fin p) : Follows lib q [] 0 (Deshredder.new p) := ⟨rfl, rfl⟩

/-- Every shred keeps the deshredder and the counters those of the own shreds. -/
theorem Follows.ingest {q : Fin p} {inputs : List ShredInput} {dropped : ℕ} {d : Deshredder p}
    (h : Follows lib q inputs dropped d) (input : ShredInput) :
    Follows lib q (inputs ++ [input]) dropped (d.ingest lib g input).1 := by
  have hstream := h.stream
  have hmetrics := h.metrics
  by_cases hq : input.provider = q
  · have hlen : (shredsOf lib q inputs).length ≤ (ofProvider q inputs).length :=
      List.length_filterMap_le _ _
    -- what does not parse is counted as malformed, anything else goes to the reconstruction
    cases hparse : lib.newFromSerializedShred input.data with
    | none =>
      have hshreds : shredsOf lib q (inputs ++ [input]) = shredsOf lib q inputs := by
        rw [shredsOf_concat_self lib hq, hparse, Option.toList_none, List.append_nil]
      rw [ingest_of_unparsed lib g _ hq hparse]
      constructor
      · rw [hshreds]
        exact hstream
      · unfold countersOf at hmetrics ⊢
        dsimp only
        rw [Function.update_self, hmetrics, hshreds, ofProvider_concat_self hq, List.length_append,
          List.length_singleton, Nat.sub_add_comm hlen]
    | some shred =>
      have hshreds : shredsOf lib q (inputs ++ [input]) = shredsOf lib q inputs ++ [shred] := by
        rw [shredsOf_concat_self lib hq, hparse, Option.toList_some]
      rw [ingest_of_parsed lib g _ hq hparse]
      constructor
      · dsimp only
        rw [Function.update_self, hstream, hshreds, Machine.finalState_concat]
      · unfold countersOf at hmetrics ⊢
        dsimp only
        rw [Function.update_self, hmetrics, hstream, hshreds, ofProvider_concat_self hq,
          Machine.finalState_concat, Deshred.takenAlong_concat]
        simp only [Deshred.completedDataSets, List.filterMap_append, List.length_append,
          List.length_singleton, Nat.add_sub_add_right]
  · obtain ⟨hstream', hmetrics', -⟩ := ingest_other lib g d hq
    constructor
    · rw [shredsOf_concat_of_ne lib hq]
      exact hstream'.trans hstream
    · unfold countersOf at hmetrics ⊢
      rw [ofProvider_concat_of_ne hq, shredsOf_concat_of_ne lib hq]
      exact hmetrics'.trans hmetrics

/-- A drop is counted for its provider, and changes nothing else. -/
theorem Follows.recordDropped {q : Fin p} {inputs : List ShredInput} {dropped : ℕ}
    {d : Deshredder p} (h : Follows lib q inputs dropped d) (provider : ℕ) :
    Follows lib q inputs (dropped + if provider = q then 1 else 0) (d.recordDropped provider) := by
  unfold Deshredder.recordDropped
  by_cases hlt : provider < p
  · rw [dif_pos hlt]
    refine ⟨h.stream, ?_⟩
    by_cases hq : provider = q
    · obtain rfl : (⟨provider, hlt⟩ : Fin p) = q := Fin.ext hq
      rw [if_pos rfl]
      dsimp only
      rw [Function.update_self, h.metrics]
    · have hne : q ≠ ⟨provider, hlt⟩ := fun heq => hq (congrArg Fin.val heq).symm
      rw [if_neg hq]
      dsimp only
      rw [Function.update_of_ne hne, h.metrics]
      rfl
  · have hq : provider ≠ q := by
      rintro rfl
      exact hlt q.isLt
    rw [dif_neg hlt, if_neg hq]
    exact h

/-- Along every run of shreds the deshredder and the counters are those of the own shreds. -/
theorem follows_run (inputs : List ShredInput) (q : Fin p) :
    Follows lib q inputs 0
      (Machine.finalState (Deshredder.ingest lib g) (Deshredder.new p) inputs) := by
  refine Machine.run_induction (Deshredder.ingest lib g)
    (P := fun inputs d _ => Follows lib q inputs 0 d) (Follows.new lib q) ?_ inputs
  intro inputs input d _ h
  exact h.ingest lib g input

/-- Deshredders that agree on a provider record the same for its next shred. -/
lemma ingest_own {d alone : Deshredder p} {input : ShredInput} {q : Fin p}
    (hstream : d.streams q = alone.streams q) (hq : input.provider = q) :
    (d.ingest lib g input).1.streams q = (alone.ingest lib g input).1.streams q ∧
      (d.ingest lib g input).2 = (alone.ingest lib g input).2 ∧
      ∀ call ∈ (d.ingest lib g input).2, call.sid = Fin.castAdd g q := by
  cases hparse : lib.newFromSerializedShred input.data with
  | none =>
    rw [ingest_of_unparsed lib g d hq hparse, ingest_of_unparsed lib g alone hq hparse]
    exact ⟨hstream, rfl, fun _ hmem => absurd hmem List.not_mem_nil⟩
  | some shred =>
    rw [ingest_of_parsed lib g d hq hparse, ingest_of_parsed lib g alone hq hparse, hstream]
    dsimp only
    refine ⟨by rw [Function.update_self, Function.update_self], rfl, ?_⟩
    intro call hmem
    obtain ⟨set, -, hcall⟩ := List.mem_flatMap.mp hmem
    obtain ⟨tx, -, htx⟩ := List.mem_filterMap.mp hcall
    obtain ⟨sig, -, rfl⟩ := Option.map_eq_some_iff.mp htx
    rfl

/-- What is recorded for a provider is what its own shreds alone record. -/
lemma calls_run (inputs : List ShredInput) (q : Fin p) :
    (Machine.outputs (Deshredder.ingest lib g) (Deshredder.new p) inputs).flatten.filter
        (fun call => call.sid = Fin.castAdd g q) =
      (Machine.outputs (Deshredder.ingest lib g) (Deshredder.new p)
        (ofProvider q inputs)).flatten := by
  let Sees (d alone : Deshredder p) : Prop := d.streams q = alone.streams q
  have hstart : Sees (Deshredder.new p) (Deshredder.new p) := rfl
  refine (Machine.run_project (fun input : ShredInput => input.provider = q)
    (fun call : Delivery (p + g) => call.sid = Fin.castAdd g q) ?_ ?_ hstart).2
  · intro d alone input _ hstream hq
    obtain ⟨hstream', hcalls, hsid⟩ := ingest_own lib g hstream (of_decide_eq_true hq)
    refine ⟨hstream', ?_⟩
    rw [← hcalls, List.filter_eq_self]
    exact fun call hmem => decide_eq_true (hsid call hmem)
  · intro d alone input _ hstream hq
    obtain ⟨hstream', -, hsid⟩ := ingest_other lib g d (of_decide_eq_false hq)
    refine ⟨hstream'.trans hstream, List.filter_eq_nil_iff.mpr ?_⟩
    exact fun call hmem => by simpa using hsid call hmem

/-- **A provider is judged by its own shreds alone.**  However the shreds of the providers mix, the
counters of a provider and the transactions recorded for it are those that its own shreds give by
themselves; every complete data set of these counts as decoded or as a decode error. -/
theorem ingest_isolated (inputs : List ShredInput) (q : Fin p) :
    let run := Machine.finalState (Deshredder.ingest lib g) (Deshredder.new p)
    let calls := fun inputs =>
      (Machine.outputs (Deshredder.ingest lib g) (Deshredder.new p) inputs).flatten
    (run inputs).metrics q = countersOf lib q inputs ∧
      ((run inputs).metrics q).dataSets + ((run inputs).metrics q).decodeErrors =
        (takenAlong lib.agave Deshred.Deshredder.default (shredsOf lib q inputs)).length ∧
      (calls inputs).filter (fun call => call.sid = Fin.castAdd g q) =
        calls (ofProvider q inputs) := by
  have hmetrics := (follows_run lib g inputs q).metrics
  refine ⟨hmetrics, ?_, calls_run lib g inputs q⟩
  rw [hmetrics, ← Deshred.decodeErrors_run]
  exact Nat.add_comm _ _

end Run

/-! ### The transactions of a block -/

section Delivers

variable {p : ℕ} (lib : ShredLibrary) (g : ℕ)

/-- The calls of `record_first` for one data set of a block, if it decodes. -/
def blockDeliveries (q : Fin p) (rxUnixNs : ℤ) (b : Deshred.Block) (range : ℕ × ℕ) :
    List (Delivery (p + g)) :=
  (b.decoded lib.agave range).elim [] fun set =>
    (transactions set).filterMap (Deshredder.delivery lib g q rxUnixNs b.slot)

/-- What is recorded of one slot comes from the data sets of this slot. -/
lemma deliveries_of_slot (q : Fin p) (rxUnixNs : ℤ) (slot : ℕ)
    {taken : List (TakenDataSet Entry)}
    (hslot : ∀ dataSet ∈ taken, ∀ set, dataSet.completed = some set → set.slot = dataSet.slot) :
    (Deshredder.deliveries lib g q rxUnixNs (Deshred.completedDataSets taken)).filter
        (fun call => call.slot = slot) =
      (taken.filter fun dataSet => dataSet.slot = slot).flatMap fun dataSet =>
        dataSet.completed.elim [] fun set =>
          (transactions set).filterMap (Deshredder.delivery lib g q rxUnixNs slot) := by
  induction taken with
  | nil => rfl
  | cons dataSet taken ih =>
    have ih' := ih fun other hmem => hslot other (List.mem_cons_of_mem _ hmem)
    have hown := hslot dataSet List.mem_cons_self
    unfold Deshredder.deliveries Deshred.completedDataSets at ih' ⊢
    cases hcompleted : dataSet.completed with
    | none =>
      rw [List.filterMap_cons_none hcompleted, ih']
      by_cases hs : dataSet.slot = slot
      · rw [List.filter_cons_of_pos (by simpa using hs), List.flatMap_cons, hcompleted]
        rfl
      · rw [List.filter_cons_of_neg (by simpa using hs)]
    | some set =>
      have hset := hown set hcompleted
      have hcalls : ∀ call ∈ (transactions set).filterMap
          (Deshredder.delivery lib g q rxUnixNs set.slot), call.slot = set.slot := by
        intro call hmem
        obtain ⟨tx, -, htx⟩ := List.mem_filterMap.mp hmem
        obtain ⟨sig, -, rfl⟩ := Option.map_eq_some_iff.mp htx
        rfl
      rw [List.filterMap_cons_some hcompleted, List.flatMap_cons, List.filter_append, ih']
      by_cases hs : dataSet.slot = slot
      · rw [List.filter_cons_of_pos (by simpa using hs), List.flatMap_cons, hcompleted,
          List.filter_eq_self.mpr, hset, hs]
        · rfl
        · intro call hmem
          rw [decide_eq_true_eq, hcalls call hmem, hset, hs]
      · rw [List.filter_cons_of_neg (by simpa using hs), List.filter_eq_nil_iff.mpr,
          List.nil_append]
        intro call hmem
        rw [decide_eq_true_eq, hcalls call hmem, hset]
        exact hs

/-- **A shred delivers exactly the transactions that it makes decodable.**  Whatever other providers
send, and whatever this provider sends of other slots: if its shreds of one slot are shreds of a
well-formed block and none evicts the slot, the next shred records for it, with its own stamp, the
transactions of the data sets of the block that could not be decoded before, each data set once. -/
theorem ingest_delivers {b : Deshred.Block} (hrec : lib.agave.Recovers b)
    {inputs : List ShredInput} {input : ShredInput} {q : Fin p}
    (hgenuine : ∀ shred ∈ shredsOf lib q (inputs ++ [input]), shred.slot = b.slot →
      shred ∈ b.shreds)
    (hkeep : ∀ shred ∈ shredsOf lib q (inputs ++ [input]), Deshred.evicts b.slot shred = false) :
    let d := Machine.finalState (Deshredder.ingest lib g) (Deshredder.new p) inputs
    let received := fun inputs => Deshred.ofSlot b.slot (shredsOf lib q inputs)
    ∃ ranges : List (ℕ × ℕ), ranges.Nodup ∧
      (∀ s e, (s, e) ∈ ranges ↔ b.Decodable (received (inputs ++ [input])) s e ∧
        ¬ b.Decodable (received inputs) s e) ∧
      (d.ingest lib g input).2.filter
          (fun call => call.sid = Fin.castAdd g q ∧ call.slot = b.slot) =
        ranges.flatMap (blockDeliveries lib g q input.rxUnixNs b) := by
  intro d received
  -- a step that records nothing for the provider makes nothing decodable
  have hnone : (d.ingest lib g input).2.filter
      (fun call => call.sid = Fin.castAdd g q ∧ call.slot = b.slot) = [] →
      shredsOf lib q (inputs ++ [input]) = shredsOf lib q inputs →
      ∃ ranges : List (ℕ × ℕ), ranges.Nodup ∧
        (∀ s e, (s, e) ∈ ranges ↔ b.Decodable (received (inputs ++ [input])) s e ∧
          ¬ b.Decodable (received inputs) s e) ∧
        (d.ingest lib g input).2.filter
            (fun call => call.sid = Fin.castAdd g q ∧ call.slot = b.slot) =
          ranges.flatMap (blockDeliveries lib g q input.rxUnixNs b) := by
    intro hcalls hsame
    refine ⟨[], List.nodup_nil, fun s e => ?_, hcalls⟩
    dsimp only [received]
    rw [hsame]
    exact ⟨fun h => absurd h List.not_mem_nil, fun h => absurd h.1 h.2⟩
  by_cases hq : input.provider = q
  · cases hparse : lib.newFromSerializedShred input.data with
    | none =>
      refine hnone ?_ ?_
      · rw [ingest_of_unparsed lib g d hq hparse]
        rfl
      · rw [shredsOf_concat_self lib hq, hparse, Option.toList_none, List.append_nil]
    | some shred =>
      have hshreds : shredsOf lib q (inputs ++ [input]) = shredsOf lib q inputs ++ [shred] := by
        rw [shredsOf_concat_self lib hq, hparse, Option.toList_some]
      have hstream := (follows_run lib g inputs q).stream
      rw [hshreds] at hgenuine hkeep
      obtain ⟨hranges, hnodup, hcompleted⟩ :=
        Deshred.Block.newlyTaken_block hrec hgenuine hkeep
      dsimp only [received]
      rw [ingest_of_parsed lib g d hq hparse, hshreds]
      refine ⟨_, hnodup, hranges, ?_⟩
      have hslots : ∀ dataSet ∈ ((d.streams q).insertShred lib.agave shred).2,
          ∀ set, dataSet.completed = some set → set.slot = dataSet.slot :=
        fun dataSet hmem set hset => (d.streams q).slot_of_completed lib.agave shred hmem hset
      have hcalls := deliveries_of_slot lib g q input.rxUnixNs b.slot hslots
      have hsid := (ingest_own lib g (d := d) rfl hq).2.2
      rw [ingest_of_parsed lib g d hq hparse] at hsid
      dsimp only at hsid ⊢
      rw [List.filter_congr (q := fun call => decide (call.slot = b.slot))]
      · rw [hcalls, hstream, Deshred.rangesOf, List.flatMap_map]
        refine List.flatMap_congr fun dataSet hmem => ?_
        unfold blockDeliveries
        rw [← hcompleted dataSet hmem]
      · intro call hmem
        simp [hsid call hmem]
  · obtain ⟨-, -, hsid⟩ := ingest_other lib g d hq
    refine hnone (List.filter_eq_nil_iff.mpr fun call hmem => ?_) (shredsOf_concat_of_ne lib hq _)
    simp [hsid call hmem]

end Delivers

/-- Libraries for the block `pair`: they know its shreds by their bytes, and every data set is a
single vote. -/
def pairLibrary : ShredLibrary where
  newFromSerializedShred bytes :=
    (Deshred.Block.pair.data ++ Deshred.Block.pair.fecSets.flatMap Deshred.FecSet.coding).find?
      fun shred => shred.payload == bytes
  agave :=
    { recover := Deshred.Block.pairAgave.recover
      deshred := Deshred.Block.pairAgave.deshred
      deserialize := fun _ => some [⟨[plainVote .legacy]⟩] }
  addressTableLookups := plainLookups

/-- The first data shred and the coding shred of `pair`. -/
def pairShreds : List Shred :=
  Deshred.Block.pair.data.take 1 ++ Deshred.Block.pair.fecSets.flatMap Deshred.FecSet.coding

/-- With the coding shred the data set of `pair` can be decoded. -/
theorem pair_decodable : Deshred.Block.pair.Decodable pairShreds 0 1 := by
  refine ⟨⟨by decide, ⟨_, rfl, rfl⟩, Or.inl rfl, ?_⟩, ?_, Or.inl rfl⟩
  · intro j _ hj
    rw [Nat.lt_one_iff.mp hj]
    rintro ⟨shred, hget, hcomplete⟩
    rw [← Option.some.inj hget] at hcomplete
    exact Bool.noConfusion hcomplete
  · intro i _ hi
    exact Or.inr ⟨_, List.mem_singleton_self _, ⟨Nat.zero_le i, Nat.lt_succ_of_le hi⟩, by decide⟩

/-- Without it, it cannot. -/
lemma not_pair_decodable :
    ¬ Deshred.Block.pair.Decodable (Deshred.Block.pair.data.take 1) 0 1 := by
  rintro ⟨-, hpresent, -⟩
  have h := hpresent 1 (by decide) le_rfl
  rw [Deshred.Block.present_iff_received (List.mem_singleton_self _) (by decide) (by decide)] at h
  obtain ⟨shred, hshred, -, hindex⟩ := h
  rw [List.mem_singleton.mp hshred] at hindex
  exact absurd hindex (by decide)

/-- The coding shred of `pair` delivers the vote, after its first data shred. -/
theorem ingest_delivers_pair :
    let d := Machine.finalState (Deshredder.ingest pairLibrary 0) (Deshredder.new 1) [⟨1, 0, [1]⟩]
    let parity : ShredInput := ⟨2, 0, List.replicate 83 0 ++ [2, 0]⟩
    ∃ call ∈ (d.ingest pairLibrary 0 parity).2, call.slot = 7 ∧ call.ns = 2 := by
  intro d parity
  have hsent : shredsOf pairLibrary (0 : Fin 1) ([⟨1, 0, [1]⟩] ++ [parity]) = pairShreds := by
    decide
  have hfirst : Deshred.ofSlot 7 (shredsOf pairLibrary (0 : Fin 1) [⟨1, 0, [1]⟩]) =
      Deshred.Block.pair.data.take 1 := by
    decide
  have hboth : Deshred.ofSlot 7 pairShreds = pairShreds := by decide
  obtain ⟨ranges, -, hranges, hcalls⟩ := @ingest_delivers 1 pairLibrary 0 Deshred.Block.pair
    Deshred.Block.pairAgave_recovers [⟨1, 0, [1]⟩] parity 0
    (by
      rw [hsent]
      intro shred h _
      rcases List.mem_append.mp h with h | h
      · exact Or.inl (List.mem_of_mem_take h)
      · exact Or.inr (List.mem_flatMap.mp h))
    (by
      rw [hsent]
      decide)
  have hmem : (0, 1) ∈ ranges := by
    have hrange := hranges 0 1
    dsimp only at hrange
    rw [show Deshred.Block.pair.slot = 7 from rfl, hsent, hfirst, hboth] at hrange
    exact hrange.mpr ⟨pair_decodable, not_pair_decodable⟩
  -- the vote is the only transaction of the data set
  have hvote : ∃ call ∈ blockDeliveries pairLibrary 0 (0 : Fin 1) 2 Deshred.Block.pair (0, 1),
      call.slot = 7 ∧ call.ns = 2 := by
    decide
  obtain ⟨call, hcall, hsaid⟩ := hvote
  refine ⟨call, List.mem_of_mem_filter (hcalls.symm ▸ List.mem_flatMap_of_mem hmem hcall), hsaid⟩

end ShredTools.Audit
