import ShredTools.Audit.HonestSource
import ShredTools.Audit.VotePaths

/-!
# Updates and blocks

What a window counts as delivered comes in protobuf updates of two kinds, and the blocks that it is
compared with come as JSON.  Either path makes a view of a transaction from what it is sent.  The
views of one transaction agree, but that an update of a deshred source does not know the outcome, so
every filter that may be asked judges both the same, in the same words, and a delivery whose tags
follow the verdicts on the transaction of the block is an honest one (`update_matches_block`).

The keys of lookup tables are resolved by the node; they come along in updates and blocks.
-/

namespace ShredTools.Audit

/-! ### Updates -/

/-- `TransactionStatusMeta`, what is read of it. -/
structure ProtoMeta where
  /-- Whether there is an error. -/
  err : Bool
  /-- The writable keys of lookup tables. -/
  loadedWritableAddresses : List (List UInt8)
  /-- The others. -/
  loadedReadonlyAddresses : List (List UInt8)

/-- `SubscribeUpdateTransactionInfo`, what is read of it. -/
structure TransactionInfo where
  /-- The transaction. -/
  transaction : Option ProtoTransaction
  /-- Whether the server takes it for a vote. -/
  isVote : Bool
  /-- The outcome, if it is known. -/
  outcome : Option ProtoMeta

/-- `SubscribeUpdateDeshredTransactionInfo`, what is read of it. -/
structure DeshredTransactionInfo where
  /-- The transaction. -/
  transaction : Option ProtoTransaction
  /-- Whether the server takes it for a vote. -/
  isVote : Bool
  /-- The writable keys of lookup tables. -/
  loadedWritableAddresses : List (List UInt8)
  /-- The others. -/
  loadedReadonlyAddresses : List (List UInt8)

/-- An update with a transaction: `SubscribeUpdateTransaction` of one kind of source, and
`SubscribeUpdateDeshredTransaction` of the other. -/
inductive TxUpdate
  | transaction (info : Option TransactionInfo) (slot : ℕ)
  | deshred (info : Option DeshredTransactionInfo) (slot : ℕ)

/-- `transaction_view` -/
def transactionView (info : Option TransactionInfo) : Option TxView := do
  let info ← info
  let tx ← info.transaction
  match info.outcome with
  | some m => protoView tx m.loadedWritableAddresses m.loadedReadonlyAddresses (some m.err)
  | none => protoView tx [] [] none

/-- `deshred_view` -/
def deshredView (info : Option DeshredTransactionInfo) : Option TxView := do
  let info ← info
  let tx ← info.transaction
  protoView tx info.loadedWritableAddresses info.loadedReadonlyAddresses none

/-- What the registry is told of a hit, but for times and sizes. -/
structure Hit where
  /-- The first signature of the transaction itself. -/
  signature : Signature
  /-- The slot. -/
  slot : ℕ
  /-- Whether the server takes it for a vote. -/
  isVote : Option Bool
  deriving DecidableEq

/-- `hit` -/
def hit (tx : ProtoTransaction) (isVote : Bool) (slot : ℕ) : Option Hit := do
  let signature ← arrayOf 64 (← tx.signatures.head?)
  return ⟨signature, slot, some isVote⟩

/-- `transaction_hit` -/
def transactionHit (info : Option TransactionInfo) (slot : ℕ) : Option Hit := do
  let info ← info
  let tx ← info.transaction
  hit tx info.isVote slot

/-- `deshred_hit` -/
def deshredHit (info : Option DeshredTransactionInfo) (slot : ℕ) : Option Hit := do
  let info ← info
  let tx ← info.transaction
  hit tx info.isVote slot

/-- What an update is to the registry. -/
def TxUpdate.hit : TxUpdate → Option Hit
  | transaction info slot => transactionHit info slot
  | deshred info slot => deshredHit info slot

/-- What an update shows. -/
def TxUpdate.view : TxUpdate → Option TxView
  | transaction info _ => transactionView info
  | deshred info _ => deshredView info

/-- The handler of `run_source`: the hit goes to the registry, and with the view, if there is one,
to `on_delivery`. -/
def TxUpdate.handle (u : TxUpdate) : Option (Hit × Option TxView) :=
  u.hit.map fun hit => (hit, u.view)

/-! ### One transaction on both paths -/

/-- A transaction, the keys of its lookup tables, and whether it failed. -/
structure ResolvedTransaction where
  /-- The transaction. -/
  tx : VersionedTransaction
  /-- The writable keys of its lookup tables. -/
  writable : List Key
  /-- The others. -/
  readonly : List Key
  /-- Whether it failed. -/
  failed : Bool

namespace ResolvedTransaction

/-- The view of a transaction, if it has a signature, for one who may know the outcome. -/
def view (r : ResolvedTransaction) (failed : Option Bool) : Option TxView :=
  r.tx.signatures.head?.map fun signature =>
    { signature := signature
      numSignatures := r.tx.signatures.length
      legacy := r.tx.message.isLegacy
      keys := r.tx.message.fields.staticAccountKeys ++ r.writable ++ r.readonly
      numStaticKeys := r.tx.message.fields.staticAccountKeys.length
      numInstructions := r.tx.message.fields.instructions.length
      firstProgram := r.tx.message.firstProgram
      failed := failed }

/-- The signatures and all keys, as bytes. -/
def arrays (r : ResolvedTransaction) : List (List UInt8) :=
  r.tx.arrays ++ (r.writable ++ r.readonly).map Vector.toList

end ResolvedTransaction

/-- An update carries a transaction, with the vote flag given. -/
inductive TxUpdate.Carries (r : ResolvedTransaction) (slot : ℕ) (isVote : Bool) : TxUpdate → Prop
  | transaction {ptx : ProtoTransaction} (h : ptx.Carries r.tx) :
    Carries r slot isVote <| .transaction (some ⟨some ptx, isVote,
      some ⟨r.failed, r.writable.map Vector.toList, r.readonly.map Vector.toList⟩⟩) slot
  | deshred {ptx : ProtoTransaction} (h : ptx.Carries r.tx) :
    Carries r slot isVote <| .deshred (some ⟨some ptx, isVote, r.writable.map Vector.toList,
      r.readonly.map Vector.toList⟩) slot

/-- Whether the source of an update knows the outcomes. -/
def TxUpdate.knowsOutcome : TxUpdate → Bool
  | transaction _ _ => true
  | deshred _ _ => false

/-- A JSON transaction carries a transaction with its outcome; lists of keys that are empty need not
be there. -/
structure JTx.CarriesResolved (encode : List UInt8 → String) (jt : JTx) (r : ResolvedTransaction) :
    Prop where
  /-- The fields of the transaction. -/
  carries : jt.Carries encode r.tx
  /-- The outcome. -/
  outcome : jt.outcome.map JMeta.err = some r.failed
  /-- The keys of lookup tables. -/
  loaded : jt.loaded = (r.writable ++ r.readonly).map fun k => encode k.toList

section Views

variable {r : ResolvedTransaction} {decode : String → Except String (List UInt8)}
  {encode : List UInt8 → String}

/-- The view of the gRPC path. -/
lemma protoView_eq {ptx : ProtoTransaction} (h : ptx.Carries r.tx) (failed : Option Bool) :
    protoView ptx (r.writable.map Vector.toList) (r.readonly.map Vector.toList) failed =
      r.view failed := by
  have hall : (r.tx.message.fields.staticAccountKeys.map Vector.toList ++
      r.writable.map Vector.toList ++ r.readonly.map Vector.toList).mapM (arrayOf 32) =
        some (r.tx.message.fields.staticAccountKeys ++ r.writable ++ r.readonly) := by
    rw [← List.map_append, ← List.map_append, mapM_arrayOf_toList]
  unfold protoView ResolvedTransaction.view
  rw [h.signatures, h.message]
  cases hsigs : r.tx.signatures with
  | nil => rfl
  | cons s sigs =>
    simp only [List.map_cons, List.head?_cons, Option.bind_eq_bind, Option.bind_some,
      arrayOf_toList, hall, List.length_map, Option.map_some, Option.pure_def, Bool.not_not]
    simp [VersionedMessage.firstProgram]

/-- The view of the block path. -/
lemma parseTx_eq (hdecode : ∀ bytes ∈ r.arrays, decode (encode bytes) = .ok bytes) {jt : JTx}
    (h : jt.CarriesResolved encode r) :
    (parseTx decode jt).toOption = r.view (some r.failed) := by
  have hstatic : (r.tx.message.fields.staticAccountKeys.map fun k => encode k.toList).mapM
      (keyOf decode) = .ok r.tx.message.fields.staticAccountKeys :=
    mapM_keyOf_encode fun k hk => hdecode k.toList
      (List.mem_append_left _ (List.mem_append_right _ (List.mem_map_of_mem hk)))
  have hloaded : ((r.writable ++ r.readonly).map fun k => encode k.toList).mapM
      (keyOf decode) = .ok (r.writable ++ r.readonly) :=
    mapM_keyOf_encode fun k hk =>
      hdecode k.toList (List.mem_append_right _ (List.mem_map_of_mem hk))
  unfold parseTx ResolvedTransaction.view
  rw [h.carries.signatures, h.carries.accountKeys, h.carries.instructions, hstatic, h.loaded,
    hloaded, h.outcome]
  -- without a signature neither path reads a transaction
  cases hsigs : r.tx.signatures with
  | nil => rfl
  | cons s sigs =>
    have hsig : decode (encode s.toList) = .ok s.toList := by
      refine hdecode _ (List.mem_append_left _ (List.mem_append_left _ ?_))
      rw [hsigs]
      exact List.mem_cons_self
    simp only [List.map_cons, List.head?_cons, pure_bind, hsig, Except.ok_bind, arrayOf_toList]
    dsimp only [pure, Except.pure, Except.toOption]
    rw [Option.map_some, Option.some.injEq, TxView.mk.injEq]
    refine ⟨rfl, by simp, ?_, (List.append_assoc _ _ _).symm, rfl, rfl, ?_, rfl⟩
    · exact h.carries.isLegacy
    · rw [List.take_left]
      rfl

/-- What an update does with the transaction that it carries. -/
lemma handle_eq {u : TxUpdate} {slot : ℕ} {isVote : Bool} (h : u.Carries r slot isVote) :
    u.handle = r.tx.signatures.head?.map fun s =>
      (⟨s, slot, some isVote⟩,
        r.view (if u.knowsOutcome then some r.failed else none)) := by
  have hhit : ∀ ptx : ProtoTransaction, ptx.Carries r.tx →
      hit ptx isVote slot = r.tx.signatures.head?.map fun s => ⟨s, slot, some isVote⟩ := by
    intro ptx hptx
    unfold hit
    rw [hptx.signatures]
    cases r.tx.signatures with
    | nil => rfl
    | cons s sigs =>
      simp only [List.map_cons, List.head?_cons, Option.bind_eq_bind, Option.bind_some,
        arrayOf_toList]
      rfl
  cases h with
  | transaction hptx =>
    have hview := protoView_eq hptx (some r.failed)
    unfold TxUpdate.handle TxUpdate.hit transactionHit TxUpdate.view transactionView
    simp only [Option.bind_eq_bind, Option.bind_some, hhit _ hptx, hview, Option.map_map]
    rfl
  | deshred hptx =>
    have hview := protoView_eq hptx none
    unfold TxUpdate.handle TxUpdate.hit deshredHit TxUpdate.view deshredView
    simp only [Option.bind_eq_bind, Option.bind_some, hhit _ hptx, hview, Option.map_map]
    rfl

end Views

/-- The last transaction with a signature is found in a block. -/
lemma Block.find_of_last {before after : List TxView} {tx : TxView}
    (hlast : ∀ later ∈ after, later.signature ≠ tx.signature) :
    (⟨before ++ tx :: after⟩ : Block).find tx.signature = some tx := by
  have hnone : after.reverse.find? (·.signature == tx.signature) = none := by
    rw [List.find?_eq_none]
    intro later hlater heq
    exact hlast later (List.mem_reverse.mp hlater) (beq_iff_eq.mp heq)
  unfold Block.find
  rw [List.reverse_append, List.reverse_cons, List.append_assoc, List.find?_append, hnone]
  simp

/-- A source of this kind may be asked for a bundle: only those that know the outcomes are asked for
them (`fits_deshred`). -/
def TxUpdate.MayAsk (bundle : Bundle) (u : TxUpdate) : Prop :=
  u.knowsOutcome = true ∨ ∀ f ∈ bundle.filters, f.usesFailed = false

/-- What an update shows of a transaction agrees with what a block has. -/
structure ViewsAgree (u : TxUpdate) (slot : ℕ) (isVote : Bool) (before after : List TxView)
    (seen confirmed : TxView) : Prop where
  /-- The views are the same, but for an outcome that the update does not know. -/
  same : seen = { confirmed with failed := if u.knowsOutcome then confirmed.failed else none }
  /-- Every filter that may be asked judges both the same, in the same words. -/
  mismatch : ∀ bundle, u.MayAsk bundle → ∀ f ∈ bundle.filters, ∀ base58,
    f.mismatch base58 seen = f.mismatch base58 confirmed
  /-- An update that is tagged by the verdicts on the transaction of the block is honest, if the
  block is the one of the chain, and has the signature no second time. -/
  honest : ∀ (chain : Chain) (skipVotes : Bool) (bundle : Bundle) (tags : List String),
    u.MayAsk bundle → chain slot = some ⟨before ++ confirmed :: after⟩ →
      (∀ later ∈ after, later.signature ≠ confirmed.signature) →
        (∀ name, name ∈ tags ↔
          ∃ f ∈ bundle.filters, f.name = name ∧ f.matchesTx confirmed = true) →
          tags ≠ [] → isVote = confirmed.isVote →
            HonestDelivery chain skipVotes bundle slot seen tags (some isVote)

/-- **An update shows what the block has.**  A transaction that is carried by an update of either
kind and by a block has the same view on both paths, but for an outcome that the update does not
know; without a signature it is ignored on the one path, and no block on the other. -/
theorem update_matches_block {r : ResolvedTransaction}
    {decode : String → Except String (List UInt8)} {encode : List UInt8 → String}
    (hdecode : ∀ bytes ∈ r.arrays, decode (encode bytes) = .ok bytes) {u : TxUpdate} {slot : ℕ}
    {isVote : Bool} (hu : u.Carries r slot isVote) {jt : JTx} (hjt : jt.CarriesResolved encode r)
    {before after : List JTx} {b b' : Block} (hbefore : parseBlock decode before = .ok b)
    (hafter : parseBlock decode after = .ok b') :
    match r.tx.signatures with
    | [] => u.handle = none ∧ (parseBlock decode (before ++ jt :: after)).toOption = none
    | s :: _ => ∃ seen confirmed, u.handle = some (⟨s, slot, some isVote⟩, some seen) ∧
        parseBlock decode (before ++ jt :: after) = .ok ⟨b.txs ++ confirmed :: b'.txs⟩ ∧
        ViewsAgree u slot isVote b.txs b'.txs seen confirmed := by
  have hhandle := handle_eq hu
  have hparse := parseTx_eq hdecode hjt
  have hblock : parseBlock decode (before ++ jt :: after) =
      (parseTx decode jt).map fun view => ⟨b.txs ++ view :: b'.txs⟩ :=
    parseBlock_append hbefore hafter
  unfold ResolvedTransaction.view at hhandle hparse
  cases hsigs : r.tx.signatures with
  | nil =>
    rw [hsigs] at hhandle hparse
    refine ⟨hhandle, ?_⟩
    rw [hblock]
    cases hview : parseTx decode jt with
    | error e => rfl
    | ok view =>
      rw [hview] at hparse
      cases hparse
  | cons s sigs =>
    rw [hsigs] at hhandle hparse
    cases hview : parseTx decode jt with
    | error e =>
      rw [hview] at hparse
      cases hparse
    | ok confirmed =>
      rw [hview] at hparse hblock
      have hconfirmed := Option.some.inj hparse
      refine ⟨_, confirmed, hhandle, hblock, ?_⟩
      -- both views are of one transaction; the update leaves out the outcome where it does not know
      -- it
      have hshows : ∀ bundle, u.MayAsk bundle → TxView.Shows bundle
          { confirmed with failed := if u.knowsOutcome then some r.failed else none }
          confirmed := by
        intro bundle hask
        refine ⟨rfl, ?_⟩
        rcases hask with hknows | hnone
        · left
          rw [hconfirmed, hknows]
          rfl
        · exact Or.inr hnone
      rw [hconfirmed] at hshows ⊢
      refine ⟨rfl, fun bundle hask f hf base58 => ((hshows bundle hask).mismatch_eq hf base58).symm,
        fun chain skipVotes bundle tags hask hchain hlast htags hne hvote => ?_⟩
      refine ⟨fun _ => ⟨_, hchain, _, Block.find_of_last hlast, hshows bundle hask⟩,
        fun _ name => ?_, fun hnil => absurd hnil hne, fun server hserver => ?_⟩
      · rw [htags name]
        refine exists_congr fun f => and_congr_right fun hf => ?_
        rw [(hshows bundle hask).matchesTx_eq hf]
      · rw [← Option.mem_some_iff.mp hserver, hvote]
        rfl

/-- A failed transaction of version 0, with a key of a lookup table. -/
def failedLookup : ResolvedTransaction where
  tx := plainVote fun fields => .v0 fields [Vector.replicate 32 0]
  writable := [voteProgramId]
  readonly := []
  failed := true

/-- The transaction as a deshred source sends it. -/
def failedUpdate : TxUpdate :=
  .deshred (some
    { transaction := some
        { signatures := [List.replicate 64 0]
          message := some ⟨[List.replicate 32 0, voteProgramId.toList], [⟨1⟩], true⟩ }
      isVote := false
      loadedWritableAddresses := [voteProgramId.toList]
      loadedReadonlyAddresses := [] }) 1010

/-- The transaction as it stands in a block. -/
def failedJson : JTx where
  signatures := [plainEncode (List.replicate 64 0)]
  accountKeys := [plainEncode (List.replicate 32 0), plainEncode voteProgramId.toList]
  instructions := [⟨1⟩]
  outcome := some ⟨true, some ⟨[plainEncode voteProgramId.toList], []⟩⟩
  version := some (.number 0)

/-- The update shows what the block has, but for the outcome. -/
theorem update_matches_block_failed :
    ∃ seen confirmed, failedUpdate.handle =
        some (⟨Vector.replicate 64 0, 1010, some false⟩, some seen) ∧
      parseBlock plainDecode [failedJson] = .ok ⟨[confirmed]⟩ ∧
      ViewsAgree failedUpdate 1010 false [] [] seen confirmed := by
  have hcarries : failedUpdate.Carries failedLookup 1010 false := .deshred ⟨rfl, rfl⟩
  have hjson : failedJson.CarriesResolved plainEncode failedLookup :=
    ⟨⟨rfl, rfl, rfl, rfl⟩, rfl, rfl⟩
  have hdecode : ∀ bytes ∈ failedLookup.arrays,
      plainDecode (plainEncode bytes) = .ok bytes := by
    decide
  have hnil : parseBlock plainDecode [] = .ok ⟨[]⟩ := rfl
  exact update_matches_block hdecode hcarries hjson hnil hnil

end ShredTools.Audit
