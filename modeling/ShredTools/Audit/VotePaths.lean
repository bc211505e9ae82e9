import Mathlib.Data.List.Forall2
import ShredTools.Audit.FilterCheck
import ShredTools.Audit.SigRegistry
import ShredTools.Library.Checks

/-!
# Simple votes on the three paths

A transaction reaches the audit as a message decoded from shreds, as a protobuf update of a gRPC
source, or as JSON of a block.  Each path decides by itself whether the message is a legacy one, and
which program the first instruction calls.  They agree on what is a simple vote but for messages of
version 1: the shred path takes a message without lookup tables for a legacy one.

The lookup tables of a message and the decoding of base 58 belong to other crates; they are
parameters.
-/

namespace ShredTools.Audit

/-- `CompiledInstruction`, what is read of it. -/
structure CompiledInstruction where
  /-- The index of the program among the account keys. -/
  programIdIndex : ℕ
  deriving DecidableEq

/-- The fields of a message of any version that are read. -/
structure MessageFields where
  /-- The static account keys. -/
  staticAccountKeys : List Key
  /-- The instructions. -/
  instructions : List CompiledInstruction

/-- `VersionedMessage` -/
inductive VersionedMessage
  | legacy (fields : MessageFields)
  | v0 (fields : MessageFields) (addressTableLookups : List Key)
  | v1 (fields : MessageFields)

namespace VersionedMessage

/-- The fields that all versions have. -/
def fields : VersionedMessage → MessageFields
  | legacy fields => fields
  | v0 fields _ => fields
  | v1 fields => fields

/-- Whether a message is a legacy one. -/
def isLegacy : VersionedMessage → Bool
  | legacy _ => true
  | _ => false

/-- Whether it is of version 0. -/
def isV0 : VersionedMessage → Bool
  | v0 _ _ => true
  | _ => false

/-- Whether it is of version 1. -/
def isV1 : VersionedMessage → Bool
  | v1 _ => true
  | _ => false

/-- The program of the first instruction, if its index is one of a static key. -/
def firstProgram (m : VersionedMessage) : Option Key :=
  m.fields.instructions.head?.bind fun i => m.fields.staticAccountKeys[i.programIdIndex]?

end VersionedMessage

/-- `VersionedTransaction` -/
structure VersionedTransaction where
  /-- The signatures. -/
  signatures : List Signature
  /-- The message. -/
  message : VersionedMessage

/-- The signatures and keys of a transaction, as bytes. -/
def VersionedTransaction.arrays (tx : VersionedTransaction) : List (List UInt8) :=
  tx.signatures.map Vector.toList ++ tx.message.fields.staticAccountKeys.map Vector.toList

/-- `<[u8; n]>::try_from` -/
def arrayOf (n : ℕ) (bytes : List UInt8) : Option (Vector UInt8 n) :=
  if h : bytes.toArray.size = n then some ⟨bytes.toArray, h⟩ else none

/-! ### The shred path -/

section ShredPath

variable (addressTableLookups : VersionedMessage → Option (List Key))

/-- `is_vote` -/
def isVote (tx : VersionedTransaction) : Bool :=
  let ix := tx.message.fields.instructions
  let legacy := (addressTableLookups tx.message).isNone
  isSimpleVote tx.signatures.length legacy ix.length tx.message.firstProgram

/-- `version` -/
def version (tx : VersionedTransaction) (isVote : Bool) : TxVersion :=
  match tx.message with
  | .legacy _ => if isVote then .vote else .legacy
  | .v0 _ _ => .v0
  | .v1 _ => .v1

end ShredPath

/-! ### The gRPC path -/

/-- The protobuf `Message`. -/
structure ProtoMessage where
  /-- The static account keys. -/
  accountKeys : List (List UInt8)
  /-- The instructions. -/
  instructions : List CompiledInstruction
  /-- Whether the message has a version. -/
  versioned : Bool

/-- The protobuf `Transaction`. -/
structure ProtoTransaction where
  /-- The signatures. -/
  signatures : List (List UInt8)
  /-- The message. -/
  message : Option ProtoMessage

/-- `proto_view` -/
def protoView (tx : ProtoTransaction) (loadedWritable loadedReadonly : List (List UInt8))
    (failed : Option Bool) : Option TxView := do
  let signature ← arrayOf 64 (← tx.signatures.head?)
  let msg ← tx.message
  let numStaticKeys := msg.accountKeys.length
  let keys ← (msg.accountKeys ++ loadedWritable ++ loadedReadonly).mapM (arrayOf 32)
  let firstProgram := msg.instructions.head?.bind fun ix =>
    (keys.take numStaticKeys)[ix.programIdIndex]?
  return {
    signature := signature
    numSignatures := tx.signatures.length
    legacy := !msg.versioned
    keys := keys
    numStaticKeys := numStaticKeys
    numInstructions := msg.instructions.length
    firstProgram := firstProgram
    failed := failed }

/-- A protobuf transaction carries the fields of a transaction. -/
structure ProtoTransaction.Carries (ptx : ProtoTransaction) (tx : VersionedTransaction) : Prop where
  /-- The signatures. -/
  signatures : ptx.signatures = tx.signatures.map Vector.toList
  /-- The message, which is versioned if it is no legacy one. -/
  message : ptx.message = some
    { accountKeys := tx.message.fields.staticAccountKeys.map Vector.toList
      instructions := tx.message.fields.instructions
      versioned := !tx.message.isLegacy }

/-! ### The block path -/

/-- The `version` of a transaction of a block, of which only strings are read. -/
inductive JsonVersion
  | string (text : String)
  | number (n : ℕ)
  | other

/-- `JLoaded` -/
structure JLoaded where
  /-- The writable keys of lookup tables. -/
  writable : List String
  /-- The others. -/
  readonly : List String

/-- `JMeta` -/
structure JMeta where
  /-- Whether there is an error. -/
  err : Bool
  /-- The keys of lookup tables, if given. -/
  loadedAddresses : Option JLoaded

/-- `JTx`, with its `JTransaction` and `JMessage`. -/
structure JTx where
  /-- The signatures, in base 58. -/
  signatures : List String
  /-- The static account keys, in base 58. -/
  accountKeys : List String
  /-- The instructions. -/
  instructions : List CompiledInstruction
  /-- The outcome, if given. -/
  outcome : Option JMeta
  /-- The version, if given. -/
  version : Option JsonVersion

/-- The keys of lookup tables, none if they are not given. -/
def JTx.loaded (jt : JTx) : List String :=
  (jt.outcome.bind JMeta.loadedAddresses).elim [] fun l => l.writable ++ l.readonly

section BlockPath

variable (decode : String → Except String (List UInt8))

/-- `key` -/
def keyOf (s : String) : Except String Key := do
  let raw ← decode s
  match arrayOf 32 raw with
  | some key => return key
  | none => throw ("key `" ++ s ++ "` is " ++ toString raw.length ++ " bytes")

/-- `parse_block`, for one transaction. -/
def parseTx (jt : JTx) : Except String TxView := do
  let first ←
    match jt.signatures.head? with
    | some first => pure first
    | none => throw "block transaction without a signature"
  let raw ← decode first
  let signature ←
    match arrayOf 64 raw with
    | some signature => pure signature
    | none => throw ("signature of " ++ toString raw.length ++ " bytes")
  let staticKeys ← jt.accountKeys.mapM (keyOf decode)
  let numStaticKeys := staticKeys.length
  let loadedKeys ← jt.loaded.mapM (keyOf decode)
  let keys := staticKeys ++ loadedKeys
  let firstProgram := jt.instructions.head?.bind fun ix =>
    (keys.take numStaticKeys)[ix.programIdIndex]?
  return {
    signature := signature
    numSignatures := jt.signatures.length
    legacy := match jt.version with
      | none => true
      | some (.string text) => text == "legacy"
      | some _ => false
    keys := keys
    numStaticKeys := numStaticKeys
    numInstructions := jt.instructions.length
    firstProgram := firstProgram
    failed := jt.outcome.map JMeta.err }

/-- `parse_block` -/
def parseBlock (block : List JTx) : Except String Block :=
  (block.mapM (parseTx decode)).map Block.mk

end BlockPath

/-- A JSON transaction carries the fields of a transaction, for an encoder of base 58.  Legacy
messages have no version, or say so. -/
structure JTx.Carries (encode : List UInt8 → String) (jt : JTx) (tx : VersionedTransaction) :
    Prop where
  /-- The signatures. -/
  signatures : jt.signatures = tx.signatures.map fun s => encode s.toList
  /-- The static account keys. -/
  accountKeys : jt.accountKeys = tx.message.fields.staticAccountKeys.map fun k => encode k.toList
  /-- The instructions. -/
  instructions : jt.instructions = tx.message.fields.instructions
  /-- The version. -/
  version : match tx.message with
    | .legacy _ => jt.version = none ∨ jt.version = some (.string "legacy")
    | .v0 _ _ => jt.version = some (.number 0)
    | .v1 _ => jt.version = some (.number 1)

/-! ### The comparison -/

/-- The vote rule on a transaction whose message is known to be a legacy one or not. -/
def VersionedTransaction.simpleVote (tx : VersionedTransaction) : Bool :=
  isSimpleVote tx.signatures.length tx.message.isLegacy tx.message.fields.instructions.length
    tx.message.firstProgram

/-- The three paths agree on whether a transaction is a vote, and so does its version.  The last two
paths make a view of a transaction exactly if it has a signature. -/
structure VotesAgree (addressTableLookups : VersionedMessage → Option (List Key))
    (decode : String → Except String (List UInt8)) (encode : List UInt8 → String)
    (tx : VersionedTransaction) : Prop where
  /-- The gRPC path agrees, with any keys of lookup tables. -/
  grpc : ∀ (ptx : ProtoTransaction) (writable readonly : List (List UInt8)) (failed : Option Bool),
    ptx.Carries tx → (∀ k ∈ writable ++ readonly, k.length = 32) →
      (protoView ptx writable readonly failed).map TxView.isVote =
        tx.signatures.head?.map fun _ => isVote addressTableLookups tx
  /-- The block path agrees, wherever in a block the transaction stands. -/
  block : ∀ (before after : List JTx) (jt : JTx) (b b' : Block), jt.Carries encode tx →
    (∀ k ∈ jt.loaded, ∃ key, keyOf decode k = .ok key) →
      parseBlock decode before = .ok b → parseBlock decode after = .ok b' →
        (parseBlock decode (before ++ jt :: after)).toOption.map
            (fun block => block.txs.map TxView.isVote) =
          tx.signatures.head?.map fun _ => b.txs.map TxView.isVote ++
            isVote addressTableLookups tx :: b'.txs.map TxView.isVote
  /-- The version of the shred path is that of a vote exactly if it is one. -/
  version : version tx (isVote addressTableLookups tx) = .vote ↔
    isVote addressTableLookups tx = true

section Comparison

theorem arrayOf_toList {n : ℕ} (v : Vector UInt8 n) : arrayOf n v.toList = some v := by
  obtain ⟨bytes, rfl⟩ := v
  unfold arrayOf
  simp

theorem mapM_arrayOf_toList {n : ℕ} (vs : List (Vector UInt8 n)) :
    (vs.map Vector.toList).mapM (arrayOf n) = some vs := by
  induction vs with
  | nil => rfl
  | cons v vs ih =>
    rw [List.map_cons, List.mapM_cons, arrayOf_toList, ih]
    rfl

/-- Keys of 32 bytes are read as they are. -/
lemma exists_mapM_arrayOf {n : ℕ} {ks : List (List UInt8)} (h : ∀ k ∈ ks, k.length = n) :
    ∃ vs, ks.mapM (arrayOf n) = some vs := by
  induction ks with
  | nil => exact ⟨[], rfl⟩
  | cons k ks ih =>
    obtain ⟨vs, hvs⟩ := ih fun k hk => h k (List.mem_cons_of_mem _ hk)
    have hk : k.toArray.size = n := h k List.mem_cons_self
    refine ⟨⟨k.toArray, hk⟩ :: vs, ?_⟩
    rw [List.mapM_cons, hvs]
    unfold arrayOf
    rw [dif_pos hk]
    rfl

/-- The static keys are the first ones, so the program is that of the message. -/
lemma getElem?_take_append (static loaded : List Key) (i : ℕ) :
    ((static ++ loaded).take static.length)[i]? = static[i]? := by
  rw [List.take_left]

variable {tx : VersionedTransaction}

/-- The gRPC path applies the vote rule. -/
lemma map_isVote_protoView {ptx : ProtoTransaction} (h : ptx.Carries tx)
    {writable readonly : List (List UInt8)} (hloaded : ∀ k ∈ writable ++ readonly, k.length = 32)
    (failed : Option Bool) :
    (protoView ptx writable readonly failed).map TxView.isVote =
      tx.signatures.head?.map fun _ => tx.simpleVote := by
  obtain ⟨loaded, hkeys⟩ := exists_mapM_arrayOf hloaded
  have hall : ((tx.message.fields.staticAccountKeys.map Vector.toList) ++ writable ++
      readonly).mapM (arrayOf 32) = some (tx.message.fields.staticAccountKeys ++ loaded) := by
    rw [List.append_assoc, List.mapM_append, mapM_arrayOf_toList, hkeys]
    rfl
  unfold protoView
  rw [h.signatures, h.message]
  cases hsigs : tx.signatures with
  | nil => rfl
  | cons s sigs =>
    simp only [List.map_cons, List.head?_cons, Option.bind_eq_bind, Option.bind_some,
      arrayOf_toList, hall, List.length_map, getElem?_take_append, Option.map_some, Option.pure_def]
    unfold TxView.isVote VersionedTransaction.simpleVote VersionedMessage.firstProgram
    simp [hsigs]

variable {decode : String → Except String (List UInt8)} {encode : List UInt8 → String}

lemma keyOf_encode {k : Key} (hdecode : decode (encode k.toList) = .ok k.toList) :
    keyOf decode (encode k.toList) = .ok k := by
  unfold keyOf
  rw [hdecode, Except.ok_bind, arrayOf_toList]
  rfl

/-- Keys that are written come back. -/
theorem mapM_keyOf_encode {keys : List Key}
    (hdecode : ∀ k ∈ keys, decode (encode k.toList) = .ok k.toList) :
    (keys.map fun k => encode k.toList).mapM (keyOf decode) = .ok keys :=
  Except.mapM_map_eq_ok fun k hk => keyOf_encode (hdecode k hk)

/-- What the version of a JSON transaction is taken for is what its message is. -/
theorem JTx.Carries.isLegacy {jt : JTx} (h : jt.Carries encode tx) :
    (match jt.version with
      | none => true
      | some (.string text) => text == "legacy"
      | some _ => false) = tx.message.isLegacy := by
  have hversion := h.version
  cases hm : tx.message with
  | legacy fields =>
    rw [hm] at hversion
    rcases hversion with hnone | hstring
    · rw [hnone]
      rfl
    · rw [hstring]
      rfl
  | v0 fields lookups =>
    rw [hm] at hversion
    dsimp only at hversion
    rw [hversion]
    rfl
  | v1 fields =>
    rw [hm] at hversion
    dsimp only at hversion
    rw [hversion]
    rfl

/-- The block path applies the vote rule. -/
lemma map_isVote_parseTx
    (hdecode : ∀ bytes ∈ tx.arrays, decode (encode bytes) = .ok bytes) {jt : JTx}
    (h : jt.Carries encode tx) (hloaded : ∀ k ∈ jt.loaded, ∃ key, keyOf decode k = .ok key) :
    (parseTx decode jt).toOption.map TxView.isVote =
      tx.signatures.head?.map fun _ => tx.simpleVote := by
  obtain ⟨loaded, hkeys⟩ := Except.exists_mapM_eq_ok hloaded
  have hstatic : (tx.message.fields.staticAccountKeys.map fun k => encode k.toList).mapM
      (keyOf decode) = .ok tx.message.fields.staticAccountKeys :=
    mapM_keyOf_encode fun k hk =>
      hdecode k.toList (List.mem_append_right _ (List.mem_map_of_mem hk))
  unfold parseTx
  rw [h.signatures, h.accountKeys, h.instructions, hstatic, hkeys, h.isLegacy]
  cases hsigs : tx.signatures with
  | nil => rfl
  | cons s sigs =>
    have hsig : decode (encode s.toList) = .ok s.toList := by
      refine hdecode _ (List.mem_append_left _ ?_)
      rw [hsigs]
      exact List.mem_cons_self
    simp only [List.map_cons, List.head?_cons, pure_bind, hsig, Except.ok_bind, arrayOf_toList]
    dsimp only [pure, Except.pure, Except.toOption]
    rw [Option.map_some]
    unfold TxView.isVote VersionedTransaction.simpleVote VersionedMessage.firstProgram
    simp [hsigs]

/-- A block parses if its transactions do. -/
theorem parseBlock_append {before after : List JTx} {jt : JTx} {b b' : Block}
    (hbefore : parseBlock decode before = .ok b) (hafter : parseBlock decode after = .ok b') :
    parseBlock decode (before ++ jt :: after) =
      (parseTx decode jt).map fun view => ⟨b.txs ++ view :: b'.txs⟩ := by
  have hviews : ∀ {jts : List JTx} {b : Block}, parseBlock decode jts = .ok b →
      jts.mapM (parseTx decode) = .ok b.txs := by
    intro jts b h
    unfold parseBlock at h
    cases hmap : jts.mapM (parseTx decode) with
    | error e =>
      rw [hmap] at h
      cases h
    | ok views =>
      rw [hmap] at h
      cases h
      rfl
  unfold parseBlock
  rw [List.mapM_append, hviews hbefore, List.mapM_cons, hviews hafter]
  cases parseTx decode jt <;> rfl

/-- The shred path takes every message without lookup tables for a legacy one. -/
lemma isVote_eq {lookups : VersionedMessage → Option (List Key)}
    (hlookups : ∀ m, (lookups m).isSome = m.isV0) (tx : VersionedTransaction) :
    isVote lookups tx = isSimpleVote tx.signatures.length (!tx.message.isV0)
      tx.message.fields.instructions.length tx.message.firstProgram := by
  unfold isVote
  rw [← hlookups, Option.not_isSome]

end Comparison

/-- A transaction has the shape of a simple vote, whatever its version. -/
def VersionedTransaction.VoteShaped (tx : VersionedTransaction) : Prop :=
  tx.signatures.length < 3 ∧ tx.message.fields.instructions.length = 1 ∧
    tx.message.firstProgram = some voteProgramId

/-- The vote rule on a message that is taken for a legacy one. -/
lemma isSimpleVote_iff (tx : VersionedTransaction) (legacy : Bool) :
    isSimpleVote tx.signatures.length legacy tx.message.fields.instructions.length
      tx.message.firstProgram = true ↔ legacy = true ∧ tx.VoteShaped := by
  unfold isSimpleVote VersionedTransaction.VoteShaped
  simp only [Bool.and_eq_true, decide_eq_true_iff, beq_iff_eq]
  constructor
  · rintro ⟨⟨⟨hsigs, hlegacy⟩, hinstructions⟩, hprogram⟩
    exact ⟨hlegacy, hsigs, hinstructions, hprogram⟩
  · rintro ⟨hlegacy, hsigs, hinstructions, hprogram⟩
    exact ⟨⟨⟨hsigs, hlegacy⟩, hinstructions⟩, hprogram⟩

/-- Only legacy messages have the version of a vote. -/
lemma version_eq_vote_iff (tx : VersionedTransaction) (vote : Bool) :
    version tx vote = .vote ↔ tx.message.isLegacy = true ∧ vote = true := by
  unfold version
  cases tx.message with
  | legacy fields => cases vote <;> simp [VersionedMessage.isLegacy]
  | v0 fields lookups => simp [VersionedMessage.isLegacy]
  | v1 fields => simp [VersionedMessage.isLegacy]

/-- **The three paths agree on every transaction but votes of version 1**, which only the shred path
takes for votes. -/
theorem votesAgree_iff {lookups : VersionedMessage → Option (List Key)}
    (hlookups : ∀ m, (lookups m).isSome = m.isV0)
    {decode : String → Except String (List UInt8)} {encode : List UInt8 → String}
    {tx : VersionedTransaction}
    (hdecode : ∀ bytes ∈ tx.arrays, decode (encode bytes) = .ok bytes) :
    VotesAgree lookups decode encode tx ↔ ¬ (tx.message.isV1 = true ∧ tx.VoteShaped) := by
  constructor
  -- a V1 message in the shape of a vote is one on the shred path, while its version is not one of
  -- those that the other paths call votes
  · rintro h ⟨hv1, hshape⟩
    have hvote : isVote lookups tx = true := by
      rw [isVote_eq hlookups, isSimpleVote_iff]
      refine ⟨?_, hshape⟩
      cases hm : tx.message with
      | legacy fields => rfl
      | v0 fields lookups =>
        rw [hm] at hv1
        cases hv1
      | v1 fields => rfl
    have hlegacy := ((version_eq_vote_iff tx _).mp (h.version.mpr hvote)).1
    cases hm : tx.message with
    | legacy fields =>
      rw [hm] at hv1
      cases hv1
    | v0 fields lookups =>
      rw [hm] at hlegacy
      cases hlegacy
    | v1 fields =>
      rw [hm] at hlegacy
      cases hlegacy
  · intro h
    -- otherwise the shred path decides by the shape alone, as the other two do
    have hsame : isVote lookups tx = tx.simpleVote := by
      rw [isVote_eq hlookups]
      unfold VersionedTransaction.simpleVote
      rw [Bool.eq_iff_iff, isSimpleVote_iff, isSimpleVote_iff]
      cases hm : tx.message with
      | legacy fields => rfl
      | v0 fields lookups => rfl
      | v1 fields =>
        rw [hm] at h
        have hshape : ¬ tx.VoteShaped := fun hshape => h ⟨rfl, hshape⟩
        simp [hshape]
    refine ⟨fun ptx writable readonly failed hptx hloaded => ?_,
      fun before after jt b b' hjt hloaded hbefore hafter => ?_, ?_⟩
    · rw [map_isVote_protoView hptx hloaded, hsame]
    · rw [parseBlock_append hbefore hafter, hsame]
      have htx := map_isVote_parseTx hdecode hjt hloaded
      cases hparse : parseTx decode jt with
      | error e =>
        rw [hparse] at htx
        cases hsigs : tx.signatures with
        | nil => rfl
        | cons s sigs =>
          rw [hsigs] at htx
          cases htx
      | ok view =>
        rw [hparse] at htx
        cases hsigs : tx.signatures with
        | nil =>
          rw [hsigs] at htx
          cases htx
        | cons s sigs =>
          rw [hsigs] at htx
          have hview : view.isVote = tx.simpleVote := Option.some.inj htx
          simp [Except.map, Except.toOption, hview]
    · rw [hsame, version_eq_vote_iff]
      unfold VersionedTransaction.simpleVote
      rw [isSimpleVote_iff]
      exact ⟨fun hboth => hboth.2, fun hvote => ⟨hvote.1, hvote⟩⟩

/-- The lookup tables of a message, as the message has them. -/
def plainLookups : VersionedMessage → Option (List Key)
  | .v0 _ lookups => some lookups
  | _ => none

/-- A key and a signature of zeros, and the key of the vote program, in base 58. -/
def plainTexts : List (List UInt8 × String) :=
  [(List.replicate 64 0, "1111111111111111111111111111111111111111111111111111111111111111"),
    (List.replicate 32 0, "11111111111111111111111111111111"),
    (voteProgramId.toList, "Vote111111111111111111111111111111111111111")]

/-- Base 58 of these. -/
def plainEncode (bytes : List UInt8) : String :=
  (plainTexts.lookup bytes).getD ""

/-- What these texts decode to. -/
def plainDecode (text : String) : Except String (List UInt8) :=
  match plainTexts.find? fun e => e.2 == text with
  | some e => .ok e.1
  | none => .error "invalid character"

/-- A transaction with the fields of a simple vote, with a message of the version given. -/
def plainVote (message : MessageFields → VersionedMessage) : VersionedTransaction where
  signatures := [Vector.replicate 64 0]
  message := message ⟨[Vector.replicate 32 0, voteProgramId], [⟨1⟩]⟩

/-- The paths agree on a legacy vote. -/
theorem votesAgree_legacy :
    VotesAgree plainLookups plainDecode plainEncode (plainVote .legacy) := by
  refine (votesAgree_iff (fun m => ?_) (by decide)).mpr ?_
  · cases m <;> rfl
  · rintro ⟨hv1, -⟩
    cases hv1

/-- The paths do not agree on the same vote of version 1. -/
theorem not_votesAgree_v1 : ¬ VotesAgree plainLookups plainDecode plainEncode (plainVote .v1) := by
  intro h
  have hvote : isVote plainLookups (plainVote .v1) = true := by decide
  have hversion := h.version.mpr hvote
  cases hversion

end ShredTools.Audit
