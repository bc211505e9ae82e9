import ShredTools.Library.Bytes
import ShredTools.Postpack.GenuineTips

/-!
# Tips that the tools build

A tool builds transactions that tip an account, and writes them as the request that the service
takes.  What the libraries do with instructions, transactions and texts is a parameter (`TipTools`),
and that the service's libraries read what the tool's libraries write is a hypothesis
(`TipTools.ReadBy`).

`built_tips_registered` says what the service makes of what the tool writes: it registers every
transaction, if there is a tip and the account is one of its tip accounts, and otherwise none.

`tippedInstructions` are the instructions of one transaction, and `main` makes the entries of the
request.  The proof reads every entry back (`Reads`): its text decodes to the transaction, and the
tip of that is what was put in.  The example builds two transactions with different payers, block
hashes and memos, and registers both.
-/

namespace ShredTools.Postpack

open ShredTools.Audit (Pubkey)

namespace TipTool

/-! ### The tool -/

/-- `MEMO_PROGRAM` -/
def memoProgram : Pubkey where
  toArray := List.toArray
    [5, 74, 83, 90, 153, 41, 33, 6, 77, 36, 232, 113, 96, 218, 56, 124, 124, 53, 181, 221, 188, 146,
      187, 129, 228, 31, 168, 64, 65, 5, 68, 141]
  size_toArray := rfl

/-- `MICRO_LAMPORTS_PER_LAMPORTS` -/
def microLamportsPerLamports : ℕ := 1000000

/-- `AccountMeta` -/
structure AccountMeta where
  /-- The account. -/
  pubkey : Pubkey
  /-- Whether the account signs. -/
  isSigner : Bool
  /-- Whether the account is written. -/
  isWritable : Bool

/-- `Instruction` -/
structure Instruction where
  /-- The program. -/
  programId : Pubkey
  /-- The accounts. -/
  accounts : List AccountMeta
  /-- The data. -/
  data : List UInt8

/-- What the libraries of the tool do. -/
structure TipTools (Keypair Hash : Type*) where
  /-- `Keypair::pubkey` -/
  pubkey : Keypair → Pubkey
  /-- `ComputeBudgetInstruction::set_compute_unit_limit` -/
  setComputeUnitLimit : ℕ → Instruction
  /-- `ComputeBudgetInstruction::set_compute_unit_price` -/
  setComputeUnitPrice : ℕ → Instruction
  /-- `solana_system_interface::instruction::transfer` -/
  transfer : Pubkey → Pubkey → ℕ → Instruction
  /-- `Transaction::new_signed_with_payer`, with the payer as the only signer, on the wire. -/
  newSignedWithPayer : List Instruction → Keypair → Hash → List UInt8
  /-- `BASE64_STANDARD.encode` -/
  encodeBase64 : List UInt8 → String
  /-- A key from its text. -/
  parsePubkey : String → Option Pubkey

/-- `Args` -/
structure Args where
  /-- The tip wallet. -/
  tipAddress : String
  /-- Lamports to tip. -/
  tipLamports : ℕ
  /-- Priority fee. -/
  lamportsPerCu : ℕ
  /-- Memo payload. -/
  memo : String
  /-- Slots of the entries. -/
  slots : Option (List ℤ)
  /-- Number of transactions. -/
  count : Option ℕ

section Tool

variable {Keypair Hash : Type*} (tools : TipTools Keypair Hash)

/-- The instructions of `create_signed_tipped_transaction`. -/
def tippedInstructions (payer : Pubkey) (memo : String) (tip : ℕ) (tipTo : Pubkey)
    (lamportPerCu : ℕ) : List Instruction :=
  [tools.setComputeUnitLimit 30000,
    tools.setComputeUnitPrice (lamportPerCu * microLamportsPerLamports % u64Size),
    { programId := memoProgram
      accounts := [{ pubkey := payer, isSigner := true, isWritable := true }]
      data := memo.toUTF8.toList }] ++
    if tip > 0 then [tools.transfer payer tipTo tip] else []

/-- `create_signed_tipped_transaction`, on the wire. -/
def createSignedTippedTransaction (signer : Keypair) (blockHash : Hash) (memo : String) (tip : ℕ)
    (tipTo : Pubkey) (lamportPerCu : ℕ) : List UInt8 :=
  tools.newSignedWithPayer
    (tippedInstructions tools (tools.pubkey signer) memo tip tipTo lamportPerCu) signer blockHash

/-- The instructions of the transaction with number `i`. -/
def instructionsOf (args : Args) (tipTo : Pubkey) (fresh : ℕ → Keypair × Hash) (i : ℕ) :
    List Instruction :=
  tippedInstructions tools (tools.pubkey (fresh i).1) (args.memo ++ "-" ++ toString i)
    args.tipLamports tipTo args.lamportsPerCu

/-- The transaction with number `i`, for its key pair and its hash. -/
def transactionOf (args : Args) (tipTo : Pubkey) (fresh : ℕ → Keypair × Hash) (i : ℕ) :
    List UInt8 :=
  createSignedTippedTransaction tools (fresh i).1 (fresh i).2 (args.memo ++ "-" ++ toString i)
    args.tipLamports tipTo args.lamportsPerCu

/-- `main` of the tool: the entries that it writes, for the key pairs and hashes that it draws. -/
def main (args : Args) (fresh : ℕ → Keypair × Hash) : Except String (List PayEntry) :=
  match tools.parsePubkey args.tipAddress with
  | none => .error ("invalid --tip-address: " ++ args.tipAddress)
  | some tipTo =>
    let slots := args.slots.getD [1]
    match slots.find? (· ≤ 0) with
    | some bad => .error ("--slot values must be > 0 (got " ++ toString bad ++ ")")
    | none =>
      let count := args.count.getD slots.length
      .ok ((List.range count).map fun i =>
        { transaction := tools.encodeBase64 (transactionOf tools args tipTo fresh i)
          slot := slots[i % slots.length]? })

end Tool

/-! ### What the service reads -/

/-- The bytes of a number that fits say what it is. -/
lemma fromLeBytes_toLeBytes {size n : ℕ} (hn : n < 256 ^ size) :
    fromLeBytes (toLeBytes size n) = n := by
  induction size generalizing n with
  | zero =>
    rw [pow_zero, Nat.lt_one_iff] at hn
    rw [hn]
    rfl
  | succ size ih =>
    have hdiv : n / 256 < 256 ^ size := Nat.div_lt_of_lt_mul (by rwa [pow_succ, mul_comm] at hn)
    rw [toLeBytes, fromLeBytes, ih hdiv, UInt8.toNat_ofNat']
    omega

/-- A compiled instruction names its accounts among the static account keys. -/
def Compiles (keys : List Pubkey) (compiled : List UInt8 × List UInt8)
    (instruction : Instruction) : Prop :=
  compiled.1.map (fun index => keys[index.toNat]?) =
      instruction.accounts.map (fun account => some account.pubkey) ∧
    compiled.2 = instruction.data

section Read

variable {Keypair Hash : Type*} {tools : TipTools Keypair Hash} {code : TransactionCode}

/-- What instructions the libraries of the tool make. -/
structure TipTools.Documented (tools : TipTools Keypair Hash) : Prop where
  /-- Setting the limit takes no accounts. -/
  setComputeUnitLimit : ∀ units, (tools.setComputeUnitLimit units).accounts = []
  /-- Setting the price takes no accounts. -/
  setComputeUnitPrice : ∀ price, (tools.setComputeUnitPrice price).accounts = []
  /-- A transfer names the two accounts and the lamports. -/
  transfer : ∀ source target lamports,
    (tools.transfer source target lamports).accounts.map AccountMeta.pubkey = [source, target] ∧
      (tools.transfer source target lamports).data = systemTransfer ++ toLeBytes 8 lamports

/-- The libraries of a service read a transaction that those of the tool write. -/
structure TipTools.ReadBy (tools : TipTools Keypair Hash) (code : TransactionCode)
    (instructions : List Instruction) (signer : Keypair) (wire : List UInt8) : Prop where
  /-- There is a transaction. -/
  ne_nil : wire ≠ []
  /-- Decoding undoes encoding. -/
  decodeBase64 : code.decodeBase64 (tools.encodeBase64 wire) = some wire
  /-- Three bytes are four characters, with padding. -/
  encodeBase64 : (tools.encodeBase64 wire).utf8ByteSize = 4 * ((wire.length + 2) / 3)
  /-- The transaction is sound: its instructions are compiled, and its only signature is that of the
  payer. -/
  tryNewSanitized : ∃ view, code.tryNewSanitized wire = some view ∧
    List.Forall₂ (Compiles view.staticAccountKeys) view.instructions instructions ∧
    view.otherSignatures = [] ∧ view.staticAccountKeys.head? = some (tools.pubkey signer) ∧
    code.verify view.signature (tools.pubkey signer) view.messageData = true

/-- What has fewer than two accounts is no transfer. -/
lemma transfer_of_accounts_lt {data accounts : List UInt8} {keys : List Pubkey}
    (h : accounts.length < 2) : Postpack.transfer data accounts keys = none := by
  by_contra hsome
  obtain ⟨⟨receiver, lamports⟩, htransfer⟩ := Option.ne_none_iff_exists'.mp hsome
  obtain ⟨-, -, -, -, target, hsecond, -⟩ := transfer_eq_some_iff.mp htransfer
  have := (List.getElem?_eq_some_iff.mp hsecond).1
  omega

/-- A compiled transfer reads as the transfer that it is. -/
lemma transfer_of_compiles (h : tools.Documented) {keys : List Pubkey}
    {compiled : List UInt8 × List UInt8} {source target : Pubkey} {lamports : ℕ}
    (hlamports : lamports < u64Size)
    (hcompiles : Compiles keys compiled (tools.transfer source target lamports)) :
    Postpack.transfer compiled.2 compiled.1 keys = some (target, lamports) := by
  obtain ⟨haccounts, hdata⟩ := hcompiles
  obtain ⟨hnamed, hwritten⟩ := h.transfer source target lamports
  have hmap : (tools.transfer source target lamports).accounts.map
      (fun account => some account.pubkey) = [some source, some target] := by
    rw [← Function.comp_def some AccountMeta.pubkey, ← List.map_map, hnamed]
    rfl
  rw [hmap] at haccounts
  have hlength : compiled.1.length = 2 := by
    have := congrArg List.length haccounts
    rwa [List.length_map] at this
  obtain ⟨first, second, hboth⟩ := List.length_eq_two.mp hlength
  rw [hboth, List.map_cons, List.map_cons, List.map_nil, List.cons.injEq, List.cons.injEq]
    at haccounts
  obtain ⟨hfirst, hsecond, -⟩ := haccounts
  rw [hboth]
  have hlen : (systemTransfer ++ toLeBytes 8 lamports).length = 12 := by
    rw [List.length_append, length_toLeBytes]
    rfl
  refine transfer_eq_some_iff.mpr ⟨?_, ?_, ?_, ⟨first, rfl, ?_⟩, second, rfl, hsecond⟩
  · rw [hdata, hwritten, hlen]
  · rw [hdata, hwritten]
    rfl
  · rw [hdata, hwritten]
    change fromLeBytes ((toLeBytes 8 lamports).take 8) = lamports
    rw [List.take_of_length_le (length_toLeBytes 8 lamports).le, fromLeBytes_toLeBytes hlamports]
  · exact (List.getElem?_eq_some_iff.mp hfirst).1

/-- An instruction with fewer than two accounts adds no tip. -/
lemma addTip_of_compiles (tipAccounts : List Pubkey) {keys : List Pubkey}
    {compiled : List UInt8 × List UInt8} {instruction : Instruction}
    (hcompiles : Compiles keys compiled instruction) (hfew : instruction.accounts.length < 2)
    (lamports : ℕ) :
    addTip tipAccounts keys lamports compiled = lamports := by
  have hlength : compiled.1.length = instruction.accounts.length := by
    have := congrArg List.length hcompiles.1
    rwa [List.length_map, List.length_map] at this
  unfold addTip
  rw [transfer_of_accounts_lt (hlength ▸ hfew)]

/-- What the service adds up of a transaction of the tool: the tip, if the account is one of its. -/
lemma tips_of_compiles (h : tools.Documented) {keys tipAccounts : List Pubkey} {payer : Pubkey}
    {memo : String} {tip : ℕ} {tipTo : Pubkey} {lamportPerCu : ℕ} (htip : tip < u64Size)
    {compiled : List (List UInt8 × List UInt8)}
    (hcompiled : List.Forall₂ (Compiles keys) compiled
      (tippedInstructions tools payer memo tip tipTo lamportPerCu)) :
    compiled.foldl (addTip tipAccounts keys) 0 = if tipTo ∈ tipAccounts then tip else 0 := by
  unfold tippedInstructions at hcompiled
  rw [List.cons_append, List.cons_append, List.cons_append, List.nil_append] at hcompiled
  obtain ⟨limit, _, hlimit, hafter, rfl⟩ := List.forall₂_cons_right_iff.mp hcompiled
  obtain ⟨price, _, hprice, hmore, rfl⟩ := List.forall₂_cons_right_iff.mp hafter
  obtain ⟨note, _, hnote, hlast, rfl⟩ := List.forall₂_cons_right_iff.mp hmore
  have hlimit := addTip_of_compiles tipAccounts hlimit
    (by simp [h.setComputeUnitLimit])
  have hprice := addTip_of_compiles tipAccounts hprice
    (by simp [h.setComputeUnitPrice])
  have hnote := addTip_of_compiles tipAccounts hnote (by simp)
  rw [List.foldl_cons, List.foldl_cons, List.foldl_cons, hlimit, hprice, hnote]
  by_cases hpos : tip > 0
  · rw [if_pos hpos] at hlast
    obtain ⟨sent, _, hsent, hnone, rfl⟩ := List.forall₂_cons_right_iff.mp hlast
    rw [List.forall₂_nil_right_iff.mp hnone, List.foldl_cons, List.foldl_nil]
    unfold addTip
    rw [transfer_of_compiles h htip hsent]
    have hmin : min (0 + tip) (u64Size - 1) = tip := by omega
    simp only [hmin, List.contains_iff_mem]
  · rw [if_neg hpos] at hlast
    rw [List.forall₂_nil_right_iff.mp hlast, List.foldl_nil]
    split_ifs <;> omega

/-- The text of the first signature of a transaction. -/
def signatureText (code : TransactionCode) (wire : List UInt8) : String :=
  (code.tryNewSanitized wire).elim "" fun view => code.showSignature view.signature

/-- What the service reads of a transaction of the tool. -/
lemma parseTip_of_readBy (hdoc : tools.Documented)
    (hmax : packetDataSize ≤ code.maxTransactionSize) {signer : Keypair} {wire : List UInt8}
    {memo : String} {tip : ℕ} {tipTo : Pubkey} {lamportPerCu : ℕ}
    (hread : tools.ReadBy code
      (tippedInstructions tools (tools.pubkey signer) memo tip tipTo lamportPerCu) signer wire)
    (htip : tip < u64Size) (hfits : wire.length ≤ packetDataSize) (tipAccounts : List Pubkey) :
    code.decodeTransaction (tools.encodeBase64 wire) = some wire ∧
      code.parseTip wire tipAccounts =
        .ok ⟨signatureText code wire, if tipTo ∈ tipAccounts then tip else 0⟩ := by
  obtain ⟨view, hview, hcompiled, hothers, hpayer, hverified⟩ := hread.tryNewSanitized
  constructor
  · have hsize : ¬ (tools.encodeBase64 wire).utf8ByteSize >
        4 * ((code.maxTransactionSize + 2) / 3) := by
      rw [hread.encodeBase64]
      omega
    unfold TransactionCode.decodeTransaction
    rw [if_neg hsize, hread.decodeBase64]
    dsimp only
    rw [if_pos]
    refine ⟨hread.ne_nil, ?_⟩
    split_ifs <;> omega
  · obtain ⟨keys, hkeys⟩ := List.head?_eq_some_iff.mp hpayer
    unfold TransactionCode.parseTip signatureText
    rw [hview]
    dsimp only
    rw [if_neg, tips_of_compiles hdoc htip hcompiled]
    · rfl
    -- the only signature is that of the first account
    · unfold TransactionView.signatures
      rw [hothers, hkeys]
      simp [hverified]

end Read

/-! ### Registering -/

section Register

variable {code : TransactionCode} {tipAccounts : List Pubkey}

/-- An entry of a request reads as a tip. -/
def Reads (code : TransactionCode) (tipAccounts : List Pubkey) (entry : PayEntry)
    (tip : ParsedTip) : Prop :=
  entry.slot.any (· > 0) ∧ ∃ wire, code.decodeTransaction entry.transaction = some wire ∧
    code.parseTip wire tipAccounts = .ok tip

/-- One entry that reads as a tip. -/
lemma scanEntry_of_reads {entry : PayEntry} {tip : ParsedTip}
    (h : Reads code tipAccounts entry tip) (scan : PayScan) (i : ℕ) :
    code.scanEntry tipAccounts scan (entry, i) =
      if tip.lamports = 0 then
        { scan with errors := scan.errors ++
            [⟨i, tip.signature, "transaction does not tip an Astralane tip account"⟩] }
      else if tip.signature ∈ scan.entries.map ParsedTip.signature then scan
      else { scan with entries := scan.entries ++ [tip] } := by
  obtain ⟨hslot, wire, hwire, htip⟩ := h
  unfold TransactionCode.scanEntry
  dsimp only
  rw [if_neg (not_not.mpr hslot), hwire]
  dsimp only
  rw [htip]

/-- Entries that read as tips with different signatures are all taken. -/
lemma scan_of_tips {n : ℕ} {entry : ℕ → PayEntry} {tip : ℕ → ParsedTip}
    (hreads : ∀ i < n, Reads code tipAccounts (entry i) (tip i))
    (hpos : ∀ i < n, 0 < (tip i).lamports)
    (hnodup : (((List.range n).map tip).map ParsedTip.signature).Nodup) :
    code.scan tipAccounts ((List.range n).map entry) = ⟨[], (List.range n).map tip⟩ := by
  induction n with
  | zero => rfl
  | succ n ih =>
    rw [List.range_succ, List.map_append, List.map_append, List.nodup_append] at hnodup
    obtain ⟨hnodup, -, hdisjoint⟩ := hnodup
    have hbefore := ih (fun i hi => hreads i (by omega)) (fun i hi => hpos i (by omega)) hnodup
    unfold TransactionCode.scan at hbefore ⊢
    rw [List.range_succ, List.map_append, List.map_append, List.zipIdx_append, List.foldl_append,
      hbefore, List.map_singleton, List.map_singleton]
    change code.scanEntry tipAccounts _ (entry n, _) = _
    have hnew : (tip n).signature ∉ ((List.range n).map tip).map ParsedTip.signature :=
      fun hmem => hdisjoint _ hmem _ (List.mem_singleton_self _) rfl
    rw [scanEntry_of_reads (hreads n n.lt_succ_self), if_neg (hpos n n.lt_succ_self).ne',
      if_neg hnew]

/-- Entries that tip nothing are all refused. -/
lemma scan_of_no_tips {n : ℕ} {entry : ℕ → PayEntry} {tip : ℕ → ParsedTip}
    (hreads : ∀ i < n, Reads code tipAccounts (entry i) (tip i))
    (hzero : ∀ i < n, (tip i).lamports = 0) :
    code.scan tipAccounts ((List.range n).map entry) =
      ⟨(List.range n).map fun i =>
        ⟨i, (tip i).signature, "transaction does not tip an Astralane tip account"⟩, []⟩ := by
  induction n with
  | zero => rfl
  | succ n ih =>
    have hbefore := ih (fun i hi => hreads i (by omega)) (fun i hi => hzero i (by omega))
    unfold TransactionCode.scan at hbefore ⊢
    rw [List.range_succ, List.map_append, List.map_append, List.zipIdx_append, List.foldl_append,
      hbefore, List.map_singleton, List.map_singleton]
    change code.scanEntry tipAccounts _ (entry n, _) = _
    rw [scanEntry_of_reads (hreads n n.lt_succ_self), if_pos (hzero n n.lt_succ_self),
      List.length_map, List.length_range, Nat.zero_add]

/-- Tips with new and different signatures are all registered. -/
lemma registerTips_of_new {apiKey : String} {store : Store} {tips : List ParsedTip}
    (hnodup : (tips.map ParsedTip.signature).Nodup)
    (hnew : ∀ tip ∈ tips, tip.signature ∉ store.paidSignatures) :
    let result := tips.foldl (Store.registerTip apiKey) (store, [])
    result.2 = tips.map ParsedTip.signature ∧
      result.1.payments = store.payments ++
        tips.map (fun tip => ⟨tip.signature, apiKey, tip.lamports, false⟩) ∧
      ∀ signature, signature ∈ result.1.paidSignatures ↔
        signature ∈ store.paidSignatures ∨ signature ∈ tips.map ParsedTip.signature := by
  induction tips using List.reverseRecOn with
  | nil => exact ⟨rfl, (List.append_nil _).symm, fun _ => (or_iff_left List.not_mem_nil).symm⟩
  | append_singleton tips tip ih =>
    rw [List.map_append, List.nodup_append] at hnodup
    obtain ⟨hnodup, -, hdisjoint⟩ := hnodup
    obtain ⟨haccepted, hpayments, hpaid⟩ :=
      ih hnodup fun other hmem => hnew other (List.mem_append_left _ hmem)
    dsimp only
    rw [List.foldl_append, List.foldl_cons, List.foldl_nil]
    generalize tips.foldl (Store.registerTip apiKey) (store, []) = result at *
    have hfresh : tip.signature ∉ result.1.paidSignatures := by
      rw [hpaid]
      rintro (hold | hmem)
      · exact hnew tip (List.mem_append_right _ (List.mem_singleton_self _)) hold
      · exact hdisjoint _ hmem _ (List.mem_singleton_self _) rfl
    unfold Store.registerTip
    dsimp only
    rw [if_neg hfresh, haccepted, hpayments, List.map_append, List.map_append, List.append_assoc]
    refine ⟨rfl, rfl, fun signature => ?_⟩
    rw [Finset.mem_insert, hpaid, List.mem_append, List.map_singleton, List.mem_singleton]
    tauto

end Register

/-! ### What the service makes of it -/

section Built

variable {Keypair Hash : Type*} {tools : TipTools Keypair Hash} {code : TransactionCode}

/-- The signatures of the transactions that the tool writes. -/
def builtSignatures (tools : TipTools Keypair Hash) (code : TransactionCode) (args : Args)
    (tipTo : Pubkey) (fresh : ℕ → Keypair × Hash) (count : ℕ) : List String :=
  (List.range count).map fun i => signatureText code (transactionOf tools args tipTo fresh i)

/-- What the tool writes, if it writes anything. -/
lemma main_eq_ok {args : Args} {fresh : ℕ → Keypair × Hash} {entries : List PayEntry}
    (hmain : main tools args fresh = .ok entries) {tipTo : Pubkey}
    (htipTo : tools.parsePubkey args.tipAddress = some tipTo) (hslots : args.slots ≠ some []) :
    ∃ entry : ℕ → PayEntry, entries = (List.range entries.length).map entry ∧
      ∀ i, (entry i).transaction = tools.encodeBase64 (transactionOf tools args tipTo fresh i) ∧
        (entry i).slot.any (· > 0) := by
  unfold main at hmain
  rw [htipTo] at hmain
  dsimp only at hmain
  cases hbad : (args.slots.getD [1]).find? (· ≤ 0) with
  | some bad =>
    rw [hbad] at hmain
    cases hmain
  | none =>
    rw [hbad] at hmain
    cases hmain
    have hne : args.slots.getD [1] ≠ [] := by
      cases hargs : args.slots with
      | none => exact List.cons_ne_nil _ _
      | some slots => exact fun hnil => hslots (by rw [hargs, show slots = [] from hnil])
    refine ⟨_, by rw [List.length_map, List.length_range], fun i => ⟨rfl, ?_⟩⟩
    have hlt : i % (args.slots.getD [1]).length < (args.slots.getD [1]).length :=
      Nat.mod_lt _ (List.length_pos_iff.mpr hne)
    have hpos := List.find?_eq_none.mp hbad _ (List.getElem_mem hlt)
    dsimp only
    rw [List.getElem?_eq_getElem hlt]
    simpa using hpos

/-- **What the tool builds the service takes.**  If the service's libraries read what those of the
tool write, and the transactions fit packets and have new and different signatures, the service
registers all of them in order, each with its tip, when there is a tip and its account is one of the
tip accounts; and otherwise it refuses all of them, by their signatures. -/
theorem built_tips_registered (hdoc : tools.Documented)
    (hmax : packetDataSize ≤ code.maxTransactionSize) {args : Args} {fresh : ℕ → Keypair × Hash}
    {entries : List PayEntry} (hmain : main tools args fresh = .ok entries) {tipTo : Pubkey}
    (htipTo : tools.parsePubkey args.tipAddress = some tipTo) (hslots : args.slots ≠ some [])
    (hsome : entries ≠ []) (hmany : entries.length ≤ maxPostpackPayTransactions)
    (htip : args.tipLamports < u64Size)
    (hread : ∀ i < entries.length, tools.ReadBy code (instructionsOf tools args tipTo fresh i)
      (fresh i).1 (transactionOf tools args tipTo fresh i))
    (hfits : ∀ i < entries.length,
      (transactionOf tools args tipTo fresh i).length ≤ packetDataSize)
    {store : Store} {apiKey : String} (hkey : apiKey ∈ store.apiKeys)
    (hnodup : (builtSignatures tools code args tipTo fresh entries.length).Nodup)
    (hnew : ∀ signature ∈ builtSignatures tools code args tipTo fresh entries.length,
      signature ∉ store.paidSignatures)
    (tipAccounts : List Pubkey) :
    let signatures := builtSignatures tools code args tipTo fresh entries.length
    let (store', response) := store.registerPayments code tipAccounts apiKey entries
    if 0 < args.tipLamports ∧ tipTo ∈ tipAccounts then
      response = .ok ⟨signatures, []⟩ ∧
        store'.payments = store.payments ++
          signatures.map fun signature => ⟨signature, apiKey, args.tipLamports, false⟩
    else
      store' = store ∧ response = .ok ⟨[], signatures.mapIdx fun i signature =>
        ⟨i, signature, "transaction does not tip an Astralane tip account"⟩⟩ := by
  intro signatures
  obtain ⟨entry, hentries, hentry⟩ := main_eq_ok hmain htipTo hslots
  -- the tip that the store reads in each of the entries
  let tip (i : ℕ) : ParsedTip :=
    ⟨signatureText code (transactionOf tools args tipTo fresh i),
      if tipTo ∈ tipAccounts then args.tipLamports else 0⟩
  have hreads : ∀ i < entries.length, Reads code tipAccounts (entry i) (tip i) := by
    intro i hi
    obtain ⟨htransaction, hslot⟩ := hentry i
    obtain ⟨hdecoded, hparsed⟩ := parseTip_of_readBy hdoc hmax (hread i hi) htip (hfits i hi)
      tipAccounts
    exact ⟨hslot, _, htransaction ▸ hdecoded, hparsed⟩
  have hsignatures : ((List.range entries.length).map tip).map ParsedTip.signature = signatures :=
    List.map_map
  unfold Store.registerPayments
  rw [if_neg hsome, if_neg (not_lt.mpr hmany)]
  dsimp only
  rw [if_neg (not_not.mpr hkey)]
  -- either all of the entries tip or none of them does
  by_cases htips : 0 < args.tipLamports ∧ tipTo ∈ tipAccounts
  · have hlamports : ∀ i, (tip i).lamports = args.tipLamports := fun i => if_pos htips.2
    have hscan : code.scan tipAccounts entries = _ := (congrArg _ hentries).trans
      (scan_of_tips hreads (fun i _ => (hlamports i).symm ▸ htips.1) (hsignatures.symm ▸ hnodup))
    obtain ⟨haccepted, hpayments, -⟩ := @registerTips_of_new apiKey store
      ((List.range entries.length).map tip) (hsignatures.symm ▸ hnodup) (by
        intro t ht
        obtain ⟨i, hi, rfl⟩ := List.mem_map.mp ht
        exact hnew _ (List.mem_map_of_mem hi))
    rw [if_pos htips, hscan]
    refine ⟨?_, hpayments.trans ?_⟩
    · rw [haccepted, hsignatures]
    · rw [← hsignatures, List.map_map, List.map_map, List.map_map]
      exact congrArg _ (List.map_congr_left fun i _ => by
        rw [Function.comp_apply, Function.comp_apply, Function.comp_apply, hlamports])
  · have hlamports : ∀ i, (tip i).lamports = 0 := by
      intro i
      change (if tipTo ∈ tipAccounts then args.tipLamports else 0) = 0
      split_ifs with hmem
      · exact Nat.eq_zero_of_not_pos fun hpos => htips ⟨hpos, hmem⟩
      · rfl
    have hscan : code.scan tipAccounts entries = _ := (congrArg _ hentries).trans
      (scan_of_no_tips hreads fun i _ => hlamports i)
    have herrors : (List.range entries.length).map (fun i => (⟨i, (tip i).signature,
        "transaction does not tip an Astralane tip account"⟩ : PayEntryError)) =
        signatures.mapIdx fun i signature =>
          ⟨i, signature, "transaction does not tip an Astralane tip account"⟩ := by
      rw [← hsignatures]
      refine List.ext_getElem (by simp) fun i _ _ => ?_
      simp
    rw [if_neg htips, hscan, herrors]
    exact ⟨rfl, rfl⟩

end Built

/-! ### Two transactions of the tool -/

/-- The Compute Budget program. -/
def computeBudgetProgram : Pubkey where
  toArray := List.toArray
    [3, 6, 70, 111, 229, 33, 23, 50, 255, 236, 173, 186, 114, 195, 155, 231, 188, 140, 229, 187,
      197, 247, 18, 107, 44, 67, 155, 58, 64, 0, 0, 0]
  size_toArray := rfl

/-- The defaults, for two transactions. -/
def pairArgs : Args where
  tipAddress := "astgCFnATW3DGN7Pnfj51w3BdVy2TGeMoK5eV7bt4x1"
  tipLamports := 10000
  lamportsPerCu := 0
  memo := "fake-postpack"
  slots := none
  count := some 2

/-- What the tool draws for a transaction, and what comes of it. -/
structure BuiltTx where
  /-- The payer. -/
  payer : Pubkey
  /-- The byte that the block hash repeats. -/
  hashByte : UInt8
  /-- The last digit of the memo. -/
  digit : UInt8
  /-- The payer's signature of the message. -/
  signature : SignatureBytes
  /-- The signature in base 58. -/
  shown : String
  /-- The transaction in base 64. -/
  text : String
  deriving DecidableEq

namespace BuiltTx

/-- The transaction with number 0. -/
def first : BuiltTx where
  payer := Store.demoPayer
  hashByte := 7
  digit := 48
  signature :=
    { toArray := List.toArray
        [105, 151, 167, 170, 13, 114, 53, 141, 192, 251, 43, 146, 219, 97, 108, 41, 19, 237, 218,
          100, 172, 99, 29, 157, 120, 39, 226, 179, 15, 147, 60, 114, 238, 188, 107, 43, 214, 202,
          252, 82, 144, 147, 249, 97, 17, 176, 216, 230, 113, 242, 226, 134, 112, 205, 70, 38, 34,
          142, 190, 195, 41, 20, 79, 15]
      size_toArray := rfl }
  shown :=
    "37Sqrtc7ACKMipvYYJNMNdBUhW6CMBFKk7bf8Tj65s9y" ++
    "yBdMhcthk9ZvF9vjPE64NA7ELdeUKCSKMhzrCJxMSFSe"
  text :=
    "AWmXp6oNcjWNwPsrktthbCkT7dpkrGMdnXgn4rMPkzxy7rxrK9bK/FKQk/lhEbDY5nHy4oZwzUYmIo6+wykU" ++
    "Tw8BAAMF6kpsY+KcUgq+9VB7Ey7F+ZVHdq6+vnuSQh7qaRRG0iwIrbWUOPbAOGzfBJSxVewIIGUKBUbeff2W" ++
    "w64EKI97OgAAAAAAAAAAAAAAAAAAAAAAAAAAAAAAAAAAAAAAAAAAAwZGb+UhFzL/7K26csOb57yM5bvF9xJr" ++
    "LEObOkAAAAAFSlNamSkhBk0k6HFg2jh8fDW13bySu4HkH6hAQQVEjQcHBwcHBwcHBwcHBwcHBwcHBwcHBwcH" ++
    "BwcHBwcHBwcHBAMABQIwdQAAAwAJAwAAAAAAAAAABAEAD2Zha2UtcG9zdHBhY2stMAICAAEMAgAAABAnAAAA" ++
    "AAAA"

/-- The transaction with number 1. -/
def second : BuiltTx where
  payer :=
    { toArray := List.toArray
        [19, 152, 246, 44, 109, 26, 69, 124, 81, 186, 106, 75, 95, 61, 189, 47, 105, 252, 169, 50,
          22, 33, 141, 200, 153, 126, 65, 107, 209, 125, 147, 202]
      size_toArray := rfl }
  hashByte := 8
  digit := 49
  signature :=
    { toArray := List.toArray
        [103, 167, 45, 237, 73, 93, 222, 139, 94, 20, 199, 151, 116, 30, 61, 22, 156, 67, 60, 127,
          233, 9, 13, 33, 232, 187, 235, 15, 217, 48, 198, 16, 121, 241, 34, 14, 82, 122, 2, 71, 98,
          64, 119, 200, 177, 45, 113, 220, 112, 52, 186, 181, 218, 169, 98, 29, 76, 31, 83, 186, 75,
          153, 134, 13]
      size_toArray := rfl }
  shown :=
    "35CQbRNK5UuJeUzd2Z2obMxAfMaWMebXNbUkHwkrELqe" ++
    "TZnTAYFZXTe2Wp6k6CDgNvU26NLAfqiYHqoczbFfpQ6x"
  text :=
    "AWenLe1JXd6LXhTHl3QePRacQzx/6QkNIei76w/ZMMYQefEiDlJ6AkdiQHfIsS1x3HA0urXaqWIdTB9TukuZ" ++
    "hg0BAAMFE5j2LG0aRXxRumpLXz29L2n8qTIWIY3ImX5Ba9F9k8oIrbWUOPbAOGzfBJSxVewIIGUKBUbeff2W" ++
    "w64EKI97OgAAAAAAAAAAAAAAAAAAAAAAAAAAAAAAAAAAAAAAAAAAAwZGb+UhFzL/7K26csOb57yM5bvF9xJr" ++
    "LEObOkAAAAAFSlNamSkhBk0k6HFg2jh8fDW13bySu4HkH6hAQQVEjQgICAgICAgICAgICAgICAgICAgICAgI" ++
    "CAgICAgICAgIBAMABQIwdQAAAwAJAwAAAAAAAAAABAEAD2Zha2UtcG9zdHBhY2stMQICAAEMAgAAABAnAAAA" ++
    "AAAA"

/-- The two transactions. -/
def pair : List BuiltTx := [first, second]

/-- The transaction with this number. -/
def nth (i : ℕ) : BuiltTx := if i = 0 then first else second

/-- The memo: `fake-postpack-` and the digit. -/
def memo (tx : BuiltTx) : List UInt8 :=
  [102, 97, 107, 101, 45, 112, 111, 115, 116, 112, 97, 99, 107, 45, tx.digit]

/-- The legacy message. -/
def message (tx : BuiltTx) : List UInt8 :=
  [1, 0, 3, 5] ++ tx.payer.toList ++ Store.demoTipAccount.toList ++ List.replicate 32 0 ++
    computeBudgetProgram.toList ++ memoProgram.toList ++ List.replicate 32 tx.hashByte ++
    [4, 3, 0, 5] ++ [2, 48, 117, 0, 0] ++ [3, 0, 9] ++ [3, 0, 0, 0, 0, 0, 0, 0, 0] ++
    [4, 1, 0, 15] ++ tx.memo ++ [2, 2, 0, 1, 12] ++ [2, 0, 0, 0] ++ [16, 39, 0, 0, 0, 0, 0, 0]

/-- The transaction on the wire. -/
def wire (tx : BuiltTx) : List UInt8 := 1 :: tx.signature.toList ++ tx.message

/-- The transaction, parsed. -/
def view (tx : BuiltTx) : TransactionView where
  signature := tx.signature
  otherSignatures := []
  staticAccountKeys :=
    [tx.payer, Store.demoTipAccount, systemProgram, computeBudgetProgram, memoProgram]
  messageData := tx.message
  instructions :=
    [([], [2, 48, 117, 0, 0]), ([], [3, 0, 0, 0, 0, 0, 0, 0, 0]), ([0], tx.memo),
      ([0, 1], [2, 0, 0, 0] ++ [16, 39, 0, 0, 0, 0, 0, 0])]

/-- No two of them are the same on the wire. -/
lemma find_wire (i : ℕ) : pair.find? (·.wire = (nth i).wire) = some (nth i) := by
  unfold nth
  split_ifs
  · decide +kernel
  · decide +kernel

end BuiltTx

/-- What the libraries of the tool do with the two transactions. -/
def pairTools : TipTools BuiltTx Unit where
  pubkey tx := tx.payer
  setComputeUnitLimit units := ⟨computeBudgetProgram, [], 2 :: toLeBytes 4 units⟩
  setComputeUnitPrice price := ⟨computeBudgetProgram, [], 3 :: toLeBytes 8 price⟩
  transfer source target lamports :=
    ⟨systemProgram, [⟨source, true, true⟩, ⟨target, false, true⟩],
      systemTransfer ++ toLeBytes 8 lamports⟩
  newSignedWithPayer _ tx _ := tx.wire
  encodeBase64 wire := ((BuiltTx.pair.find? (·.wire = wire)).map BuiltTx.text).getD ""
  parsePubkey text := if text = pairArgs.tipAddress then some Store.demoTipAccount else none

/-- What the libraries of the service do with them. -/
def pairCode : TransactionCode where
  decodeBase64 encoded := (BuiltTx.pair.find? (·.text = encoded)).map BuiltTx.wire
  maxTransactionSize := 4096
  v1Prefix := 129
  tryNewSanitized wire := (BuiltTx.pair.find? (·.wire = wire)).map BuiltTx.view
  verify signature pubkey message := BuiltTx.pair.any fun tx =>
    signature = tx.signature ∧ pubkey = tx.payer ∧ message = tx.message
  showSignature signature :=
    ((BuiltTx.pair.find? (·.signature = signature)).map BuiltTx.shown).getD ""

/-- The service parses what the tool writes. -/
lemma tryNewSanitized_pair (i : ℕ) :
    pairCode.tryNewSanitized (BuiltTx.nth i).wire = some (BuiltTx.nth i).view :=
  congrArg (Option.map BuiltTx.view) (BuiltTx.find_wire i)

/-- The service reads both of them. -/
lemma readBy_pair {i : ℕ} (h : i < 2) :
    pairTools.ReadBy pairCode
      (instructionsOf pairTools pairArgs Store.demoTipAccount (fun i => (BuiltTx.nth i, ())) i)
      (BuiltTx.nth i) (BuiltTx.nth i).wire := by
  have hcases : i = 0 ∨ i = 1 := by omega
  refine ⟨List.cons_ne_nil _ _, ?_, ?_, _, tryNewSanitized_pair i, ?_, rfl, rfl, ?_⟩
  · rcases hcases with rfl | rfl <;> decide +kernel
  · rcases hcases with rfl | rfl <;> decide +kernel
  · refine .cons ⟨rfl, rfl⟩ (.cons ⟨rfl, rfl⟩ (.cons ⟨rfl, ?_⟩ (.cons ⟨rfl, rfl⟩ .nil)))
    rcases hcases with rfl | rfl <;> decide +kernel
  · rcases hcases with rfl | rfl <;> decide +kernel

/-- The service registers both, with their tips. -/
theorem built_tips_registered_pair :
    ∃ entries, main pairTools pairArgs (fun i => (BuiltTx.nth i, ())) = .ok entries ∧
      let (store, response) :=
        (seeded 0).registerPayments pairCode [Store.demoTipAccount] "demo-key-tier1" entries
      response = .ok ⟨[BuiltTx.first.shown, BuiltTx.second.shown], []⟩ ∧
        store.payments = [⟨BuiltTx.first.shown, "demo-key-tier1", 10000, false⟩,
          ⟨BuiltTx.second.shown, "demo-key-tier1", 10000, false⟩] := by
  have htipTo : pairTools.parsePubkey pairArgs.tipAddress = some Store.demoTipAccount := by
    dsimp only [pairTools]
    rw [if_pos rfl]
  obtain ⟨entries, hentries, hlength⟩ : ∃ entries,
      main pairTools pairArgs (fun i => (BuiltTx.nth i, ())) = .ok entries ∧
        entries.length = 2 := by
    unfold main
    rw [htipTo]
    exact ⟨_, rfl, rfl⟩
  have hdoc : pairTools.Documented :=
    ⟨fun _ => rfl, fun _ => rfl, fun _ _ _ => ⟨rfl, rfl⟩⟩
  have hfits : ∀ i < 2, (transactionOf pairTools pairArgs Store.demoTipAccount
      (fun i => (BuiltTx.nth i, ())) i).length ≤ packetDataSize := by
    decide +kernel
  have hkey : "demo-key-tier1" ∈ (seeded 0).apiKeys := by
    decide +kernel
  have hsignatures : builtSignatures pairTools pairCode pairArgs Store.demoTipAccount
      (fun i => (BuiltTx.nth i, ())) 2 = [BuiltTx.first.shown, BuiltTx.second.shown] := by
    decide +kernel
  have hnodup : [BuiltTx.first.shown, BuiltTx.second.shown].Nodup := by
    decide +kernel
  obtain ⟨-, -, hpayments, hpaid⟩ := Store.seeded_spec 0
  -- the store is not to be unfolded in what follows
  generalize seeded 0 = store at hkey hpayments hpaid ⊢
  have hsome : entries ≠ [] := by
    rintro rfl
    cases hlength
  have h := @built_tips_registered BuiltTx Unit pairTools pairCode hdoc (by decide) pairArgs
    (fun i => (BuiltTx.nth i, ())) entries hentries Store.demoTipAccount htipTo nofun hsome
    (by
      rw [hlength]
      decide)
    (by decide) (fun _ hi => readBy_pair (hlength ▸ hi)) (fun i hi => hfits i (hlength ▸ hi))
    store "demo-key-tier1" hkey
    (by rwa [hlength, hsignatures])
    (by
      rw [hpaid]
      exact fun _ _ => Finset.notMem_empty _)
    [Store.demoTipAccount]
  have htips : 0 < pairArgs.tipLamports ∧ Store.demoTipAccount ∈ [Store.demoTipAccount] :=
    ⟨by decide, List.mem_singleton_self _⟩
  dsimp only at h
  rw [if_pos htips, hlength, hsignatures, hpayments] at h
  exact ⟨entries, hentries, h⟩

end TipTool

end ShredTools.Postpack
