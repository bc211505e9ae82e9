import ShredTools.Audit.VerifiedShred
import ShredTools.Postpack.Store

/-!
# Registering and crediting tips

A client registers the transactions by which it tipped; each becomes a payment, which is credited
when the price of SOL is known and the key belongs to a client.  The decoder, the transaction parser
and the signature check of the libraries are a parameter (`TransactionCode`); what the service makes
of their answers is here.

`parseTip` reads the tip of a transaction: it adds up what its instructions transfer to the tip
accounts, with a sum that saturates.  `scan` goes through the entries of a request and sorts them
into tips and errors, and `registerPayments` enters those tips whose signature is new.
`creditPayments` then settles the payments that are due, in their order, by `Crediting.credit`.
-/

namespace ShredTools.Postpack

open ShredTools.Audit (Pubkey)

/-- `MAX_POSTPACK_PAY_TRANSACTIONS` -/
def maxPostpackPayTransactions : ℕ := 1000

/-- `PACKET_DATA_SIZE` -/
def packetDataSize : ℕ := 1232

/-- `MAX_SOL_PRICE_AGE_SECS` -/
def maxSolPriceAgeSecs : ℤ := 30 * 60

/-- `SYSTEM_TRANSFER` -/
def systemTransfer : List UInt8 := [2, 0, 0, 0]

/-- The bytes of a signature. -/
abbrev SignatureBytes := Vector UInt8 64

/-- `SanitizedTransactionView`, whose transaction has a signature. -/
structure TransactionView where
  /-- The first signature. -/
  signature : SignatureBytes
  /-- The other signatures. -/
  otherSignatures : List SignatureBytes
  /-- The static account keys. -/
  staticAccountKeys : List Pubkey
  /-- The bytes signed. -/
  messageData : List UInt8
  /-- The accounts and the data of each instruction. -/
  instructions : List (List UInt8 × List UInt8)

/-- The signatures of a transaction. -/
def TransactionView.signatures (view : TransactionView) : List SignatureBytes :=
  view.signature :: view.otherSignatures

/-- What the libraries do with transactions. -/
structure TransactionCode where
  /-- `BASE64_STANDARD.decode` -/
  decodeBase64 : String → Option (List UInt8)
  /-- `MAX_TRANSACTION_SIZE` -/
  maxTransactionSize : ℕ
  /-- `V1_PREFIX` -/
  v1Prefix : UInt8
  /-- `SanitizedTransactionView::try_new_sanitized` -/
  tryNewSanitized : List UInt8 → Option TransactionView
  /-- `Signature::verify` -/
  verify : SignatureBytes → Pubkey → List UInt8 → Bool
  /-- `Signature::to_string` -/
  showSignature : SignatureBytes → String

/-- `PostpackPayEntry` -/
structure PayEntry where
  /-- The transaction in base64. -/
  transaction : String
  /-- The slot that it landed in. -/
  slot : Option ℤ
  deriving DecidableEq

/-- `PostpackPayError` -/
structure PayEntryError where
  /-- The place of the entry in the request. -/
  index : ℕ
  /-- The signature, if it is known. -/
  signature : String
  /-- What is wrong with the entry. -/
  error : String
  deriving DecidableEq

/-- `PostpackPayResponse` -/
structure PayResponse where
  /-- The signatures registered. -/
  accepted : List String
  /-- The entries refused. -/
  errors : List PayEntryError
  deriving DecidableEq

/-! ### Parsing a tip -/

/-- `u64::from_le_bytes` -/
def fromLeBytes : List UInt8 → ℕ
  | [] => 0
  | byte :: bytes => byte.toNat + 256 * fromLeBytes bytes

/-- The range `data.get(from..to)` -/
def getRange (data : List UInt8) (start stop : ℕ) : Option (List UInt8) :=
  if stop ≤ data.length then some ((data.drop start).take (stop - start)) else none

/-- `transfer` -/
def transfer (data accounts : List UInt8) (keys : List Pubkey) : Option (Pubkey × ℕ) := do
  let kind ← getRange data 0 4
  if kind ≠ systemTransfer then none
  else
    let lamports ← getRange data 4 12
    let source ← accounts[0]?
    let _ ← keys[source.toNat]?
    let target ← accounts[1]?
    let receiver ← keys[target.toNat]?
    some (receiver, fromLeBytes lamports)

/-- `ParsedTip` -/
structure ParsedTip where
  /-- The first signature, as text. -/
  signature : String
  /-- The lamports sent to tip accounts. -/
  lamports : ℕ
  deriving DecidableEq

/-- The lamports that one instruction adds, in a counter of 64 bits that stops at its end. -/
def addTip (tipAccounts keys : List Pubkey) (lamports : ℕ)
    (instruction : List UInt8 × List UInt8) : ℕ :=
  match transfer instruction.2 instruction.1 keys with
  | none => lamports
  | some (receiver, more) =>
    if tipAccounts.contains receiver then min (lamports + more) (u64Size - 1) else lamports

namespace TransactionCode

/-- `decode_transaction` -/
def decodeTransaction (code : TransactionCode) (encoded : String) : Option (List UInt8) :=
  if encoded.utf8ByteSize > 4 * ((code.maxTransactionSize + 2) / 3) then none
  else
    match code.decodeBase64 encoded with
    | none => none
    | some wire =>
      let maxSize :=
        if wire.head? = some code.v1Prefix then code.maxTransactionSize else packetDataSize
      if wire ≠ [] ∧ wire.length ≤ maxSize then some wire else none

/-- `parse_tip` -/
def parseTip (code : TransactionCode) (wire : List UInt8) (tipAccounts : List Pubkey) :
    Except String ParsedTip :=
  match code.tryNewSanitized wire with
  | none => .error "failed to parse transaction"
  | some view =>
    if (view.signatures.zip view.staticAccountKeys).any fun (signature, pubkey) =>
        !code.verify signature pubkey view.messageData then
      .error "signature verification failed"
    else .ok
      { signature := code.showSignature view.signature
        lamports := view.instructions.foldl (addTip tipAccounts view.staticAccountKeys) 0 }

end TransactionCode

/-! ### Registering -/

/-- What the loop over the entries of a request has gathered. -/
structure PayScan where
  /-- The entries refused. -/
  errors : List PayEntryError
  /-- The tips to register. -/
  entries : List ParsedTip
  deriving DecidableEq

/-- One entry of a request. -/
def TransactionCode.scanEntry (code : TransactionCode) (tipAccounts : List Pubkey)
    (scan : PayScan) (indexed : PayEntry × ℕ) : PayScan :=
  let (entry, index) := indexed
  let refuse (signature error : String) : PayScan :=
    { scan with errors := scan.errors ++ [⟨index, signature, error⟩] }
  if ¬ entry.slot.any (· > 0) then refuse "" "missing or invalid shred slot"
  else
    match code.decodeTransaction entry.transaction with
    | none => refuse "" "failed to decode base64 transaction"
    | some wire =>
      match code.parseTip wire tipAccounts with
      | .error reason => refuse "" reason
      | .ok tip =>
        if tip.lamports = 0 then
          refuse tip.signature "transaction does not tip an Astralane tip account"
        -- a signature that came before in the request is left out
        else if tip.signature ∈ scan.entries.map ParsedTip.signature then scan
        else { scan with entries := scan.entries ++ [tip] }

/-- The entries of a request. -/
def TransactionCode.scan (code : TransactionCode) (tipAccounts : List Pubkey)
    (requested : List PayEntry) : PayScan :=
  requested.zipIdx.foldl (code.scanEntry tipAccounts) ⟨[], []⟩

namespace Store

/-- Register a tip, unless its signature is registered. -/
def registerTip (apiKey : String) (state : Store × List String) (tip : ParsedTip) :
    Store × List String :=
  let (store, accepted) := state
  if tip.signature ∈ store.paidSignatures then state
  else
    ({ store with
        paidSignatures := insert tip.signature store.paidSignatures
        payments := store.payments ++ [⟨tip.signature, apiKey, tip.lamports, false⟩] },
      accepted ++ [tip.signature])

/-- `register_payments` -/
def registerPayments (code : TransactionCode) (tipAccounts : List Pubkey) (store : Store)
    (apiKey : String) (requested : List PayEntry) : Store × Except ApiError PayResponse :=
  if requested = [] then (store, .error (.badRequest, "no transactions provided"))
  else if requested.length > maxPostpackPayTransactions then
    (store, .error (.badRequest, "cannot exceed " ++ toString maxPostpackPayTransactions ++
      " transactions, got " ++ toString requested.length))
  else
    let scan := code.scan tipAccounts requested
    if apiKey ∉ store.apiKeys then (store, .error (.unauthorized, "unknown api key"))
    else
      let (store, accepted) := scan.entries.foldl (registerTip apiKey) (store, [])
      (store, .ok ⟨accepted, scan.errors⟩)

end Store

/-! ### Crediting -/

/-- `SolPrice` -/
structure SolPrice where
  /-- The price of a SOL. -/
  cents : ℕ
  /-- When it was learned. -/
  updatedAt : Instant
  deriving DecidableEq

/-- `SolPrice::is_fresh` -/
def SolPrice.isFresh (price : SolPrice) (now : Instant) : Bool :=
  now - price.updatedAt ≤ maxSolPriceAgeSecs * nsPerSecond

/-- The credits that a tip buys, if they fit a balance and are not zero. -/
def SolPrice.tipCredits (price : SolPrice) (tip : ℕ) : Option ℤ :=
  ((creditsForPayment tip .sol price.cents).toOption.bind toI64).filter (· > 0)

/-- The row of a credited tip. -/
def tipRow (price : SolPrice) (now : Instant) (payment : Payment) (credits : ℤ) : HistoryRow where
  id := 0
  apiKeyValue := payment.apiKey
  deltaCredits := credits
  reason := .tip
  messages := none
  instanceName := none
  signature := some payment.signature
  payment := some
    { paidAmount := (toI64 payment.tip).getD i64Max
      paidToken := .sol
      tokenUsdPriceCents := (toI64 price.cents).getD i64Max }
  comment := none
  createdAt := now

/-- What the loop of `credit_payments` has made of the payments so far. -/
structure Crediting where
  /-- The payments that it went through. -/
  payments : List Payment
  /-- The clients. -/
  clients : Clients
  /-- The rows to record. -/
  credited : List HistoryRow

/-- One payment in the loop of `credit_payments`. -/
def Crediting.credit (price : SolPrice) (now : Instant) (state : Crediting) (payment : Payment) :
    Crediting :=
  if payment.accounted then { state with payments := state.payments ++ [payment] }
  else
    match state.clients.lookup payment.apiKey with
    | none => { state with payments := state.payments ++ [payment] }
    | some client =>
      let state := { state with payments := state.payments ++ [{ payment with accounted := true }] }
      match price.tipCredits payment.tip with
      | none => state
      | some credits =>
        { state with
          clients := state.clients.insert payment.apiKey
            { client with creditsBalance := saturatingAdd client.creditsBalance credits }
          credited := state.credited ++ [tipRow price now payment credits] }

/-- `credit_payments` -/
def Store.creditPayments (store : Store) (price : SolPrice) (now : Instant) : Store × ℕ :=
  if ¬ price.isFresh now then (store, 0)
  else
    let state := store.payments.foldl (Crediting.credit price now) ⟨[], store.clients, []⟩
    let store := { store with payments := state.payments, clients := state.clients }
    (state.credited.foldl Store.record store, state.credited.length)

end ShredTools.Postpack
