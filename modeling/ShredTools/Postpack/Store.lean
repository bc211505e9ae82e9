import Mathlib.Data.Finset.Insert
import ShredTools.Library.KeyedTable
import ShredTools.Postpack.Credits

/-!
# The store of the post-pack service

The clients with their balances, the history of credit changes, the settings and the registered
payments, and the requests of an administrator that change them.  Each handler holds the lock of the
store from its first read to its last write, so it is one function of the store; an early return of
the source leaves the store as it is at that point.  Hash maps are keyed tables, and an instant is
its nanoseconds since the epoch.

What `seeded` makes is the store that the service starts with: three clients, a starting balance and
the usage of past hours.  Settings are checked before they are stored, in the order of the source,
and the first error is the one returned.  Rows are numbered by `record` alone, so every function
that adds to the history goes through it.  Views of a client are computed for an answer and never
stored.
-/

namespace ShredTools.Postpack

/-- `DateTime<Utc>` -/
abbrev Instant := ℤ

/-- The nanoseconds of a second. -/
def nsPerSecond : ℤ := 1000000000

/-- The nanoseconds of a millisecond. -/
def nsPerMilli : ℤ := 1000000

/-- `MAX_OVERRIDE_SECONDS` -/
def maxOverrideSeconds : ℤ := 30 * 24 * 60 * 60

/-- The statuses of the errors. -/
inductive StatusCode where
  | badRequest
  | unauthorized
  | notFound
  | conflict
  | unprocessableEntity
  | internalServerError
  deriving DecidableEq

/-- `ApiError` -/
abbrev ApiError := StatusCode × String

/-- `not_found` -/
def notFound : ApiError := (.notFound, "no such postpack client")

/-! ### Settings -/

/-- `CreditedMessageType` -/
inductive CreditedMessageType where
  | bamPreconf
  | rakuraiPostpack
  | gravityPostpack
  deriving DecidableEq

/-- `CreditedMessageType::ALL`, in the order of the type -/
def CreditedMessageType.all : List CreditedMessageType :=
  [.bamPreconf, .rakuraiPostpack, .gravityPostpack]

/-- `CreditedMessageType::label` -/
def CreditedMessageType.label : CreditedMessageType → String
  | .bamPreconf => "bam_preconf"
  | .rakuraiPostpack => "rakurai_postpack"
  | .gravityPostpack => "gravity_postpack"

/-- `CreditedUnitType` -/
inductive CreditedUnitType where
  | message
  | slot
  deriving DecidableEq

/-- The units, in the order of the type. -/
def CreditedUnitType.all : List CreditedUnitType := [.message, .slot]

/-- The name that the errors print. -/
def CreditedUnitType.name : CreditedUnitType → String
  | .message => "Message"
  | .slot => "Slot"

/-- `UnitPrices` -/
abbrev UnitPrices := CreditedUnitType → Option ℕ

/-- `PostpackSettings` -/
structure Settings where
  /-- Whether clients are charged unless they say otherwise. -/
  creditsEnabled : Bool
  /-- How often usage is charged. -/
  usageChargeIntervalSecs : ℕ
  /-- The prices of the message types that have any. -/
  creditsPerUnit : CreditedMessageType → Option UnitPrices

/-- `PostpackSettings::default` -/
def Settings.default : Settings where
  creditsEnabled := false
  usageChargeIntervalSecs := 5
  creditsPerUnit _ := some fun unit => if unit = .message then some 10 else none

/-- `PostpackSettings::credits_per_unit` -/
def Settings.price (settings : Settings) (messageType : CreditedMessageType)
    (unit : CreditedUnitType) : Option ℕ :=
  (settings.creditsPerUnit messageType).bind (· unit)

/-- The error of a price that is not positive. -/
def priceError (messageType : CreditedMessageType) (unit : CreditedUnitType) : String :=
  "credits_per_unit for " ++ messageType.label ++ " per " ++ unit.name ++ " must be positive"

/-- `PostpackSettings::validate` -/
def Settings.validate (settings : Settings) : Except String Unit :=
  match CreditedMessageType.all.find? fun messageType =>
      (settings.price messageType .message).isNone with
  | some messageType => .error (messageType.label ++ " needs a price per message")
  | none =>
    -- the prices in the order of the two maps
    match (CreditedMessageType.all.product CreditedUnitType.all).find? fun (messageType, unit) =>
        (settings.price messageType unit).any fun credits =>
          credits = 0 || (toI64 credits).isNone with
    | some (messageType, unit) => .error (priceError messageType unit)
    | none =>
      if settings.usageChargeIntervalSecs = 0 then
        .error "usage_charge_interval_secs must be positive"
      else .ok ()

/-- `PostpackSettingsUpdate` -/
structure SettingsUpdate where
  /-- Whether clients are charged. -/
  creditsEnabled : Option Bool
  /-- How often usage is charged. -/
  usageChargeIntervalSecs : Option ℕ
  /-- The prices that change. -/
  creditsPerUnit : CreditedMessageType → Option UnitPrices

/-- `PostpackSettingsUpdate::apply` -/
def SettingsUpdate.apply (update : SettingsUpdate) (current : Settings) : Settings where
  creditsEnabled := update.creditsEnabled.getD current.creditsEnabled
  usageChargeIntervalSecs :=
    update.usageChargeIntervalSecs.getD current.usageChargeIntervalSecs
  creditsPerUnit messageType :=
    match update.creditsPerUnit messageType with
    | none => current.creditsPerUnit messageType
    | some prices => some fun unit =>
      (prices unit).or (current.price messageType unit)

/-! ### Clients and their history -/

/-- `PostpackTier` -/
inductive Tier where
  | off
  | tier1
  deriving DecidableEq

/-- `ClientRecord` -/
structure ClientRecord where
  /-- The API key. -/
  apiKeyValue : String
  /-- The client's own tier. -/
  tier : Tier
  /-- The balance. -/
  creditsBalance : ℤ
  /-- When the client was created. -/
  createdAt : Instant
  /-- A comment of the administrator. -/
  comment : Option String
  /-- A tier granted for a while. -/
  overrideTier : Option Tier
  /-- Until when it is granted. -/
  overrideExpiresAt : Option Instant
  /-- Whether the client is charged, if not as the settings say. -/
  creditsEnabled : Option Bool
  deriving DecidableEq

/-- `ClientRecord::new` -/
def ClientRecord.new (apiKeyValue : String) (tier : Tier) (now : Instant) : ClientRecord where
  apiKeyValue := apiKeyValue
  tier := tier
  creditsBalance := 0
  createdAt := now
  comment := none
  overrideTier := none
  overrideExpiresAt := none
  creditsEnabled := none

/-- `TierOverrideView` -/
structure TierOverrideView where
  /-- The tier granted. -/
  tier : Tier
  /-- The seconds left. -/
  timeLeft : ℤ
  deriving DecidableEq

/-- `PostpackClient` -/
structure ClientView where
  /-- The API key. -/
  apiKeyValue : String
  /-- The client's own tier. -/
  tier : Tier
  /-- The balance. -/
  creditsBalance : ℤ
  /-- When the client was created. -/
  createdAt : Instant
  /-- A comment of the administrator. -/
  comment : Option String
  /-- The tier granted now. -/
  tierOverride : Option TierOverrideView
  /-- Whether the client is charged, if not as the settings say. -/
  creditsEnabled : Option Bool
  deriving DecidableEq

/-- `ClientRecord::view` -/
def ClientRecord.view (client : ClientRecord) (now : Instant) : ClientView where
  apiKeyValue := client.apiKeyValue
  tier := client.tier
  creditsBalance := client.creditsBalance
  createdAt := client.createdAt
  comment := client.comment
  tierOverride :=
    client.overrideTier.bind fun tier =>
      (client.overrideExpiresAt.filter fun expiresAt => expiresAt > now).map fun expiresAt =>
        ⟨tier, ((expiresAt - now).tdiv nsPerMilli + 999).tdiv 1000⟩
  creditsEnabled := client.creditsEnabled

/-- `HistoryRow` -/
structure HistoryRow where
  /-- The number of the row. -/
  id : ℤ
  /-- The client. -/
  apiKeyValue : String
  /-- The change of the balance. -/
  deltaCredits : ℤ
  /-- Why the balance changed. -/
  reason : CreditChangeReason
  /-- The messages charged. -/
  messages : Option ℤ
  /-- The instance that charged them. -/
  instanceName : Option String
  /-- The signature of a tip. -/
  signature : Option String
  /-- What was paid. -/
  payment : Option CreditPayment
  /-- What the administrator said. -/
  comment : Option String
  /-- When the balance changed. -/
  createdAt : Instant
  deriving DecidableEq

/-- `Payment` -/
structure Payment where
  /-- The signature of the transaction. -/
  signature : String
  /-- The key that registered it. -/
  apiKey : String
  /-- The lamports paid. -/
  tip : ℕ
  /-- Whether it was credited, or found to buy nothing. -/
  accounted : Bool
  deriving DecidableEq

/-- The clients by their keys. -/
abbrev Clients := AList fun _ : String => ClientRecord

/-- `Store` -/
structure Store where
  /-- The keys that exist. -/
  apiKeys : Finset String
  /-- The clients. -/
  clients : Clients
  /-- The settings. -/
  settings : Settings
  /-- The changes of balances, the first one first. -/
  history : List HistoryRow
  /-- The signatures of the payments registered. -/
  paidSignatures : Finset String
  /-- The payments, the first one first. -/
  payments : List Payment

namespace Store

/-- `Store::record` -/
def record (store : Store) (row : HistoryRow) : Store :=
  { store with
    history := store.history ++
      [{ row with id := store.history.getLast?.elim 1 fun last => last.id + 1 }] }

/-! ### Requests of an administrator -/

/-- `update_credits_settings` -/
def updateCreditsSettings (store : Store) (body : SettingsUpdate) :
    Store × Except ApiError Settings :=
  let settings := body.apply store.settings
  match settings.validate with
  | .error error => (store, .error (.unprocessableEntity, error))
  | .ok _ => ({ store with settings := settings }, .ok settings)

end Store

/-- `TierOverrideInput` -/
structure TierOverrideInput where
  /-- The tier to grant. -/
  tier : Tier
  /-- For how many seconds. -/
  durationSeconds : ℤ
  deriving DecidableEq

/-- `TierOverrideInput::validate` -/
def TierOverrideInput.validate (input : TierOverrideInput) : Except String Unit :=
  if input.tier = .off then .error "override tier must not be off"
  else if ¬ (0 ≤ input.durationSeconds ∧ input.durationSeconds ≤ maxOverrideSeconds) then
    .error "override duration_seconds must be between 0 and 30 days"
  else .ok ()

/-- `SetPostpackTierRequest` -/
structure SetTierRequest where
  /-- The API key. -/
  apiKeyValue : String
  /-- The tier to set. -/
  tier : Tier
  /-- A tier to grant for a while. -/
  tierOverride : Option TierOverrideInput
  /-- A comment to set. -/
  comment : Option String
  deriving DecidableEq

/-- What the request makes of the record of its client. -/
def SetTierRequest.apply (body : SetTierRequest) (now : Instant) (client : ClientRecord) :
    ClientRecord :=
  let client := { client with tier := body.tier }
  let client := match body.tierOverride with
    | none => client
    | some tierOverride =>
      { client with
        overrideTier := some tierOverride.tier
        overrideExpiresAt := some (now + tierOverride.durationSeconds * nsPerSecond) }
  match body.comment.map trim with
  | none => client
  | some comment => { client with comment := if comment = "" then none else some comment }

namespace Store

/-- `set_postpack_tier` -/
def setPostpackTier (store : Store) (body : SetTierRequest) (now : Instant) :
    Store × Except ApiError ClientView :=
  if body.apiKeyValue ∉ store.apiKeys then (store, .error (.notFound, "no such api key"))
  else
    match body.tierOverride.elim (.ok ()) TierOverrideInput.validate with
    | .error error => (store, .error (.unprocessableEntity, error))
    | .ok _ =>
      let clients := store.clients.upsert body.apiKeyValue
        (ClientRecord.new body.apiKeyValue body.tier now) (body.apply now)
      let client := body.apply now ((store.clients.lookup body.apiKeyValue).getD
        (ClientRecord.new body.apiKeyValue body.tier now))
      ({ store with clients := clients }, .ok (client.view now))

/-- `change_postpack_credits` -/
def changePostpackCredits (store : Store) (key : String) (body : CreditChange) (now : Instant) :
    Store × Except ApiError ClientView :=
  match body.delta with
  | .error error => (store, .error (.unprocessableEntity, error))
  | .ok delta =>
    match store.clients.lookup key with
    | none => (store, .error notFound)
    | some client =>
      match checkedAdd client.creditsBalance delta with
      | none => (store, .error (.internalServerError, "cannot change credits balance"))
      | some balance =>
        if balance < 0 then (store, .error (.conflict, "the balance cannot go below 0"))
        else
          let client := { client with creditsBalance := balance }
          let store := { store with clients := store.clients.insert key client }
          (store.record
            { id := 0
              apiKeyValue := key
              deltaCredits := delta
              reason := body.reason
              messages := none
              instanceName := none
              signature := none
              payment := body.payment
              comment := some (trim body.comment)
              createdAt := now }, .ok (client.view now))

/-- `set_postpack_credits_enabled` -/
def setPostpackCreditsEnabled (store : Store) (key : String) (creditsEnabled : Option Bool)
    (now : Instant) : Store × Except ApiError ClientView :=
  match store.clients.lookup key with
  | none => (store, .error notFound)
  | some client =>
    let client := { client with creditsEnabled := creditsEnabled }
    ({ store with clients := store.clients.insert key client }, .ok (client.view now))

/-- `delete_postpack_client` -/
def deletePostpackClient (store : Store) (key : String) : Store × Except ApiError String :=
  match store.clients.lookup key with
  | none => (store, .error notFound)
  | some client =>
    let client := { client with
      tier := .off
      overrideTier := none
      overrideExpiresAt := none }
    ({ store with clients := store.clients.insert key client }, .ok "success")

end Store

/-! ### The store that the service starts with -/

/-- `start_of_hour` -/
def startOfHour (instant : Instant) : Instant :=
  (instant.fdiv nsPerSecond).tdiv 3600 * 3600 * nsPerSecond

/-- The usage that `seeded` records, of one hour after the other. -/
def seededUsage (now : Instant) : List HistoryRow :=
  (List.range 48).reverse.flatMap fun hoursAgo =>
    ["postpack-fra", "postpack-ams"].zipIdx.map fun (instanceName, index) =>
      let messages : ℤ := 50 + (hoursAgo * 37 + index * 11) % 150
      { id := 0
        apiKeyValue := "demo-key-tier1"
        deltaCredits := -messages * 10
        reason := .usage
        messages := some messages
        instanceName := some instanceName
        signature := none
        payment := none
        comment := none
        createdAt := startOfHour now - hoursAgo * 3600 * nsPerSecond }

/-- The row of the starting balance that `seeded` records. -/
def seededBalance (now : Instant) : HistoryRow where
  id := 0
  apiKeyValue := "demo-key-tier1"
  deltaCredits := 2000000
  reason := .adminChange
  messages := none
  instanceName := none
  signature := none
  payment := none
  comment := some "seeded starting balance"
  createdAt := now - 3 * 24 * 3600 * nsPerSecond

/-- The clients of `seeded`. -/
def seededClients (now : Instant) : List ClientRecord :=
  [{ ClientRecord.new "demo-key-tier1" .tier1 now with
      creditsBalance := 2000000
      comment := some "seeded paying client" },
    { ClientRecord.new "demo-key-trial" .off now with
      comment := some "seeded trial client"
      overrideTier := some .tier1
      overrideExpiresAt := some (now + 7 * 24 * 3600 * nsPerSecond) },
    ClientRecord.new "demo-key-off" .off now]

/-- `seeded` -/
def seeded (now : Instant) : Store :=
  let store : Store :=
    { apiKeys := {"demo-key-tier1", "demo-key-trial", "demo-key-off", "demo-key-new",
        "demo-key-5", "demo-key-6", "demo-key-7", "demo-key-8", "demo-key-9", "demo-key-10"}
      clients := (seededClients now).foldl
        (fun clients client => clients.insert client.apiKeyValue client) ∅
      settings := Settings.default
      history := []
      paidSignatures := ∅
      payments := [] }
  (seededBalance now :: seededUsage now).foldl Store.record store

end ShredTools.Postpack
