import ShredTools.Library.Run
import ShredTools.Postpack.Payments

/-!
# What each request does to the store

One lemma for each thing that a request can do to the history and to the payments: nothing, a row
that is no tip, new payments (`registerPayments_spec`), or a round of crediting
(`creditPayments_spec`).  The loop of a round is a map over the payments: those whose keys have
clients are accounted for, and each of them that buys credits has a row.

`Request` lists what can happen to the service, with the clock where a handler reads it, and
`handle` is the service as a step.  `handle_cases` is the inversion that the modules on pages, tips
and balances use: a request leaves every balance, or changes one with its row (`ChangesBalance`), or
registers tips, or is a round of crediting.  `Crediting.GoesOn` says how the loop of a round goes on
from any state of it, so that rounds compose.
-/

namespace ShredTools.Postpack

/-- A request to the service, or a round of its periodic task. -/
inductive Request where
  | updateSettings (body : SettingsUpdate)
  | setTier (body : SetTierRequest) (now : Instant)
  | changeCredits (key : String) (body : CreditChange) (now : Instant)
  | setCreditsEnabled (key : String) (creditsEnabled : Option Bool) (now : Instant)
  | delete (key : String)
  | pay (apiKey : String) (requested : List PayEntry)
  | creditPayments (price : SolPrice) (now : Instant)

/-- What a request is answered. -/
inductive Response where
  | settings (result : Except ApiError Settings)
  | client (result : Except ApiError ClientView)
  | deleted (result : Except ApiError String)
  | paid (result : Except ApiError PayResponse)
  | credited (count : ℕ)

/-- The signatures that a request has registered. -/
def Response.accepted : Response → List String
  | .paid (.ok response) => response.accepted
  | _ => []

namespace Store

/-- A request on the store. -/
def handle (code : TransactionCode) (tipAccounts : List Audit.Pubkey) (store : Store) :
    Request → Store × Response
  | .updateSettings body => (store.updateCreditsSettings body).map id .settings
  | .setTier body now => (store.setPostpackTier body now).map id .client
  | .changeCredits key body now => (store.changePostpackCredits key body now).map id .client
  | .setCreditsEnabled key creditsEnabled now =>
    (store.setPostpackCreditsEnabled key creditsEnabled now).map id .client
  | .delete key => (store.deletePostpackClient key).map id .deleted
  | .pay apiKey requested =>
    (store.registerPayments code tipAccounts apiKey requested).map id .paid
  | .creditPayments price now => (store.creditPayments price now).map id .credited

/-- The store after some requests. -/
def afterRequests (code : TransactionCode) (tipAccounts : List Audit.Pubkey) (store : Store)
    (requests : List Request) : Store :=
  Machine.finalState (handle code tipAccounts) store requests

/-- The store that the service reaches by some requests from the one that it starts with. -/
def reached (code : TransactionCode) (tipAccounts : List Audit.Pubkey) (now : Instant)
    (requests : List Request) : Store :=
  (seeded now).afterRequests code tipAccounts requests

/-- The answers to some requests. -/
def responses (code : TransactionCode) (tipAccounts : List Audit.Pubkey) (store : Store)
    (requests : List Request) : List Response :=
  Machine.outputs (handle code tipAccounts) store requests

/-! ### The history -/

/-- The number of the next row. -/
def nextId (store : Store) : ℤ := store.history.getLast?.elim 1 fun last => last.id + 1

/-- A recorded row is the last one, with the next number. -/
@[simp] theorem history_record (store : Store) (row : HistoryRow) :
    (store.record row).history = store.history ++ [{ row with id := store.nextId }] := rfl

@[simp] lemma clients_record (store : Store) (row : HistoryRow) :
    (store.record row).clients = store.clients := rfl

@[simp] lemma payments_record (store : Store) (row : HistoryRow) :
    (store.record row).payments = store.payments := rfl

@[simp] lemma paidSignatures_record (store : Store) (row : HistoryRow) :
    (store.record row).paidSignatures = store.paidSignatures := rfl

end Store

/-- A row without its number. -/
def HistoryRow.body (row : HistoryRow) : HistoryRow := { row with id := 0 }

namespace Store

/-- The rows that a round of crediting records are those that it collected, with numbers. -/
lemma foldl_record (store : Store) (rows : List HistoryRow) :
    ∃ recorded, (rows.foldl Store.record store).history = store.history ++ recorded ∧
      recorded.map HistoryRow.body = rows.map HistoryRow.body ∧
      (rows.foldl Store.record store).clients = store.clients ∧
      (rows.foldl Store.record store).payments = store.payments ∧
      (rows.foldl Store.record store).paidSignatures = store.paidSignatures := by
  induction rows generalizing store with
  | nil => exact ⟨[], (List.append_nil _).symm, rfl, rfl, rfl, rfl⟩
  | cons row rows ih =>
    obtain ⟨recorded, hhistory, hbody, hclients, hpayments, hpaid⟩ := ih (store.record row)
    refine ⟨{ row with id := store.nextId } :: recorded, ?_, ?_, hclients, hpayments, hpaid⟩
    · rw [List.foldl_cons, hhistory, history_record, List.append_assoc, List.singleton_append]
    · rw [List.map_cons, List.map_cons, hbody]
      rfl

/-- What is in the store that the service starts with. -/
theorem seeded_spec (now : Instant) :
    (seeded now).history.map HistoryRow.body =
      (seededBalance now :: seededUsage now).map HistoryRow.body ∧
    (seeded now).clients = (seededClients now).foldl
      (fun clients client => clients.insert client.apiKeyValue client) ∅ ∧
    (seeded now).payments = [] ∧ (seeded now).paidSignatures = ∅ := by
  unfold seeded
  dsimp only
  obtain ⟨recorded, hhistory, hbody, hclients, hpayments, hpaid⟩ := foldl_record
    { apiKeys := {"demo-key-tier1", "demo-key-trial", "demo-key-off", "demo-key-new",
        "demo-key-5", "demo-key-6", "demo-key-7", "demo-key-8", "demo-key-9", "demo-key-10"}
      clients := (seededClients now).foldl
        (fun clients client => clients.insert client.apiKeyValue client) ∅
      settings := Settings.default
      history := []
      paidSignatures := ∅
      payments := [] } (seededBalance now :: seededUsage now)
  refine ⟨?_, hclients, hpayments, hpaid⟩
  rw [hhistory, List.nil_append]
  exact hbody

/-! ### Requests of an administrator -/

/-- What no request of an administrator touches. -/
structure SamePayments (store store' : Store) : Prop where
  /-- The payments stay. -/
  payments : store'.payments = store.payments
  /-- The signatures stay as well. -/
  paidSignatures : store'.paidSignatures = store.paidSignatures

/-- A request that changes no balance leaves the history, and every balance that there is. -/
structure SameBalances (store store' : Store) : Prop extends SamePayments store store' where
  /-- The history stays. -/
  history : store'.history = store.history
  /-- The balances stay, and a new client begins with zero. -/
  balance : ∀ key, (store'.clients.lookup key).elim 0 ClientRecord.creditsBalance =
    (store.clients.lookup key).elim 0 ClientRecord.creditsBalance

/-- Nothing changes. -/
theorem SameBalances.refl (store : Store) : SameBalances store store :=
  ⟨⟨rfl, rfl⟩, rfl, fun _ => rfl⟩

/-- A client's record is replaced by one with the same balance. -/
lemma SameBalances.of_insert (store : Store) (key : String) {client : ClientRecord}
    (h : client.creditsBalance = (store.clients.lookup key).elim 0 ClientRecord.creditsBalance) :
    SameBalances store { store with clients := store.clients.insert key client } := by
  refine ⟨⟨rfl, rfl⟩, rfl, fun other => ?_⟩
  dsimp only
  by_cases hkey : other = key
  · rw [hkey, AList.lookup_insert, ← h]
    rfl
  · rw [AList.lookup_insert_ne hkey]

/-- A change of the settings changes no balance. -/
theorem sameBalances_updateCreditsSettings (store : Store) (body : SettingsUpdate) :
    SameBalances store (store.updateCreditsSettings body).1 := by
  unfold updateCreditsSettings
  dsimp only
  cases (body.apply store.settings).validate with
  | error error => exact SameBalances.refl store
  | ok _ => exact ⟨⟨rfl, rfl⟩, rfl, fun _ => rfl⟩

/-- A tier request keeps the balance of a record. -/
@[simp] lemma creditsBalance_apply (body : SetTierRequest) (now : Instant)
    (client : ClientRecord) : (body.apply now client).creditsBalance = client.creditsBalance := by
  unfold SetTierRequest.apply
  dsimp only
  cases body.tierOverride <;> cases body.comment.map trim <;> rfl

/-- A tier request changes no balance. -/
theorem sameBalances_setPostpackTier (store : Store) (body : SetTierRequest) (now : Instant) :
    SameBalances store (store.setPostpackTier body now).1 := by
  unfold setPostpackTier
  by_cases hkey : body.apiKeyValue ∉ store.apiKeys
  · rw [if_pos hkey]
    exact SameBalances.refl store
  · rw [if_neg hkey]
    cases body.tierOverride.elim (.ok ()) TierOverrideInput.validate with
    | error error => exact SameBalances.refl store
    | ok _ =>
      apply SameBalances.of_insert
      rw [creditsBalance_apply]
      cases store.clients.lookup body.apiKeyValue <;> rfl

/-- Switching credits on or off changes no balance. -/
theorem sameBalances_setPostpackCreditsEnabled (store : Store) (key : String)
    (creditsEnabled : Option Bool) (now : Instant) :
    SameBalances store (store.setPostpackCreditsEnabled key creditsEnabled now).1 := by
  unfold setPostpackCreditsEnabled
  cases hclient : store.clients.lookup key with
  | none => exact SameBalances.refl store
  | some client =>
    apply SameBalances.of_insert
    rw [hclient]
    rfl

/-- A deletion changes no balance. -/
theorem sameBalances_deletePostpackClient (store : Store) (key : String) :
    SameBalances store (store.deletePostpackClient key).1 := by
  unfold deletePostpackClient
  cases hclient : store.clients.lookup key with
  | none => exact SameBalances.refl store
  | some client =>
    apply SameBalances.of_insert
    rw [hclient]
    rfl

/-- A change of credits: one row that is no tip, and a balance that changes by as much and is not
negative. -/
structure ChangesBalance (store store' : Store) (key : String) (client : ClientRecord)
    (row : HistoryRow) : Prop extends SamePayments store store' where
  /-- The client is there. -/
  lookup : store.clients.lookup key = some client
  /-- The balance of the client changes by what the row says. -/
  clients : store'.clients = store.clients.insert key
    { client with creditsBalance := client.creditsBalance + row.deltaCredits }
  /-- The row is recorded. -/
  history : store'.history = store.history ++ [row]
  /-- The row is of the client. -/
  apiKeyValue : row.apiKeyValue = key
  /-- The row is no tip. -/
  reason : row.reason ≠ .tip
  /-- The new balance is not negative. -/
  nonneg : 0 ≤ client.creditsBalance + row.deltaCredits
  /-- The new balance fits. -/
  fits : client.creditsBalance + row.deltaCredits ≤ i64Max

/-- What a change of credits does. -/
lemma changePostpackCredits_spec (store : Store) (key : String) (body : CreditChange)
    (now : Instant) :
    (store.changePostpackCredits key body now).1 = store ∨
    ∃ client row,
      ChangesBalance store (store.changePostpackCredits key body now).1 key client row := by
  unfold changePostpackCredits
  cases hdelta : body.delta with
  | error error => exact Or.inl rfl
  | ok delta =>
    cases hclient : store.clients.lookup key with
    | none => exact Or.inl rfl
    | some client =>
      cases hsum : checkedAdd client.creditsBalance delta with
      | none =>
        left
        dsimp only
        rw [hsum]
      | some balance =>
        dsimp only
        rw [hsum]
        dsimp only
        by_cases hneg : balance < 0
        · rw [if_pos hneg]
          exact Or.inl rfl
        · rw [if_neg hneg]
          right
          obtain ⟨hbalance, hfits⟩ := checkedAdd_eq_some_iff.mp hsum
          rw [← hbalance] at hneg ⊢
          exact ⟨client, _, ⟨rfl, rfl⟩, hclient, rfl, rfl, rfl, CreditChange.reason_ne_tip hdelta,
            not_lt.mp hneg, hfits.2⟩

/-! ### Registering -/

/-- What a request to register payments does: new payments of its key, under signatures that are
new, which it accepts. -/
structure Registers (apiKey : String) (store store' : Store) (accepted : List String)
    (new : List Payment) : Prop where
  /-- The new payments come last. -/
  payments : store'.payments = store.payments ++ new
  /-- Their signatures are registered. -/
  paidSignatures : ∀ signature, signature ∈ store'.paidSignatures ↔
    signature ∈ store.paidSignatures ∨ signature ∈ new.map Payment.signature
  /-- Their signatures are accepted. -/
  accepted : accepted = new.map Payment.signature
  /-- No signature comes twice. -/
  nodup : (new.map Payment.signature).Nodup
  /-- No signature was registered before. -/
  fresh : ∀ payment ∈ new, payment.signature ∉ store.paidSignatures
  /-- The payments are of the key, and not accounted for. -/
  apiKey : ∀ payment ∈ new, payment.apiKey = apiKey ∧ payment.accounted = false
  /-- The clients stay. -/
  clients : store'.clients = store.clients
  /-- The history stays. -/
  history : store'.history = store.history

/-- A request that is refused registers nothing. -/
theorem Registers.refl (apiKey : String) (store : Store) :
    Registers apiKey store store [] [] where
  payments := (List.append_nil _).symm
  paidSignatures := by simp
  accepted := rfl
  nodup := List.nodup_nil
  fresh := by simp
  apiKey := by simp
  clients := rfl
  history := rfl

/-- One more tip is registered, unless its signature is. -/
theorem Registers.registerTip {apiKey : String} {store store' : Store} {accepted : List String}
    {new : List Payment} (h : Registers apiKey store store' accepted new) (tip : ParsedTip) :
    ∃ new', Registers apiKey store (registerTip apiKey (store', accepted) tip).1
      (registerTip apiKey (store', accepted) tip).2 new' := by
  unfold Store.registerTip
  dsimp only
  by_cases hpaid : tip.signature ∈ store'.paidSignatures
  · rw [if_pos hpaid]
    exact ⟨new, h⟩
  · rw [if_neg hpaid]
    obtain ⟨hold, hnew⟩ := not_or.mp (mt (h.paidSignatures _).mpr hpaid)
    refine ⟨new ++ [⟨tip.signature, apiKey, tip.lamports, false⟩],
      ⟨?_, ?_, ?_, ?_, ?_, ?_, h.clients, h.history⟩⟩
    · dsimp only
      rw [h.payments, List.append_assoc]
    · intro signature
      dsimp only
      rw [Finset.mem_insert, h.paidSignatures, List.map_append, List.mem_append,
        List.map_singleton, List.mem_singleton]
      tauto
    · rw [h.accepted, List.map_append, List.map_singleton]
    · rw [List.map_append, List.map_singleton]
      refine h.nodup.append (List.nodup_singleton _) ?_
      intro signature hmem hsingle
      rw [List.mem_singleton.mp hsingle] at hmem
      exact hnew hmem
    · intro payment hmem
      rcases List.mem_append.mp hmem with hmem | hmem
      · exact h.fresh payment hmem
      · rw [List.mem_singleton.mp hmem]
        exact hold
    · intro payment hmem
      rcases List.mem_append.mp hmem with hmem | hmem
      · exact h.apiKey payment hmem
      · rw [List.mem_singleton.mp hmem]
        exact ⟨rfl, rfl⟩

/-- What a request to register payments does. -/
theorem registerPayments_spec (code : TransactionCode) (tipAccounts : List Audit.Pubkey)
    (store : Store) (apiKey : String) (requested : List PayEntry) :
    ∃ new, Registers apiKey store (store.registerPayments code tipAccounts apiKey requested).1
      (Response.paid (store.registerPayments code tipAccounts apiKey requested).2).accepted
      new := by
  have hloop : ∀ (tips : List ParsedTip) (state : Store × List String) (new : List Payment),
      Registers apiKey store state.1 state.2 new →
      ∃ new', Registers apiKey store (tips.foldl (Store.registerTip apiKey) state).1
        (tips.foldl (Store.registerTip apiKey) state).2 new' := by
    intro tips
    induction tips with
    | nil => exact fun state new h => ⟨new, h⟩
    | cons tip tips ih =>
      intro state new h
      obtain ⟨new', h'⟩ := h.registerTip tip
      exact ih _ new' h'
  unfold registerPayments
  by_cases hempty : requested = []
  · rw [if_pos hempty]
    exact ⟨[], Registers.refl apiKey store⟩
  · rw [if_neg hempty]
    by_cases hmany : requested.length > maxPostpackPayTransactions
    · rw [if_pos hmany]
      exact ⟨[], Registers.refl apiKey store⟩
    · rw [if_neg hmany]
      dsimp only
      by_cases hkey : apiKey ∉ store.apiKeys
      · rw [if_pos hkey]
        exact ⟨[], Registers.refl apiKey store⟩
      · rw [if_neg hkey]
        exact hloop _ (store, []) [] (Registers.refl apiKey store)

end Store

/-! ### Crediting -/

/-- Whether a round of crediting accounts for a payment: it is not accounted for, and its key has a
client. -/
def Payment.due (clients : Clients) (payment : Payment) : Bool :=
  !payment.accounted && (clients.lookup payment.apiKey).isSome

/-- What a round of crediting makes of a payment. -/
def Payment.settle (clients : Clients) (payment : Payment) : Payment :=
  if payment.due clients then { payment with accounted := true } else payment

/-- The row that a round of crediting records for a payment. -/
def SolPrice.earned (price : SolPrice) (now : Instant) (clients : Clients) (payment : Payment) :
    Option HistoryRow :=
  if payment.due clients then (price.tipCredits payment.tip).map (tipRow price now payment)
  else none

/-- What some rows of credited tips make of the balance of a key. -/
def addCredits (key : String) (rows : List HistoryRow) (balance : ℤ) : ℤ :=
  (rows.filter fun row => row.apiKeyValue = key).foldl
    (fun balance row => saturatingAdd balance row.deltaCredits) balance

/-- More rows are added after the others. -/
lemma addCredits_append (key : String) (rows rows' : List HistoryRow) (balance : ℤ) :
    addCredits key (rows ++ rows') balance =
      addCredits key rows' (addCredits key rows balance) := by
  unfold addCredits
  rw [List.filter_append, List.foldl_append]

/-- What one row makes of the balance of a key. -/
lemma addCredits_singleton (key : String) (row : HistoryRow) (balance : ℤ) :
    addCredits key [row] balance =
      if row.apiKeyValue = key then saturatingAdd balance row.deltaCredits else balance := by
  unfold addCredits
  by_cases hkey : row.apiKeyValue = key
  · rw [if_pos hkey, List.filter_cons_of_pos (by simpa using hkey)]
    rfl
  · rw [if_neg hkey, List.filter_cons_of_neg (by simpa using hkey)]
    rfl

/-- How the loop of crediting goes on from a state to another one, when it goes through some
payments: `clients` are those that the round began with. -/
structure Crediting.GoesOn (price : SolPrice) (now : Instant) (clients : Clients)
    (state state' : Crediting) (l : List Payment) : Prop where
  /-- The payments are settled. -/
  payments : state'.payments = state.payments ++ l.map (Payment.settle clients)
  /-- The rows are those earned. -/
  credited : state'.credited = state.credited ++ l.filterMap (price.earned now clients)
  /-- The balances grow by the rows. -/
  clients : ∀ key, state'.clients.lookup key = (state.clients.lookup key).map fun client =>
    { client with
      creditsBalance :=
        addCredits key (l.filterMap (price.earned now clients)) client.creditsBalance }

/-- One payment in the loop. -/
lemma Crediting.goesOn_credit (price : SolPrice) (now : Instant) {clients : Clients}
    {state : Crediting}
    (hkeys : ∀ key, (state.clients.lookup key).isSome = (clients.lookup key).isSome)
    (payment : Payment) :
    Crediting.GoesOn price now clients state (state.credit price now payment) [payment] := by
  have hsame : ∀ key, state.clients.lookup key = (state.clients.lookup key).map fun client =>
      { client with creditsBalance := addCredits key [] client.creditsBalance } := by
    intro key
    cases state.clients.lookup key <;> rfl
  unfold credit
  cases haccounted : payment.accounted with
  | true =>
    have hdue : payment.due clients = false := by simp [Payment.due, haccounted]
    refine ⟨?_, ?_, ?_⟩
    · simp [Payment.settle, hdue]
    · simp [SolPrice.earned, hdue]
    · intro key
      simpa [SolPrice.earned, hdue] using hsame key
  | false =>
    rw [if_neg Bool.false_ne_true]
    cases hclient : state.clients.lookup payment.apiKey with
    | none =>
      have hdue : payment.due clients = false := by
        simp [Payment.due, ← hkeys, hclient]
      refine ⟨?_, ?_, ?_⟩
      · simp [Payment.settle, hdue]
      · simp [SolPrice.earned, hdue]
      · intro key
        simpa [SolPrice.earned, hdue] using hsame key
    | some client =>
      have hdue : payment.due clients = true := by
        simp [Payment.due, ← hkeys, hclient, haccounted]
      -- a payment that buys nothing is settled too, but leaves no row in the history
      cases hcredits : price.tipCredits payment.tip with
      | none =>
        refine ⟨?_, ?_, ?_⟩
        · simp [Payment.settle, hdue]
        · simp [SolPrice.earned, hdue, hcredits]
        · intro key
          simpa [SolPrice.earned, hdue, hcredits] using hsame key
      | some credits =>
        have hearned : [payment].filterMap (price.earned now clients) =
            [tipRow price now payment credits] := by
          simp [SolPrice.earned, hdue, hcredits]
        refine ⟨?_, ?_, ?_⟩
        · simp [Payment.settle, hdue]
        · rw [hearned]
        · intro key
          rw [hearned]
          dsimp only
          simp only [addCredits_singleton]
          by_cases hkey : key = payment.apiKey
          · rw [hkey, AList.lookup_insert, hclient, Option.map_some]
            simp [tipRow]
          · rw [AList.lookup_insert_ne hkey]
            cases state.clients.lookup key with
            | none => rfl
            | some other => simp [tipRow, Ne.symm hkey]

/-- Some more payments in the loop. -/
theorem Crediting.GoesOn.trans {price : SolPrice} {now : Instant} {clients : Clients}
    {state state' state'' : Crediting} {l l' : List Payment}
    (h : Crediting.GoesOn price now clients state state' l)
    (h' : Crediting.GoesOn price now clients state' state'' l') :
    Crediting.GoesOn price now clients state state'' (l ++ l') where
  payments := by rw [h'.payments, h.payments, List.map_append, List.append_assoc]
  credited := by rw [h'.credited, h.credited, List.filterMap_append, List.append_assoc]
  clients key := by
    rw [h'.clients, h.clients, List.filterMap_append, Option.map_map]
    simp only [addCredits_append]
    rfl

/-- The loop of crediting. -/
lemma Crediting.goesOn_foldl (price : SolPrice) (now : Instant) {clients : Clients}
    {state : Crediting}
    (hkeys : ∀ key, (state.clients.lookup key).isSome = (clients.lookup key).isSome)
    (l : List Payment) :
    Crediting.GoesOn price now clients state (l.foldl (Crediting.credit price now) state) l := by
  induction l generalizing state with
  | nil =>
    refine ⟨(List.append_nil _).symm, (List.append_nil _).symm, ?_⟩
    intro key
    cases hclient : state.clients.lookup key <;> simp [hclient, addCredits]
  | cons payment l ih =>
    have hstep := goesOn_credit price now hkeys payment
    have hkeys' : ∀ key, ((state.credit price now payment).clients.lookup key).isSome =
        (clients.lookup key).isSome := by
      intro key
      rw [hstep.clients, Option.isSome_map, hkeys]
    exact hstep.trans (ih hkeys')

namespace Store

/-- What a round of crediting with a fresh price does. -/
structure Credits (price : SolPrice) (now : Instant) (store store' : Store) : Prop where
  /-- The payments of clients are accounted for. -/
  payments : store'.payments = store.payments.map (Payment.settle store.clients)
  /-- Rows are recorded for those that buy credits. -/
  history : ∃ recorded, store'.history = store.history ++ recorded ∧
    recorded.map HistoryRow.body = store.payments.filterMap (price.earned now store.clients)
  /-- The balances grow by the rows. -/
  clients : ∀ key, store'.clients.lookup key = (store.clients.lookup key).map fun client =>
    { client with
      creditsBalance := addCredits key
        (store.payments.filterMap (price.earned now store.clients)) client.creditsBalance }
  /-- The signatures stay. -/
  paidSignatures : store'.paidSignatures = store.paidSignatures

/-- A round of crediting without a fresh price does nothing. -/
theorem creditPayments_of_not_fresh (store : Store) {price : SolPrice} {now : Instant}
    (h : price.isFresh now = false) : (store.creditPayments price now).1 = store := by
  unfold creditPayments
  rw [if_pos (by simp [h])]

/-- What a round of crediting does. -/
theorem creditPayments_spec (store : Store) {price : SolPrice} {now : Instant}
    (h : price.isFresh now = true) :
    Credits price now store (store.creditPayments price now).1 := by
  unfold creditPayments
  rw [if_neg (by simp [h])]
  have hloop : Crediting.GoesOn price now store.clients ⟨[], store.clients, []⟩
      (store.payments.foldl (Crediting.credit price now) ⟨[], store.clients, []⟩) store.payments :=
    Crediting.goesOn_foldl price now (by intro key; rfl) store.payments
  dsimp only
  obtain ⟨recorded, hhistory, hbody, hclients, hpayments, hpaid⟩ := foldl_record
    { store with
      payments := (store.payments.foldl (Crediting.credit price now)
        ⟨[], store.clients, []⟩).payments
      clients := (store.payments.foldl (Crediting.credit price now)
        ⟨[], store.clients, []⟩).clients }
    (store.payments.foldl (Crediting.credit price now) ⟨[], store.clients, []⟩).credited
  refine ⟨?_, ⟨recorded, hhistory, ?_⟩, ?_, hpaid⟩
  · rw [hpayments]
    exact hloop.payments
  · rw [hbody, hloop.credited, List.nil_append, List.map_filterMap]
    apply List.filterMap_congr
    intro payment _
    unfold SolPrice.earned
    cases payment.due store.clients <;> cases price.tipCredits payment.tip <;> rfl
  · intro key
    rw [hclients]
    exact hloop.clients key

/-- **What a request can do.**  A request of an administrator leaves the balances or changes one,
and accepts nothing; the others register payments or credit them. -/
theorem handle_cases (code : TransactionCode) (tipAccounts : List Audit.Pubkey) (store : Store)
    (request : Request) :
    (SameBalances store (store.handle code tipAccounts request).1 ∧
      (store.handle code tipAccounts request).2.accepted = []) ∨
    (∃ key client row,
      ChangesBalance store (store.handle code tipAccounts request).1 key client row ∧
      (store.handle code tipAccounts request).2.accepted = []) ∨
    (∃ apiKey requested, request = .pay apiKey requested) ∨
    ∃ price now, request = .creditPayments price now := by
  cases request with
  | updateSettings body => exact Or.inl ⟨sameBalances_updateCreditsSettings store body, rfl⟩
  | setTier body now => exact Or.inl ⟨sameBalances_setPostpackTier store body now, rfl⟩
  | changeCredits key body now =>
    rcases changePostpackCredits_spec store key body now with hsame | ⟨client, row, hchange⟩
    · left
      refine ⟨?_, rfl⟩
      change SameBalances store (store.changePostpackCredits key body now).1
      rw [hsame]
      exact SameBalances.refl store
    · exact Or.inr (Or.inl ⟨key, client, row, hchange, rfl⟩)
  | setCreditsEnabled key creditsEnabled now =>
    exact Or.inl ⟨sameBalances_setPostpackCreditsEnabled store key creditsEnabled now, rfl⟩
  | delete key => exact Or.inl ⟨sameBalances_deletePostpackClient store key, rfl⟩
  | pay apiKey requested => exact Or.inr (Or.inr (Or.inl ⟨apiKey, requested, rfl⟩))
  | creditPayments price now => exact Or.inr (Or.inr (Or.inr ⟨price, now, rfl⟩))

end Store

end ShredTools.Postpack
