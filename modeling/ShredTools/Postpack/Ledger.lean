import Mathlib.Algebra.Order.Group.Int
import Mathlib.Algebra.Ring.Int.Defs
import ShredTools.Library.WordArithmetic
import ShredTools.Postpack.TipsOnce

/-!
# The history as a ledger of the balances

Every request appends to the history, and the balances should change by what is appended
(`LedgerMatches`).  An administrator's change is refused unless the sum fits, so it keeps the
ledger; a round of crediting adds up to the bound of a balance and records the tips in full.  So a
run keeps the ledger if and only if, in each of its rounds, what the waiting tips of a key buy fits
on top of its balance (`ledger_matches_iff`).  No balance is ever negative (`solvent_run`).
-/

namespace ShredTools.Postpack

/-- `saturating_add` saturates the sum. -/
lemma saturatingAdd_eq (a b : ℤ) : saturatingAdd a b = saturate i64Min i64Max (a + b) := rfl

/-- The credits of a tip are positive. -/
lemma SolPrice.tipCredits_pos {price : SolPrice} {tip : ℕ} {credits : ℤ}
    (h : price.tipCredits tip = some credits) : 0 < credits := by
  obtain ⟨-, hpos⟩ := Option.filter_eq_some_iff.mp h
  exact of_decide_eq_true hpos

/-- What some rows of the history say about the balance of a key. -/
def creditsOf (key : String) (rows : List HistoryRow) : ℤ :=
  ((rows.filter fun row => row.apiKeyValue = key).map HistoryRow.deltaCredits).sum

@[simp] lemma creditsOf_nil (key : String) : creditsOf key [] = 0 := rfl

/-- More rows say more. -/
lemma creditsOf_append (key : String) (rows rows' : List HistoryRow) :
    creditsOf key (rows ++ rows') = creditsOf key rows + creditsOf key rows' := by
  unfold creditsOf
  rw [List.filter_append, List.map_append, List.sum_append]

/-- What one row says. -/
lemma creditsOf_singleton (key : String) (row : HistoryRow) :
    creditsOf key [row] = if row.apiKeyValue = key then row.deltaCredits else 0 := by
  unfold creditsOf
  by_cases hkey : row.apiKeyValue = key
  · rw [if_pos hkey, List.filter_cons_of_pos (by simpa using hkey)]
    exact add_zero _
  · rw [if_neg hkey, List.filter_cons_of_neg (by simpa using hkey)]
    rfl

/-- The numbers of the rows do not matter. -/
lemma creditsOf_map_body (key : String) (rows : List HistoryRow) :
    creditsOf key (rows.map HistoryRow.body) = creditsOf key rows := by
  induction rows with
  | nil => rfl
  | cons row rows ih =>
    rw [List.map_cons, ← List.singleton_append, creditsOf_append, ih,
      ← List.singleton_append (l := rows), creditsOf_append, creditsOf_singleton,
      creditsOf_singleton]
    rfl

namespace Store

/-- The balance of a key, which is zero as long as it has no client. -/
def balance (store : Store) (key : String) : ℤ :=
  (store.clients.lookup key).elim 0 ClientRecord.creditsBalance

/-- No balance is negative, or more than a balance holds. -/
def Solvent (store : Store) : Prop := ∀ key, 0 ≤ store.balance key ∧ store.balance key ≤ i64Max

/-- Since an earlier store, rows have been appended to the history, and every balance has changed by
what they say. -/
def LedgerMatches (store store' : Store) : Prop :=
  ∃ appended, store'.history = store.history ++ appended ∧
    ∀ key, store'.balance key - store.balance key = creditsOf key appended

/-- The ledger matches in every state of a run, and no balance is negative in it. -/
def LedgerKept (code : TransactionCode) (tipAccounts : List Audit.Pubkey) (start : Store)
    (requests : List Request) : Prop :=
  ∀ before later, requests = before ++ later →
    LedgerMatches start (afterRequests code tipAccounts start before) ∧
    ∀ key, 0 ≤ (afterRequests code tipAccounts start before).balance key

/-- The credits that the waiting tips of a key buy, if it has a client. -/
def waitingCredits (store : Store) (price : SolPrice) (key : String) : ℤ :=
  ((store.payments.filter fun payment =>
    payment.due store.clients && payment.apiKey = key).filterMap
      fun payment => price.tipCredits payment.tip).sum

/-- In a round of crediting with a fresh price, what the waiting tips of a key buy fits on top of
its balance. -/
def TipsFit (store : Store) (request : Request) : Prop :=
  ∀ price now, request = .creditPayments price now → price.isFresh now = true →
    ∀ key, store.balance key + store.waitingCredits price key ≤ i64Max

/-! ### Ledgers -/

/-- The ledger of a store matches that of the store itself. -/
theorem LedgerMatches.refl (store : Store) : LedgerMatches store store := by
  refine ⟨[], (List.append_nil _).symm, fun key => ?_⟩
  rw [sub_self, creditsOf_nil]

/-- The rows that a ledger has more are those that its balances have changed by. -/
lemma LedgerMatches.balance_sub {store store' : Store} (h : LedgerMatches store store')
    (key : String) : store'.balance key - store.balance key =
      creditsOf key store'.history - creditsOf key store.history := by
  obtain ⟨appended, hhistory, hbalance⟩ := h
  rw [hhistory, creditsOf_append, hbalance]
  omega

/-- Two parts of a run keep the ledger, if and only if the second one does, after the first one. -/
lemma LedgerMatches.trans_iff {store store' store'' : Store} (h : LedgerMatches store store')
    {new : List HistoryRow} (hnew : store''.history = store'.history ++ new) :
    LedgerMatches store store'' ↔ LedgerMatches store' store'' := by
  constructor
  · intro h'
    refine ⟨new, hnew, fun key => ?_⟩
    have hfirst := h.balance_sub key
    have hboth := h'.balance_sub key
    rw [hnew, creditsOf_append] at hboth
    omega
  · intro ⟨appended', hhistory', hbalance'⟩
    obtain ⟨appended, hhistory, hbalance⟩ := h
    refine ⟨appended ++ appended', ?_, fun key => ?_⟩
    · rw [hhistory', hhistory, List.append_assoc]
    · rw [creditsOf_append, ← hbalance, ← hbalance']
      omega

/-! ### A round of crediting -/

/-- The rows of a round say what the waiting tips buy. -/
lemma creditsOf_earned (store : Store) (price : SolPrice) (now : Instant) (key : String) :
    creditsOf key (store.payments.filterMap (price.earned now store.clients)) =
      store.waitingCredits price key := by
  unfold waitingCredits
  induction store.payments with
  | nil => rfl
  | cons payment payments ih =>
    cases hdue : payment.due store.clients with
    | false =>
      have hearned : price.earned now store.clients payment = none := by
        rw [SolPrice.earned, hdue, if_neg Bool.false_ne_true]
      rw [List.filterMap_cons_none hearned, ih, List.filter_cons_of_neg (by simp [hdue])]
    | true =>
      have hearned : price.earned now store.clients payment =
          (price.tipCredits payment.tip).map (tipRow price now payment) := by
        rw [SolPrice.earned, hdue, if_pos rfl]
      cases hcredits : price.tipCredits payment.tip with
      | none =>
        rw [hcredits, Option.map_none] at hearned
        rw [List.filterMap_cons_none hearned, ih]
        by_cases hkey : payment.apiKey = key
        · rw [List.filter_cons_of_pos (by simp [hdue, hkey]),
            List.filterMap_cons_none (f := fun payment : Payment => price.tipCredits payment.tip)
              hcredits]
        · rw [List.filter_cons_of_neg (by simp [hkey])]
      | some credits =>
        rw [hcredits, Option.map_some] at hearned
        have hapiKey : (tipRow price now payment credits).apiKeyValue = payment.apiKey := rfl
        rw [List.filterMap_cons_some hearned, ← List.singleton_append, creditsOf_append, ih,
          creditsOf_singleton, hapiKey]
        by_cases hkey : payment.apiKey = key
        · rw [if_pos hkey, List.filter_cons_of_pos (by simp [hdue, hkey]),
            List.filterMap_cons_some (f := fun payment : Payment => price.tipCredits payment.tip)
              hcredits, List.sum_cons]
          rfl
        · rw [if_neg hkey, List.filter_cons_of_neg (by simp [hkey]), zero_add]

/-- What waiting tips buy is not negative. -/
lemma waitingCredits_nonneg (store : Store) (price : SolPrice) (key : String) :
    0 ≤ store.waitingCredits price key := by
  apply List.sum_nonneg
  intro credits hcredits
  obtain ⟨payment, -, hpayment⟩ := List.mem_filterMap.mp hcredits
  exact (SolPrice.tipCredits_pos hpayment).le

/-- A key without a client has no tips that buy anything. -/
lemma waitingCredits_of_lookup {store : Store} {key : String}
    (h : store.clients.lookup key = none) (price : SolPrice) :
    store.waitingCredits price key = 0 := by
  have hnone : (store.payments.filter fun payment =>
      payment.due store.clients && payment.apiKey = key) = [] := by
    rw [List.filter_eq_nil_iff]
    intro payment _ hboth
    obtain ⟨hdue, hkey⟩ := Bool.and_eq_true_iff.mp hboth
    rw [Payment.due, of_decide_eq_true hkey, h, Option.isSome_none, Bool.and_false] at hdue
    exact Bool.false_ne_true hdue
  rw [waitingCredits, hnone]
  rfl

/-- The rows of a round, added to a balance one after the other, are added up to its bound. -/
lemma addCredits_earned (store : Store) (price : SolPrice) (now : Instant) (key : String)
    {balance : ℤ} (hnonneg : 0 ≤ balance) (hfits : balance ≤ i64Max) :
    addCredits key (store.payments.filterMap (price.earned now store.clients)) balance =
      saturatingAdd balance (store.waitingCredits price key) := by
  rw [← creditsOf_earned store price now, saturatingAdd_eq]
  unfold addCredits creditsOf
  rw [← foldl_saturate_add _ _ (le_trans (by decide) hnonneg) hfits, List.foldl_map]
  · rfl
  · intro delta hdelta
    obtain ⟨row, hrow, rfl⟩ := List.mem_map.mp hdelta
    obtain ⟨payment, -, hearned⟩ := List.mem_filterMap.mp (List.mem_of_mem_filter hrow)
    obtain ⟨-, credits, hcredits, rfl⟩ := SolPrice.earned_eq_some_iff.mp hearned
    exact (SolPrice.tipCredits_pos hcredits).le

/-- A round with a fresh price adds to every balance what its waiting tips buy, up to the bound. -/
theorem Credits.balance {price : SolPrice} {now : Instant} {store store' : Store}
    (h : Credits price now store store') (hsolvent : Solvent store) (key : String) :
    store'.balance key = saturatingAdd (store.balance key) (store.waitingCredits price key) := by
  obtain ⟨hnonneg, hfits⟩ := hsolvent key
  rw [← addCredits_earned store price now key hnonneg hfits]
  unfold Store.balance at hnonneg hfits ⊢
  rw [h.clients]
  cases hclient : store.clients.lookup key with
  | none =>
    have hnone := addCredits_earned store price now key le_rfl (by decide : (0 : ℤ) ≤ i64Max)
    rw [waitingCredits_of_lookup hclient] at hnone
    exact hnone.symm
  | some client => rfl

/-- A round with a fresh price keeps the ledger if and only if the tips fit. -/
lemma Credits.ledgerMatches_iff {price : SolPrice} {now : Instant} {store store' : Store}
    (h : Credits price now store store') (hsolvent : Solvent store) :
    LedgerMatches store store' ↔
      ∀ key, store.balance key + store.waitingCredits price key ≤ i64Max := by
  obtain ⟨recorded, hhistory, hbody⟩ := h.history
  have hcredits : ∀ key, creditsOf key recorded = store.waitingCredits price key := by
    intro key
    rw [← creditsOf_map_body, hbody, creditsOf_earned]
  have hfits : ∀ key, store'.balance key - store.balance key = creditsOf key recorded ↔
      store.balance key + store.waitingCredits price key ≤ i64Max := by
    intro key
    rw [hcredits, h.balance hsolvent, sub_eq_iff_eq_add', saturatingAdd_eq]
    exact saturate_add_eq_iff (le_trans (by decide) (hsolvent key).1)
      (waitingCredits_nonneg store price key) (by decide)
  constructor
  · intro ⟨appended, happended, hbalance⟩ key
    have heq : appended = recorded := List.append_cancel_left (happended.symm.trans hhistory)
    rw [heq] at hbalance
    exact (hfits key).mp (hbalance key)
  · intro hall
    exact ⟨recorded, hhistory, fun key => (hfits key).mpr (hall key)⟩

/-- A balance stays within its bounds in a round of crediting. -/
lemma Credits.solvent {price : SolPrice} {now : Instant} {store store' : Store}
    (h : Credits price now store store') (hsolvent : Solvent store) : Solvent store' := by
  intro key
  have hlo : i64Min ≤ store.balance key := le_trans (by decide) (hsolvent key).1
  have hmore : store.balance key ≤ store.balance key + store.waitingCredits price key :=
    le_add_of_nonneg_right (waitingCredits_nonneg store price key)
  rw [h.balance hsolvent, saturatingAdd_eq]
  refine ⟨?_, saturate_le (by decide) _⟩
  rcases le_total (store.balance key + store.waitingCredits price key) i64Max with hfits | hover
  · rw [saturate_eq_self (hlo.trans hmore) hfits]
    exact (hsolvent key).1.trans hmore
  · rw [saturate_eq_right (by decide) hover]
    decide

/-! ### The other requests -/

/-- A request that changes no balance keeps the ledger. -/
lemma SameBalances.ledgerMatches {store store' : Store} (h : SameBalances store store') :
    LedgerMatches store store' := by
  refine ⟨[], ?_, fun key => ?_⟩
  · rw [h.history, List.append_nil]
  · rw [creditsOf_nil]
    exact sub_eq_zero.mpr (h.balance key)

/-- The balance of a key after a change of credits. -/
theorem ChangesBalance.balance {store store' : Store} {key : String} {client : ClientRecord}
    {row : HistoryRow} (h : ChangesBalance store store' key client row) (other : String) :
    store'.balance other = store.balance other + creditsOf other [row] := by
  unfold Store.balance
  rw [h.clients, creditsOf_singleton, h.apiKeyValue]
  by_cases hkey : other = key
  · rw [hkey, AList.lookup_insert, h.lookup, if_pos rfl]
    rfl
  · rw [AList.lookup_insert_ne hkey, if_neg (Ne.symm hkey), add_zero]

/-- A change of credits keeps the ledger. -/
lemma ChangesBalance.ledgerMatches {store store' : Store} {key : String} {client : ClientRecord}
    {row : HistoryRow} (h : ChangesBalance store store' key client row) :
    LedgerMatches store store' := by
  refine ⟨[row], h.history, fun other => ?_⟩
  rw [h.balance, add_sub_cancel_left]

/-- A change of credits keeps the balances within their bounds. -/
lemma ChangesBalance.solvent {store store' : Store} {key : String} {client : ClientRecord}
    {row : HistoryRow} (h : ChangesBalance store store' key client row)
    (hsolvent : Solvent store) : Solvent store' := by
  intro other
  rw [h.balance, creditsOf_singleton, h.apiKeyValue]
  by_cases hkey : key = other
  · have hbalance : store.balance key = client.creditsBalance := by
      rw [Store.balance, h.lookup]
      rfl
    rw [if_pos hkey, ← hkey, hbalance]
    exact ⟨h.nonneg, h.fits⟩
  · rw [if_neg hkey, add_zero]
    exact hsolvent other

/-- A request to register payments changes no balance. -/
lemma Registers.sameBalances {apiKey : String} {store store' : Store} {accepted : List String}
    {new : List Payment} (h : Registers apiKey store store' accepted new) (key : String) :
    store'.balance key = store.balance key := by
  unfold Store.balance
  rw [h.clients]

/-- **One request.**  It keeps the balances within their bounds, appends to the history, and keeps
the ledger if and only if the tips fit. -/
theorem handle_ledger (code : TransactionCode) (tipAccounts : List Audit.Pubkey) {store : Store}
    (hsolvent : Solvent store) (request : Request) :
    Solvent (store.handle code tipAccounts request).1 ∧
    (∃ new, (store.handle code tipAccounts request).1.history = store.history ++ new) ∧
    (LedgerMatches store (store.handle code tipAccounts request).1 ↔ TipsFit store request) := by
  -- a round of crediting is the only request whose changes may differ from its rows
  by_cases hcredit : ∃ price now, request = .creditPayments price now
  · obtain ⟨price, now, rfl⟩ := hcredit
    change Solvent (store.creditPayments price now).1 ∧
      (∃ new, (store.creditPayments price now).1.history = store.history ++ new) ∧
      (LedgerMatches store (store.creditPayments price now).1 ↔
        TipsFit store (.creditPayments price now))
    cases hfresh : price.isFresh now with
    | false =>
      rw [creditPayments_of_not_fresh store hfresh]
      refine ⟨hsolvent, ⟨[], (List.append_nil _).symm⟩, iff_of_true (LedgerMatches.refl store) ?_⟩
      intro price' now' heq hfresh'
      cases heq
      exact absurd (hfresh.symm.trans hfresh') Bool.false_ne_true
    | true =>
      have h := creditPayments_spec store hfresh
      obtain ⟨recorded, hhistory, -⟩ := h.history
      refine ⟨h.solvent hsolvent, ⟨recorded, hhistory⟩, (h.ledgerMatches_iff hsolvent).trans ?_⟩
      constructor
      · intro hfits price' now' heq _
        cases heq
        exact hfits
      · intro hfits
        exact hfits price now rfl hfresh
  · have htips : TipsFit store request := by
      intro price now heq
      exact absurd ⟨price, now, heq⟩ hcredit
    suffices h : Solvent (store.handle code tipAccounts request).1 ∧
        LedgerMatches store (store.handle code tipAccounts request).1 by
      obtain ⟨appended, happended, -⟩ := id h.2
      exact ⟨h.1, ⟨appended, happended⟩, iff_of_true h.2 htips⟩
    rcases handle_cases code tipAccounts store request with ⟨hsame, -⟩ |
      ⟨key, client, row, hchange, -⟩ | ⟨apiKey, requested, rfl⟩ | hcredits
    · refine ⟨fun key => ?_, hsame.ledgerMatches⟩
      have hbalance : (store.handle code tipAccounts request).1.balance key = store.balance key :=
        hsame.balance key
      rw [hbalance]
      exact hsolvent key
    · exact ⟨hchange.solvent hsolvent, hchange.ledgerMatches⟩
    · obtain ⟨new, hnew⟩ := registerPayments_spec code tipAccounts store apiKey requested
      refine ⟨fun key => ?_, [], ?_, fun key => ?_⟩
      · have hbalance : (store.handle code tipAccounts (.pay apiKey requested)).1.balance key =
            store.balance key := hnew.sameBalances key
        rw [hbalance]
        exact hsolvent key
      · rw [List.append_nil]
        exact hnew.history
      · rw [creditsOf_nil]
        exact sub_eq_zero.mpr (hnew.sameBalances key)
    · exact absurd hcredits hcredit

/-! ### Runs -/

section Run

variable (code : TransactionCode) (tipAccounts : List Audit.Pubkey) {start : Store}

/-- No run makes a balance negative, or more than a balance holds. -/
lemma solvent_run (hstart : Solvent start) (requests : List Request) :
    Solvent (afterRequests code tipAccounts start requests) := by
  induction requests using List.reverseRecOn with
  | nil => exact hstart
  | append_singleton requests request ih =>
    rw [afterRequests_concat]
    exact (handle_ledger code tipAccounts ih request).1

/-- The states of a run match the ledger if and only if each request of it keeps the ledger. -/
lemma ledgerMatches_run_iff (hstart : Solvent start) (requests : List Request) :
    (∀ before later, requests = before ++ later →
      LedgerMatches start (afterRequests code tipAccounts start before)) ↔
    ∀ before request later, requests = before ++ request :: later →
      LedgerMatches (afterRequests code tipAccounts start before)
        (handle code tipAccounts (afterRequests code tipAccounts start before) request).1 := by
  have hstep : ∀ before request,
      LedgerMatches start (afterRequests code tipAccounts start before) →
      (LedgerMatches start (afterRequests code tipAccounts start (before ++ [request])) ↔
        LedgerMatches (afterRequests code tipAccounts start before)
          (handle code tipAccounts (afterRequests code tipAccounts start before) request).1) := by
    intro before request hbefore
    obtain ⟨-, ⟨new, hnew⟩, -⟩ :=
      handle_ledger code tipAccounts (solvent_run code tipAccounts hstart before) request
    rw [afterRequests_concat]
    exact hbefore.trans_iff hnew
  constructor
  · intro hall before request later hsplit
    refine (hstep before request (hall before (request :: later) hsplit)).mp ?_
    exact hall (before ++ [request]) later (by rw [hsplit, List.append_assoc]; rfl)
  · intro hall before later
    induction before using List.reverseRecOn generalizing later with
    | nil =>
      intro _
      exact LedgerMatches.refl start
    | append_singleton before request ih =>
      intro hsplit
      have hsplit' : requests = before ++ request :: later := by
        rw [hsplit, List.append_assoc]
        rfl
      exact (hstep before request (ih (request :: later) hsplit')).mpr
        (hall before request later hsplit')

/-- **When the history is a ledger.**  A run keeps the ledger if and only if, in every round of it
with a fresh price, what the waiting tips of each key buy fits on top of its balance. -/
theorem ledger_matches_iff (hstart : Solvent start) (requests : List Request) :
    LedgerKept code tipAccounts start requests ↔
      ∀ before request later, requests = before ++ request :: later →
        TipsFit (afterRequests code tipAccounts start before) request := by
  have hrun := ledgerMatches_run_iff code tipAccounts hstart requests
  have hrequest : ∀ before request,
      LedgerMatches (afterRequests code tipAccounts start before)
          (handle code tipAccounts (afterRequests code tipAccounts start before) request).1 ↔
        TipsFit (afterRequests code tipAccounts start before) request :=
    fun before request =>
      (handle_ledger code tipAccounts (solvent_run code tipAccounts hstart before) request).2.2
  constructor
  · intro hkept before request later hsplit
    have hmatches := hrun.mp fun before later hsplit => (hkept before later hsplit).1
    exact (hrequest before request).mp (hmatches before request later hsplit)
  · intro hfits before later hsplit
    refine ⟨?_, fun key => (solvent_run code tipAccounts hstart before key).1⟩
    refine hrun.mpr ?_ before later hsplit
    intro before request later hsplit
    exact (hrequest before request).mpr (hfits before request later hsplit)

end Run

/-! ### The store that the service starts with -/

/-- What holds of zero and of the balances of some clients holds of every balance, once they are
inserted. -/
lemma balance_foldl_insert {P : ℤ → Prop} (clients : List ClientRecord) {table : Clients}
    (htable : ∀ key, P ((table.lookup key).elim 0 ClientRecord.creditsBalance))
    (hclients : ∀ client ∈ clients, P client.creditsBalance) (key : String) :
    P (((clients.foldl (fun table client => table.insert client.apiKeyValue client) table).lookup
      key).elim 0 ClientRecord.creditsBalance) := by
  induction clients generalizing table with
  | nil => exact htable key
  | cons client clients ih =>
    refine ih (fun other => ?_) fun other hother => hclients other (List.mem_cons_of_mem _ hother)
    by_cases hkey : other = client.apiKeyValue
    · rw [hkey, AList.lookup_insert]
      exact hclients client List.mem_cons_self
    · rw [AList.lookup_insert_ne hkey]
      exact htable other

/-- The store that the service starts with is solvent. -/
lemma solvent_seeded (now : Instant) : Solvent (seeded now) := by
  intro key
  obtain ⟨-, hclients, -⟩ := seeded_spec now
  unfold balance
  rw [hclients]
  refine balance_foldl_insert (P := fun balance => 0 ≤ balance ∧ balance ≤ i64Max) _ ?_ ?_ key
  · intro other
    have hzero : (0 : ℤ) ≤ 0 ∧ (0 : ℤ) ≤ i64Max := by decide
    exact hzero
  · intro client hclient
    simp only [seededClients, List.mem_cons, List.not_mem_nil, or_false] at hclient
    rcases hclient with rfl | rfl | rfl <;> simp [ClientRecord.new, i64Max]

/-! ### A tip that does not fit -/

/-- The payer's signature of `hugeMessage`. -/
def hugeSignature : SignatureBytes where
  toArray := List.toArray
    [14, 125, 161, 83, 57, 134, 238, 90, 85, 223, 126, 168, 126, 79, 55, 155, 226, 148, 150, 154,
      160, 91, 171, 160, 190, 103, 185, 147, 147, 3, 92, 52, 132, 222, 190, 199, 78, 37, 199, 202,
      121, 99, 76, 151, 39, 9, 147, 182, 59, 139, 86, 4, 133, 15, 30, 133, 77, 99, 167, 202, 248,
      199, 254, 11]
  size_toArray := rfl

/-- The data of a transfer of all lamports that a number of 64 bits holds, but one. -/
def hugeTransfer : List UInt8 := [2, 0, 0, 0] ++ [254, 255, 255, 255, 255, 255, 255, 255]

/-- A legacy message that makes this transfer from the payer to the tip account. -/
def hugeMessage : List UInt8 :=
  [1, 0, 1, 3] ++ demoPayer.toList ++ demoTipAccount.toList ++ List.replicate 32 0 ++
    List.replicate 32 7 ++ [1, 2, 2, 0, 1, 12] ++ hugeTransfer

/-- The transaction in base64. -/
def hugeText : String :=
  "AQ59oVM5hu5aVd9+qH5PN5vilJaaoFuroL5nuZOTA1w0hN6+x04lx8p5Y0yXJwmTtjuLVgSFDx6FTWOnyvjH/g" ++
  "sBAAED6kpsY+KcUgq+9VB7Ey7F+ZVHdq6+vnuSQh7qaRRG0iwIrbWUOPbAOGzfBJSxVewIIGUKBUbeff2Ww64E" ++
  "KI97OgAAAAAAAAAAAAAAAAAAAAAAAAAAAAAAAAAAAAAAAAAABwcHBwcHBwcHBwcHBwcHBwcHBwcHBwcHBwcHBw" ++
  "cHBwcBAgIAAQwCAAAA/v////////8="

/-- What the libraries do with this transaction. -/
def hugeCode : TransactionCode where
  decodeBase64 encoded :=
    if encoded = hugeText then some (1 :: hugeSignature.toList ++ hugeMessage) else none
  maxTransactionSize := 4096
  v1Prefix := 129
  tryNewSanitized wire :=
    if wire = 1 :: hugeSignature.toList ++ hugeMessage then some
      { signature := hugeSignature
        otherSignatures := []
        staticAccountKeys := [demoPayer, demoTipAccount, Vector.replicate 32 0]
        messageData := hugeMessage
        instructions := [([0, 1], hugeTransfer)] }
    else none
  verify signature pubkey message :=
    signature = hugeSignature ∧ pubkey = demoPayer ∧ message = hugeMessage
  showSignature _ :=
    "Hoc94ryerKNtLXwAvNUmu6snL2vAw4PeRyCcYQ5H3AxK" ++
    "kG6FuMGqEb4ABuqk6ai7rUfUhxsBXBm4zvpi3xNEZSi"

/-- A client with two million credits registers the transaction, which buys as many credits as a
balance holds when a SOL costs 2500 dollars. -/
def hugeRequests : List Request :=
  [.pay "demo-key-tier1" [⟨hugeText, some 1⟩], .creditPayments ⟨250000, 0⟩ 0]

/-- The history says more than the balance has grown. -/
theorem not_ledgerKept_huge : ¬ LedgerKept hugeCode [demoTipAccount] (seeded 0) hugeRequests := by
  intro hkept
  have hmatches := (hkept hugeRequests [] rfl).1.balance_sub "demo-key-tier1"
  have hdiffers : (afterRequests hugeCode [demoTipAccount] (seeded 0) hugeRequests).balance
        "demo-key-tier1" - (seeded 0).balance "demo-key-tier1" ≠
      creditsOf "demo-key-tier1"
          (afterRequests hugeCode [demoTipAccount] (seeded 0) hugeRequests).history -
        creditsOf "demo-key-tier1" (seeded 0).history := by
    decide +kernel
  exact hdiffers hmatches

/-- The tips fit if those of the clients do: a key without a client has neither a balance nor tips
that buy anything. -/
lemma tipsFit_of_clients {store : Store} {price : SolPrice} {now : Instant}
    (h : ∀ key ∈ store.clients.keys,
      store.balance key + store.waitingCredits price key ≤ i64Max) :
    TipsFit store (.creditPayments price now) := by
  rintro price' now' heq - key
  cases heq
  by_cases hkey : key ∈ store.clients.keys
  · exact h key hkey
  · have hnone : store.clients.lookup key = none := AList.lookup_eq_none.mpr hkey
    rw [waitingCredits_of_lookup hnone, balance, hnone]
    decide

/-- A tip that fits keeps the ledger. -/
theorem ledger_matches_iff_demo :
    LedgerKept demoCode [demoTipAccount] (seeded 0) demoRequests := by
  refine (ledger_matches_iff demoCode [demoTipAccount] (solvent_seeded 0) demoRequests).mpr
    fun before request later hsplit => ?_
  unfold demoRequests at hsplit
  rcases before with _ | ⟨first, _ | ⟨second, _ | ⟨third, _ | ⟨fourth, before⟩⟩⟩⟩
  · rintro price now rfl
    cases hsplit
  · rintro price now rfl
    cases hsplit
  -- in the first round a tip waits, and in the second one it does not
  · cases hsplit
    exact tipsFit_of_clients (by decide +kernel)
  · cases hsplit
    exact tipsFit_of_clients (by decide +kernel)
  · simp at hsplit

end Store

end ShredTools.Postpack
