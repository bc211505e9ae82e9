import ShredTools.Library.Paging
import ShredTools.Postpack.TipsOnce

/-!
# Paging through the credit history

`get_credit_history` answers with a page of the rows of a key that are not usage, the newest first,
below the row that the caller names.  The rows are numbered upwards along the history by whatever
records them, requests, crediting and the initial data alike, and no request changes a row.  A
caller who goes on from page to page until one is empty has therefore read every row that was there
at the first call, each once, whatever was recorded in between.

`readHistory` is the caller: a list of calls, each with a limit and with the requests that other
callers make before the next one.  `Records` says of a request that it only adds rows, with greater
numbers, and is all that paging needs to know of it.  The page of the source is then a page of the
library (`readHistory_spec`), for the rows of the key that are not usage.
-/

namespace ShredTools.Postpack

/-- `MAX_HISTORY_ROWS` -/
def maxHistoryRows : ℕ := 500

/-- `CreditHistoryEntry` -/
structure CreditHistoryEntry where
  /-- The number of the row. -/
  id : ℤ
  /-- The change of the balance. -/
  deltaCredits : ℤ
  /-- Why the balance changed. -/
  reason : CreditChangeReason
  /-- The signature of a tip. -/
  signature : Option String
  /-- The amount paid. -/
  paidAmount : Option ℤ
  /-- The token it was paid in. -/
  paidToken : Option PaymentToken
  /-- The price of the token. -/
  tokenUsdPriceCents : Option ℤ
  /-- What the administrator said. -/
  comment : Option String
  /-- When the balance changed. -/
  createdAt : Instant
  deriving DecidableEq

/-- `HistoryRow::entry` -/
def HistoryRow.entry (row : HistoryRow) : CreditHistoryEntry where
  id := row.id
  deltaCredits := row.deltaCredits
  reason := row.reason
  signature := row.signature
  paidAmount := row.payment.map CreditPayment.paidAmount
  paidToken := row.payment.map CreditPayment.paidToken
  tokenUsdPriceCents := row.payment.map CreditPayment.tokenUsdPriceCents
  comment := row.comment
  createdAt := row.createdAt

/-- Whether a row is of a key and is not usage. -/
def HistoryRow.listed (key : String) (row : HistoryRow) : Bool :=
  row.apiKeyValue = key && row.reason ≠ .usage

namespace Store

/-- `get_credit_history` -/
def getCreditHistory (store : Store) (key : String) (beforeId : Option ℤ) (limit : ℕ) :
    List CreditHistoryEntry :=
  ((store.history.reverse.filter fun row =>
    row.listed key && beforeId.all fun beforeId => decide (row.id < beforeId)).take
      (max 1 (min limit maxHistoryRows))).map HistoryRow.entry

/-! ### The rows are numbered upwards -/

/-- What every request does to the history: it adds rows at the end, and they go on with the
numbers. -/
structure Records (store store' : Store) : Prop where
  /-- The rows stay, and new ones come last. -/
  appended : store.history <+: store'.history
  /-- The numbers go on ascending. -/
  ascending : Paging.Ascending HistoryRow.id store.history →
    Paging.Ascending HistoryRow.id store'.history

/-- A history that stays. -/
lemma Records.of_history_eq {store store' : Store} (h : store'.history = store.history) :
    Records store store' := by
  constructor
  · rw [h]
  · rw [h]
    exact id

/-- One thing after the other. -/
theorem Records.trans {store store' store'' : Store} (h : Records store store')
    (h' : Records store' store'') : Records store store'' :=
  ⟨h.appended.trans h'.appended, fun hsorted => h'.ascending (h.ascending hsorted)⟩

/-- A recorded row. -/
lemma records_record (store : Store) (row : HistoryRow) : Records store (store.record row) := by
  constructor
  · rw [history_record]
    exact List.prefix_append ..
  · intro hsorted
    rw [history_record]
    refine hsorted.concat ?_
    intro last hlast
    have hnext : store.nextId = last.id + 1 := by
      unfold nextId
      rw [hlast]
      rfl
    dsimp only
    omega

/-- What is added to a store with the same history. -/
lemma Records.of_same_history {store store' store'' : Store} (h : store'.history = store.history)
    (h' : Records store' store'') : Records store store'' :=
  (Records.of_history_eq h).trans h'

/-- Several recorded rows. -/
lemma records_foldl_record (store : Store) (rows : List HistoryRow) :
    Records store (rows.foldl Store.record store) := by
  induction rows generalizing store with
  | nil => exact Records.of_history_eq rfl
  | cons row rows ih => exact (records_record store row).trans (ih (store.record row))

/-- A change of credits records one row or nothing. -/
lemma records_changePostpackCredits (store : Store) (key : String) (body : CreditChange)
    (now : Instant) : Records store (store.changePostpackCredits key body now).1 := by
  unfold changePostpackCredits
  cases body.delta with
  | error error => exact Records.of_history_eq rfl
  | ok delta =>
    cases store.clients.lookup key with
    | none => exact Records.of_history_eq rfl
    | some client =>
      dsimp only
      cases checkedAdd client.creditsBalance delta with
      | none => exact Records.of_history_eq rfl
      | some balance =>
        dsimp only
        split_ifs
        · exact Records.of_history_eq rfl
        · dsimp only
          apply Records.of_same_history ?_ (records_record _ _)
          rfl

/-- A round of crediting records the rows that it has collected. -/
lemma records_creditPayments (store : Store) (price : SolPrice) (now : Instant) :
    Records store (store.creditPayments price now).1 := by
  unfold creditPayments
  split_ifs
  · dsimp only
    apply Records.of_same_history ?_ (records_foldl_record _ _)
    rfl
  · exact Records.of_history_eq rfl

/-- **Step.**  Every request only records. -/
theorem records_handle (code : TransactionCode) (tipAccounts : List Audit.Pubkey) (store : Store)
    (request : Request) : Records store (store.handle code tipAccounts request).1 := by
  cases request with
  | updateSettings body =>
    exact Records.of_history_eq (sameBalances_updateCreditsSettings store body).history
  | setTier body now =>
    exact Records.of_history_eq (sameBalances_setPostpackTier store body now).history
  | changeCredits key body now => exact records_changePostpackCredits store key body now
  | setCreditsEnabled key creditsEnabled now =>
    exact Records.of_history_eq
      (sameBalances_setPostpackCreditsEnabled store key creditsEnabled now).history
  | delete key => exact Records.of_history_eq (sameBalances_deletePostpackClient store key).history
  | pay apiKey requested =>
    obtain ⟨_, hregisters⟩ := registerPayments_spec code tipAccounts store apiKey requested
    exact Records.of_history_eq hregisters.history
  | creditPayments price now => exact records_creditPayments store price now

/-- Requests only record. -/
lemma records_afterRequests (code : TransactionCode) (tipAccounts : List Audit.Pubkey)
    (store : Store) (requests : List Request) :
    Records store (store.afterRequests code tipAccounts requests) :=
  Machine.run_induction (handle code tipAccounts) (P := fun _ store' _ => Records store store')
    (Records.of_history_eq rfl)
    (fun _ request store' _ h => h.trans (records_handle code tipAccounts store' request)) requests

/-- The rows of every store that the service reaches are numbered upwards. -/
lemma ascending_history (code : TransactionCode) (tipAccounts : List Audit.Pubkey)
    (now : Instant) (requests : List Request) :
    Paging.Ascending HistoryRow.id
      (reached code tipAccounts now requests).history := by
  apply (records_afterRequests code tipAccounts (seeded now) requests).ascending
  unfold seeded
  exact (records_foldl_record _ _).ascending List.Pairwise.nil

/-! ### Going from page to page -/

/-- A page is taken from what is unread. -/
lemma getCreditHistory_eq (store : Store) (key : String) (beforeId : Option ℤ) (limit : ℕ) :
    store.getCreditHistory key beforeId limit =
      ((Paging.unread HistoryRow.id (HistoryRow.listed key) beforeId store.history).take
        (max 1 (min limit maxHistoryRows))).map HistoryRow.entry := rfl

/-- What a caller reads who asks for one page after the other, each below the last entry of the page
before, until a page is empty, and whether it came to that.  A call has its limit, and requests may
come between it and the next one. -/
def readHistory (code : TransactionCode) (tipAccounts : List Audit.Pubkey) (store : Store)
    (key : String) (beforeId : Option ℤ) :
    List (ℕ × List Request) → List CreditHistoryEntry × Bool
  | [] => ([], false)
  | (limit, requests) :: calls =>
    let page := store.getCreditHistory key beforeId limit
    match page.getLast? with
    | none => ([], true)
    | some last =>
      let rest := readHistory code tipAccounts (store.afterRequests code tipAccounts requests) key
        (some last.id) calls
      (page ++ rest.1, rest.2)

/-- The rows of a key that are not usage, the newest first, as the pages show them. -/
def listedEntries (store : Store) (key : String) : List CreditHistoryEntry :=
  ((store.history.filter fun row => row.apiKeyValue = key ∧ row.reason ≠ .usage).reverse).map
    HistoryRow.entry

/-- These are the rows that a call without a bound picks. -/
lemma listedEntries_eq (store : Store) (key : String) :
    store.listedEntries key =
      (Paging.unread HistoryRow.id (HistoryRow.listed key) none store.history).map
        HistoryRow.entry := by
  have hlisted : HistoryRow.listed key =
      fun row => decide (row.apiKeyValue = key ∧ row.reason ≠ .usage) := by
    funext row
    rw [Bool.decide_and]
    rfl
  rw [Paging.unread_none, hlisted]
  rfl

/-- **Step.**  What a caller reads from some page on is what was unread then: all of it once a page
is empty, which happens at the latest after as many pages as there are entries unread. -/
theorem readHistory_spec (code : TransactionCode) (tipAccounts : List Audit.Pubkey) (key : String)
    (calls : List (ℕ × List Request)) {store : Store} (beforeId : Option ℤ)
    (h : Paging.Ascending HistoryRow.id store.history) :
    ((readHistory code tipAccounts store key beforeId calls).2 = true →
      (readHistory code tipAccounts store key beforeId calls).1 =
        (Paging.unread HistoryRow.id (HistoryRow.listed key) beforeId store.history).map
          HistoryRow.entry) ∧
    ((Paging.unread HistoryRow.id (HistoryRow.listed key) beforeId store.history).length <
        calls.length → (readHistory code tipAccounts store key beforeId calls).2 = true) := by
  induction calls generalizing store beforeId with
  | nil =>
    constructor
    · intro hended
      cases hended
    · intro hlt
      exact absurd hlt (Nat.not_lt_zero _)
  | cons call calls ih =>
    obtain ⟨limit, requests⟩ := call
    unfold readHistory
    dsimp only
    rw [getCreditHistory_eq, List.getLast?_map]
    generalize hunread :
      Paging.unread HistoryRow.id (HistoryRow.listed key) beforeId store.history = unread
    have hpos : 1 ≤ max 1 (min limit maxHistoryRows) := le_max_left _ _
    cases hlast : (unread.take (max 1 (min limit maxHistoryRows))).getLast? with
    | none =>
      have hempty : unread = [] := by
        rcases List.take_eq_nil_iff.mp (List.getLast?_eq_none_iff.mp hlast) with hzero | hempty
        · omega
        · exact hempty
      rw [hempty]
      exact ⟨fun _ => rfl, fun _ => rfl⟩
    | some last =>
      have hrecords := records_afterRequests code tipAccounts store requests
      obtain ⟨more, hmore⟩ := hrecords.appended
      have hsorted := hrecords.ascending h
      -- the entry of the last row carries its number
      have hnext : Paging.unread HistoryRow.id (HistoryRow.listed key) (some last.entry.id)
          (store.afterRequests code tipAccounts requests).history =
          unread.drop (max 1 (min limit maxHistoryRows)) := by
        rw [← hmore] at hsorted ⊢
        rw [← hunread] at hlast ⊢
        exact Paging.unread_next hsorted hlast
      obtain ⟨hread, hends⟩ := ih (some last.entry.id) hsorted
      rw [hnext] at hread hends
      constructor
      · intro hended
        dsimp only [Option.map_some] at hended ⊢
        rw [hread hended, ← List.map_append, List.take_append_drop]
      · intro hlt
        apply hends
        rw [List.length_drop]
        have hne : 0 < unread.length := by
          rw [List.length_pos_iff]
          rintro rfl
          simp at hlast
        rw [List.length_cons] at hlt
        omega

/-- **Paging is complete.**  In every store that the service reaches, a caller who begins without a
bound and goes on with the last number of each page until a page is empty has read every row of the
key that is not usage and was there at the first call, each once and the newest first, whatever the
limits are and whatever requests come between the pages.  A page is empty at the latest after one
call more than there are such rows. -/
theorem paging_complete (code : TransactionCode) (tipAccounts : List Audit.Pubkey) (now : Instant)
    (before : List Request) (key : String) (calls : List (ℕ × List Request)) :
    ((readHistory code tipAccounts (reached code tipAccounts now before) key none calls).2 = true →
      (readHistory code tipAccounts (reached code tipAccounts now before) key none calls).1 =
        (reached code tipAccounts now before).listedEntries key) ∧
    (((reached code tipAccounts now before).listedEntries key).length < calls.length →
      (readHistory code tipAccounts (reached code tipAccounts now before) key none calls).2 =
        true) ∧
    ((reached code tipAccounts now before).listedEntries key).Pairwise fun newer older =>
      older.id < newer.id := by
  have hsorted := ascending_history code tipAccounts now before
  generalize reached code tipAccounts now before = store at hsorted ⊢
  obtain ⟨hread, hends⟩ := readHistory_spec code tipAccounts key calls none hsorted
  rw [listedEntries_eq]
  refine ⟨hread, ?_, ?_⟩
  · rw [List.length_map]
    exact hends
  · rw [List.pairwise_map]
    exact Paging.descending_unread _ hsorted none

/-- A request of an administrator to add some credits. -/
def correction (key : String) (credits : ℤ) : Request :=
  .changeCredits key ⟨some credits, .adminChange, "a correction", none⟩ 0

/-- A caller who reads a key with two changes, and asks for two entries at a time.  Between the
pages its balance changes again, and so does that of another key. -/
def pagedCalls : List (ℕ × List Request) :=
  [(2, [correction "demo-key-tier1" 3, correction "demo-key-trial" 4]),
    (2, [correction "demo-key-tier1" (-1)]), (2, []), (2, [])]

/-- The caller has read the two changes and the starting balance, and has come to an empty page,
while the key has two rows more in the end. -/
theorem paging_complete_between :
    let before := [correction "demo-key-tier1" 5, correction "demo-key-tier1" 7]
    let store := reached demoCode [demoTipAccount] 0 before
    (readHistory demoCode [demoTipAccount] store "demo-key-tier1" none pagedCalls).2 = true ∧
    ((readHistory demoCode [demoTipAccount] store "demo-key-tier1" none pagedCalls).1.map
      fun entry => (entry.id, entry.deltaCredits)) = [(99, 7), (98, 5), (1, 2000000)] ∧
    (((reached demoCode [demoTipAccount] 0 (before ++ pagedCalls.flatMap (·.2))).listedEntries
      "demo-key-tier1").map fun entry => (entry.id, entry.deltaCredits)) =
        [(102, -1), (100, 3), (99, 7), (98, 5), (1, 2000000)] := by
  intro before store
  obtain ⟨hread, hends, -⟩ :=
    paging_complete demoCode [demoTipAccount] 0 before "demo-key-tier1" pagedCalls
  have hended := hends (by decide +kernel)
  refine ⟨hended, ?_, by decide +kernel⟩
  rw [hread hended]
  decide +kernel

end Store

end ShredTools.Postpack
