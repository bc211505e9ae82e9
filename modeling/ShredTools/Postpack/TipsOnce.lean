import ShredTools.Postpack.StoreRun

/-!
# Every tip is credited at most once

Tips pass three places where a second one is dropped: within a request, against the signatures
registered, and against the payments accounted for.  One invariant links them (`Tracks`): what has
been accepted are the signatures of the payments, no two payments share one, and every row of a tip
belongs to a payment accounted for.  A payment that can not be credited yet stays as it is.

`Tracks` has three lemmas: for a request that touches neither payments nor tips (`Tracks.frame`),
one that registers tips (`Tracks.pay`), and a round of crediting (`Tracks.creditPayments`).
`TipsOnce` is what the theorem says of the rows and payments alone, with what waits to be credited.
In the demonstration one transaction comes twice in a request and once more with another key, and
two rounds credit it once.
-/

namespace ShredTools.Postpack

namespace Store

/-- The rows of credited tips. -/
def tipRows (store : Store) : List HistoryRow := store.history.filter fun row => row.reason = .tip

/-- A store in which no payment has been registered and no tip credited. -/
structure Untipped (store : Store) : Prop where
  /-- No payment. -/
  payments : store.payments = []
  /-- No signature. -/
  paidSignatures : store.paidSignatures = ∅
  /-- No row of a tip. -/
  tipRows : store.tipRows = []

/-- The store that the service starts with has seen no tip. -/
lemma untipped_seeded (now : Instant) : Untipped (seeded now) := by
  obtain ⟨hbody, -, hpayments, hpaid⟩ := seeded_spec now
  refine ⟨hpayments, hpaid, ?_⟩
  unfold tipRows
  rw [List.filter_eq_nil_iff]
  intro row hrow
  have hmem : row.body ∈ (seededBalance now :: seededUsage now).map HistoryRow.body :=
    hbody ▸ List.mem_map_of_mem hrow
  obtain ⟨row', hrow', heq⟩ := List.mem_map.mp hmem
  have hreason : row.reason = row'.reason := (congrArg HistoryRow.reason heq).symm
  rw [hreason, decide_eq_true_eq]
  rcases List.mem_cons.mp hrow' with rfl | husage
  · simp [seededBalance]
  · obtain ⟨hoursAgo, -, hhour⟩ := List.mem_flatMap.mp husage
    obtain ⟨indexed, -, rfl⟩ := List.mem_map.mp hhour
    simp

section

variable (code : TransactionCode) (tipAccounts : List Audit.Pubkey) (start : Store)

/-- A request of a key has accepted a signature. -/
def AcceptedFor (requests : List Request) (signature apiKey : String) : Prop :=
  ∃ before request later, requests = before ++ request :: later ∧
    ∃ requested, request = .pay apiKey requested ∧
      signature ∈ (handle code tipAccounts (afterRequests code tipAccounts start before)
        request).2.accepted

/-- After some requests, every tip has been taken at most once, and what waits can be taken. -/
structure TipsOnce (requests : List Request) : Prop where
  /-- No signature is accepted twice. -/
  accepted :
    ((responses code tipAccounts start requests).flatMap Response.accepted).Nodup
  /-- No signature has two payments. -/
  payments :
    ((afterRequests code tipAccounts start requests).payments.map Payment.signature).Nodup
  /-- No signature has two rows of a tip. -/
  tips :
    ((afterRequests code tipAccounts start requests).tipRows.map HistoryRow.signature).Nodup
  /-- A row of a tip credits the key of the request that accepted its signature. -/
  acceptor : ∀ row ∈ (afterRequests code tipAccounts start requests).tipRows,
    ∃ signature, row.signature = some signature ∧
      AcceptedFor code tipAccounts start requests signature row.apiKeyValue
  /-- A payment stays unaccounted for, except in a round with a fresh price if its key has a
  client. -/
  waits : ∀ payment ∈ (afterRequests code tipAccounts start requests).payments,
    payment.accounted = false → ∀ request,
      (∀ price now, request = .creditPayments price now → price.isFresh now = true →
        payment.apiKey ∉ (afterRequests code tipAccounts start requests).clients) →
      payment ∈ (afterRequests code tipAccounts start (requests ++ [request])).payments
  /-- In such a round it is credited. -/
  credited : ∀ payment ∈ (afterRequests code tipAccounts start requests).payments,
    payment.accounted = false → ∀ price now, price.isFresh now = true →
      payment.apiKey ∈ (afterRequests code tipAccounts start requests).clients →
      { payment with accounted := true } ∈ (afterRequests code tipAccounts start
        (requests ++ [.creditPayments price now])).payments ∧
      ∀ credits, price.tipCredits payment.tip = some credits →
        ∃ row ∈ (afterRequests code tipAccounts start
            (requests ++ [.creditPayments price now])).tipRows,
          row.signature = some payment.signature ∧ row.apiKeyValue = payment.apiKey ∧
            row.deltaCredits = credits

/-! ### The invariant -/

/-- What links the answers, the signatures, the payments and the rows of tips. -/
structure Tracks (requests : List Request) : Prop where
  /-- The signatures accepted are those of the payments. -/
  accepted : (responses code tipAccounts start requests).flatMap Response.accepted =
    (afterRequests code tipAccounts start requests).payments.map Payment.signature
  /-- The signatures registered are those of the payments. -/
  paid : ∀ signature, signature ∈ (afterRequests code tipAccounts start requests).paidSignatures ↔
    signature ∈ (afterRequests code tipAccounts start requests).payments.map Payment.signature
  /-- No two payments share a signature. -/
  nodup :
    ((afterRequests code tipAccounts start requests).payments.map Payment.signature).Nodup
  /-- A payment is of the key whose request accepted it. -/
  origin : ∀ payment ∈ (afterRequests code tipAccounts start requests).payments,
    AcceptedFor code tipAccounts start requests payment.signature payment.apiKey
  /-- A row of a tip is of a payment accounted for. -/
  tips : ∀ row ∈ (afterRequests code tipAccounts start requests).tipRows,
    ∃ payment ∈ (afterRequests code tipAccounts start requests).payments,
      payment.accounted = true ∧ row.signature = some payment.signature ∧
        row.apiKeyValue = payment.apiKey
  /-- No two rows of tips share a signature. -/
  tipsNodup :
    ((afterRequests code tipAccounts start requests).tipRows.map HistoryRow.signature).Nodup

end

variable {code : TransactionCode} {tipAccounts : List Audit.Pubkey} {start : Store}

/-- One more request. -/
theorem afterRequests_concat (requests : List Request) (request : Request) :
    afterRequests code tipAccounts start (requests ++ [request]) =
      (handle code tipAccounts (afterRequests code tipAccounts start requests) request).1 :=
  Machine.finalState_concat _ start requests request

/-- One more answer. -/
lemma accepted_concat (requests : List Request) (request : Request) :
    (responses code tipAccounts start (requests ++ [request])).flatMap Response.accepted =
      (responses code tipAccounts start requests).flatMap Response.accepted ++
        (handle code tipAccounts (afterRequests code tipAccounts start requests)
          request).2.accepted := by
  unfold responses
  rw [Machine.outputs_concat, List.flatMap_append, List.flatMap_singleton]
  rfl

/-- What was accepted before stays accepted. -/
theorem AcceptedFor.concat {requests : List Request} {signature apiKey : String}
    (h : AcceptedFor code tipAccounts start requests signature apiKey) (request : Request) :
    AcceptedFor code tipAccounts start (requests ++ [request]) signature apiKey := by
  unfold AcceptedFor
  rw [List.exists_split_concat (P := fun before request => ∃ requested,
    request = .pay apiKey requested ∧ signature ∈ (handle code tipAccounts
      (afterRequests code tipAccounts start before) request).2.accepted)]
  exact Or.inl h

/-- What the last request accepted is accepted. -/
lemma acceptedFor_last {requests : List Request} {signature apiKey : String}
    {requested : List PayEntry} (h : signature ∈ (handle code tipAccounts
      (afterRequests code tipAccounts start requests) (.pay apiKey requested)).2.accepted) :
    AcceptedFor code tipAccounts start (requests ++ [.pay apiKey requested]) signature apiKey :=
  ⟨requests, _, [], rfl, requested, rfl, h⟩

/-- A request that touches neither payments nor rows of tips keeps the invariant. -/
theorem Tracks.frame {requests : List Request} (h : Tracks code tipAccounts start requests)
    {request : Request}
    (hsame : SamePayments (afterRequests code tipAccounts start requests)
      (handle code tipAccounts (afterRequests code tipAccounts start requests) request).1)
    (htips : (handle code tipAccounts (afterRequests code tipAccounts start requests)
      request).1.tipRows = (afterRequests code tipAccounts start requests).tipRows)
    (haccepted : (handle code tipAccounts (afterRequests code tipAccounts start requests)
      request).2.accepted = []) : Tracks code tipAccounts start (requests ++ [request]) where
  accepted := by
    rw [accepted_concat, haccepted, List.append_nil, afterRequests_concat, hsame.payments,
      h.accepted]
  paid := by
    rw [afterRequests_concat, hsame.payments, hsame.paidSignatures]
    exact h.paid
  nodup := by
    rw [afterRequests_concat, hsame.payments]
    exact h.nodup
  origin := by
    rw [afterRequests_concat, hsame.payments]
    exact fun payment hpayment => (h.origin payment hpayment).concat request
  tips := by
    rw [afterRequests_concat, hsame.payments, htips]
    exact h.tips
  tipsNodup := by
    rw [afterRequests_concat, htips]
    exact h.tipsNodup

/-- A request that leaves the history leaves the rows of tips. -/
lemma tipRows_of_history {store store' : Store} (h : store'.history = store.history) :
    store'.tipRows = store.tipRows := by
  unfold tipRows
  rw [h]

/-- A change of credits leaves the rows of tips. -/
lemma ChangesBalance.tipRows {store store' : Store} {key : String} {client : ClientRecord}
    {row : HistoryRow} (h : ChangesBalance store store' key client row) :
    store'.tipRows = store.tipRows := by
  unfold Store.tipRows
  rw [h.history, List.filter_append, List.filter_cons_of_neg (by simpa using h.reason),
    List.filter_nil, List.append_nil]

/-- A request to register payments keeps the invariant. -/
theorem Tracks.pay {requests : List Request} (h : Tracks code tipAccounts start requests)
    (apiKey : String) (requested : List PayEntry) :
    Tracks code tipAccounts start (requests ++ [.pay apiKey requested]) := by
  obtain ⟨new, hnew⟩ := registerPayments_spec code tipAccounts
    (afterRequests code tipAccounts start requests) apiKey requested
  have hstep : afterRequests code tipAccounts start (requests ++ [.pay apiKey requested]) =
      ((afterRequests code tipAccounts start requests).registerPayments code tipAccounts apiKey
        requested).1 := afterRequests_concat requests _
  have haccepted : (handle code tipAccounts (afterRequests code tipAccounts start requests)
      (.pay apiKey requested)).2.accepted = new.map Payment.signature := hnew.accepted
  refine ⟨?_, ?_, ?_, ?_, ?_, ?_⟩
  · rw [accepted_concat, haccepted, hstep, hnew.payments, List.map_append, h.accepted]
  · intro signature
    rw [hstep, hnew.payments, hnew.paidSignatures, List.map_append, List.mem_append, h.paid]
  · rw [hstep, hnew.payments, List.map_append]
    refine h.nodup.append hnew.nodup ?_
    intro signature hold hmem
    obtain ⟨payment, hpayment, rfl⟩ := List.mem_map.mp hmem
    exact hnew.fresh payment hpayment ((h.paid _).mpr hold)
  · intro payment hpayment
    rw [hstep, hnew.payments] at hpayment
    rcases List.mem_append.mp hpayment with hold | hmem
    · exact (h.origin payment hold).concat _
    · rw [(hnew.apiKey payment hmem).1]
      apply acceptedFor_last
      rw [haccepted]
      exact List.mem_map_of_mem hmem
  · intro row hrow
    rw [hstep, tipRows_of_history hnew.history] at hrow
    obtain ⟨payment, hpayment, hrest⟩ := h.tips row hrow
    rw [hstep, hnew.payments]
    exact ⟨payment, List.mem_append_left _ hpayment, hrest⟩
  · rw [hstep, tipRows_of_history hnew.history]
    exact h.tipsNodup

end Store

/-! ### Rounds of crediting -/

/-- A settled payment has its signature. -/
@[simp] lemma Payment.signature_settle (clients : Clients) (payment : Payment) :
    (payment.settle clients).signature = payment.signature := by
  unfold settle
  split_ifs <;> rfl

/-- A settled payment has its key. -/
@[simp] lemma Payment.apiKey_settle (clients : Clients) (payment : Payment) :
    (payment.settle clients).apiKey = payment.apiKey := by
  unfold settle
  split_ifs <;> rfl

/-- What a round accounts for has not been accounted for. -/
lemma Payment.accounted_of_due {clients : Clients} {payment : Payment}
    (h : payment.due clients = true) : payment.accounted = false := by
  unfold due at h
  simpa using (Bool.and_eq_true_iff.mp h).1

/-- A row that a round records is that of a payment. -/
theorem SolPrice.earned_eq_some_iff {price : SolPrice} {now : Instant} {clients : Clients}
    {payment : Payment} {row : HistoryRow} : price.earned now clients payment = some row ↔
      payment.due clients = true ∧
        ∃ credits, price.tipCredits payment.tip = some credits ∧
          tipRow price now payment credits = row := by
  unfold earned
  by_cases hdue : payment.due clients = true
  · rw [if_pos hdue, Option.map_eq_some_iff]
    exact (and_iff_right hdue).symm
  · rw [if_neg hdue]
    simp [hdue]

/-- Reading off the results what is there before gives a part of it. -/
lemma sublist_map_filterMap {α β γ : Type*} {f : α → Option β} {g : β → γ} {h : α → γ}
    (hread : ∀ a b, f a = some b → g b = h a) (l : List α) :
    ((l.filterMap f).map g).Sublist (l.map h) := by
  induction l with
  | nil => exact List.Sublist.slnil
  | cons a l ih =>
    rw [List.map_cons]
    cases hf : f a with
    | none =>
      rw [List.filterMap_cons_none hf]
      exact ih.cons _
    | some b =>
      rw [List.filterMap_cons_some hf, List.map_cons, hread a b hf]
      exact ih.cons_cons _

namespace Store

variable {code : TransactionCode} {tipAccounts : List Audit.Pubkey} {start : Store}

/-- A round of crediting records rows of tips only, those of the payments that it accounts for. -/
lemma Credits.tipRows {price : SolPrice} {now : Instant} {store store' : Store}
    (h : Credits price now store store') : ∃ recorded, store'.tipRows = store.tipRows ++ recorded ∧
      recorded.map HistoryRow.body =
        store.payments.filterMap (price.earned now store.clients) := by
  obtain ⟨recorded, hhistory, hbody⟩ := h.history
  refine ⟨recorded, ?_, hbody⟩
  unfold Store.tipRows
  rw [hhistory, List.filter_append]
  congr 1
  rw [List.filter_eq_self]
  intro row hrow
  have hmem : row.body ∈ store.payments.filterMap (price.earned now store.clients) :=
    hbody ▸ List.mem_map_of_mem hrow
  obtain ⟨payment, -, hearned⟩ := List.mem_filterMap.mp hmem
  obtain ⟨-, credits, -, hrow'⟩ := SolPrice.earned_eq_some_iff.mp hearned
  have hreason : row.reason = .tip := (congrArg HistoryRow.reason hrow').symm
  exact decide_eq_true hreason

/-- A recorded row of a round is that of a payment that it accounts for. -/
lemma exists_payment_of_recorded {price : SolPrice} {now : Instant} {store : Store}
    {recorded : List HistoryRow} (hbody : recorded.map HistoryRow.body =
      store.payments.filterMap (price.earned now store.clients)) {row : HistoryRow}
    (hrow : row ∈ recorded) : ∃ payment ∈ store.payments, payment.due store.clients = true ∧
      row.signature = some payment.signature ∧ row.apiKeyValue = payment.apiKey := by
  have hmem : row.body ∈ store.payments.filterMap (price.earned now store.clients) :=
    hbody ▸ List.mem_map_of_mem hrow
  obtain ⟨payment, hpayment, hearned⟩ := List.mem_filterMap.mp hmem
  obtain ⟨hdue, credits, -, hrow'⟩ := SolPrice.earned_eq_some_iff.mp hearned
  exact ⟨payment, hpayment, hdue, (congrArg HistoryRow.signature hrow').symm,
    (congrArg HistoryRow.apiKeyValue hrow').symm⟩

/-- A round of crediting has one row at most for each payment. -/
lemma nodup_recorded {price : SolPrice} {now : Instant} {store : Store}
    {recorded : List HistoryRow} (hbody : recorded.map HistoryRow.body =
      store.payments.filterMap (price.earned now store.clients))
    (hnodup : (store.payments.map Payment.signature).Nodup) :
    (recorded.map HistoryRow.signature).Nodup := by
  have hread : recorded.map HistoryRow.signature =
      (store.payments.filterMap (price.earned now store.clients)).map HistoryRow.signature := by
    rw [← hbody, List.map_map]
    rfl
  rw [hread]
  refine List.Nodup.sublist (sublist_map_filterMap (h := fun p => some p.signature) ?_ _) ?_
  · intro payment row hearned
    obtain ⟨-, credits, -, rfl⟩ := SolPrice.earned_eq_some_iff.mp hearned
    rfl
  · have hsome := hnodup.map (Option.some_injective _)
    rwa [List.map_map] at hsome

/-- A round of crediting keeps the invariant. -/
theorem Tracks.creditPayments {requests : List Request} (h : Tracks code tipAccounts start requests)
    (price : SolPrice) (now : Instant) :
    Tracks code tipAccounts start (requests ++ [.creditPayments price now]) := by
  cases hfresh : price.isFresh now with
  | false =>
    have hstep : (handle code tipAccounts (afterRequests code tipAccounts start requests)
        (.creditPayments price now)).1 = afterRequests code tipAccounts start requests :=
      creditPayments_of_not_fresh (afterRequests code tipAccounts start requests) hfresh
    refine h.frame ?_ (by rw [hstep]) rfl
    rw [hstep]
    exact ⟨rfl, rfl⟩
  | true =>
    have hcredits := creditPayments_spec (afterRequests code tipAccounts start requests) hfresh
    have hstep : afterRequests code tipAccounts start (requests ++ [.creditPayments price now]) =
        ((afterRequests code tipAccounts start requests).creditPayments price now).1 :=
      afterRequests_concat requests _
    have hsignatures : ((afterRequests code tipAccounts start
        (requests ++ [.creditPayments price now])).payments.map Payment.signature) =
          (afterRequests code tipAccounts start requests).payments.map Payment.signature := by
      rw [hstep, hcredits.payments, List.map_map]
      exact List.map_congr_left fun payment _ => Payment.signature_settle _ payment
    obtain ⟨recorded, htips, hbody⟩ := hcredits.tipRows
    refine ⟨?_, ?_, ?_, ?_, ?_, ?_⟩
    · rw [accepted_concat, hsignatures, h.accepted]
      exact List.append_nil _
    · intro signature
      rw [hsignatures, hstep, hcredits.paidSignatures, h.paid]
    · rw [hsignatures]
      exact h.nodup
    · intro payment hpayment
      rw [hstep, hcredits.payments] at hpayment
      obtain ⟨payment', hpayment', rfl⟩ := List.mem_map.mp hpayment
      rw [Payment.signature_settle, Payment.apiKey_settle]
      exact (h.origin payment' hpayment').concat _
    · intro row hrow
      rw [hstep, htips] at hrow
      rw [hstep, hcredits.payments]
      rcases List.mem_append.mp hrow with hold | hnew
      · obtain ⟨payment, hpayment, haccounted, hrest⟩ := h.tips row hold
        have hsettle : payment.settle (afterRequests code tipAccounts start requests).clients =
            payment := by
          simp [Payment.settle, Payment.due, haccounted]
        exact ⟨payment, hsettle ▸ List.mem_map_of_mem hpayment, haccounted, hrest⟩
      · obtain ⟨payment, hpayment, hdue, hrest⟩ := exists_payment_of_recorded hbody hnew
        refine ⟨_, List.mem_map_of_mem hpayment, ?_, ?_⟩
        · rw [Payment.settle, if_pos hdue]
        · rw [Payment.signature_settle, Payment.apiKey_settle]
          exact hrest
    · rw [hstep, htips, List.map_append]
      refine h.tipsNodup.append (nodup_recorded hbody h.nodup) ?_
      -- the old rows are of payments accounted for, the new ones of others
      intro signature hold hnew
      obtain ⟨row, hrow, rfl⟩ := List.mem_map.mp hold
      obtain ⟨row', hrow', hsame⟩ := List.mem_map.mp hnew
      obtain ⟨payment, hpayment, haccounted, hsig, -⟩ := h.tips row hrow
      obtain ⟨payment', hpayment', hdue, hsig', -⟩ := exists_payment_of_recorded hbody hrow'
      rw [hsig, hsig'] at hsame
      have heq : payment' = payment := List.inj_on_of_nodup_map h.nodup hpayment' hpayment
        (Option.some.inj hsame)
      rw [← heq, Payment.accounted_of_due hdue] at haccounted
      exact Bool.false_ne_true haccounted

/-- The invariant holds along every run. -/
theorem tracks_run (hstart : Untipped start) (requests : List Request) :
    Tracks code tipAccounts start requests := by
  induction requests using List.reverseRecOn with
  | nil =>
    have hnil : afterRequests code tipAccounts start [] = start := rfl
    refine ⟨?_, ?_, ?_, ?_, ?_, ?_⟩
    · rw [hnil, hstart.payments]
      rfl
    · simp [hnil, hstart.payments, hstart.paidSignatures]
    · simp [hnil, hstart.payments]
    · simp [hnil, hstart.payments]
    · simp [hnil, hstart.tipRows]
    · simp [hnil, hstart.tipRows]
  | append_singleton requests request ih =>
    rcases handle_cases code tipAccounts (afterRequests code tipAccounts start requests) request
      with ⟨hsame, haccepted⟩ | ⟨key, client, row, hchange, haccepted⟩ |
        ⟨apiKey, requested, rfl⟩ | ⟨price, now, rfl⟩
    · exact ih.frame hsame.toSamePayments (tipRows_of_history hsame.history) haccepted
    · exact ih.frame hchange.toSamePayments hchange.tipRows haccepted
    · exact ih.pay apiKey requested
    · exact ih.creditPayments price now

/-! ### Waiting payments -/

/-- Only a round with a fresh price accounts for a payment, if its key has a client. -/
lemma mem_payments_handle {store : Store} {payment : Payment} (hmem : payment ∈ store.payments)
    {request : Request} (hwaits : ∀ price now, request = .creditPayments price now →
      price.isFresh now = true → payment.apiKey ∉ store.clients) :
    payment ∈ (store.handle code tipAccounts request).1.payments := by
  rcases handle_cases code tipAccounts store request with ⟨hsame, -⟩ |
    ⟨key, client, row, hchange, -⟩ | ⟨apiKey, requested, rfl⟩ | ⟨price, now, rfl⟩
  · rw [hsame.payments]
    exact hmem
  · rw [hchange.payments]
    exact hmem
  · obtain ⟨new, hnew⟩ := registerPayments_spec code tipAccounts store apiKey requested
    have hpayments : (store.handle code tipAccounts (.pay apiKey requested)).1.payments =
        store.payments ++ new := hnew.payments
    rw [hpayments]
    exact List.mem_append_left _ hmem
  · change payment ∈ (store.creditPayments price now).1.payments
    cases hfresh : price.isFresh now with
    | false =>
      rw [creditPayments_of_not_fresh store hfresh]
      exact hmem
    | true =>
      have hnone : (store.clients.lookup payment.apiKey).isSome = false := by
        rw [← Bool.not_eq_true, AList.lookup_isSome]
        exact hwaits price now rfl hfresh
      have hsettle : payment.settle store.clients = payment := by
        simp [Payment.settle, Payment.due, hnone]
      rw [(creditPayments_spec store hfresh).payments]
      exact hsettle ▸ List.mem_map_of_mem hmem

/-- A round with a fresh price credits a payment whose key has a client. -/
lemma credited_creditPayments {store : Store} {payment : Payment}
    (hmem : payment ∈ store.payments) (hwaiting : payment.accounted = false) {price : SolPrice}
    {now : Instant} (hfresh : price.isFresh now = true) (hclient : payment.apiKey ∈ store.clients) :
    { payment with accounted := true } ∈ (store.creditPayments price now).1.payments ∧
    ∀ credits, price.tipCredits payment.tip = some credits →
      ∃ row ∈ (store.creditPayments price now).1.tipRows,
        row.signature = some payment.signature ∧ row.apiKeyValue = payment.apiKey ∧
          row.deltaCredits = credits := by
  have hspec := creditPayments_spec store hfresh
  have hdue : payment.due store.clients = true := by
    simp [Payment.due, hwaiting, AList.lookup_isSome.mpr hclient]
  constructor
  · rw [hspec.payments]
    refine List.mem_map.mpr ⟨payment, hmem, ?_⟩
    rw [Payment.settle, if_pos hdue]
  · intro credits hcredits
    obtain ⟨recorded, htips, hbody⟩ := hspec.tipRows
    have hearned : tipRow price now payment credits ∈ recorded.map HistoryRow.body := by
      rw [hbody]
      exact List.mem_filterMap.mpr
        ⟨payment, hmem, SolPrice.earned_eq_some_iff.mpr ⟨hdue, credits, hcredits, rfl⟩⟩
    obtain ⟨row, hrow, hrowBody⟩ := List.mem_map.mp hearned
    refine ⟨row, ?_, congrArg HistoryRow.signature hrowBody,
      congrArg HistoryRow.apiKeyValue hrowBody, congrArg HistoryRow.deltaCredits hrowBody⟩
    rw [htips]
    exact List.mem_append_right _ hrow

/-- **A tip is credited at most once.**  In every run of requests on a store without tips, whatever
the transaction code of the libraries: no signature is accepted twice, has two payments or two rows
of a tip; a row of a tip credits the key of the request that accepted it; and a payment that can not
be credited stays as it is and is credited in the first round that can. -/
theorem tips_credited_once (code : TransactionCode) (tipAccounts : List Audit.Pubkey)
    {start : Store} (hstart : Untipped start) (requests : List Request) :
    TipsOnce code tipAccounts start requests := by
  have h : Tracks code tipAccounts start requests := tracks_run hstart requests
  refine ⟨?_, h.nodup, h.tipsNodup, ?_, ?_, ?_⟩
  · rw [h.accepted]
    exact h.nodup
  · intro row hrow
    obtain ⟨payment, hpayment, -, hsignature, hkey⟩ := h.tips row hrow
    refine ⟨payment.signature, hsignature, ?_⟩
    rw [hkey]
    exact h.origin payment hpayment
  · intro payment hpayment _ request hwaits
    rw [afterRequests_concat]
    exact mem_payments_handle hpayment hwaits
  · intro payment hpayment hwaiting price now hfresh hclient
    rw [afterRequests_concat]
    exact credited_creditPayments hpayment hwaiting hfresh hclient

/-! ### One transaction -/

/-- The payer of a transaction. -/
def demoPayer : Audit.Pubkey where
  toArray := List.toArray
    [234, 74, 108, 99, 226, 156, 82, 10, 190, 245, 80, 123, 19, 46, 197, 249, 149, 71, 118, 174,
      190, 190, 123, 146, 66, 30, 234, 105, 20, 70, 210, 44]
  size_toArray := rfl

/-- The first of the default tip accounts. -/
def demoTipAccount : Audit.Pubkey where
  toArray := List.toArray
    [8, 173, 181, 148, 56, 246, 192, 56, 108, 223, 4, 148, 177, 85, 236, 8, 32, 101, 10, 5, 70,
      222, 125, 253, 150, 195, 174, 4, 40, 143, 123, 58]
  size_toArray := rfl

/-- The payer's signature of `demoMessage`. -/
def demoSignature : SignatureBytes where
  toArray := List.toArray
    [156, 9, 235, 83, 102, 152, 54, 155, 168, 200, 68, 180, 223, 53, 54, 44, 229, 139, 247, 234,
      247, 42, 166, 94, 147, 100, 140, 36, 188, 182, 65, 156, 161, 113, 56, 203, 57, 5, 175, 65,
      217, 183, 168, 136, 147, 130, 141, 207, 156, 122, 180, 221, 119, 25, 245, 141, 78, 29, 21,
      107, 217, 133, 251, 8]
  size_toArray := rfl

/-- A legacy message that sends ten million lamports from the payer to the tip account. -/
def demoMessage : List UInt8 :=
  [1, 0, 1, 3] ++ demoPayer.toList ++ demoTipAccount.toList ++ List.replicate 32 0 ++
    List.replicate 32 7 ++ [1, 2, 2, 0, 1, 12] ++ [2, 0, 0, 0] ++ [128, 150, 152, 0, 0, 0, 0, 0]

/-- The transaction on the wire. -/
def demoWire : List UInt8 := 1 :: demoSignature.toList ++ demoMessage

/-- The transaction in base64. -/
def demoText : String :=
  "AZwJ61NmmDabqMhEtN81Nizli/fq9yqmXpNkjCS8tkGcoXE4yzkFr0HZt6iIk4KNz5x6tN13GfWNTh0Va9mF" ++
  "+wgBAAED6kpsY+KcUgq+9VB7Ey7F+ZVHdq6+vnuSQh7qaRRG0iwIrbWUOPbAOGzfBJSxVewIIGUKBUbeff2W" ++
  "w64EKI97OgAAAAAAAAAAAAAAAAAAAAAAAAAAAAAAAAAAAAAAAAAABwcHBwcHBwcHBwcHBwcHBwcHBwcHBwcH" ++
  "BwcHBwcHBwcBAgIAAQwCAAAAgJaYAAAAAAA="

/-- What the libraries do with this transaction. -/
def demoCode : TransactionCode where
  decodeBase64 encoded := if encoded = demoText then some demoWire else none
  maxTransactionSize := 4096
  v1Prefix := 129
  tryNewSanitized wire :=
    if wire = demoWire then some
      { signature := demoSignature
        otherSignatures := []
        staticAccountKeys := [demoPayer, demoTipAccount, Vector.replicate 32 0]
        messageData := demoMessage
        instructions := [([0, 1], [2, 0, 0, 0] ++ [128, 150, 152, 0, 0, 0, 0, 0])] }
    else none
  verify signature pubkey message :=
    signature = demoSignature ∧ pubkey = demoPayer ∧ message = demoMessage
  showSignature _ :=
    "47wihqSCxEfyLhstkDkEFQkryjHeM11Eb6VnNrzPYzGE" ++
    "Z7edG59WtM4hynFRHMt2Y3Hrk8qxb6f7gMZujUbXABZR"

/-- Two keys register the transaction, one of them twice, and two rounds credit it. -/
def demoRequests : List Request :=
  [.pay "demo-key-tier1" [⟨demoText, some 1⟩, ⟨demoText, some 1⟩],
    .pay "demo-key-off" [⟨demoText, some 2⟩],
    .creditPayments ⟨15000, 0⟩ 0,
    .creditPayments ⟨15000, 0⟩ 0]

/-- The transaction is credited once, to the key that registered it first. -/
theorem tips_credited_once_demo :
    TipsOnce demoCode [demoTipAccount] (seeded 0) demoRequests ∧
    (afterRequests demoCode [demoTipAccount] (seeded 0) demoRequests).tipRows.map
      (fun row => (row.apiKeyValue, row.deltaCredits)) = [("demo-key-tier1", 300000)] :=
  ⟨tips_credited_once demoCode [demoTipAccount] (untipped_seeded 0) demoRequests,
    by decide +kernel⟩

end Store

end ShredTools.Postpack
