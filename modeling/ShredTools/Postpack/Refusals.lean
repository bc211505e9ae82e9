import ShredTools.Postpack.TipsOnce

/-!
# Refused requests

A handler that answers with an error has changed nothing: each of its checks stands before its first
write, whatever entries it has taken and however many transactions it has gone through.  The one
write to the settings stands behind their check, so that the settings of every store that the
service reaches are valid.

`Response.refusal` reads the error off an answer.  `handle_of_refusal` is the step for one request,
with a case for each of the handlers, and `refused_changes_nothing` is about every store that the
service reaches, compared as a whole: clients, history, payments and settings.  A request to
register tips is checked entry by entry, and the error of an entry is no refusal of the request.
-/

namespace ShredTools.Postpack

/-- The error of a result, if it is one. -/
def refusalOf {α : Type*} : Except ApiError α → Option ApiError
  | .error error => some error
  | .ok _ => none

/-- The error that a request is answered with, if it is refused. -/
def Response.refusal : Response → Option ApiError
  | .settings result => refusalOf result
  | .client result => refusalOf result
  | .deleted result => refusalOf result
  | .paid result => refusalOf result
  | .credited _ => none

/-- A result with an error is that error. -/
lemma eq_error_of_refusalOf {α : Type*} {result : Except ApiError α} {error : ApiError}
    (h : refusalOf result = some error) : result = .error error := by
  cases result with
  | ok _ => cases h
  | error reason => rw [Option.some.inj h]

namespace Store

/-! ### A refusal changes nothing -/

/-- Settings that are not valid are not stored. -/
lemma updateCreditsSettings_of_error {store : Store} {body : SettingsUpdate} {error : ApiError}
    (h : (store.updateCreditsSettings body).2 = .error error) :
    (store.updateCreditsSettings body).1 = store := by
  unfold updateCreditsSettings at h ⊢
  dsimp only at h ⊢
  cases hvalid : (body.apply store.settings).validate with
  | error reason => rfl
  | ok _ =>
    rw [hvalid] at h
    cases h

/-- A tier request is refused for its key or its override, before the client is taken. -/
lemma setPostpackTier_of_error {store : Store} {body : SetTierRequest} {now : Instant}
    {error : ApiError} (h : (store.setPostpackTier body now).2 = .error error) :
    (store.setPostpackTier body now).1 = store := by
  unfold setPostpackTier at h ⊢
  by_cases hkey : body.apiKeyValue ∉ store.apiKeys
  · rw [if_pos hkey]
  · rw [if_neg hkey] at h ⊢
    cases hvalid : body.tierOverride.elim (.ok ()) TierOverrideInput.validate with
    | error reason => rfl
    | ok _ =>
      rw [hvalid] at h
      cases h

/-- A change of credits is refused for itself, for its client or for the balance that it would
leave. -/
lemma changePostpackCredits_of_error {store : Store} {key : String} {body : CreditChange}
    {now : Instant} {error : ApiError}
    (h : (store.changePostpackCredits key body now).2 = .error error) :
    (store.changePostpackCredits key body now).1 = store := by
  unfold changePostpackCredits at h ⊢
  cases hdelta : body.delta with
  | error reason => rfl
  | ok delta =>
    rw [hdelta] at h
    dsimp only at h ⊢
    cases hclient : store.clients.lookup key with
    | none => rfl
    | some client =>
      rw [hclient] at h
      dsimp only at h ⊢
      cases hsum : checkedAdd client.creditsBalance delta with
      | none => rfl
      | some balance =>
        rw [hsum] at h
        dsimp only at h ⊢
        by_cases hneg : balance < 0
        · rw [if_pos hneg]
        · rw [if_neg hneg] at h
          cases h

/-- Credits are switched only for a client that is there. -/
lemma setPostpackCreditsEnabled_of_error {store : Store} {key : String}
    {creditsEnabled : Option Bool} {now : Instant} {error : ApiError}
    (h : (store.setPostpackCreditsEnabled key creditsEnabled now).2 = .error error) :
    (store.setPostpackCreditsEnabled key creditsEnabled now).1 = store := by
  unfold setPostpackCreditsEnabled at h ⊢
  cases hclient : store.clients.lookup key with
  | none => rfl
  | some client =>
    rw [hclient] at h
    cases h

/-- Only a client that is there is switched off. -/
lemma deletePostpackClient_of_error {store : Store} {key : String} {error : ApiError}
    (h : (store.deletePostpackClient key).2 = .error error) :
    (store.deletePostpackClient key).1 = store := by
  unfold deletePostpackClient at h ⊢
  cases hclient : store.clients.lookup key with
  | none => rfl
  | some client =>
    rw [hclient] at h
    cases h

/-- A list of transactions is refused as a whole before the first is registered; an entry that is
refused alone is no refusal of the request. -/
lemma registerPayments_of_error {code : TransactionCode} {tipAccounts : List Audit.Pubkey}
    {store : Store} {apiKey : String} {requested : List PayEntry} {error : ApiError}
    (h : (store.registerPayments code tipAccounts apiKey requested).2 = .error error) :
    (store.registerPayments code tipAccounts apiKey requested).1 = store := by
  unfold registerPayments at h ⊢
  by_cases hempty : requested = []
  · rw [if_pos hempty]
  · rw [if_neg hempty] at h ⊢
    by_cases hmany : requested.length > maxPostpackPayTransactions
    · rw [if_pos hmany]
    · rw [if_neg hmany] at h ⊢
      dsimp only at h ⊢
      by_cases hkey : apiKey ∉ store.apiKeys
      · rw [if_pos hkey]
      · rw [if_neg hkey] at h
        cases h

/-- **Step.**  A refused request leaves the store as it was. -/
theorem handle_of_refusal (code : TransactionCode) (tipAccounts : List Audit.Pubkey)
    {store : Store} {request : Request} {error : ApiError}
    (h : (store.handle code tipAccounts request).2.refusal = some error) :
    (store.handle code tipAccounts request).1 = store := by
  cases request with
  | updateSettings body => exact updateCreditsSettings_of_error (eq_error_of_refusalOf h)
  | setTier body now => exact setPostpackTier_of_error (eq_error_of_refusalOf h)
  | changeCredits key body now => exact changePostpackCredits_of_error (eq_error_of_refusalOf h)
  | setCreditsEnabled key creditsEnabled now =>
    exact setPostpackCreditsEnabled_of_error (eq_error_of_refusalOf h)
  | delete key => exact deletePostpackClient_of_error (eq_error_of_refusalOf h)
  | pay apiKey requested => exact registerPayments_of_error (eq_error_of_refusalOf h)
  | creditPayments price now => cases h

/-! ### The settings stay valid -/

@[simp] lemma settings_record (store : Store) (row : HistoryRow) :
    (store.record row).settings = store.settings := rfl

/-- Recording rows does not touch the settings. -/
lemma settings_foldl_record (store : Store) (rows : List HistoryRow) :
    (rows.foldl Store.record store).settings = store.settings := by
  induction rows generalizing store with
  | nil => rfl
  | cons row rows ih => exact ih (store.record row)

/-- Registering tips does not touch the settings. -/
lemma settings_foldl_registerTip (apiKey : String) (tips : List ParsedTip)
    (state : Store × List String) :
    (tips.foldl (registerTip apiKey) state).1.settings = state.1.settings := by
  induction tips generalizing state with
  | nil => rfl
  | cons tip tips ih =>
    obtain ⟨store, accepted⟩ := state
    rw [List.foldl_cons, ih]
    unfold registerTip
    dsimp only
    split_ifs <;> rfl

/-- The settings that the service starts with are valid. -/
lemma validate_default : Settings.default.validate = .ok () := by rfl

/-- New settings are installed only if they are valid. -/
lemma validate_settings_updateCreditsSettings {store : Store}
    (h : store.settings.validate = .ok ()) (body : SettingsUpdate) :
    (store.updateCreditsSettings body).1.settings.validate = .ok () := by
  unfold updateCreditsSettings
  dsimp only
  cases hvalid : (body.apply store.settings).validate with
  | error reason => exact h
  | ok _ => exact hvalid

/-! The other requests do not touch the settings. -/

section Settings

variable (store : Store)

@[simp] lemma settings_setPostpackTier (body : SetTierRequest) (now : Instant) :
    (store.setPostpackTier body now).1.settings = store.settings := by
  unfold setPostpackTier
  by_cases hkey : body.apiKeyValue ∉ store.apiKeys
  · rw [if_pos hkey]
  · rw [if_neg hkey]
    cases body.tierOverride.elim (.ok ()) TierOverrideInput.validate <;> rfl

@[simp] lemma settings_changePostpackCredits (key : String) (body : CreditChange)
    (now : Instant) : (store.changePostpackCredits key body now).1.settings = store.settings := by
  unfold changePostpackCredits
  cases body.delta with
  | error reason => rfl
  | ok delta =>
    cases store.clients.lookup key with
    | none => rfl
    | some client =>
      dsimp only
      cases checkedAdd client.creditsBalance delta with
      | none => rfl
      | some balance =>
        dsimp only
        split_ifs <;> rfl

@[simp] lemma settings_setPostpackCreditsEnabled (key : String) (creditsEnabled : Option Bool)
    (now : Instant) :
    (store.setPostpackCreditsEnabled key creditsEnabled now).1.settings = store.settings := by
  unfold setPostpackCreditsEnabled
  cases store.clients.lookup key <;> rfl

@[simp] lemma settings_deletePostpackClient (key : String) :
    (store.deletePostpackClient key).1.settings = store.settings := by
  unfold deletePostpackClient
  cases store.clients.lookup key <;> rfl

@[simp] lemma settings_registerPayments (code : TransactionCode)
    (tipAccounts : List Audit.Pubkey) (apiKey : String) (requested : List PayEntry) :
    (store.registerPayments code tipAccounts apiKey requested).1.settings = store.settings := by
  unfold registerPayments
  by_cases hempty : requested = []
  · rw [if_pos hempty]
  · rw [if_neg hempty]
    by_cases hmany : requested.length > maxPostpackPayTransactions
    · rw [if_pos hmany]
    · rw [if_neg hmany]
      dsimp only
      by_cases hkey : apiKey ∉ store.apiKeys
      · rw [if_pos hkey]
      · rw [if_neg hkey]
        dsimp only
        rw [settings_foldl_registerTip]

@[simp] lemma settings_creditPayments (price : SolPrice) (now : Instant) :
    (store.creditPayments price now).1.settings = store.settings := by
  unfold creditPayments
  by_cases hfresh : ¬ price.isFresh now
  · rw [if_pos hfresh]
  · rw [if_neg hfresh]
    dsimp only
    rw [settings_foldl_record]

end Settings

/-- **Step.**  The settings of a store are valid after a request if they are before: only one
request sets them. -/
theorem validate_settings_handle (code : TransactionCode) (tipAccounts : List Audit.Pubkey)
    {store : Store} (h : store.settings.validate = .ok ()) (request : Request) :
    (store.handle code tipAccounts request).1.settings.validate = .ok () := by
  cases request with
  | updateSettings body => exact validate_settings_updateCreditsSettings h body
  | setTier body now => simpa [handle] using h
  | changeCredits key body now => simpa [handle] using h
  | setCreditsEnabled key creditsEnabled now => simpa [handle] using h
  | delete key => simpa [handle] using h
  | pay apiKey requested => simpa [handle] using h
  | creditPayments price now => simpa [handle] using h

/-- The settings of every store reached are valid. -/
lemma validate_settings (code : TransactionCode) (tipAccounts : List Audit.Pubkey)
    (now : Instant) (requests : List Request) :
    (reached code tipAccounts now requests).settings.validate = .ok () := by
  refine Machine.run_induction (handle code tipAccounts)
    (P := fun _ store _ => store.settings.validate = .ok ()) ?_ ?_ requests
  · unfold seeded
    rw [settings_foldl_record]
    exact validate_default
  · exact fun _ request store _ hvalid =>
      validate_settings_handle code tipAccounts hvalid request

/-- **Refusals change nothing.**  In every store that the service reaches the settings are valid,
and every request that is answered with an error leaves that store exactly as it was. -/
theorem refused_changes_nothing (code : TransactionCode) (tipAccounts : List Audit.Pubkey)
    (now : Instant) (requests : List Request) :
    (reached code tipAccounts now requests).settings.validate = .ok () ∧
    ∀ request error,
      ((reached code tipAccounts now requests).handle code tipAccounts request).2.refusal =
        some error →
      ((reached code tipAccounts now requests).handle code tipAccounts request).1 =
        reached code tipAccounts now requests :=
  ⟨validate_settings code tipAccounts now requests,
    fun _ _ h => handle_of_refusal code tipAccounts h⟩

/-- A request to take more credits from a client than it has is refused as a conflict: the store is
as it was, and so is the balance. -/
theorem refused_changes_nothing_conflict :
    let store := reached demoCode [demoTipAccount] 0 demoRequests
    let request := Request.changeCredits "demo-key-tier1"
      ⟨some (-2300001), .adminChange, "more than is there", none⟩ 0
    (store.handle demoCode [demoTipAccount] request).2.refusal =
      some (.conflict, "the balance cannot go below 0") ∧
    (store.handle demoCode [demoTipAccount] request).1 = store ∧
    ((store.handle demoCode [demoTipAccount] request).1.clients.lookup "demo-key-tier1").map
      (·.creditsBalance) = some 2300000 := by
  intro store request
  have hrefused : (store.handle demoCode [demoTipAccount] request).2.refusal =
      some (.conflict, "the balance cannot go below 0") := by
    decide +kernel
  have hsame := (refused_changes_nothing demoCode [demoTipAccount] 0 demoRequests).2 request _
    hrefused
  refine ⟨hrefused, hsame, ?_⟩
  rw [hsame]
  decide +kernel

end Store

end ShredTools.Postpack
