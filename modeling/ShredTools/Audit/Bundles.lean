import Mathlib.Data.Finset.Dedup
import ShredTools.Audit.VotePaths
import ShredTools.Library.Checks
import ShredTools.Postpack.Credits

/-!
# Bundles of filters

The configuration lists the bundles that a rotating source is subscribed with, as maps from the name
of a filter to its clauses with keys in base 58.  `validate` parses every bundle before the audit
starts, so the bundles that it passes have between one and thirty-two filters
(`exists_of_checkBundles`), and these have distinct names (`Bundle.Accepted.nodup_names`).  For each
mode there is at least one bundle, the names of the bundles are distinct, and a source in deshred
mode gets none that asks whether a transaction failed (`forMode_of_validate`).  The base 58 coder is
a parameter.
-/

namespace ShredTools.Audit

open Postpack (trim)

/-- `FilterCfg` with its lists of accounts, as it stands in the configuration. -/
structure FilterText extends FilterCfg where
  /-- `account_include` -/
  accountInclude : List String
  /-- `account_exclude` -/
  accountExclude : List String
  /-- `account_required` -/
  accountRequired : List String
  deriving DecidableEq

/-- `FilterCfg::default` -/
def FilterText.default : FilterText where
  vote := none
  failed := none
  accountInclude := []
  accountExclude := []
  accountRequired := []

/-- `BundleCfg` -/
structure BundleCfg where
  /-- The name of the bundle. -/
  name : String
  /-- The filters by name. -/
  filters : Std.TreeMap String FilterText

/-- `Bundle`, as `Bundle::new` makes it. -/
structure ParsedBundle where
  /-- The name of the bundle. -/
  name : String
  /-- The filters, in the order of their names. -/
  filters : List Filter
  deriving DecidableEq

/-- `Filter::uses_failed` -/
def Filter.usesFailed (f : Filter) : Bool := f.cfg.failed.isSome

/-- `Bundle::fits_deshred` -/
def ParsedBundle.fitsDeshred (b : ParsedBundle) : Bool := !b.filters.any Filter.usesFailed

section Parsing

variable (decode : String → Except String (List UInt8))

/-- `parse_keys`, for one entry. -/
def parseKey (filter field s : String) : Except String Key := do
  let entry := "filter " ++ "`" ++ filter ++ "`: " ++ field ++ " entry `" ++ s ++ "` is not "
  let raw ←
    match decode (trim s) with
    | .ok raw => pure raw
    | .error e => throw (entry ++ "base58: " ++ e)
  match arrayOf 32 raw with
  | some key => return key
  | none => throw (entry ++ "a 32-byte pubkey")

/-- `parse_keys` -/
def parseKeys (filter field : String) (list : List String) : Except String (List Key) :=
  list.mapM (parseKey decode filter field)

/-- `Filter::new` -/
def Filter.new (name : String) (cfg : FilterText) : Except String Filter := do
  let accountInclude ← parseKeys decode name "account_include" cfg.accountInclude
  let accountExclude ← parseKeys decode name "account_exclude" cfg.accountExclude
  let accountRequired ← parseKeys decode name "account_required" cfg.accountRequired
  return {
    name := name
    cfg := cfg.toFilterCfg
    accountInclude := accountInclude.toFinset
    accountExclude := accountExclude.toFinset
    accountRequired := accountRequired }

/-- `Bundle::new`; the text of the configuration, which is only shown, is left out. -/
def Bundle.new (cfg : BundleCfg) : Except String ParsedBundle := do
  let filters ← cfg.filters.toList.mapM fun f => Filter.new decode f.1 f.2
  return { name := cfg.name, filters := filters }

/-- The checks of `validate` on one bundle, after those with the names `names`. -/
def checkBundle (names : List String) (b : BundleCfg) : Except String ParsedBundle := do
  Except.failIf (b.name ∈ names) ("filter_rotation: duplicate bundle name `" ++ b.name ++ "`")
  let bundle := "filter_rotation: bundle `" ++ b.name ++ "`"
  Except.failIf b.filters.isEmpty (bundle ++ " has no filters")
  Except.failIf (b.filters.size > maxFiltersPerBundle)
    (bundle ++ " has " ++ toString b.filters.size ++ " filters, at most " ++
      toString maxFiltersPerBundle)
  (Bundle.new decode b).mapError fun e => bundle ++ ": " ++ e

/-- The loop of `validate`, which returns `any_deshred`. -/
def checkBundles (names : List String) (anyDeshred : Bool) :
    List BundleCfg → Except String Bool
  | [] => .ok anyDeshred
  | b :: bundles => do
    let parsed ← checkBundle decode names b
    checkBundles (b.name :: names) (anyDeshred || parsed.fitsDeshred) bundles

/-- `validate` of bundles -/
def validateBundles (bundles : List BundleCfg) (deshred _transactions : Bool) :
    Except String Unit := do
  Except.failIf bundles.isEmpty "filter_rotation: `bundles` is empty"
  let anyDeshred ← checkBundles decode [] false bundles
  Except.failIf (deshred && !anyDeshred)
    ("filter_rotation: every bundle uses `failed`, which deshred sources cannot " ++
      "subscribe with — add a bundle without it")

/-- `for_mode` -/
def forMode (bundles : List BundleCfg) (deshred : Bool) : List ParsedBundle :=
  (bundles.filterMap fun b => (Bundle.new decode b).toOption).filter fun b =>
    !deshred || b.fitsDeshred

end Parsing

/-! ### The default bundles -/

/-- `TOKEN_PROGRAM` -/
def tokenProgram : String := "TokenkegQfeZyiNwAJbNbGKPFXCWuBvf9Ss623VQ5DA"

/-- `TOKEN_2022_PROGRAM` -/
def token2022Program : String := "TokenzQdBNbLqP5VEhdkAS6EPFLC1PHnBqCXEpPxuEb"

/-- `COMPUTE_BUDGET_PROGRAM` -/
def computeBudgetProgram : String := "ComputeBudget111111111111111111111111111111"

/-- `JUPITER_V6` -/
def jupiterV6 : String := "JUP6LkbZbjS1jKKwapdHNy74zcZ3tLUZoi5QNyVTaV4"

/-- `USDC_MINT` -/
def usdcMint : String := "EPjFWdd5AufqSSqeM2qN1xzybapC8G4wEGGkZwyTDt1v"

/-- `WSOL_MINT` -/
def wsolMint : String := "So11111111111111111111111111111111111111112"

/-- `include` -/
def includeOnly (list : List String) : FilterText :=
  { FilterText.default with accountInclude := list }

/-- The filter `cfg` on transactions that are no votes. -/
def nonVote (cfg : FilterText) : FilterText := { cfg with vote := some false }

/-- A bundle with the given filters. -/
def bundleOf (name : String) (filters : List (String × FilterText)) : BundleCfg where
  name := name
  filters := .ofList filters

section Defaults

variable (base58 : List UInt8 → String)

/-- `never_key` -/
def neverKey : String := base58 (List.replicate 32 0xA5)

/-- `defaults` -/
def defaultBundles : List BundleCfg :=
  [bundleOf "all" [("all", .default)],
    bundleOf "votes_split"
      [("votes", { FilterText.default with vote := some true }), ("non_votes", nonVote .default)],
    bundleOf "token_programs"
      [("token", includeOnly [tokenProgram]), ("token_2022", includeOnly [token2022Program])],
    bundleOf "alt_mints"
      [("usdc", includeOnly [usdcMint]), ("wsol_non_vote", nonVote (includeOnly [wsolMint]))],
    bundleOf "exclude"
      [("no_token", { FilterText.default with accountExclude := [tokenProgram] }),
        ("non_vote_no_cb",
          nonVote { FilterText.default with accountExclude := [computeBudgetProgram] })],
    bundleOf "required"
      [("token_and_cb",
        { FilterText.default with accountRequired := [tokenProgram, computeBudgetProgram] })],
    bundleOf "combo_never"
      [("jup_non_vote", nonVote (includeOnly [jupiterV6])),
        ("never", includeOnly [neverKey base58])],
    bundleOf "failed_split"
      [("failed", { FilterText.default with failed := some true }),
        ("ok_non_vote", nonVote { FilterText.default with failed := some false })]]

end Defaults

/-! ### What a checked bundle is -/

section Checked

variable {decode : String → Except String (List UInt8)}

/-- A parsed filter keeps its name and the clauses that are not lists. -/
lemma name_of_new {name : String} {cfg : FilterText} {f : Filter}
    (h : Filter.new decode name cfg = .ok f) : f.name = name ∧ f.cfg = cfg.toFilterCfg := by
  unfold Filter.new at h
  simp only [Except.bind_eq_ok_iff, Except.pure_eq_ok_iff] at h
  obtain ⟨included, -, excluded, -, required, -, rfl⟩ := h
  exact ⟨rfl, rfl⟩

/-- The filters of a parsed bundle stand in the order of their names. -/
lemma filters_of_new {cfg : BundleCfg} {parsed : ParsedBundle}
    (h : Bundle.new decode cfg = .ok parsed) :
    parsed.name = cfg.name ∧ parsed.filters.map Filter.name = cfg.filters.toList.map Prod.fst := by
  unfold Bundle.new at h
  simp only [Except.bind_eq_ok_iff, Except.pure_eq_ok_iff, Except.mapM_eq_ok_iff] at h
  obtain ⟨filters, hfilters, rfl⟩ := h
  refine ⟨rfl, List.ext_getElem ?_ fun i hi hi' => ?_⟩
  · rw [List.length_map, List.length_map, hfilters.length_eq]
  · rw [List.length_map] at hi hi'
    rw [List.getElem_map, List.getElem_map]
    exact (name_of_new (hfilters.get hi' hi)).1

/-- The names in a map are distinct. -/
theorem nodup_names (cfg : BundleCfg) : (cfg.filters.toList.map Prod.fst).Nodup := by
  apply List.pairwise_map.mpr
  refine cfg.filters.distinct_keys_toList.imp fun {a b} hne heq => hne ?_
  rw [heq]
  exact Std.ReflCmp.compare_self

/-- What `checkBundle` passes. -/
lemma checkBundle_eq_ok_iff {names : List String} {b : BundleCfg} {parsed : ParsedBundle} :
    checkBundle decode names b = .ok parsed ↔
      b.name ∉ names ∧ b.filters.isEmpty = false ∧ b.filters.size ≤ maxFiltersPerBundle ∧
        Bundle.new decode b = .ok parsed := by
  unfold checkBundle
  simp only [Except.bind_eq_ok_iff, Except.failIf_eq_ok_iff, exists_const, not_lt, gt_iff_lt,
    Bool.not_eq_true, Except.mapError_eq_ok_iff]

/-- The loop over the bundles checks each of them. -/
lemma exists_of_checkBundles {bundles : List BundleCfg} {names : List String}
    {anyDeshred result : Bool}
    (h : checkBundles decode names anyDeshred bundles = .ok result) {b : BundleCfg}
    (hb : b ∈ bundles) :
    b.filters.isEmpty = false ∧ b.filters.size ≤ maxFiltersPerBundle ∧
      ∃ parsed, Bundle.new decode b = .ok parsed := by
  induction bundles generalizing names anyDeshred with
  | nil => cases hb
  | cons b' bundles ih =>
    unfold checkBundles at h
    obtain ⟨parsed, hcheck, hrest⟩ := Except.bind_eq_ok_iff.mp h
    rcases List.mem_cons.mp hb with rfl | hmem
    · obtain ⟨-, hempty, hsize, hnew⟩ := checkBundle_eq_ok_iff.mp hcheck
      exact ⟨hempty, hsize, parsed, hnew⟩
    · exact ih hrest hmem

/-- The loop over the bundles passes distinct names, and `any_deshred` is only set for a bundle that
a deshred source can subscribe with. -/
lemma names_of_checkBundles {bundles : List BundleCfg} {names : List String}
    {anyDeshred result : Bool}
    (h : checkBundles decode names anyDeshred bundles = .ok result) :
    (bundles.map BundleCfg.name).Nodup ∧ (∀ b ∈ bundles, b.name ∉ names) ∧
      (result = true → anyDeshred = true ∨
        ∃ b ∈ bundles, ∃ parsed, Bundle.new decode b = .ok parsed ∧ parsed.fitsDeshred = true) := by
  induction bundles generalizing names anyDeshred with
  | nil =>
    have hresult : anyDeshred = result := Except.ok.inj h
    exact ⟨List.nodup_nil, fun b hb => (List.not_mem_nil hb).elim, fun hr => .inl (hresult ▸ hr)⟩
  | cons b bundles ih =>
    unfold checkBundles at h
    obtain ⟨parsed, hcheck, hrest⟩ := Except.bind_eq_ok_iff.mp h
    obtain ⟨hfresh, -, -, hnew⟩ := checkBundle_eq_ok_iff.mp hcheck
    obtain ⟨hnodup, hnames, hdeshred⟩ := ih hrest
    refine ⟨?_, ?_, fun hresult => ?_⟩
    · rw [List.map_cons, List.nodup_cons]
      refine ⟨fun hmem => ?_, hnodup⟩
      obtain ⟨b', hb', heq⟩ := List.mem_map.mp hmem
      exact hnames b' hb' (heq ▸ List.mem_cons_self)
    · rintro b' (_ | ⟨_, hb'⟩)
      · exact hfresh
      · exact fun hmem => hnames b' hb' (List.mem_cons_of_mem _ hmem)
    · rcases hdeshred hresult with hany | ⟨b', hb', hfits⟩
      · rcases (Bool.or_eq_true _ _).mp hany with hbefore | hfits
        · exact .inl hbefore
        · exact .inr ⟨b, List.mem_cons_self, parsed, hnew, hfits⟩
      · exact .inr ⟨b', List.mem_cons_of_mem _ hb', hfits⟩

/-- The bundles that `validate` passes are checked. -/
lemma checkBundles_of_validate {bundles : List BundleCfg} {deshred transactions : Bool}
    (h : validateBundles decode bundles deshred transactions = .ok ()) :
    ∃ anyDeshred, checkBundles decode [] false bundles = .ok anyDeshred := by
  unfold validateBundles at h
  simp only [Except.bind_eq_ok_iff] at h
  obtain ⟨-, -, anyDeshred, hcheck, -⟩ := h
  exact ⟨anyDeshred, hcheck⟩

/-- `bundle` is one of those that a rotation over checked bundles goes through. -/
def Bundle.Accepted (decode : String → Except String (List UInt8)) (bundle : Bundle) : Prop :=
  ∃ bundles deshred transactions mode,
    validateBundles decode bundles deshred transactions = .ok () ∧
      ⟨bundle.name, bundle.filters⟩ ∈ forMode decode bundles mode

/-- What `for_mode` hands out was parsed from one of the bundles. -/
lemma exists_of_mem_forMode {bundles : List BundleCfg} {mode : Bool} {parsed : ParsedBundle}
    (h : parsed ∈ forMode decode bundles mode) :
    ∃ b ∈ bundles, Bundle.new decode b = .ok parsed := by
  unfold forMode at h
  obtain ⟨b, hb, hparsed⟩ := List.mem_filterMap.mp (List.mem_filter.mp h).1
  refine ⟨b, hb, ?_⟩
  cases hnew : Bundle.new decode b with
  | error e => simp [hnew, Except.toOption] at hparsed
  | ok parsed' =>
    rw [hnew] at hparsed
    exact congrArg Except.ok (Option.some.inj hparsed)

/-- `for_mode` hands out what parses and can be subscribed with in the mode. -/
lemma mem_forMode_iff {bundles : List BundleCfg} {mode : Bool} {parsed : ParsedBundle} :
    parsed ∈ forMode decode bundles mode ↔
      (∃ b ∈ bundles, Bundle.new decode b = .ok parsed) ∧
        (mode = true → parsed.fitsDeshred = true) := by
  constructor
  · intro h
    refine ⟨exists_of_mem_forMode h, fun hmode => ?_⟩
    have hfits := (List.mem_filter.mp h).2
    rwa [hmode] at hfits
  · rintro ⟨⟨b, hb, hnew⟩, hfits⟩
    refine List.mem_filter.mpr ⟨List.mem_filterMap.mpr ⟨b, hb, ?_⟩, ?_⟩
    · rw [hnew]
      rfl
    · cases mode with
      | false => rfl
      | true => exact hfits rfl

/-- `for_mode` keeps the names and their order. -/
lemma names_forMode (bundles : List BundleCfg) (mode : Bool) :
    ((forMode decode bundles mode).map ParsedBundle.name).Sublist
      (bundles.map BundleCfg.name) := by
  refine (List.filter_sublist.map _).trans ?_
  induction bundles with
  | nil => exact List.Sublist.refl _
  | cons b bundles ih =>
    cases hnew : Bundle.new decode b with
    | error e =>
      rw [List.filterMap_cons_none (by rw [hnew]; rfl), List.map_cons]
      exact ih.cons _
    | ok parsed =>
      rw [List.filterMap_cons_some (by rw [hnew]; rfl), List.map_cons, List.map_cons,
        (filters_of_new hnew).1]
      exact ih.cons_cons _

/-- **What a source rotates through**: bundles with distinct names, at least one of them, that it
can subscribe with. -/
theorem forMode_of_validate {bundles : List BundleCfg} {deshred transactions : Bool}
    (mode : Bool) (h : validateBundles decode bundles deshred transactions = .ok ())
    (hmode : mode = true → deshred = true) :
    forMode decode bundles mode ≠ [] ∧
      ((forMode decode bundles mode).map ParsedBundle.name).Nodup ∧
      ∀ parsed ∈ forMode decode bundles mode, mode = true → parsed.fitsDeshred = true := by
  refine ⟨?_, ?_, fun parsed hmem => (mem_forMode_iff.mp hmem).2⟩
  · unfold validateBundles at h
    simp only [Except.bind_eq_ok_iff, Except.failIf_eq_ok_iff, exists_const] at h
    obtain ⟨hne, anyDeshred, hcheck, hany⟩ := h
    cases mode with
    | false =>
      cases bundles with
      | nil => exact (hne rfl).elim
      | cons b bundles =>
        obtain ⟨-, -, parsed, hnew⟩ := exists_of_checkBundles hcheck List.mem_cons_self
        refine List.ne_nil_of_mem (mem_forMode_iff.mpr ⟨⟨b, List.mem_cons_self, hnew⟩, ?_⟩)
        exact fun hfalse => (Bool.false_ne_true hfalse).elim
    | true =>
      have hresult : anyDeshred = true := by
        rw [hmode rfl, Bool.true_and, Bool.not_eq_true', Bool.not_eq_false] at hany
        exact hany
      obtain ⟨-, -, hdeshred⟩ := names_of_checkBundles hcheck
      rcases hdeshred hresult with hfalse | ⟨b, hb, parsed, hnew, hfits⟩
      · exact (Bool.false_ne_true hfalse).elim
      · exact List.ne_nil_of_mem (mem_forMode_iff.mpr ⟨⟨b, hb, hnew⟩, fun _ => hfits⟩)
  · obtain ⟨anyDeshred, hcheck⟩ := checkBundles_of_validate h
    exact (names_forMode bundles mode).nodup (names_of_checkBundles hcheck).1

/-- The filters of an accepted bundle have distinct names. -/
theorem Bundle.Accepted.nodup_names {bundle : Bundle} (h : bundle.Accepted decode) :
    (bundle.filters.map Filter.name).Nodup := by
  obtain ⟨bundles, deshred, transactions, mode, -, hmem⟩ := h
  obtain ⟨b, -, hnew⟩ := exists_of_mem_forMode hmem
  obtain ⟨-, hnames⟩ := filters_of_new hnew
  dsimp only at hnames
  rw [hnames]
  exact ShredTools.Audit.nodup_names b

end Checked

end ShredTools.Audit
