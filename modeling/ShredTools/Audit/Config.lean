import ShredTools.Audit.Bundles

/-!
# The configuration of the audit

`validate` goes through a configuration before the audit starts, and deduces the ports to listen on
from the ports of the providers where none are given.  Each check has the text of the source.  The
environment of the process, the lower case of a text beyond ASCII and the base 58 coder are
parameters.

`resolve` reads an endpoint off its settings, with its token from the environment where they say so,
and `endpoint` sees to it that an endpoint is given in one way only.  `validate` then goes through
the providers, the gRPC sources, the rotation and the check of the chain, and stops at the first
error.  What it promises is stated for the modules that rely on it: `of_validate` for the registry
of the providers, and `checked_of_rotating` for the rotation of bundles.  Fields that no check reads
are left out.
-/

namespace ShredTools.Audit

open Postpack (trim)

/-- A port. -/
abbrev Port := UInt16

/-- `Ipv4Addr`, as the number that its four bytes make. -/
abbrev Ipv4Addr := UInt32

/-- What the checks take from outside the program. -/
structure Host where
  /-- `std::env::var`, for variables that are set. -/
  envVar : String → Option String
  /-- `str::to_lowercase` -/
  toLowercase : String → String
  /-- `bs58::encode` -/
  base58 : List UInt8 → String
  /-- `bs58::decode` -/
  decode : String → Except String (List UInt8)

/-! ### RPC endpoints -/

/-- `RpcProvider` -/
inductive RpcProvider
  | generic
  | shyft
  | helius
  | triton
  deriving DecidableEq

/-- `RpcProvider::label` -/
def RpcProvider.label : RpcProvider → String
  | generic => "generic"
  | shyft => "shyft"
  | helius => "helius"
  | triton => "triton"

/-- `RpcProvider::default_url` -/
def RpcProvider.defaultUrl : RpcProvider → Option String
  | shyft => some "https://rpc.shyft.to"
  | helius => some "https://mainnet.helius-rpc.com"
  | generic => none
  | triton => none

/-- `RpcCfg` -/
structure RpcCfg where
  /-- Whose endpoint it is. -/
  provider : RpcProvider
  /-- The url, the default one if it is empty. -/
  url : String
  /-- The key, or the variable that holds it. -/
  token : Option String
  deriving DecidableEq

/-- `RpcEndpoint` -/
structure RpcEndpoint where
  /-- Whose endpoint it is. -/
  provider : RpcProvider
  /-- The url without the key. -/
  base : String
  /-- The key. -/
  token : Option String
  deriving DecidableEq

/-- `RpcCfg::generic` -/
def RpcCfg.ofUrl (url : String) : RpcCfg where
  provider := .generic
  url := url
  token := none

/-- `str::strip_prefix` -/
def stripPrefix (start text : String) : Option String :=
  if start.toList.isPrefixOf text.toList then
    some (String.ofList (text.toList.drop start.toList.length))
  else none

/-- `str::trim_end_matches`, for a character. -/
def trimEndMatches (c : Char) (text : String) : String :=
  String.ofList (text.toList.reverse.dropWhile (· == c)).reverse

section Checks

variable (host : Host)

/-- `RpcCfg::resolve` -/
def RpcCfg.resolve (cfg : RpcCfg) : Except String RpcEndpoint := do
  let base ←
    if trim cfg.url = "" then
      match cfg.provider.defaultUrl with
      | some url => pure url
      | none =>
        throw ("rpc: provider `" ++ cfg.provider.label ++ "` has no default url — set `url`")
    else pure (trimEndMatches '/' (trim cfg.url))
  let token ←
    match cfg.token.map trim with
    | none => pure none
    | some "" => pure none
    | some text =>
      match stripPrefix "env:" text with
      | none => pure (some text)
      | some var =>
        match host.envVar var with
        | some token => pure (some token)
        | none => throw ("rpc: token is `env:" ++ var ++ "` but $" ++ var ++ " is not set")
  Except.failIf (token = none ∧ cfg.provider ≠ .generic)
    ("rpc: provider `" ++ cfg.provider.label ++ "` needs a `token` (API key)")
  return { provider := cfg.provider, base := base, token := token }

/-- `endpoint` -/
def endpoint (rpc : Option RpcCfg) (url : Option String) (key : String) :
    Except String (Option RpcEndpoint) :=
  match rpc, url with
  | some _, some _ => throw ("config: set `" ++ key ++ "` or `" ++ key ++ "_url`, not both")
  | some rpc, none => some <$> rpc.resolve host
  | none, some url => some <$> (RpcCfg.ofUrl url).resolve host
  | none, none => pure none

end Checks

/-! ### The configuration -/

/-- `ProviderCfg` -/
structure ProviderCfg where
  /-- The name. -/
  name : String
  /-- The port that its packets come to, if it is known. -/
  port : Option Port
  /-- The addresses that its packets come from, if they are known. -/
  ips : List Ipv4Addr
  deriving DecidableEq

/-- `GrpcMode` -/
inductive GrpcMode
  | transactions
  | deshred
  deriving DecidableEq

/-- `GrpcSourceCfg`, without its token, which no check reads. -/
structure GrpcSourceCfg where
  /-- The name. -/
  name : String
  /-- The url. -/
  url : String
  /-- What is subscribed to. -/
  mode : GrpcMode
  /-- The commitment asked for. -/
  commitment : Option String
  /-- Whether the source takes part in the rotation. -/
  rotate : Bool
  deriving DecidableEq

/-- `GrpcSourceCfg::effective_commitment` -/
def GrpcSourceCfg.effectiveCommitment (g : GrpcSourceCfg) : String :=
  g.commitment.getD "processed"

/-- `FilterRotationCfg` -/
structure FilterRotationCfg where
  /-- Whether filters are rotated. -/
  enabled : Bool
  /-- The shortest window. -/
  minSecs : ℕ
  /-- The longest window. -/
  maxSecs : ℕ
  /-- One slot in this many is audited. -/
  sampleEverySlots : ℕ
  /-- The bundles, if not the default ones. -/
  bundles : Option (List BundleCfg)

/-- `FilterRotationCfg::default` -/
def FilterRotationCfg.default : FilterRotationCfg where
  enabled := true
  minSecs := 30
  maxSecs := 60
  sampleEverySlots := 10
  bundles := none

/-- `FilterRotationCfg::effective_bundles` -/
def FilterRotationCfg.effectiveBundles (host : Host) (fr : FilterRotationCfg) : List BundleCfg :=
  fr.bundles.getD (defaultBundles host.base58)

/-- `Config`, the fields that are checked. -/
structure Config where
  /-- The url of the RPC endpoint. -/
  rpcUrl : Option String
  /-- The RPC endpoint, if not given by its url. -/
  rpc : Option RpcCfg
  /-- The ports that are listened on. -/
  listenPorts : List Port
  /-- The senders of shreds. -/
  providers : List ProviderCfg
  /-- The gRPC sources. -/
  grpcSources : List GrpcSourceCfg
  /-- Whether blocks are audited. -/
  onchainVerify : Bool
  /-- How often a block is sampled. -/
  onchainSampleSecs : ℕ
  /-- The url of the endpoint that blocks come from. -/
  onchainRpcUrl : Option String
  /-- The endpoint that blocks come from, if not given by its url. -/
  onchainRpc : Option RpcCfg
  /-- The rotation of filters. -/
  filterRotation : FilterRotationCfg
  /-- How far behind the tip blocks are sampled. -/
  onchainLagSlots : ℕ

namespace Config

section Checks

variable (host : Host) (cfg : Config)

/-- `rpc_endpoint` -/
def rpcEndpoint : Except String RpcEndpoint := do
  match ← endpoint host cfg.rpc cfg.rpcUrl "rpc" with
  | some e => return e
  | none => throw "config: no RPC endpoint — set `rpc` or `rpc_url`"

/-- `onchain_rpc_endpoint` -/
def onchainRpcEndpoint : Except String RpcEndpoint := do
  match ← endpoint host cfg.onchainRpc cfg.onchainRpcUrl "onchain_rpc" with
  | some e => return e
  | none => cfg.rpcEndpoint host

/-- `rotating` -/
def rotating (g : GrpcSourceCfg) : Bool := cfg.filterRotation.enabled && g.rotate

/-- The ports to listen on: those given, or else each port of a provider once. -/
def deducedPorts : List Port :=
  if cfg.listenPorts.isEmpty then
    (cfg.providers.filterMap ProviderCfg.port).foldl
      (fun ports port => if port ∈ ports then ports else ports ++ [port]) []
  else cfg.listenPorts

/-- The checks of `validate` on one provider. -/
def checkProvider (listenPorts : List Port) (p : ProviderCfg) : Except String Unit := do
  Except.failIf (p.port = none ∧ p.ips = [])
    ("provider `" ++ p.name ++ "` has neither `port` nor `ips` — it can never match a packet")
  match p.port.filter (· ∉ listenPorts) with
  | some port =>
    throw ("provider `" ++ p.name ++ "` is pinned to port " ++ toString port ++
      " which is not in `listen_ports` " ++ toString listenPorts)
  | none => pure ()

/-- The checks of `validate` on one gRPC source, after those with the names `names`. -/
def checkGrpcSource (names : List String) (g : GrpcSourceCfg) : Except String Unit := do
  Except.failIf (trim g.url = "") ("grpc source `" ++ g.name ++ "` has an empty url")
  Except.failIf (g.name ∈ names) ("config: duplicate grpc source name `" ++ g.name ++ "`")
  match g.mode with
  | .transactions =>
    let commitment := host.toLowercase g.effectiveCommitment
    Except.failIf (commitment ∉ ["processed", "confirmed", "finalized"])
      ("grpc source `" ++ g.name ++ "`: invalid commitment `" ++ commitment ++ "`")
  | .deshred =>
    Except.failIf g.commitment.isSome
      ("grpc source `" ++ g.name ++ "`: `commitment` is not supported in deshred mode")

/-- The loop of `validate` over the gRPC sources. -/
def checkGrpcSources (names : List String) : List GrpcSourceCfg → Except String Unit
  | [] => pure ()
  | g :: sources => do
    checkGrpcSource host names g
    checkGrpcSources (g.name :: names) sources

/-- The checks of `validate` on the rotation. -/
def checkRotation : Except String Unit := do
  let fr := cfg.filterRotation
  if fr.enabled && cfg.grpcSources.any GrpcSourceCfg.rotate then
    Except.failIf (fr.minSecs < 10 ∨ fr.maxSecs < fr.minSecs)
      ("config: `filter_rotation` needs 10 <= min_secs <= max_secs (got " ++ toString fr.minSecs ++
        ".." ++ toString fr.maxSecs ++ ") — a window shorter than that leaves too few slots to " ++
        "audit")
    Except.failIf (fr.sampleEverySlots = 0)
      "config: `filter_rotation.sample_every_slots` must be at least 1"
    let rotatingMode (mode : GrpcMode) := cfg.grpcSources.any fun g => g.rotate && g.mode == mode
    validateBundles host.decode (fr.effectiveBundles host) (rotatingMode .deshred)
      (rotatingMode .transactions)

/-- The checks of `validate` on the audit of blocks. -/
def checkOnchain : Except String Unit := do
  if cfg.onchainVerify then
    Except.failIf (cfg.onchainSampleSecs = 0)
      ("config: `onchain_sample_secs` is 0 — that samples getBlock in a tight loop; " ++
        "set the seconds between sampled slots (default 5), or `onchain_verify: false`")
    Except.failIf (cfg.onchainLagSlots < 8)
      ("config: `onchain_lag_slots` is " ++ toString cfg.onchainLagSlots ++
        " — sampling that close to the tip audits slots before every source has delivered them " ++
        "and reports the shortfall as missed transactions; use 8 or more (default 32)")

/-- `validate`, which returns the configuration with the ports deduced. -/
def validate : Except String Config := do
  let _ ← cfg.rpcEndpoint host
  Except.failIf (cfg.onchainRpcUrl.any fun url => trim url == "")
    "config: `onchain_rpc_url` is set but empty"
  let _ ← cfg.onchainRpcEndpoint host
  Except.failIf (cfg.providers.isEmpty ∧ cfg.grpcSources.isEmpty)
    "config: `providers` and `grpc_sources` are empty"
  let listenPorts := cfg.deducedPorts
  Except.failIf (¬ cfg.providers.isEmpty ∧ listenPorts.isEmpty)
    "config: `providers` is configured but `listen_ports` is empty and cannot be deduced"
  cfg.providers.forM (checkProvider listenPorts)
  Except.failIf (¬ (cfg.providers.map ProviderCfg.name).Nodup) "config: duplicate provider names"
  checkGrpcSources host [] cfg.grpcSources
  cfg.checkRotation host
  cfg.checkOnchain
  return { cfg with listenPorts := listenPorts }

end Checks

/-! ### What a validated configuration is -/

variable {host : Host} {cfg cfg' : Config}

/-- What `checkProvider` passes. -/
lemma checkProvider_eq_ok_iff {listenPorts : List Port} {p : ProviderCfg} {u : Unit} :
    checkProvider listenPorts p = .ok u ↔
      (p.port = none → p.ips ≠ []) ∧ ∀ port ∈ p.port, port ∈ listenPorts := by
  unfold checkProvider
  simp only [Except.bind_eq_ok_iff, Except.failIf_eq_ok_iff, exists_const]
  cases p.port with
  | none => simp
  | some port =>
    by_cases hport : port ∈ listenPorts
    · simp [hport, Option.filter]
    · simp [hport, Option.filter]

/-- **What `validate` promises of the providers**: each can match a packet, and each port that is
asked for is listened on. -/
theorem of_validate (h : cfg.validate host = .ok cfg') :
    cfg' = { cfg with listenPorts := cfg.deducedPorts } ∧
      (∀ p ∈ cfg.providers, (p.port = none → p.ips ≠ []) ∧
        ∀ port ∈ p.port, port ∈ cfg.deducedPorts) ∧
      (cfg.providers.map ProviderCfg.name).Nodup := by
  unfold validate at h
  simp only [Except.bind_eq_ok_iff, Except.failIf_eq_ok_iff, Except.forM_eq_ok_iff,
    checkProvider_eq_ok_iff, Except.pure_eq_ok_iff, exists_const, not_not] at h
  obtain ⟨_, -, -, _, -, -, -, hproviders, hnames, _, -, _, -, _, -, rfl⟩ := h
  exact ⟨rfl, hproviders, hnames⟩

/-- The configuration that `validate` returns has passed the checks on the rotation. -/
theorem checkRotation_of_validate (h : cfg.validate host = .ok cfg') :
    cfg'.checkRotation host = .ok () := by
  unfold validate at h
  simp only [Except.bind_eq_ok_iff, Except.failIf_eq_ok_iff, Except.pure_eq_ok_iff,
    exists_const] at h
  obtain ⟨_, -, -, _, -, -, -, _, -, -, _, -, _, hrotation, _, -, rfl⟩ := h
  exact hrotation

/-- **What `validate` promises of the rotation** of a rotating source: a span of durations and
bundles that have passed their own checks, also for the mode of the source. -/
theorem checked_of_rotating (h : cfg.checkRotation host = .ok ()) {g : GrpcSourceCfg}
    (hg : g ∈ cfg.grpcSources) (hrotating : cfg.rotating g = true) :
    10 ≤ cfg.filterRotation.minSecs ∧
      cfg.filterRotation.minSecs ≤ cfg.filterRotation.maxSecs ∧
      ∃ deshred transactions, (g.mode = .deshred → deshred = true) ∧
        validateBundles host.decode (cfg.filterRotation.effectiveBundles host) deshred
          transactions = .ok () := by
  obtain ⟨henabled, hrotate⟩ := (Bool.and_eq_true _ _).mp hrotating
  have hany : cfg.grpcSources.any GrpcSourceCfg.rotate = true :=
    List.any_eq_true.mpr ⟨g, hg, hrotate⟩
  unfold checkRotation at h
  dsimp only at h
  rw [henabled, hany, Bool.and_self, if_pos rfl] at h
  simp only [Except.bind_eq_ok_iff, Except.failIf_eq_ok_iff, exists_const, not_or, not_lt] at h
  obtain ⟨⟨hmin, hspan⟩, -, hbundles⟩ := h
  refine ⟨hmin, hspan, _, _, fun hmode => ?_, hbundles⟩
  exact List.any_eq_true.mpr ⟨g, hg, by rw [hrotate, hmode]; rfl⟩

end Config

end ShredTools.Audit
