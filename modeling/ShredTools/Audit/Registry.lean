import ShredTools.Audit.Config
import ShredTools.Library.LastClaim

/-!
# Providers by address and port

The registry finds the provider of a packet by the address it comes from and the port it comes to.
Providers that give both claim pairs, those that give a port only claim the port, and those that
give addresses only claim the addresses; a later claim overwrites an earlier one, a pair comes
before a port and a port before an address.

A validated configuration may still have a provider without a packet, because each provider is
validated by itself.  `dropsNone_iff` says which configurations do not.
-/

namespace ShredTools.Audit

/-- `ProviderId` -/
abbrev ProviderId := UInt16

/-- `idx as ProviderId` -/
def providerId (idx : ℕ) : ProviderId := UInt16.ofNat idx

/-- `Registry` -/
structure Registry where
  /-- The names by id. -/
  names : List String
  /-- The providers of pairs. -/
  byIpPort : AList fun _ : Ipv4Addr × Port => ProviderId
  /-- The providers of ports. -/
  byPort : AList fun _ : Port => ProviderId
  /-- The providers of addresses. -/
  byIp : AList fun _ : Ipv4Addr => ProviderId

namespace Registry

/-- The registry without providers. -/
def empty : Registry where
  names := []
  byIpPort := ∅
  byPort := ∅
  byIp := ∅

/-- The body of the loop of `build`, which does not expect a provider with neither port nor ips. -/
def add (r : Registry) (idx : ℕ) (p : ProviderCfg) : Option Registry :=
  let id := providerId idx
  let names := r.names ++ [p.name]
  match p.port, p.ips with
  | some port, ip :: ips =>
    some { r with
      names := names
      byIpPort := (ip :: ips).foldl (fun m ip => m.insert (ip, port) id) r.byIpPort }
  | some port, [] => some { r with names := names, byPort := r.byPort.insert port id }
  | none, ip :: ips =>
    some { r with
      names := names
      byIp := (ip :: ips).foldl (fun m ip => m.insert ip id) r.byIp }
  | none, [] => none

/-- `Registry::build` -/
def build (cfg : Config) : Option Registry :=
  cfg.providers.zipIdx.foldlM (fun r p => r.add p.2 p.1) empty

/-- `Registry::resolve` -/
def resolve (r : Registry) (srcIp : Ipv4Addr) (dstPort : Port) : Option ProviderId :=
  ((r.byIpPort.lookup (srcIp, dstPort)).or (r.byPort.lookup dstPort)).or (r.byIp.lookup srcIp)

end Registry

/-! ### Claims -/

namespace ProviderCfg

/-- The pairs that a provider claims. -/
def pairs (p : ProviderCfg) : List (Ipv4Addr × Port) :=
  p.port.elim [] fun port => p.ips.map fun ip => (ip, port)

/-- The port that a provider without addresses claims. -/
def ports (p : ProviderCfg) : List Port := if p.ips.isEmpty then p.port.toList else []

/-- The addresses that a provider without a port claims. -/
def sources (p : ProviderCfg) : List Ipv4Addr := p.port.elim p.ips fun _ => []

lemma mem_pairs {p : ProviderCfg} {ip : Ipv4Addr} {port : Port} :
    (ip, port) ∈ p.pairs ↔ p.port = some port ∧ ip ∈ p.ips := by
  unfold pairs
  cases p.port with
  | none => simp
  | some port' => simp [and_comm]

lemma mem_ports {p : ProviderCfg} {port : Port} :
    port ∈ p.ports ↔ p.port = some port ∧ p.ips = [] := by
  unfold ports
  cases p.ips with
  | nil => simp
  | cons ip ips => simp

lemma mem_sources {p : ProviderCfg} {ip : Ipv4Addr} :
    ip ∈ p.sources ↔ p.port = none ∧ ip ∈ p.ips := by
  unfold sources
  cases p.port with
  | none => simp
  | some port => simp

/-- Whether a provider may match a packet at all. -/
def CanMatch (p : ProviderCfg) : Prop := p.port = none → p.ips ≠ []

instance (p : ProviderCfg) : Decidable p.CanMatch :=
  inferInstanceAs (Decidable (p.port = none → p.ips ≠ []))

end ProviderCfg

namespace Registry

/-- The registry that the claims of the providers make. -/
def ofClaims (providers : List ProviderCfg) : Registry where
  names := providers.map ProviderCfg.name
  byIpPort := AList.fill ProviderCfg.pairs providerId providers
  byPort := AList.fill ProviderCfg.ports providerId providers
  byIp := AList.fill ProviderCfg.sources providerId providers

/-- One more provider makes its claims, whichever of its fields are given. -/
lemma add_ofClaims {providers : List ProviderCfg} {p : ProviderCfg} (h : p.CanMatch) :
    (ofClaims providers).add providers.length p = some (ofClaims (providers ++ [p])) := by
  unfold add ofClaims
  simp only [AList.fill_concat, List.map_append, List.map_singleton]
  unfold ProviderCfg.pairs ProviderCfg.ports ProviderCfg.sources AList.insertAll
  obtain ⟨name, port, ips⟩ := p
  cases port with
  | none =>
    cases ips with
    | nil => exact absurd rfl (h rfl)
    | cons ip ips => simp
  | some port =>
    cases ips with
    | nil => simp
    | cons ip ips => simp [List.foldl_map]

/-- The loop of `build` makes the claims of the providers, one after the other. -/
lemma foldlM_add {providers : List ProviderCfg} (h : ∀ p ∈ providers, p.CanMatch) :
    providers.zipIdx.foldlM (fun r p => r.add p.2 p.1) empty = some (ofClaims providers) := by
  induction providers using List.reverseRecOn with
  | nil => rfl
  | append_singleton providers p ih =>
    have hinit : ∀ q ∈ providers, q.CanMatch := fun q hq => h q (List.mem_append_left _ hq)
    have hlast : p.CanMatch := h p (List.mem_append_right _ (List.mem_singleton_self p))
    rw [List.zipIdx_append, List.foldlM_append, ih hinit, Nat.zero_add]
    simpa using add_ofClaims hlast

lemma build_eq {cfg : Config} (h : ∀ p ∈ cfg.providers, p.CanMatch) :
    build cfg = some (ofClaims cfg.providers) :=
  foldlM_add h

/-- **Which claim a packet meets**: the last one on its pair, or else on its port, or else on its
address. -/
theorem resolve_ofClaims_eq_some_iff {providers : List ProviderCfg} {ip : Ipv4Addr} {port : Port}
    {id : ProviderId} :
    (ofClaims providers).resolve ip port = some id ↔
      ∃ i, providerId i = id ∧
        (providers.LastAt (fun p => (ip, port) ∈ p.pairs) i ∨
          (∀ p ∈ providers, (ip, port) ∉ p.pairs) ∧
            (providers.LastAt (fun p => port ∈ p.ports) i ∨
              (∀ p ∈ providers, port ∉ p.ports) ∧
                providers.LastAt (fun p => ip ∈ p.sources) i)) := by
  unfold resolve ofClaims
  dsimp only
  rw [Option.or_assoc]
  simp only [Option.or_eq_some_iff, AList.lookup_fill_eq_some_iff, AList.lookup_fill_eq_none_iff]
  constructor
  · rintro (⟨i, hlast, hid⟩ | ⟨hpairs, ⟨i, hlast, hid⟩ | ⟨hports, i, hlast, hid⟩⟩)
    · exact ⟨i, hid, Or.inl hlast⟩
    · exact ⟨i, hid, Or.inr ⟨hpairs, Or.inl hlast⟩⟩
    · exact ⟨i, hid, Or.inr ⟨hpairs, Or.inr ⟨hports, hlast⟩⟩⟩
  · rintro ⟨i, hid, hlast | ⟨hpairs, hlast | ⟨hports, hlast⟩⟩⟩
    · exact Or.inl ⟨i, hlast, hid⟩
    · exact Or.inr ⟨hpairs, Or.inl ⟨i, hlast, hid⟩⟩
    · exact Or.inr ⟨hpairs, Or.inr ⟨hports, i, hlast, hid⟩⟩

/-- Some packet to a port listened on goes to the provider of index `i`. -/
def Reaches (r : Registry) (listenPorts : List Port) (i : ℕ) : Prop :=
  ∃ ip, ∃ port ∈ listenPorts, ∃ id, r.resolve ip port = some id ∧ id.toNat = i

/-- Every provider gets some packet. -/
def DropsNone (cfg : Config) : Prop :=
  ∃ r, build cfg = some r ∧ ∀ i < cfg.providers.length, r.Reaches cfg.listenPorts i

/-- No provider after the index `i` makes the claim `k`. -/
def NoneAfter {K : Type} (claims : ProviderCfg → List K) (providers : List ProviderCfg) (i : ℕ)
    (k : K) : Prop :=
  ∀ q ∈ providers.drop (i + 1), k ∉ claims q

instance {K : Type} [DecidableEq K] (claims : ProviderCfg → List K) (providers : List ProviderCfg)
    (i : ℕ) (k : K) : Decidable (NoneAfter claims providers i k) :=
  inferInstanceAs (Decidable (∀ q ∈ providers.drop (i + 1), k ∉ claims q))

/-- The provider `p` of index `i` keeps one of its claims: a pair that no later provider claims, or
its port, if no later one claims it and the pairs leave an address over, or an address that no later
one claims, with a port whose packets from there nobody else claims. -/
def KeepsClaim (providers : List ProviderCfg) (listenPorts : List Port) (i : ℕ)
    (p : ProviderCfg) : Prop :=
  match p.port with
  | some port =>
    if p.ips = [] then
      NoneAfter ProviderCfg.ports providers i port ∧ ∃ ip, ∀ q ∈ providers, (ip, port) ∉ q.pairs
    else ∃ ip ∈ p.ips, NoneAfter ProviderCfg.pairs providers i (ip, port)
  | none =>
    ∃ ip ∈ p.ips, NoneAfter ProviderCfg.sources providers i ip ∧
      ∃ port ∈ listenPorts, ∀ q ∈ providers, (ip, port) ∉ q.pairs ∧ port ∉ q.ports

section Reach

variable {providers : List ProviderCfg} {listenPorts : List Port} {i : ℕ} {p : ProviderCfg}

/-- Ids stand for indices, as long as there are not too many. -/
lemma toNat_providerId (h : i < 2 ^ 16) : (providerId i).toNat = i := by
  unfold providerId
  rw [UInt16.toNat_ofNat']
  exact Nat.mod_eq_of_lt h

/-- The last claim at the index of a provider is one of its own. -/
lemma lastAt_iff {K : Type} {claims : ProviderCfg → List K} {k : K}
    (hp : providers[i]? = some p) :
    providers.LastAt (fun q => k ∈ claims q) i ↔ k ∈ claims p ∧ NoneAfter claims providers i k := by
  rw [List.lastAt_iff_drop hp]
  rfl

/-- A provider is reached by its last claims. -/
lemma reaches_iff (hlen : providers.length ≤ 2 ^ 16) (hp : providers[i]? = some p) :
    (ofClaims providers).Reaches listenPorts i ↔
      ∃ ip, ∃ port ∈ listenPorts,
        (ip, port) ∈ p.pairs ∧ NoneAfter ProviderCfg.pairs providers i (ip, port) ∨
          (∀ q ∈ providers, (ip, port) ∉ q.pairs) ∧
            (port ∈ p.ports ∧ NoneAfter ProviderCfg.ports providers i port ∨
              (∀ q ∈ providers, port ∉ q.ports) ∧
                ip ∈ p.sources ∧ NoneAfter ProviderCfg.sources providers i ip) := by
  have hi : i < providers.length := (List.getElem?_eq_some_iff.mp hp).1
  unfold Reaches
  simp only [resolve_ofClaims_eq_some_iff, ← lastAt_iff hp]
  refine exists_congr fun ip => exists_congr fun port => and_congr_right fun _ => ?_
  constructor
  · rintro ⟨id, ⟨j, rfl, hlast⟩, hid⟩
    have hj : j < providers.length := by
      rcases hlast with hlast | ⟨-, hlast | ⟨-, hlast⟩⟩
      · exact hlast.lt_length
      · exact hlast.lt_length
      · exact hlast.lt_length
    rw [toNat_providerId (Nat.lt_of_lt_of_le hj hlen)] at hid
    subst hid
    exact hlast
  · intro hlast
    exact ⟨providerId i, ⟨i, rfl, hlast⟩, toNat_providerId (Nat.lt_of_lt_of_le hi hlen)⟩

/-- A provider is reached if it keeps one of its claims. -/
lemma reaches_iff_keepsClaim (hlen : providers.length ≤ 2 ^ 16) (hp : providers[i]? = some p)
    (hport : ∀ port ∈ p.port, port ∈ listenPorts) :
    (ofClaims providers).Reaches listenPorts i ↔ KeepsClaim providers listenPorts i p := by
  rw [reaches_iff hlen hp]
  unfold KeepsClaim
  simp only [ProviderCfg.mem_pairs (p := p), ProviderCfg.mem_ports (p := p),
    ProviderCfg.mem_sources (p := p)]
  -- a provider without a port claims its addresses on all ports, one without addresses its port
  cases hgiven : p.port with
  | none =>
    constructor
    · rintro ⟨ip, port, hlisten, ⟨⟨hsome, -⟩, -⟩ | ⟨hpairs, ⟨⟨hsome, -⟩, -⟩ | hfree⟩⟩
      · cases hsome
      · cases hsome
      · obtain ⟨hports, ⟨-, hip⟩, hlast⟩ := hfree
        exact ⟨ip, hip, hlast, port, hlisten, fun q hq => ⟨hpairs q hq, hports q hq⟩⟩
    · rintro ⟨ip, hip, hlast, port, hlisten, hfree⟩
      exact ⟨ip, port, hlisten, Or.inr ⟨fun q hq => (hfree q hq).1,
        Or.inr ⟨fun q hq => (hfree q hq).2, ⟨rfl, hip⟩, hlast⟩⟩⟩
  | some given =>
    have hlisten : given ∈ listenPorts := hport given hgiven
    dsimp only
    by_cases hips : p.ips = []
    · rw [if_pos hips]
      constructor
      · rintro ⟨ip, port, -, ⟨⟨-, hip⟩, -⟩ | ⟨hpairs, ⟨⟨hsome, -⟩, hlast⟩ | ⟨-, ⟨hnone, -⟩, -⟩⟩⟩
        · rw [hips] at hip
          cases hip
        · cases hsome
          exact ⟨hlast, ip, hpairs⟩
        · cases hnone
      · rintro ⟨hlast, ip, hpairs⟩
        exact ⟨ip, given, hlisten, Or.inr ⟨hpairs, Or.inl ⟨⟨rfl, hips⟩, hlast⟩⟩⟩
    · rw [if_neg hips]
      constructor
      · rintro ⟨ip, port, -, ⟨⟨hsome, hip⟩, hlast⟩ | ⟨-, ⟨⟨-, hnil⟩, -⟩ | ⟨-, ⟨hnone, -⟩, -⟩⟩⟩
        · cases hsome
          exact ⟨ip, hip, hlast⟩
        · exact absurd hnil hips
        · cases hnone
      · rintro ⟨ip, hip, hlast⟩
        exact ⟨ip, given, hlisten, Or.inl ⟨⟨rfl, hip⟩, hlast⟩⟩

end Reach

/-- **When no provider is dropped**: of the configurations that `validate` passes, exactly those
with no more providers than there are ids, each of which keeps one of its claims. -/
theorem dropsNone_iff {host : Host} {cfg cfg' : Config} (h : cfg.validate host = .ok cfg') :
    DropsNone cfg' ↔
      cfg.providers.length ≤ 2 ^ 16 ∧
        ∀ i p, cfg.providers[i]? = some p → KeepsClaim cfg.providers cfg.deducedPorts i p := by
  obtain ⟨rfl, hproviders, -⟩ := Config.of_validate h
  have hbuild : build { cfg with listenPorts := cfg.deducedPorts } =
      some (ofClaims cfg.providers) :=
    build_eq fun p hp => (hproviders p hp).1
  unfold DropsNone
  rw [hbuild]
  simp only [Option.some.injEq, exists_eq_left']
  constructor
  · intro hreaches
    have hlen : cfg.providers.length ≤ 2 ^ 16 := by
      -- a provider beyond the last id is not reached
      by_contra hmore
      obtain ⟨-, -, -, id, -, hid⟩ := hreaches (2 ^ 16) (Nat.lt_of_not_le hmore)
      have hlt : id.toNat < 2 ^ 16 := id.toNat_lt
      omega
    refine ⟨hlen, fun i p hp => ?_⟩
    have hmem : p ∈ cfg.providers := List.mem_of_getElem? hp
    rw [← reaches_iff_keepsClaim hlen hp (hproviders p hmem).2]
    exact hreaches i (List.getElem?_eq_some_iff.mp hp).1
  · rintro ⟨hlen, hkeeps⟩ i hi
    have hp : cfg.providers[i]? = some cfg.providers[i] := List.getElem?_eq_getElem hi
    rw [reaches_iff_keepsClaim hlen hp (hproviders _ (List.getElem_mem hi)).2]
    exact hkeeps i _ hp

/-! ### Two configurations -/

/-- A configuration with the given ports and providers and nothing else but an endpoint. -/
def plainConfig (listenPorts : List Port) (providers : List ProviderCfg) : Config where
  rpcUrl := some "http://localhost:8899"
  rpc := none
  listenPorts := listenPorts
  providers := providers
  grpcSources := []
  onchainVerify := true
  onchainSampleSecs := 5
  onchainRpcUrl := none
  onchainRpc := none
  filterRotation := .default
  onchainLagSlots := 32

/-- A process without an environment. -/
def plainHost : Host where
  envVar _ := none
  toLowercase text := text
  base58 _ := ""
  decode _ := .error "not base58"

/-- Three providers that share an address or a port but claim it in different ways. -/
def threeLevels : List ProviderCfg :=
  [⟨"both", some 1, [0x0a000001]⟩, ⟨"port", some 1, []⟩, ⟨"ip", none, [0x0a000001]⟩]

/-- Each of the three keeps its claim. -/
theorem dropsNone_threeLevels : DropsNone (plainConfig [1, 2, 3] threeLevels) := by
  have hvalid : (plainConfig [1, 2, 3] threeLevels).validate plainHost =
      .ok (plainConfig [1, 2, 3] threeLevels) := rfl
  refine (dropsNone_iff hvalid).mpr ⟨by decide, fun i p hp => ?_⟩
  match i, hp with
  | 0, rfl => exact ⟨0x0a000001, by decide, by decide⟩
  | 1, rfl => exact ⟨by decide, 0x0a000009, by decide⟩
  | 2, rfl => exact ⟨0x0a000001, by decide, by decide, 2, by decide, by decide⟩
  | i + 3, hp => cases hp

/-- The providers of `providers_with_port_auto_infers_listen_ports`. -/
def samePorts : List ProviderCfg :=
  [⟨"shreds1", some 20001, []⟩, ⟨"shreds2", some 20002, []⟩, ⟨"shreds3", some 20001, []⟩]

/-- The third provider takes the port of the first. -/
lemma not_keepsClaim_samePorts (listenPorts : List Port) :
    ¬ KeepsClaim samePorts listenPorts 0 ⟨"shreds1", some 20001, []⟩ := by
  rintro ⟨hlast, -⟩
  exact hlast ⟨"shreds3", some 20001, []⟩ (by decide) (by decide)

/-- A configuration with two providers on one port passes, though the first of them gets nothing. -/
theorem not_dropsNone_samePorts :
    ¬ ∀ (host : Host) (cfg cfg' : Config), cfg.validate host = .ok cfg' → DropsNone cfg' := by
  intro hall
  have hvalid : (plainConfig [] samePorts).validate plainHost =
      .ok (plainConfig [20001, 20002] samePorts) := rfl
  obtain ⟨r, hbuild, hreaches⟩ := hall plainHost _ _ hvalid
  have hr : r = ofClaims samePorts := by
    rw [build_eq (by decide)] at hbuild
    exact (Option.some.inj hbuild).symm
  have hfirst := hreaches 0 (by decide)
  have hport : ∀ port ∈ some 20001, port ∈ (plainConfig [20001, 20002] samePorts).listenPorts := by
    rintro port ⟨⟩
    exact List.mem_cons_self
  rw [hr, reaches_iff_keepsClaim (by decide) rfl hport] at hfirst
  exact not_keepsClaim_samePorts _ hfirst

end Registry

end ShredTools.Audit
