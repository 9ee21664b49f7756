/-
# The order of a configuration

Grants and providers are looked up by the first match, rules and patterns are
searched for any match. Issuers are unique, so that the order of providers makes
no difference. Nothing makes the tokens of static grants unique: the first grant
with a token decides, and where a later one with the same token would decide
otherwise the order of the configuration shows.
-/

import MbxCache.Server.Authorization

namespace MbxCache.Server

open Foundation

/-! ## Configurations -/

/-- A configuration once it has been parsed. -/
structure Configuration where
  grants : List TokenGrant
  providers : List OidcProviderConfig
  allowAnonymous : Bool
  anonymousReadNamespaces : List String

section

variable (env : Environment)

def Configuration.parse (tokensJson oidcProvidersJson : Option String) (allowAnonymous : Bool)
    (anonymousReadNamespacesJson : Option String) : Except String Configuration := do
  let grants ← parseJsonArray env.tokenGrants tokensJson "token grants"
  let providers ← parseJsonArray env.oidcProviders oidcProvidersJson "OIDC providers"
  let anonymousReadNamespaces ← parseJsonArray env.namespacePatterns anonymousReadNamespacesJson
    "anonymous read namespace patterns"
  return { grants, providers, allowAnonymous, anonymousReadNamespaces }

/-- What the constructor does with a parsed configuration. -/
def Configuration.build (configuration : Configuration) : Except String Authorizer := do
  let oidc ← newProviders env [] configuration.providers
  return {
    grants := configuration.grants
    oidc
    allowAnonymous := configuration.allowAnonymous
    anonymousReadNamespaces := configuration.anonymousReadNamespaces }

variable {env}

/-- The constructor parses and builds. -/
theorem Authorizer.new_eq (tokensJson oidcProvidersJson : Option String) (allowAnonymous : Bool)
    (anonymousReadNamespacesJson : Option String) :
    Authorizer.new env tokensJson oidcProvidersJson allowAnonymous anonymousReadNamespacesJson =
      (Configuration.parse env tokensJson oidcProvidersJson allowAnonymous
        anonymousReadNamespacesJson >>= Configuration.build env) := by
  unfold Authorizer.new Configuration.parse
  cases parseJsonArray env.tokenGrants tokensJson "token grants" with
  | error error => rfl
  | ok grants =>
      cases parseJsonArray env.oidcProviders oidcProvidersJson "OIDC providers" with
      | error error => rfl
      | ok providers =>
          cases parseJsonArray env.namespacePatterns anonymousReadNamespacesJson
            "anonymous read namespace patterns" <;> rfl

/-! ## Reordering -/

structure TokenGrant.Reordered (grant other : TokenGrant) : Prop where
  token : grant.token = other.token
  read : grant.read.Perm other.read
  write : grant.write.Perm other.write

structure OidcRule.Reordered (rule other : OidcRule) : Prop where
  claims : rule.claims = other.claims
  read : rule.read.Perm other.read
  write : rule.write.Perm other.write

/-- Everything but the order of the rules, and within them of the patterns. -/
structure OidcProviderConfig.Reordered (config other : OidcProviderConfig) : Prop where
  settings : other = { config with rules := other.rules }
  rules : Shuffled OidcRule.Reordered config.rules other.rules

/-- The same configuration in another order. -/
structure Configuration.Reordered (configuration other : Configuration) : Prop where
  grants : Shuffled TokenGrant.Reordered configuration.grants other.grants
  providers : Shuffled OidcProviderConfig.Reordered configuration.providers other.providers
  allowAnonymous : configuration.allowAnonymous = other.allowAnonymous
  anonymousReadNamespaces :
    configuration.anonymousReadNamespaces.Perm other.anonymousReadNamespaces

theorem TokenGrant.reordered_refl (grant : TokenGrant) : grant.Reordered grant :=
  ⟨rfl, .refl _, .refl _⟩

theorem OidcRule.reordered_refl (rule : OidcRule) : rule.Reordered rule :=
  ⟨rfl, .refl _, .refl _⟩

theorem OidcProviderConfig.reordered_refl (config : OidcProviderConfig) :
    config.Reordered config :=
  ⟨rfl, .of_perm OidcRule.reordered_refl (.refl _)⟩

theorem covers_perm {patterns others : List String} (h : patterns.Perm others) (ns : String) :
    Covers patterns ns ↔ Covers others ns := by
  unfold Covers
  simp only [h.mem_iff]

theorem TokenGrant.Reordered.covers {grant other : TokenGrant} (h : grant.Reordered other)
    (access : Access) (ns : String) :
    Covers (patterns grant access) ns ↔ Covers (patterns other access) ns := by
  cases access with
  | read => exact covers_perm h.read ns
  | write => exact covers_perm h.write ns

theorem OidcRule.Reordered.covers {rule other : OidcRule} (h : rule.Reordered other)
    (access : Access) (ns : String) :
    Covers (rule.patterns access) ns ↔ Covers (other.patterns access) ns := by
  cases access with
  | read => exact covers_perm h.read ns
  | write => exact covers_perm h.write ns

/-- Related rules let the same claims in. -/
theorem OidcRule.Reordered.lets_in {rule other : OidcRule} (h : rule.Reordered other)
    (access : Access) (ns : String) (claims : Json) :
    (rule.matchesClaims claims &&
        (rule.patterns access).any fun pattern => matchesNamespace pattern ns) =
      (other.matchesClaims claims &&
        (other.patterns access).any fun pattern => matchesNamespace pattern ns) := by
  have hclaims : rule.matchesClaims claims = other.matchesClaims claims := by
    rw [OidcRule.matchesClaims, OidcRule.matchesClaims, h.claims]
  rw [hclaims, Bool.eq_iff_iff, Bool.and_eq_true, Bool.and_eq_true, any_matchesNamespace,
    any_matchesNamespace, h.covers access ns]

/-! ## Providers in any order -/

/-- Two providers that decide alike. -/
structure OidcProvider.Alike (provider other : OidcProvider) : Prop where
  issuer : provider.config.issuer = other.config.issuer
  verify : provider.verify = other.verify
  rules : Shuffled OidcRule.Reordered provider.config.rules other.config.rules

theorem validateProviderConfig_reordered {config other : OidcProviderConfig}
    (h : config.Reordered other) : validateProviderConfig config = validateProviderConfig other := by
  have hclaims : (config.rules.any fun rule => rule.claims.isEmpty) =
      other.rules.any fun rule => rule.claims.isEmpty :=
    h.rules.any_eq fun rule another hrule => by rw [hrule.claims]
  have hissuer : config.issuer = other.issuer := by rw [h.settings]
  have haudiences : config.audiences = other.audiences := by rw [h.settings]
  have hrefresh : config.jwksRefreshSeconds = other.jwksRefreshSeconds := by rw [h.settings]
  unfold validateProviderConfig
  rw [hclaims, hissuer, haudiences, hrefresh, h.rules.isEmpty_eq]

/-- A provider does not look at the order of its rules when it is built. -/
theorem OidcProvider.new_reordered {config other : OidcProviderConfig}
    {provider : OidcProvider} (h : config.Reordered other)
    (hnew : OidcProvider.new env config = .ok provider) :
    ∃ another, OidcProvider.new env other = .ok another ∧ provider.Alike another := by
  obtain ⟨_, hvalid, hnew⟩ := bind_eq_ok.mp hnew
  obtain ⟨⟨uri, advertised, set⟩, hfetch, hnew⟩ := bind_eq_ok.mp hnew
  obtain ⟨algorithms, halgorithms, hnew⟩ := bind_eq_ok.mp hnew
  obtain rfl := Except.ok.inj hnew
  rw [validateProviderConfig_reordered h] at hvalid
  have hrules := h.rules
  have hsettings := h.settings
  generalize hother : other.rules = rules at hsettings hrules
  subst hsettings
  refine ⟨{
    config := { config with rules }
    verify := env.verify config.issuer config.audiences config.clockSkewSeconds algorithms set },
    ?_, rfl, rfl, hrules⟩
  have hfetch' : fetchInitialProviderData env { config with rules } =
      .ok (uri, advertised, set) := hfetch
  rw [OidcProvider.new, hvalid, hfetch']
  show (configuredAlgorithms config.algorithms advertised >>= _) = _
  rw [halgorithms]
  rfl

/-- Two authorizers that are built from one configuration in two orders. -/
structure Authorizer.Alike (authorizer other : Authorizer) : Prop where
  grants : Shuffled TokenGrant.Reordered authorizer.grants other.grants
  providers : ∀ provider ∈ authorizer.oidc, ∃ another ∈ other.oidc, provider.Alike another
  otherProviders : ∀ another ∈ other.oidc, ∃ provider ∈ authorizer.oidc, provider.Alike another
  issuers : (other.oidc.map (·.config.issuer)).Nodup
  allowAnonymous : authorizer.allowAnonymous = other.allowAnonymous
  anonymousReadNamespaces : authorizer.anonymousReadNamespaces.Perm other.anonymousReadNamespaces

theorem Configuration.build_eq_ok {configuration : Configuration} {authorizer : Authorizer} :
    configuration.build env = .ok authorizer ↔
      newProviders env [] configuration.providers = .ok authorizer.oidc ∧
        authorizer.grants = configuration.grants ∧
        authorizer.allowAnonymous = configuration.allowAnonymous ∧
        authorizer.anonymousReadNamespaces = configuration.anonymousReadNamespaces := by
  rw [Configuration.build, bind_eq_ok]
  constructor
  · rintro ⟨oidc, hproviders, h⟩
    obtain rfl := Except.ok.inj h
    exact ⟨hproviders, rfl, rfl, rfl⟩
  · rintro ⟨hproviders, hgrants, hallow, hanonymous⟩
    obtain ⟨grants, oidc, allowAnonymous, anonymousReadNamespaces⟩ := authorizer
    refine ⟨oidc, hproviders, ?_⟩
    rw [← hgrants, ← hallow, ← hanonymous]
    rfl

/-- Whether a configuration is accepted does not depend on its order. -/
theorem Configuration.Reordered.build {configuration other : Configuration}
    {authorizer : Authorizer} (h : configuration.Reordered other)
    (hbuild : configuration.build env = .ok authorizer) :
    ∃ another, other.build env = .ok another ∧ authorizer.Alike another := by
  obtain ⟨hproviders, hgrants, hallow, hanonymous⟩ := Configuration.build_eq_ok.mp hbuild
  obtain ⟨hforall, hnodup, _⟩ := newProviders_eq_ok.mp hproviders
  have hissuers : (other.providers.map (·.issuer)).Nodup := by
    have hperm := h.providers.map_perm (f := (·.issuer)) (g := (·.issuer)) fun config another hre => by
      rw [hre.settings]
    exact hperm.nodup_iff.mp hnodup
  have hnew : ∀ config ∈ other.providers, ∃ another,
      OidcProvider.new env config = .ok another ∧
        ∃ provider ∈ authorizer.oidc, provider.Alike another := by
    intro config hmem
    obtain ⟨source, hsource, hreordered⟩ := h.providers.exists_left config hmem
    obtain ⟨provider, hprovider, hbuilt⟩ := exists_left_of_forall₂ hforall.flip source hsource
    obtain ⟨another, hanother, halike⟩ := OidcProvider.new_reordered hreordered hbuilt
    exact ⟨another, hanother, provider, hprovider, halike⟩
  obtain ⟨oidc, hothers⟩ := exists_forall₂ fun config hmem => (hnew config hmem).imp fun _ => And.left
  refine ⟨{
    grants := other.grants
    oidc
    allowAnonymous := other.allowAnonymous
    anonymousReadNamespaces := other.anonymousReadNamespaces }, ?_, ?_⟩
  · rw [Configuration.build_eq_ok]
    exact ⟨newProviders_eq_ok.mpr ⟨hothers, hissuers, by simp⟩, rfl, rfl, rfl⟩
  · refine ⟨hgrants ▸ h.grants, fun provider hmem => ?_, fun another hmem => ?_, ?_,
      hallow.trans h.allowAnonymous, hanonymous ▸ h.anonymousReadNamespaces⟩
    · obtain ⟨source, hsource, hbuilt⟩ := exists_left_of_forall₂ hforall provider hmem
      obtain ⟨config, hconfig, hreordered⟩ := h.providers.exists_right source hsource
      obtain ⟨another, hanother, hbuilt'⟩ := exists_left_of_forall₂ hothers.flip config hconfig
      obtain ⟨same, hsame, halike⟩ := OidcProvider.new_reordered hreordered hbuilt
      obtain rfl := Except.ok.inj (hsame.symm.trans hbuilt')
      exact ⟨same, hanother, halike⟩
    · obtain ⟨config, hconfig, hbuilt⟩ := exists_left_of_forall₂ hothers another hmem
      obtain ⟨same, hsame, provider, hprovider, halike⟩ := hnew config hconfig
      obtain rfl := Except.ok.inj (hsame.symm.trans hbuilt)
      exact ⟨provider, hprovider, halike⟩
    · rw [← configs_eq hothers, List.map_map] at hissuers
      exact hissuers

/-! ## The decision -/

section Decision

variable {crates : Crates} {authorizer other : Authorizer}

theorem authorizePatterns_congr {patterns others : List String} {ns : String}
    (h : Covers patterns ns ↔ Covers others ns) :
    authorizePatterns patterns ns = authorizePatterns others ns := by
  have hsame : (patterns.any fun pattern => matchesNamespace pattern ns) =
      others.any fun pattern => matchesNamespace pattern ns := by
    rw [Bool.eq_iff_iff, any_matchesNamespace, any_matchesNamespace, h]
  rw [authorizePatterns, authorizePatterns, hsame]

/-- Issuers are unique, so the provider of a token is the same one. -/
theorem Authorizer.Alike.authorizeIdentity (h : authorizer.Alike other) (access : Access)
    (ns token : String) : authorizeIdentity crates other access ns token =
      Server.authorizeIdentity crates authorizer access ns token := by
  unfold Server.authorizeIdentity
  cases unverifiedIssuer crates token with
  | error error => rfl
  | ok issuer =>
      dsimp only
      cases hfind : authorizer.oidc.find? fun provider => provider.config.issuer == issuer with
      | none =>
          have hnone : (other.oidc.find? fun provider => provider.config.issuer == issuer) =
              none := by
            rw [List.find?_eq_none] at hfind ⊢
            intro another hmem
            obtain ⟨provider, hprovider, halike⟩ := h.otherProviders another hmem
            rw [← halike.issuer]
            exact hfind provider hprovider
          rw [hnone]
      | some provider =>
          have hissuer : provider.config.issuer = issuer := by simpa using List.find?_some hfind
          obtain ⟨another, hmem, halike⟩ :=
            h.providers provider (List.mem_of_find?_eq_some hfind)
          have hsome := find?_eq_some_of_nodup h.issuers hmem
          rw [← halike.issuer, hissuer] at hsome
          rw [hsome]
          dsimp only
          rw [halike.verify]
          cases another.verify token with
          | error error => rfl
          | ok claims =>
              dsimp only
              rw [halike.rules.any_eq fun rule later hrule => hrule.lets_in access ns claims]

/-- Two grants with the token of the request disagree on what it asks for, and
nothing before the tokens decides it. -/
structure Configuration.Disagreement (configuration : Configuration) (headers : HeaderMap)
    (access : Access) (ns token : String) (first second : TokenGrant) : Prop where
  protocol : headers.get "mbx-cache-protocol" = some "1"
  named : namespaceHeader headers = some ns
  bearer : bearerToken headers = some token
  not_anonymous : ¬ (access = .read ∧ Covers configuration.anonymousReadNamespaces ns)
  first_listed : first ∈ configuration.grants
  second_listed : second ∈ configuration.grants
  first_token : first.token = token
  second_token : second.token = token
  first_covers : Covers (patterns first access) ns
  second_does_not : ¬ Covers (patterns second access) ns

/-- The order of the static grants decides the request. -/
def Configuration.Ambiguous (configuration : Configuration) (headers : HeaderMap)
    (access : Access) : Prop :=
  ∃ ns token first second, configuration.Disagreement headers access ns token first second

theorem Authorizer.Alike.authorizeToken (h : authorizer.Alike other) {access : Access}
    {ns token : String}
    (hagree : ∀ first ∈ authorizer.grants, ∀ second ∈ authorizer.grants, first.token = token →
      second.token = token → (Covers (patterns first access) ns ↔
        Covers (patterns second access) ns)) :
    authorizeToken crates other access ns token =
      Server.authorizeToken crates authorizer access ns token := by
  rw [authorizeToken_eq, authorizeToken_eq, h.authorizeIdentity]
  cases hfind : authorizer.grants.find? fun grant => decide (grant.token = token) with
  | none =>
      have hnone : (other.grants.find? fun grant => decide (grant.token = token)) = none := by
        rw [List.find?_eq_none] at hfind ⊢
        intro grant hmem
        obtain ⟨source, hsource, hreordered⟩ := h.grants.exists_left grant hmem
        rw [← hreordered.token]
        exact hfind source hsource
      rw [hnone]
  | some first =>
      have htoken : first.token = token := by simpa using List.find?_some hfind
      have hfirst := List.mem_of_find?_eq_some hfind
      cases hother : other.grants.find? fun grant => decide (grant.token = token) with
      | none =>
          obtain ⟨later, hlater, hreordered⟩ := h.grants.exists_right first hfirst
          have hdiffers := List.find?_eq_none.mp hother later hlater
          rw [← hreordered.token] at hdiffers
          exact absurd (decide_eq_true htoken) hdiffers
      | some later =>
          have hlater : later.token = token := by simpa using List.find?_some hother
          obtain ⟨second, hsecond, hreordered⟩ :=
            h.grants.exists_left later (List.mem_of_find?_eq_some hother)
          apply authorizePatterns_congr
          rw [← hreordered.covers access ns]
          exact hagree second hsecond first hfirst (hreordered.token.trans hlater) htoken

/-- A request that the order of the static grants does not decide is answered
alike. -/
theorem Authorizer.Alike.authorize (h : authorizer.Alike other) {configuration : Configuration}
    (hbuild : configuration.build env = .ok authorizer) {headers : HeaderMap} {access : Access}
    (hclear : ¬ configuration.Ambiguous headers access) :
    other.authorize crates headers access = authorizer.authorize crates headers access := by
  obtain ⟨_, hgrants, _, hanonymous⟩ := Configuration.build_eq_ok.mp hbuild
  have hoidc : other.oidc.isEmpty = authorizer.oidc.isEmpty := by
    rw [Bool.eq_iff_iff, List.isEmpty_iff, List.isEmpty_iff, List.eq_nil_iff_forall_not_mem,
      List.eq_nil_iff_forall_not_mem]
    constructor
    · intro hempty provider hmem
      obtain ⟨another, hanother, _⟩ := h.providers provider hmem
      exact hempty another hanother
    · intro hempty another hmem
      obtain ⟨provider, hprovider, _⟩ := h.otherProviders another hmem
      exact hempty provider hprovider
  unfold Authorizer.authorize
  rw [← h.allowAnonymous, ← h.grants.isEmpty_eq, hoidc]
  by_cases hprotocol : headers.get "mbx-cache-protocol" = some "1"
  · rw [if_neg (not_not_intro hprotocol), if_neg (not_not_intro hprotocol)]
    cases hns : namespaceHeader headers with
    | none => rfl
    | some ns =>
        dsimp only
        have hread : (access == .read && other.anonymousReadNamespaces.any
            fun pattern => matchesNamespace pattern ns) =
            (access == .read && authorizer.anonymousReadNamespaces.any
              fun pattern => matchesNamespace pattern ns) := by
          rw [Bool.eq_iff_iff, Bool.and_eq_true, Bool.and_eq_true, any_matchesNamespace,
            any_matchesNamespace, covers_perm h.anonymousReadNamespaces ns]
        rw [hread]
        congr 1
        by_cases hanyone : (access == .read && authorizer.anonymousReadNamespaces.any
            fun pattern => matchesNamespace pattern ns) = true
        · rw [if_pos hanyone, if_pos hanyone]
        · rw [if_neg hanyone, if_neg hanyone]
          cases htoken : bearerToken headers with
          | none => rfl
          | some token =>
              apply h.authorizeToken
              have hnot : ¬ (access = .read ∧ Covers configuration.anonymousReadNamespaces ns) := by
                rw [Bool.and_eq_true, beq_iff_eq, any_matchesNamespace, hanonymous] at hanyone
                exact hanyone
              rw [hgrants]
              intro first hfirst second hsecond hfirstToken hsecondToken
              constructor
              · intro hcovers
                by_contra hdoes_not
                exact hclear ⟨ns, token, first, second, hprotocol, hns, htoken, hnot, hfirst,
                  hsecond, hfirstToken, hsecondToken, hcovers, hdoes_not⟩
              · intro hcovers
                by_contra hdoes_not
                exact hclear ⟨ns, token, second, first, hprotocol, hns, htoken, hnot, hsecond,
                  hfirst, hsecondToken, hfirstToken, hcovers, hdoes_not⟩
  · rw [if_pos hprotocol, if_pos hprotocol]

/-- A configuration that begins with one of the grants is decided by it. -/
theorem Configuration.Disagreement.authorize_first {configuration : Configuration}
    {headers : HeaderMap} {access : Access} {ns token : String} {first second grant : TokenGrant}
    (h : configuration.Disagreement headers access ns token first second)
    (hgrant : grant.token = token) {grants : List TokenGrant}
    (hbuild : { configuration with grants := grant :: grants }.build env = .ok authorizer) :
    authorizer.authorize crates headers access =
      authorizePatterns (patterns grant access) ns := by
  obtain ⟨_, hgrants, _, hanonymous⟩ := Configuration.build_eq_ok.mp hbuild
  have hanyone : ¬ (access == .read && authorizer.anonymousReadNamespaces.any
      fun pattern => matchesNamespace pattern ns) = true := by
    rw [Bool.and_eq_true, beq_iff_eq, any_matchesNamespace, hanonymous]
    exact h.not_anonymous
  unfold Authorizer.authorize
  rw [if_neg (not_not_intro h.protocol), h.named]
  dsimp only
  rw [if_neg hanyone, h.bearer, hgrants]
  dsimp only
  rw [authorizeToken_eq, hgrants, List.find?_cons_of_pos (by simpa using hgrant)]
  simp

/-- The decision about a request does not depend on the order in which the
configuration is written exactly when no two grants with the token of the request
disagree about it. -/
theorem authorize_order_iff {tokensJson oidcProvidersJson : Option String} {allowAnonymous : Bool}
    {anonymousReadNamespacesJson : Option String} {configuration : Configuration}
    (hparse : Configuration.parse env tokensJson oidcProvidersJson allowAnonymous
      anonymousReadNamespacesJson = .ok configuration)
    (hnew : Authorizer.new env tokensJson oidcProvidersJson allowAnonymous
      anonymousReadNamespacesJson = .ok authorizer) (headers : HeaderMap) (access : Access) :
    (∀ other, configuration.Reordered other → ∃ another, other.build env = .ok another ∧
      another.authorize crates headers access = authorizer.authorize crates headers access) ↔
    ¬ configuration.Ambiguous headers access := by
  have hbuild : configuration.build env = .ok authorizer := by
    rw [Authorizer.new_eq, hparse] at hnew
    exact hnew
  constructor
  · rintro hsame ⟨ns, token, first, second, h⟩
    have hfirst_in_front : ∀ grant ∈ configuration.grants, grant.token = token →
        authorizer.authorize crates headers access =
          authorizePatterns (patterns grant access) ns := by
      intro grant hmem htoken
      have hreordered : configuration.Reordered
          { configuration with grants := grant :: configuration.grants.erase grant } :=
        ⟨.of_perm TokenGrant.reordered_refl (List.perm_cons_erase hmem),
          .of_perm OidcProviderConfig.reordered_refl (.refl _), rfl, .refl _⟩
      obtain ⟨another, hanother, hdecision⟩ := hsame _ hreordered
      rw [← hdecision]
      exact h.authorize_first htoken hanother
    have hok := hfirst_in_front first h.first_listed h.first_token
    have herror := hfirst_in_front second h.second_listed h.second_token
    rw [authorizePatterns, if_pos (any_matchesNamespace.mpr h.first_covers)] at hok
    rw [authorizePatterns, if_neg (mt any_matchesNamespace.mp h.second_does_not), hok] at herror
    cases herror
  · intro hclear other hreordered
    obtain ⟨another, hanother, halike⟩ := hreordered.build hbuild
    exact ⟨another, hanother, halike.authorize hbuild hclear⟩

/-- One grant a token: nothing depends on the order. -/
theorem authorize_order_sample :
    ∃ (configuration : Configuration) (authorizer : Authorizer),
      Authorizer.new sampleEnvironment (some "grants") (some "providers") false none =
        .ok authorizer ∧
      ∀ other, configuration.Reordered other → ∃ another,
        other.build sampleEnvironment = .ok another ∧
          another.authorize Sample.crates (withToken Sample.headers "secret") .write =
            authorizer.authorize Sample.crates (withToken Sample.headers "secret") .write := by
  have hparse : Configuration.parse sampleEnvironment (some "grants") (some "providers") false
    none = .ok _ := rfl
  have hnew : Authorizer.new sampleEnvironment (some "grants") (some "providers") false none =
    .ok _ := rfl
  refine ⟨_, _, hnew, (authorize_order_iff hparse hnew _ _).mpr ?_⟩
  rintro ⟨ns, token, first, second, h⟩
  obtain rfl := List.mem_singleton.mp h.first_listed
  obtain rfl := List.mem_singleton.mp h.second_listed
  exact h.second_does_not h.first_covers

/-- Two grants with one token, in both orders. -/
def repeatedToken : Environment :=
  let reader : TokenGrant := ⟨"secret", ["acme/*"], []⟩
  let nothing : TokenGrant := ⟨"secret", [], []⟩
  { sampleEnvironment with
    tokenGrants := fun text => .ok (if text = "reader first" then [reader, nothing]
      else [nothing, reader]) }

/-- The constructor takes both orders, and they decide one request differently. -/
theorem repeated_token_orders :
    ∃ configuration other authorizer another,
      Configuration.parse repeatedToken (some "reader first") none false none = .ok configuration ∧
      Configuration.parse repeatedToken (some "reader last") none false none = .ok other ∧
      configuration.Reordered other ∧
      Authorizer.new repeatedToken (some "reader first") none false none = .ok authorizer ∧
      Authorizer.new repeatedToken (some "reader last") none false none = .ok another ∧
      authorizer.authorize Sample.crates (withToken Sample.headers "secret") .read =
        .ok "acme/app" ∧
      another.authorize Sample.crates (withToken Sample.headers "secret") .read =
        .error (.forbidden "token is not authorized for this namespace") := by
  refine ⟨_, _, _, _, rfl, rfl, ⟨?_, ?_, rfl, .refl _⟩, rfl, rfl, ?_, ?_⟩
  · exact .of_perm TokenGrant.reordered_refl (.swap _ _ _)
  · exact .of_perm OidcProviderConfig.reordered_refl (.refl _)
  · decide +kernel
  · decide +kernel

end Decision

end

end MbxCache.Server
