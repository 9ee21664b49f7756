/-
# Who is let in

An authorizer that was built from an accepted configuration lets a request in by
one of four routes and by no other. Writes depend on nothing that is written about
reads, and tokens nobody vouches for are told apart by nobody.

The decision also does not depend on the order in which the configuration is
written, as long as no two static grants with one token disagree.
-/

import MbxCache.Foundation.Shuffled
import MbxCache.Sample
import MbxCache.Server.Configuration
import MbxCache.Server.Namespaces

namespace MbxCache.Server

open Foundation

/-! ## Tokens -/

theorem foldl_or_eq_zero {pairs : List (UInt8 × UInt8)} {diff : UInt8} :
    pairs.foldl (fun diff (a, b) => diff ||| (a ^^^ b)) diff = 0 ↔
      diff = 0 ∧ ∀ pair ∈ pairs, pair.1 = pair.2 := by
  induction pairs generalizing diff with
  | nil => simp
  | cons pair pairs ih =>
      rw [List.foldl_cons, ih, UInt8.or_eq_zero_iff, UInt8.xor_eq_zero_iff, List.forall_mem_cons,
        and_assoc]

/-- The comparison that does not stop early is equality. -/
theorem constantTimeEq_iff {left right : List UInt8} :
    constantTimeEq left right = true ↔ left = right := by
  unfold constantTimeEq
  split
  · rename_i hlength
    simp only [Bool.false_eq_true, false_iff]
    rintro rfl
    exact hlength rfl
  · rename_i hlength
    have hlength : left.length = right.length := by simpa using hlength
    rw [beq_iff_eq, foldl_or_eq_zero]
    constructor
    · rintro ⟨_, hpairs⟩
      apply List.ext_getElem hlength
      intro i hleft hright
      have hmem : (left[i], right[i]) ∈ left.zip right := by
        rw [List.mem_iff_getElem]
        exact ⟨i, by simpa using ⟨hleft, hright⟩, by simp⟩
      exact hpairs _ hmem
    · rintro rfl
      refine ⟨rfl, fun pair hmem => ?_⟩
      obtain ⟨i, hi, rfl⟩ := List.mem_iff_getElem.mp hmem
      rw [List.getElem_zip]

/-- Byte-for-byte the same token. -/
theorem sameToken_iff {first second : String} :
    constantTimeEq first.toUTF8.data.toList second.toUTF8.data.toList = true ↔
      first = second := by
  rw [constantTimeEq_iff]
  constructor
  · intro h
    apply String.toByteArray_inj.mp
    exact ByteArray.ext (Array.toList_inj.mp h)
  · rintro rfl
    rfl

theorem bearerToken_eq_some {headers : HeaderMap} {token : String} :
    bearerToken headers = some token ↔
      headers.get "authorization" = some ("Bearer " ++ token) := by
  unfold bearerToken
  rw [Option.bind_eq_some_iff]
  constructor
  · rintro ⟨value, hvalue, htoken⟩
    dsimp only at htoken
    split at htoken
    · rename_i hprefix
      obtain ⟨rest, hrest⟩ := List.isPrefixOf_iff_prefix.mp hprefix
      rw [hvalue, ← Option.some.inj htoken, ← hrest]
      apply congrArg some
      apply String.toList_injective
      rw [String.toList_append, List.drop_left]
      exact hrest.symm.trans (congrArg _ String.toList_ofList.symm)
    · cases htoken
  · intro h
    refine ⟨_, h, ?_⟩
    have hprefix : "Bearer ".toList.isPrefixOf ("Bearer " ++ token).toList = true := by
      rw [String.toList_append]
      exact List.isPrefixOf_iff_prefix.mpr (List.prefix_append _ _)
    dsimp only
    rw [if_pos hprefix, String.toList_append, List.drop_left, String.ofList_toList]

/-! ## What a configuration is checked for -/

section New

variable {env : Environment}

theorem OidcProvider.new_eq_ok {config : OidcProviderConfig} {provider : OidcProvider}
    (h : OidcProvider.new env config = .ok provider) :
    provider.config = config ∧ ∀ rule ∈ config.rules, rule.claims ≠ [] := by
  obtain ⟨_, hvalid, h⟩ := bind_eq_ok.mp h
  obtain ⟨⟨_, advertised, set⟩, _, h⟩ := bind_eq_ok.mp h
  obtain ⟨algorithms, _, h⟩ := bind_eq_ok.mp h
  obtain ⟨_, _, hvalid⟩ := bind_eq_ok.mp hvalid
  obtain ⟨_, _, hvalid⟩ := bind_eq_ok.mp hvalid
  rw [rejectIf_eq_ok, List.any_eq_false] at hvalid
  refine ⟨by rw [← Except.ok.inj h], fun rule hmem hempty => hvalid rule hmem ?_⟩
  rw [hempty]
  rfl

/-- Providers are built one by one, under distinct issuers. -/
theorem newProviders_eq_ok {issuers : List String} {configs : List OidcProviderConfig}
    {oidc : List OidcProvider} :
    newProviders env issuers configs = .ok oidc ↔
      List.Forall₂ (fun config provider => OidcProvider.new env config = .ok provider)
        configs oidc ∧
      (configs.map (·.issuer)).Nodup ∧ ∀ config ∈ configs, config.issuer ∉ issuers := by
  induction configs generalizing issuers oidc with
  | nil =>
      simp [newProviders, List.forall₂_nil_left_iff, eq_comm]
  | cons config configs ih =>
      rw [newProviders, bind_eq_ok, List.forall₂_cons_left_iff, List.map_cons, List.nodup_cons,
        List.forall_mem_cons]
      constructor
      · rintro ⟨_, hissuer, h⟩
        obtain ⟨provider, hprovider, h⟩ := bind_eq_ok.mp h
        obtain ⟨later, hlater, h⟩ := bind_eq_ok.mp h
        obtain ⟨hforall, hnodup, hfresh⟩ := ih.mp hlater
        have hnew : config.issuer ∉ issuers := by simpa using hissuer
        refine ⟨⟨provider, later, hprovider, hforall, (Except.ok.inj h).symm⟩, ⟨?_, hnodup⟩, hnew,
          fun other hmem hold => hfresh other hmem (List.mem_cons_of_mem _ hold)⟩
        intro hmem
        obtain ⟨other, hother, hsame⟩ := List.mem_map.mp hmem
        exact hfresh other hother (by simp [hsame])
      · rintro ⟨⟨provider, later, hprovider, hforall, rfl⟩, ⟨hnotin, hnodup⟩, hnew, hfresh⟩
        have hlater : newProviders env (config.issuer :: issuers) configs = .ok later := by
          refine ih.mpr ⟨hforall, hnodup, fun other hmem hold => ?_⟩
          rcases List.mem_cons.mp hold with hsame | hold
          · exact hnotin (hsame ▸ List.mem_map_of_mem hmem)
          · exact hfresh other hmem hold
        refine ⟨(), by simpa using hnew, ?_⟩
        rw [hprovider, hlater]
        rfl

/-- Providers keep their configurations. -/
theorem configs_eq {configs : List OidcProviderConfig} {oidc : List OidcProvider}
    (h : List.Forall₂ (fun config provider => OidcProvider.new env config = .ok provider)
      configs oidc) : oidc.map (·.config) = configs := by
  have hsame : List.Forall₂ (· = ·) configs (oidc.map (·.config)) := by
    rw [List.forall₂_map_right_iff]
    exact h.imp fun _ _ hnew => (OidcProvider.new_eq_ok hnew).1.symm
  rw [List.forall₂_eq_eq_eq] at hsame
  exact hsame.symm

/-- What an accepted configuration leaves in the authorizer. -/
structure Authorizer.Accepted (authorizer : Authorizer) : Prop where
  issuers : (authorizer.oidc.map (·.config.issuer)).Nodup
  claims : ∀ provider ∈ authorizer.oidc, ∀ rule ∈ provider.config.rules, rule.claims ≠ []

theorem Authorizer.new_accepted {tokensJson oidcProvidersJson : Option String}
    {allowAnonymous : Bool} {anonymousReadNamespacesJson : Option String} {authorizer : Authorizer}
    (h : Authorizer.new env tokensJson oidcProvidersJson allowAnonymous
      anonymousReadNamespacesJson = .ok authorizer) : authorizer.Accepted := by
  obtain ⟨grants, _, h⟩ := bind_eq_ok.mp h
  obtain ⟨configs, _, h⟩ := bind_eq_ok.mp h
  obtain ⟨anonymous, _, h⟩ := bind_eq_ok.mp h
  obtain ⟨oidc, hproviders, h⟩ := bind_eq_ok.mp h
  obtain ⟨hforall, hnodup, _⟩ := newProviders_eq_ok.mp hproviders
  obtain rfl := Except.ok.inj h
  refine ⟨?_, fun provider hmem => ?_⟩
  · rw [← configs_eq hforall, List.map_map] at hnodup
    exact hnodup
  · obtain ⟨config, _, hnew⟩ := exists_left_of_forall₂ hforall provider hmem
    obtain ⟨hconfig, hclaims⟩ := OidcProvider.new_eq_ok hnew
    rw [hconfig]
    exact hclaims

end New

/-! ## Routes -/

section Routes

variable (crates : Crates)

/-- Some pattern of a list matches the namespace. -/
def Covers (patterns : List String) (ns : String) : Prop :=
  ∃ pattern ∈ patterns, matchesNamespace pattern ns = true

/-- Every claim a rule names is among the claims, with a value it requires. -/
def OidcRule.Satisfied (rule : OidcRule) (claims : Json) : Prop :=
  ∀ named ∈ rule.claims, ∃ actual, claim claims named.1 = some actual ∧
    named.2.matches actual = true

/-- The ways to be let in. -/
inductive Route (authorizer : Authorizer) (headers : HeaderMap) (access : Access) (ns : String) :
    Prop where
  /-- The server was left open on purpose. -/
  | anonymous (allowed : authorizer.allowAnonymous = true) (noGrants : authorizer.grants = [])
      (noProviders : authorizer.oidc = [])
  /-- Anyone may read the namespace. -/
  | anonymousRead (read : access = .read) (reached : Covers authorizer.anonymousReadNamespaces ns)
  /-- The request carries the token of a grant. -/
  | grant (grant : TokenGrant) (configured : grant ∈ authorizer.grants)
      (bearer : headers.get "authorization" = some ("Bearer " ++ grant.token))
      (reached : Covers (patterns grant access) ns)
  /-- The token's issuer vouches for claims that satisfy one of its rules. -/
  | identity (token : String) (provider : OidcProvider) (claims : Json) (rule : OidcRule)
      (bearer : headers.get "authorization" = some ("Bearer " ++ token))
      (configured : provider ∈ authorizer.oidc)
      (issuer : unverifiedIssuer crates token = .ok provider.config.issuer)
      (verified : provider.verify token = .ok claims) (listed : rule ∈ provider.config.rules)
      (constrains : rule.claims ≠ []) (satisfied : rule.Satisfied claims)
      (reached : Covers (rule.patterns access) ns)

/-- A request that was let in: its protocol and namespace were checked, and it
took a route. -/
structure Granted (authorizer : Authorizer) (headers : HeaderMap) (access : Access) (ns : String) :
    Prop where
  protocol : headers.get "mbx-cache-protocol" = some "1"
  named : headers.get "mbx-cache-namespace" = some ns
  valid : validNamespace ns = true
  route : Route crates authorizer headers access ns

variable {crates}

theorem any_matchesNamespace {patterns : List String} {ns : String} :
    (patterns.any fun pattern => matchesNamespace pattern ns) = true ↔ Covers patterns ns :=
  List.any_eq_true

theorem OidcRule.matchesClaims_iff {rule : OidcRule} {claims : Json} :
    rule.matchesClaims claims = true ↔ rule.Satisfied claims := by
  rw [OidcRule.matchesClaims, List.all_eq_true]
  apply forall₂_congr
  intro named _
  obtain ⟨name, requirement⟩ := named
  dsimp only
  cases claim claims name <;> simp

/-- The decision about a token that is not a configured one. -/
def authorizeIdentity (crates : Crates) (authorizer : Authorizer) (access : Access)
    (ns token : String) : Except ApiError String :=
  match unverifiedIssuer crates token with
  | .error _ => .error (.unauthorized "invalid bearer token")
  | .ok issuer =>
      match authorizer.oidc.find? fun provider => provider.config.issuer == issuer with
      | none => .error (.unauthorized "invalid bearer token")
      | some provider =>
          match provider.verify token with
          | .error _ => .error (.unauthorized "invalid bearer token")
          | .ok claims =>
              if provider.config.rules.any fun rule =>
                  rule.matchesClaims claims &&
                    (rule.patterns access).any fun pattern => matchesNamespace pattern ns then
                .ok ns
              else .error (.forbidden "identity is not authorized for this namespace")

/-- A configured token is looked up first. -/
theorem authorizeToken_eq (authorizer : Authorizer) (access : Access) (ns token : String) :
    authorizeToken crates authorizer access ns token =
      match authorizer.grants.find? fun grant => grant.token = token with
      | some grant => authorizePatterns (patterns grant access) ns
      | none => authorizeIdentity crates authorizer access ns token := by
  have hsame : (fun grant : TokenGrant =>
      constantTimeEq grant.token.toUTF8.data.toList token.toUTF8.data.toList) =
        fun grant => decide (grant.token = token) := by
    funext grant
    rw [Bool.eq_iff_iff, sameToken_iff, decide_eq_true_eq]
  unfold authorizeToken
  dsimp only
  rw [hsame]
  rfl

/-- The bearer token was let in as the token of a grant, or as an identity. -/
theorem authorizeToken_route {authorizer : Authorizer} {headers : HeaderMap} {access : Access}
    {ns token : String} (haccepted : authorizer.Accepted)
    (hbearer : headers.get "authorization" = some ("Bearer " ++ token))
    (h : authorizeToken crates authorizer access ns token = .ok ns) :
    Route crates authorizer headers access ns := by
  rw [authorizeToken_eq] at h
  split at h
  · rename_i grant hfind
    have htoken : grant.token = token := by simpa using List.find?_some hfind
    unfold authorizePatterns at h
    split at h
    · rename_i hreached
      exact .grant grant (List.mem_of_find?_eq_some hfind) (htoken ▸ hbearer)
        (any_matchesNamespace.mp hreached)
    · cases h
  · unfold authorizeIdentity at h
    split at h
    · cases h
    · rename_i issuer hissuer
      split at h
      · cases h
      · rename_i provider hfind
        have hmem := List.mem_of_find?_eq_some hfind
        have hsame : provider.config.issuer = issuer := by simpa using List.find?_some hfind
        split at h
        · cases h
        · rename_i claims hverified
          split at h
          · rename_i hrules
            obtain ⟨rule, hrule, hboth⟩ := List.any_eq_true.mp hrules
            obtain ⟨hclaims, hreached⟩ := Bool.and_eq_true_iff.mp hboth
            exact .identity token provider claims rule hbearer hmem (hsame ▸ hissuer) hverified
              hrule (haccepted.claims provider hmem rule hrule)
              (OidcRule.matchesClaims_iff.mp hclaims) (any_matchesNamespace.mp hreached)
          · cases h

theorem granted_of_authorize {authorizer : Authorizer} {headers : HeaderMap} {access : Access}
    {ns : String} (haccepted : authorizer.Accepted)
    (h : authorizer.authorize crates headers access = .ok ns) :
    Granted crates authorizer headers access ns := by
  have hnamed := Authorizer.authorize_eq_ok h
  obtain ⟨hheader, hvalid⟩ := Option.filter_eq_some_iff.mp hnamed
  unfold Authorizer.authorize at h
  split at h
  · cases h
  · rename_i hprotocol
    have hprotocol : headers.get "mbx-cache-protocol" = some "1" := by simpa using hprotocol
    refine ⟨hprotocol, hheader, hvalid, ?_⟩
    rw [hnamed] at h
    dsimp only at h
    split at h
    · rename_i hopen
      simp only [Bool.and_eq_true, List.isEmpty_iff] at hopen
      exact .anonymous hopen.1.1 hopen.1.2 hopen.2
    · split at h
      · rename_i hread
        rw [Bool.and_eq_true, beq_iff_eq, any_matchesNamespace] at hread
        exact .anonymousRead hread.1 hread.2
      · split at h
        · cases h
        · rename_i token htoken
          exact authorizeToken_route haccepted (bearerToken_eq_some.mp htoken) h

end Routes

/-! ## Deny by default -/

section Deny

variable {crates : Crates}

/-- The configuration without anything it says about reads. -/
def Authorizer.withoutReads (authorizer : Authorizer) : Authorizer where
  grants := authorizer.grants.map fun grant => { grant with read := [] }
  oidc := authorizer.oidc.map fun provider =>
    { provider with
      config := { provider.config with
        rules := provider.config.rules.map fun rule => { rule with read := [] } } }
  allowAnonymous := authorizer.allowAnonymous
  anonymousReadNamespaces := []

theorem authorize_write_withoutReads (authorizer : Authorizer) (headers : HeaderMap) :
    authorizer.withoutReads.authorize crates headers .write =
      authorizer.authorize crates headers .write := by
  unfold Authorizer.authorize
  have htoken : ∀ ns token, authorizeToken crates authorizer.withoutReads .write ns token =
      authorizeToken crates authorizer .write ns token := by
    intro ns token
    have hidentity : authorizeIdentity crates authorizer.withoutReads .write ns token =
        authorizeIdentity crates authorizer .write ns token := by
      unfold authorizeIdentity
      cases unverifiedIssuer crates token with
      | error error => rfl
      | ok issuer =>
          simp only [Authorizer.withoutReads, List.find?_map, Function.comp_def]
          cases authorizer.oidc.find? fun provider => provider.config.issuer == issuer with
          | none => rfl
          | some provider =>
              simp only [Option.map_some, List.any_map]
              rfl
    rw [authorizeToken_eq, authorizeToken_eq, hidentity]
    simp only [Authorizer.withoutReads, List.find?_map, Function.comp_def]
    cases authorizer.grants.find? fun grant => decide (grant.token = token) <;> rfl
  simp only [htoken]
  simp [Authorizer.withoutReads]

/-- A token that is not configured and that no provider vouches for. -/
def Authorizer.Unknown (authorizer : Authorizer) (token : String) : Prop :=
  (∀ grant ∈ authorizer.grants, grant.token ≠ token) ∧
    ∀ provider ∈ authorizer.oidc, ∀ claims, provider.verify token ≠ .ok claims

/-- Whatever an unknown token says about itself, the answer is the same. -/
theorem authorizeToken_of_unknown {authorizer : Authorizer} {access : Access} {ns token : String}
    (h : authorizer.Unknown token) : authorizeToken crates authorizer access ns token =
      .error (.unauthorized "invalid bearer token") := by
  obtain ⟨hgrants, hproviders⟩ := h
  have hfind : (authorizer.grants.find? fun grant => decide (grant.token = token)) = none := by
    rw [List.find?_eq_none]
    simpa using hgrants
  rw [authorizeToken_eq, hfind]
  unfold authorizeIdentity
  dsimp only
  split
  · rfl
  · split
    · rfl
    · rename_i provider hprovider
      split
      · rfl
      · rename_i claims hverified
        exact absurd hverified (hproviders provider (List.mem_of_find?_eq_some hprovider) claims)

/-- The request with another bearer token. -/
def withToken (headers : HeaderMap) (token : String) : HeaderMap :=
  ("authorization", "Bearer " ++ token) :: headers

theorem get_withToken_of_ne {headers : HeaderMap} {token name : String}
    (h : name ≠ "authorization") : (withToken headers token).get name = headers.get name := by
  have hdiffers : (name == "authorization") = false := by simpa using h
  rw [HeaderMap.get, withToken, List.lookup_cons, hdiffers]
  rfl

theorem bearerToken_withToken (headers : HeaderMap) (token : String) :
    bearerToken (withToken headers token) = some token := by
  rw [bearerToken_eq_some, HeaderMap.get, withToken, List.lookup_cons, beq_self_eq_true]

theorem authorize_of_unknown {authorizer : Authorizer} {access : Access} {headers : HeaderMap}
    {first second : String} (hfirst : authorizer.Unknown first)
    (hsecond : authorizer.Unknown second) :
    authorizer.authorize crates (withToken headers first) access =
      authorizer.authorize crates (withToken headers second) access := by
  have hprotocol : "mbx-cache-protocol" ≠ "authorization" := by decide
  have hnamespace : "mbx-cache-namespace" ≠ "authorization" := by decide
  unfold Authorizer.authorize namespaceHeader
  simp only [get_withToken_of_ne hprotocol, get_withToken_of_ne hnamespace, bearerToken_withToken,
    authorizeToken_of_unknown hfirst, authorizeToken_of_unknown hsecond]

/-- Authorization is deny-by-default: there is no way in but the four routes, what
is written about reads never grants a write, and what a token says about itself
makes no difference while nobody vouches for it. -/
theorem authorize_denies_by_default {env : Environment}
    {tokensJson oidcProvidersJson : Option String} {allowAnonymous : Bool}
    {anonymousReadNamespacesJson : Option String} {authorizer : Authorizer}
    (h : Authorizer.new env tokensJson oidcProvidersJson allowAnonymous
      anonymousReadNamespacesJson = .ok authorizer) :
    (∀ headers access ns, authorizer.authorize crates headers access = .ok ns →
      Granted crates authorizer headers access ns) ∧
    (∀ headers, authorizer.withoutReads.authorize crates headers .write =
      authorizer.authorize crates headers .write) ∧
    ∀ headers access first second, authorizer.Unknown first → authorizer.Unknown second →
      authorizer.authorize crates (withToken headers first) access =
        authorizer.authorize crates (withToken headers second) access :=
  ⟨fun _ _ _ hok => granted_of_authorize (Authorizer.new_accepted h) hok,
    authorize_write_withoutReads authorizer,
    fun _ _ _ _ hfirst hsecond => authorize_of_unknown hfirst hsecond⟩

/-- One static token and one provider, which vouches for one token. -/
def sampleEnvironment : Environment where
  tokenGrants _ := .ok [⟨"secret", ["acme/*"], ["acme/app"]⟩]
  oidcProviders _ := .ok [{
    issuer := "https://issuer"
    audiences := ["cache"]
    discoveryUri := none
    jwksUri := some "https://issuer/keys"
    algorithms := ["ES256"]
    jwksRefreshSeconds := 300
    clockSkewSeconds := 60
    rules := [⟨[("repository", .one (.string "app"))], ["acme/*"], ["acme/app"]⟩] }]
  namespacePatterns _ := .ok ["public/*"]
  discovery _ _ := .error "no discovery"
  jwks _ _ := .ok ⟨[]⟩
  verify _ _ _ _ _ token :=
    if token = "a.b.c" then .ok (.object [("repository", .string "app")])
    else .error "invalid signature"

theorem authorize_denies_by_default_sample :
    ∃ authorizer, Authorizer.new sampleEnvironment (some "grants") (some "providers") false (some "patterns") =
        .ok authorizer ∧
      Granted Sample.crates authorizer (withToken Sample.headers "secret") .write "acme/app" ∧
      authorizer.authorize Sample.crates (withToken Sample.headers "x.y.z") .write =
        authorizer.authorize Sample.crates (withToken Sample.headers "other") .write := by
  have hnew : Authorizer.new sampleEnvironment (some "grants") (some "providers") false (some "patterns") =
    .ok _ := rfl
  refine ⟨_, hnew, (authorize_denies_by_default hnew).1 _ _ _ (by decide +kernel),
    (authorize_denies_by_default hnew).2.2 _ _ _ _ ⟨by decide +kernel, ?_⟩
      ⟨by decide +kernel, ?_⟩⟩
  · intro provider hmem claims
    obtain rfl := List.mem_singleton.mp hmem
    exact nofun
  · intro provider hmem claims
    obtain rfl := List.mem_singleton.mp hmem
    exact nofun

end Deny

end MbxCache.Server
