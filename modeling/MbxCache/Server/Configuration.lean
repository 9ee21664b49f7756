/-
# Building an authorizer

What the service accepts as a configuration. The three lists are parsed by
derived code, and a provider's endpoints are asked for its keys before the service
starts; both are parameters. What remains is what is checked: issuers are unique,
a provider constrains audience and claims, and its signing algorithms are
asymmetric.
-/

import MbxCache.Server.Auth

namespace MbxCache.Server

open Foundation

/-! ## Signing algorithms -/

/-- The algorithms the token library knows. -/
inductive SigningAlgorithm where
  | HS256 | HS384 | HS512
  | ES256 | ES384
  | RS256 | RS384 | RS512
  | PS256 | PS384 | PS512
  | EdDSA
  deriving DecidableEq, Repr

/-- `Algorithm::from_str`. -/
def SigningAlgorithm.fromStr : String → Option SigningAlgorithm
  | "HS256" => some HS256
  | "HS384" => some HS384
  | "HS512" => some HS512
  | "ES256" => some ES256
  | "ES384" => some ES384
  | "RS256" => some RS256
  | "RS384" => some RS384
  | "RS512" => some RS512
  | "PS256" => some PS256
  | "PS384" => some PS384
  | "PS512" => some PS512
  | "EdDSA" => some EdDSA
  | _ => none

def DEFAULT_ALGORITHMS : List SigningAlgorithm :=
  [.RS256, .RS384, .RS512, .PS256, .PS384, .PS512, .ES256, .ES384, .EdDSA]

/-- The algorithms a provider may sign with: the configured ones, or all, as far
as they are asymmetric and advertised. -/
def configuredAlgorithms (configured advertised : List String) :
    Except String (List SigningAlgorithm) := do
  let algorithms ←
    if configured.isEmpty then .ok DEFAULT_ALGORITHMS
    else configured.mapM fun name =>
      okOr (SigningAlgorithm.fromStr name) s!"unsupported OIDC algorithm {name.quote}"
  let algorithms := algorithms.filter DEFAULT_ALGORITHMS.contains
  let algorithms :=
    if advertised.isEmpty then algorithms
    else algorithms.filter (advertised.filterMap SigningAlgorithm.fromStr).contains
  rejectIf algorithms.isEmpty
    "OIDC provider has no mutually supported asymmetric signing algorithm"
  return algorithms

/-! ## Providers -/

/-- A public key as a provider publishes it. -/
structure Jwk where
  keyId : Option String
  keyAlgorithm : Option String
  publicKeyUse : Option String
  keyOperations : Option (List String)
  /-- The key itself, which only the token library looks at. -/
  parameters : String
  deriving DecidableEq, Repr

structure JwkSet where
  keys : List Jwk
  deriving DecidableEq, Repr

/-- The first key with an id. -/
def JwkSet.find (set : JwkSet) (kid : String) : Option Jwk :=
  set.keys.find? fun jwk => jwk.keyId == some kid

structure DiscoveryDocument where
  issuer : String
  jwksUri : String
  idTokenSigningAlgValuesSupported : List String
  deriving DecidableEq, Repr

/-- The outside of the constructor: the derived parsers, what the provider's
endpoints answer at each attempt, and how a token is verified against the keys
that were fetched. -/
structure Environment where
  tokenGrants : String → Except String (List TokenGrant)
  oidcProviders : String → Except String (List OidcProviderConfig)
  namespacePatterns : String → Except String (List String)
  discovery : ℕ → String → Except String DiscoveryDocument
  jwks : ℕ → String → Except String JwkSet
  verify : (issuer : String) → (audiences : List String) → (clockSkewSeconds : UInt64) →
    List SigningAlgorithm → JwkSet → String → Except String Json

def validateProviderConfig (config : OidcProviderConfig) : Except String Unit := do
  rejectIf (config.issuer.isEmpty || config.audiences.isEmpty || config.rules.isEmpty)
    "each OIDC provider requires issuer, audiences, and rules"
  rejectIf (config.jwksRefreshSeconds == 0) "OIDC jwks_refresh_seconds must be greater than zero"
  rejectIf (config.rules.any fun rule => rule.claims.isEmpty)
    "each OIDC authorization rule must require at least one claim"

def INITIAL_FETCH_ATTEMPTS : ℕ := 3

section

variable (env : Environment)

/-- `trim_end_matches`. -/
def trimEndSlashes (text : String) : String :=
  String.ofList ((text.toList.reverse.dropWhile (· == '/')).reverse)

/-- The endpoint of the keys and the advertised algorithms, and then the keys. -/
def fetchProviderData (attempt : ℕ) (config : OidcProviderConfig) :
    Except String (String × List String × JwkSet) := do
  let (jwksUri, advertised) ← match config.jwksUri with
    | some uri => .ok (uri, [])
    | none => do
        let discoveryUri := config.discoveryUri.getD
          (trimEndSlashes config.issuer ++ "/.well-known/openid-configuration")
        let document ← (env.discovery attempt discoveryUri).mapError fun _ =>
          s!"discover OIDC issuer {config.issuer}"
        rejectIf (document.issuer != config.issuer)
          s!"OIDC discovery issuer mismatch: configured {config.issuer.quote}, received {document.issuer.quote}"
        .ok (document.jwksUri, document.idTokenSigningAlgValuesSupported)
  let set ← (env.jwks attempt jwksUri).mapError fun _ =>
    s!"fetch OIDC keys for {config.issuer}"
  return (jwksUri, advertised, set)

/-- The first of the bounded attempts that succeeds. -/
def fetchInitialProviderData (config : OidcProviderConfig) :
    Except String (String × List String × JwkSet) :=
  okOr ((List.range' 1 INITIAL_FETCH_ATTEMPTS).findSome? fun attempt =>
      (fetchProviderData env attempt config).toOption)
    s!"initialize OIDC issuer {config.issuer}"

def OidcProvider.new (config : OidcProviderConfig) : Except String OidcProvider := do
  validateProviderConfig config
  let (_, advertised, set) ← fetchInitialProviderData env config
  let algorithms ← configuredAlgorithms config.algorithms advertised
  return {
    config
    verify := env.verify config.issuer config.audiences config.clockSkewSeconds algorithms set }

/-- One provider after another; no issuer may come twice. -/
def newProviders (issuers : List String) : List OidcProviderConfig →
    Except String (List OidcProvider)
  | [] => .ok []
  | config :: configs => do
      rejectIf (issuers.contains config.issuer)
        s!"OIDC issuer {config.issuer.quote} is configured more than once"
      let provider ← OidcProvider.new env config
      let later ← newProviders (config.issuer :: issuers) configs
      return provider :: later

/-- A missing list is empty. -/
def parseJsonArray {α : Type} (parse : String → Except String (List α)) (json : Option String)
    (label : String) : Except String (List α) :=
  match json with
  | none => .ok []
  | some text => (parse text).mapError fun _ => s!"parse {label} JSON"

def Authorizer.new (tokensJson oidcProvidersJson : Option String) (allowAnonymous : Bool)
    (anonymousReadNamespacesJson : Option String) : Except String Authorizer := do
  let grants ← parseJsonArray env.tokenGrants tokensJson "token grants"
  let configs ← parseJsonArray env.oidcProviders oidcProvidersJson "OIDC providers"
  let anonymousReadNamespaces ← parseJsonArray env.namespacePatterns anonymousReadNamespacesJson
    "anonymous read namespace patterns"
  let oidc ← newProviders env [] configs
  return { grants, oidc, allowAnonymous, anonymousReadNamespaces }

end

end MbxCache.Server
