/-
# Authorization

Who may read or write a namespace. Four routes lead to a grant: a server left
open on purpose, a namespace anyone may read, a static token, and an identity
token a provider verified. Verification of a token's signature and its standard
claims is the provider's, and appears here as a function of the token.
-/

import MbxCache.Server.Api

namespace MbxCache.Server

open Foundation

inductive Access where
  | read
  | write
  deriving DecidableEq, Repr

structure TokenGrant where
  token : String
  read : List String
  write : List String
  deriving DecidableEq, Repr

inductive ScalarValue where
  | string (value : String)
  | number (value : JsonNumber)
  | bool (value : Bool)
  deriving DecidableEq, Repr

inductive ClaimRequirement where
  | one (value : ScalarValue)
  | any (values : List ScalarValue)
  deriving DecidableEq, Repr

structure OidcRule where
  claims : List (String × ClaimRequirement)
  read : List String
  write : List String
  deriving DecidableEq, Repr

structure OidcProviderConfig where
  issuer : String
  audiences : List String
  discoveryUri : Option String
  jwksUri : Option String
  algorithms : List String
  jwksRefreshSeconds : UInt64
  clockSkewSeconds : UInt64
  rules : List OidcRule
  deriving DecidableEq, Repr

/-- A configured provider and its token verification. -/
structure OidcProvider where
  config : OidcProviderConfig
  verify : String → Except String Json

structure Authorizer where
  grants : List TokenGrant
  oidc : List OidcProvider
  allowAnonymous : Bool
  anonymousReadNamespaces : List String

/-! ## Namespaces and patterns -/

/-- Relative slash-separated names over a small alphabet. -/
def validNamespace (value : String) : Bool :=
  !value.isEmpty && value.utf8ByteSize ≤ 255
    && value.toList.all (fun c => c.isAlphanum || c == '-' || c == '_' || c == '.' || c == '/')
    && (value.toList.splitOn '/').all Model.plainComponent

/-- The characters before a suffix. -/
def stripSuffix (suffix value : List Char) : Option (List Char) :=
  if suffix.isSuffixOf value then some (value.take (value.length - suffix.length)) else none

def matchesNamespace (pattern ns : String) : Bool :=
  pattern == "*" || pattern == ns ||
    match stripSuffix ['/', '*'] pattern.toList with
    | none => false
    | some pre => pre.isPrefixOf ns.toList && ns.toList[pre.length]? == some '/'

/-- Compare without stopping at the first difference. -/
def constantTimeEq (left right : List UInt8) : Bool :=
  if left.length ≠ right.length then false
  else (left.zip right).foldl (fun diff (a, b) => diff ||| (a ^^^ b)) 0 == 0

def patterns (grant : TokenGrant) : Access → List String
  | .read => grant.read
  | .write => grant.write

def OidcRule.patterns (rule : OidcRule) : Access → List String
  | .read => rule.read
  | .write => rule.write

def authorizePatterns (patterns : List String) (ns : String) : Except ApiError String :=
  if patterns.any fun pattern => matchesNamespace pattern ns then .ok ns
  else .error (.forbidden "token is not authorized for this namespace")

/-! ## Claims -/

def ScalarValue.matches : ScalarValue → Json → Bool
  | .string expected, .string actual => expected == actual
  | .number expected, .number actual => expected.same actual
  | .bool expected, .bool actual => expected == actual
  | _, _ => false

/-- A claim that is itself a list satisfies a requirement when one of its items
does. -/
def ClaimRequirement.matches (requirement : ClaimRequirement) (actual : Json) : Bool :=
  let expected := match requirement with
    | .one value => [value]
    | .any values => values
  match actual with
  | .array values => values.any fun actual => expected.any fun value => value.matches actual
  | actual => expected.any fun value => value.matches actual

/-- `Value::get`: members exist only on objects. -/
def claim (claims : Json) (name : String) : Option Json :=
  claims.asObject.bind fun members => lookupMember members name

def OidcRule.matchesClaims (rule : OidcRule) (claims : Json) : Bool :=
  rule.claims.all fun (name, requirement) =>
    (claim claims name).any fun actual => requirement.matches actual

/-- The issuer a token names, before anything about it is verified. -/
def unverifiedIssuer (crates : Crates) (token : String) : Except String String :=
  match token.toList.splitOn '.' with
  | [_header, payload, _signature] => do
      let bytes ← crates.base64Decode (String.ofList payload)
      let claims ← crates.jsonFromSlice bytes
      okOr ((claim claims "iss").bind Json.asString) "JWT is missing issuer"
  | [_] => .error "JWT is missing payload"
  | [_, _] => .error "JWT is missing signature"
  | _ => .error "JWT has too many segments"

/-! ## The decision -/

/-- The bearer token of a request. -/
def bearerToken (headers : HeaderMap) : Option String :=
  (headers.get "authorization").bind fun value =>
    let scheme := "Bearer ".toList
    if scheme.isPrefixOf value.toList then
      some (String.ofList (value.toList.drop scheme.length))
    else none

/-- The namespace a request names, if it is a well-formed one. -/
def namespaceHeader (headers : HeaderMap) : Option String :=
  (headers.get "mbx-cache-namespace").filter fun value => validNamespace value

/-- What a verified or static identity may do, once the namespace is known. -/
def authorizeToken (crates : Crates) (authorizer : Authorizer) (access : Access)
    (ns token : String) : Except ApiError String :=
  let same (grant : TokenGrant) : Bool :=
    constantTimeEq grant.token.toUTF8.data.toList token.toUTF8.data.toList
  match authorizer.grants.find? same with
  | some grant => authorizePatterns (patterns grant access) ns
  | none =>
      match unverifiedIssuer crates token with
      | .error _ => .error (.unauthorized "invalid bearer token")
      | .ok issuer =>
          match authorizer.oidc.find? fun provider => provider.config.issuer == issuer with
          | none => .error (.unauthorized "invalid bearer token")
          | some provider =>
              match provider.verify token with
              | .error _ => .error (.unauthorized "invalid bearer token")
              | .ok claims =>
                  if provider.config.rules.any fun rule =>
                      rule.matchesClaims claims &&
                        (rule.patterns access).any fun pattern => matchesNamespace pattern ns then
                    .ok ns
                  else .error (.forbidden "identity is not authorized for this namespace")

def Authorizer.authorize (crates : Crates) (authorizer : Authorizer) (headers : HeaderMap)
    (access : Access) : Except ApiError String :=
  if headers.get "mbx-cache-protocol" ≠ some "1" then .error .upgradeRequired
  else
    match namespaceHeader headers with
    | none => .error (.badRequest "a valid Mbx-Cache-Namespace header is required")
    | some ns =>
        if authorizer.allowAnonymous && authorizer.grants.isEmpty && authorizer.oidc.isEmpty then
          .ok ns
        else if access == .read && authorizer.anonymousReadNamespaces.any
            fun pattern => matchesNamespace pattern ns then
          .ok ns
        else
          match bearerToken headers with
          | none => .error (.unauthorized "a bearer token is required")
          | some token => authorizeToken crates authorizer access ns token

/-- A grant is for the namespace the request names. -/
theorem authorizePatterns_eq_ok {patterns : List String} {ns granted : String}
    (h : authorizePatterns patterns ns = .ok granted) : granted = ns := by
  unfold authorizePatterns at h
  split at h
  · injection h with h
    exact h.symm
  · cases h

theorem authorizeToken_eq_ok {crates : Crates} {authorizer : Authorizer} {access : Access}
    {ns token granted : String}
    (h : authorizeToken crates authorizer access ns token = .ok granted) : granted = ns := by
  unfold authorizeToken at h
  dsimp only at h
  split at h
  · exact authorizePatterns_eq_ok h
  · split at h
    · cases h
    · split at h
      · cases h
      · split at h
        · cases h
        · split at h
          · injection h with h
            exact h.symm
          · cases h

theorem Authorizer.authorize_eq_ok {crates : Crates} {authorizer : Authorizer}
    {headers : HeaderMap} {access : Access} {ns : String}
    (h : authorizer.authorize crates headers access = .ok ns) :
    namespaceHeader headers = some ns := by
  unfold Authorizer.authorize at h
  split at h
  · cases h
  · split at h
    · cases h
    · rename_i named hnamed
      split at h
      · injection h with h
        exact h ▸ hnamed
      · split at h
        · injection h with h
          exact h ▸ hnamed
        · split at h
          · cases h
          · exact authorizeToken_eq_ok h ▸ hnamed

end MbxCache.Server
