/-
# Verifying tokens against refreshed keys

A provider keeps the keys it last fetched. Any number of tokens are verified at a
time; a token whose key is unknown, or that finds the keys too old, asks for a
refresh first. Refreshes hold a lock while they look at the keys again, note the
attempt, fetch and install.

Each step is what one call does between two points where it waits. The clock moves
between any two steps, an answer is whatever the endpoint gives, and a call may be
dropped wherever it is, with the lock if it holds it.
-/

import Mathlib.Logic.Function.Basic
import MbxCache.Foundation.Machine
import MbxCache.Server.Configuration

namespace MbxCache.Server

open Foundation

/-! ## Tokens -/

structure TokenHeader where
  alg : SigningAlgorithm
  kid : Option String
  deriving DecidableEq, Repr

/-- What a token is checked for besides its signature. -/
structure Validation where
  algorithm : SigningAlgorithm
  audiences : List String
  issuer : String
  requiredSpecClaims : List String
  validateNbf : Bool
  leeway : UInt64
  deriving DecidableEq, Repr

/-- The token library. -/
structure TokenLibrary where
  DecodingKey : Type
  decodeHeader : String → Except String TokenHeader
  fromJwk : Jwk → Except String DecodingKey
  decode : String → DecodingKey → Validation → Except String Json

/-- A provider that refreshes its keys. Times are in nanoseconds. -/
structure KeyProvider where
  config : OidcProviderConfig
  algorithms : List SigningAlgorithm
  minRefreshInterval : ℕ

def seconds (count : ℕ) : ℕ := count * 1000000000

def MIN_JWKS_REFRESH_SECONDS : ℕ := 30

def KeyProvider.new (config : OidcProviderConfig) (algorithms : List SigningAlgorithm) :
    KeyProvider where
  config
  algorithms
  minRefreshInterval := seconds MIN_JWKS_REFRESH_SECONDS

namespace KeyProvider

variable (library : TokenLibrary) (provider : KeyProvider)

def jwksRefresh : ℕ := seconds provider.config.jwksRefreshSeconds.toNat

/-- The first lines of `verify`: a token whose header is in order has an algorithm
and names a key. -/
def readHeader (token : String) : Except String (SigningAlgorithm × String) := do
  let header ← (library.decodeHeader token).mapError fun _ => "decode JWT header"
  let kid ← okOr header.kid "JWT header is missing kid"
  rejectIf (!provider.algorithms.contains header.alg) "JWT uses a disallowed signing algorithm"
  return (header.alg, kid)

/-- Whether a key is published for another purpose. -/
def unfit (alg : SigningAlgorithm) (jwk : Jwk) : Bool :=
  jwk.keyAlgorithm.any (fun name => SigningAlgorithm.fromStr name != some alg) ||
    jwk.publicKeyUse.any (· != "sig") ||
    jwk.keyOperations.any fun operations => !operations.contains "verify"

def validation (alg : SigningAlgorithm) : Validation where
  algorithm := alg
  audiences := provider.config.audiences
  issuer := provider.config.issuer
  requiredSpecClaims := ["exp", "aud", "iss", "sub"]
  validateNbf := true
  leeway := provider.config.clockSkewSeconds

/-- The last lines of `verify`: find the key and decode the token with it. -/
def decodeWith (set : JwkSet) (token : String) (alg : SigningAlgorithm) (kid : String) :
    Except String Json := do
  let jwk ← okOr (set.find kid) "JWT signing key was not found"
  rejectIf (unfit alg jwk) "JWT signing key is not valid for this algorithm"
  let key ← (library.fromJwk jwk).mapError fun _ => "decode JWT signing key"
  (library.decode token key (provider.validation alg)).mapError fun _ => "validate JWT"

/-- A token is accepted under the key its set holds for the key id. -/
theorem decodeWith_eq_ok {library : TokenLibrary} {provider : KeyProvider} {set : JwkSet}
    {token kid : String} {alg : SigningAlgorithm} {claims : Json}
    (h : provider.decodeWith library set token alg kid = .ok claims) :
    ∃ jwk key, set.find kid = some jwk ∧ unfit alg jwk = false ∧ library.fromJwk jwk = .ok key ∧
      library.decode token key (provider.validation alg) = .ok claims := by
  obtain ⟨jwk, hjwk, h⟩ := bind_eq_ok.mp h
  obtain ⟨_, hfit, h⟩ := bind_eq_ok.mp h
  obtain ⟨key, hkey, h⟩ := bind_eq_ok.mp h
  exact ⟨jwk, key, okOr_eq_ok.mp hjwk, rejectIf_eq_ok.mp hfit, mapError_eq_ok.mp hkey,
    mapError_eq_ok.mp h⟩

end KeyProvider

/-! ## Calls -/

/-- Where a call of `verify` is. `known` is whether the key was there when the call
first looked. -/
inductive Phase where
  /-- Before the first look at the keys. -/
  | reading
  /-- Waits for the lock of a refresh. -/
  | locking (known : Bool)
  /-- Holds the lock, before the second look. -/
  | checking (known : Bool)
  /-- Is to refresh, before `Instant::now()`. -/
  | timing (known : Bool)
  /-- Waits to note the attempt. -/
  | recording (known : Bool) (attempt : ℕ)
  /-- Noted the attempt, before the request is sent. -/
  | requesting (known : Bool) (attempt : ℕ)
  | fetching (known : Bool)
  /-- Waits to install what was fetched. -/
  | installing (known : Bool) (set : JwkSet)
  /-- Before the last look at the keys. -/
  | finding
  | refreshFailed (error : String)
  | decided (outcome : Except String Json)
  | dropped

/-- The calls that hold the lock. -/
def Phase.holds : Phase → Bool
  | .checking _ | .timing _ | .recording _ _ | .requesting _ _ | .fetching _ | .installing _ _ =>
      true
  | .reading | .locking _ | .finding | .refreshFailed _ | .decided _ | .dropped => false

def Phase.ended : Phase → Bool
  | .refreshFailed _ | .decided _ | .dropped => true
  | _ => false

/-- The calls that did not find their key when they first looked, until they look
again. -/
def Phase.doubts : Phase → Bool
  | .locking known | .checking known | .timing known | .recording known _ | .requesting known _
  | .fetching known | .installing known _ => !known
  | .refreshFailed _ => true
  | .reading | .finding | .decided _ | .dropped => false

structure Call where
  token : String
  alg : SigningAlgorithm
  kid : String
  phase : Phase

structure CachedKeys where
  set : JwkSet
  fetchedAt : ℕ
  attemptedAt : Option ℕ

/-- A fetch of a refresh: the instant noted for it, when it started, what it was
answered, and whether that was installed. -/
structure Fetch where
  attemptedAt : ℕ
  startedAt : ℕ
  answer : Option (Except String JwkSet)
  installed : Bool

/-- A provider at work: the clock, the keys, the lock of refreshes with its holder,
the calls, and the fetches so far, latest first. -/
structure KeyServer where
  now : ℕ
  keys : CachedKeys
  refresh : Option ℕ
  calls : ℕ → Option Call
  fetches : List Fetch

namespace KeyServer

/-- A provider that has just fetched its first keys. -/
def new (now : ℕ) (set : JwkSet) : KeyServer where
  now
  keys := { set, fetchedAt := now, attemptedAt := none }
  refresh := none
  calls _ := none
  fetches := []

def put (s : KeyServer) (index : ℕ) (call : Call) : KeyServer :=
  { s with calls := Function.update s.calls index (some call) }

/-- `elapsed`. -/
def elapsed (s : KeyServer) (instant : ℕ) : ℕ := s.now - instant

end KeyServer

inductive KeyEvent where
  | elapsed (time : ℕ)
  /-- `verify` is called. -/
  | arrived (index : ℕ) (token : String)
  /-- A call does what it waited for. -/
  | moved (index : ℕ)
  /-- The endpoint answers. -/
  | answered (index : ℕ) (answer : Except String JwkSet)
  /-- The request behind a call is abandoned. -/
  | dropped (index : ℕ)

/-! ## Steps -/

namespace KeyServer

variable (library : TokenLibrary) (provider : KeyProvider)

/-- Change the fetch under way. -/
def latest (s : KeyServer) (change : Fetch → Fetch) : List Fetch :=
  match s.fetches with
  | [] => []
  | fetch :: fetches => change fetch :: fetches

/-- The second look of a refresh: too soon after an attempt, or no longer needed. -/
def skips (s : KeyServer) (kid : String) : Bool :=
  s.keys.attemptedAt.any (fun attempt => decide (s.elapsed attempt < provider.minRefreshInterval)) ||
    (decide (s.elapsed s.keys.fetchedAt < provider.jwksRefresh) && (s.keys.set.find kid).isSome)

def move (s : KeyServer) (index : ℕ) (call : Call) : Option KeyServer :=
  match call.phase with
  | .reading =>
      let stale := decide (provider.jwksRefresh ≤ s.elapsed s.keys.fetchedAt)
      let known := (s.keys.set.find call.kid).isSome
      let phase := if stale || !known then .locking known else .finding
      some (s.put index { call with phase })
  | .locking known =>
      if s.refresh.isNone then
        some { s.put index { call with phase := .checking known } with refresh := some index }
      else none
  | .checking known =>
      if s.skips provider call.kid then
        some { s.put index { call with phase := .finding } with refresh := none }
      else some (s.put index { call with phase := .timing known })
  | .timing known => some (s.put index { call with phase := .recording known s.now })
  | .recording known attempt =>
      some { s.put index { call with phase := .requesting known attempt } with
        keys := { s.keys with attemptedAt := some attempt } }
  | .requesting known attempt =>
      some { s.put index { call with phase := .fetching known } with
        fetches := ⟨attempt, s.now, none, false⟩ :: s.fetches }
  | .installing _ set =>
      some { s.put index { call with phase := .finding } with
        keys := { s.keys with set, fetchedAt := s.now }
        fetches := s.latest fun fetch => { fetch with installed := true }
        refresh := none }
  | .finding =>
      let outcome := provider.decodeWith library s.keys.set call.token call.alg call.kid
      some (s.put index { call with phase := .decided outcome })
  | .fetching _ | .refreshFailed _ | .decided _ | .dropped => none

/-- A fetch returns. What an unknown key is refused with is the error of the refresh. -/
def answer (s : KeyServer) (index : ℕ) (call : Call) (answer : Except String JwkSet) :
    Option KeyServer :=
  match call.phase with
  | .fetching known =>
      let answered := { s with fetches := s.latest fun fetch => { fetch with answer } }
      match answer with
      | .ok set => some (answered.put index { call with phase := .installing known set })
      | .error error =>
          let phase := if known then .finding else .refreshFailed error
          some { answered.put index { call with phase } with refresh := none }
  | _ => none

/-- Dropping a call releases the lock it holds. -/
def drop (s : KeyServer) (index : ℕ) (call : Call) : Option KeyServer :=
  if call.phase.ended then none
  else some { s.put index { call with phase := .dropped } with
    refresh := if call.phase.holds then none else s.refresh }

def step : KeyEvent → KeyServer → Option KeyServer
  | .elapsed time, s => if s.now ≤ time then some { s with now := time } else none
  | .arrived index token, s =>
      match s.calls index, provider.readHeader library token with
      | none, .ok (alg, kid) => some (s.put index { token, alg, kid, phase := .reading })
      | _, _ => none
  | .moved index, s => (s.calls index).bind (s.move library provider index)
  | .answered index reply, s => (s.calls index).bind fun call => s.answer index call reply
  | .dropped index, s => (s.calls index).bind (s.drop index)

end KeyServer

end MbxCache.Server
