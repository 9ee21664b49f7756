/-
# Requests and errors

Header lookup, the two precondition headers, and the errors every handler
answers with. An internal error keeps the text that is logged beside the answer,
so that the place it came from can still be told.
-/

import Mathlib.Data.List.Basic
import MbxCache.Crates
import MbxCache.Foundation.Program

namespace MbxCache.Server

open Foundation

abbrev StatusCode := ℕ

/-- Header values that are visible text, by lowercase name. Every use in the
service treats a value that is not text like one that is absent. -/
abbrev HeaderMap := List (String × String)

def HeaderMap.get (headers : HeaderMap) (name : String) : Option String :=
  headers.lookup name

structure ApiError where
  status : StatusCode
  message : String
  advertiseProtocol : Bool
  /-- What an internal error writes to the log; the client never sees it. -/
  logged : Option String
  deriving DecidableEq, Repr

namespace ApiError

def new (status : StatusCode) (message : String) : ApiError :=
  { status, message, advertiseProtocol := false, logged := none }

def badRequest (message : String) : ApiError := new 400 message
def unauthorized (message : String) : ApiError := new 401 message
def forbidden (message : String) : ApiError := new 403 message
def notFound (message : String) : ApiError := new 404 message
def conflict (message : String) : ApiError := new 409 message
def precondition (message : String) : ApiError := new 412 message
def tooLarge (message : String) : ApiError := new 413 message
def unprocessable (message : String) : ApiError := new 422 message
def preconditionRequired (message : String) : ApiError := new 428 message

def upgradeRequired : ApiError where
  status := 426
  message := "mbx cache protocol version 1 is required"
  advertiseProtocol := true
  logged := none

def internal (error : String) : ApiError where
  status := 500
  message := "internal server error"
  advertiseProtocol := false
  logged := some error

end ApiError

/-! ## Headers -/

/-- A write of an immutable object must say so. -/
def requireImmutablePrecondition (headers : HeaderMap) : Except ApiError Unit :=
  if headers.get "if-none-match" = some "*" then .ok ()
  else .error (.precondition "If-None-Match: * is required")

/-- The text between a leading and a trailing double quote. -/
def unquote (value : String) : Option String :=
  match value.toList with
  | '"' :: rest =>
      if rest.getLast? = some '"' then some (String.ofList rest.dropLast) else none
  | _ => none

def quotedEtag (etag : String) : String :=
  String.ofList ('"' :: (etag.toList ++ ['"']))

/-- The entity tag a manifest write expects to replace; none to create. -/
def manifestPrecondition (headers : HeaderMap) : Except ApiError (Option String) :=
  if headers.get "if-none-match" = some "*" then .ok none
  else
    match headers.get "if-match" with
    | none => .error (.preconditionRequired "If-None-Match: * or If-Match is required")
    | some value =>
        match (unquote value).filter fun etag =>
            etag.utf8ByteSize == 64 && etag.toList.all isLowerHex with
        | none => .error (.badRequest "If-Match must contain one strong BLAKE3 ETag")
        | some etag => .ok (some etag)

/-- Parse a decimal `u64`: digits only, with an optional leading plus sign. -/
def parseU64 (value : String) : Option ℕ :=
  let digits := match value.toList with
    | '+' :: rest => rest
    | chars => chars
  if digits.isEmpty || !digits.all Char.isDigit then none
  else
    let n := digits.foldl (fun acc c => 10 * acc + (c.toNat - 48)) 0
    if n < 2 ^ 64 then some n else none

def requiredU64Header (headers : HeaderMap) (name : String) : Except ApiError ℕ :=
  okOr ((headers.get name).bind parseU64)
    (.badRequest s!"{name} must be an unsigned integer")

/-! ## Digests in requests -/

section Digest

variable (rules : DigestRules)

def validateDigest (digest : Digest) : Except ApiError Unit :=
  if rules.validate digest then .ok () else .error (.badRequest "invalid digest")

variable {rules} in
@[simp]
theorem validateDigest_eq_ok {digest : Digest} {u : Unit} :
    validateDigest rules digest = .ok u ↔ rules.validate digest = true := by
  by_cases h : rules.validate digest = true <;> simp [validateDigest, h]

/-- The path of a request names a digest in three parts. -/
abbrev DigestParts := String × String × UInt64

/-- The path that names a digest. -/
def partsOf (digest : Digest) : DigestParts := (digest.algorithm, digest.hash, digest.size)

/-- The digest a path names. -/
def digestOf (parts : DigestParts) : Digest := ⟨parts.1, parts.2.1, parts.2.2⟩

def parseDigest (parts : DigestParts) : Except ApiError Digest := do
  let digest : Digest := { algorithm := parts.1, hash := parts.2.1, size := parts.2.2 }
  validateDigest rules digest
  return digest

/-- Check a digest a request body named, rather than one from a path. -/
def validateActionDigest (digest : Digest) : Except ApiError Digest := do
  validateDigest rules digest
  rejectIf (digest.algorithm != "blake3") (.badRequest "action result keys must use blake3")
  return digest

def parseActionDigest (parts : DigestParts) : Except ApiError Digest := do
  let digest ← parseDigest rules parts
  rejectIf (digest.algorithm != "blake3") (.badRequest "action result keys must use blake3")
  return digest

theorem parseDigest_eq_ok {parts : DigestParts} {digest : Digest} :
    parseDigest rules parts = .ok digest ↔
      digest = ⟨parts.1, parts.2.1, parts.2.2⟩ ∧ rules.validate digest = true := by
  by_cases h : rules.validate ⟨parts.1, parts.2.1, parts.2.2⟩ = true
  · have hok : parseDigest rules parts = .ok ⟨parts.1, parts.2.1, parts.2.2⟩ := by
      simp [parseDigest, validateDigest, h]
    rw [hok]
    constructor
    · intro heq
      injection heq with heq
      exact ⟨heq.symm, heq ▸ h⟩
    · rintro ⟨rfl, _⟩
      rfl
  · have herror : parseDigest rules parts = .error (.badRequest "invalid digest") := by
      simp [parseDigest, validateDigest, h]
    rw [herror]
    constructor
    · intro heq
      cases heq
    · rintro ⟨rfl, hvalid⟩
      exact absurd hvalid h

end Digest

end MbxCache.Server
