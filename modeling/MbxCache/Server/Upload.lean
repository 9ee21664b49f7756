/-
# Uploading blobs

A single upload and a pack of uploads. Both spool the body while hashing it,
compare length and hash with the declared digest, and only then put the object
and make it visible in the namespace. The put and the registration are two calls,
so a request may stop between them.

The spool is the temporary file; a local disk that fails is not modelled, it ends
a request before the stores are called.
-/

import MbxCache.Pack.Reader
import MbxCache.Server.Operations

namespace MbxCache.Server

open Foundation Pack

section

variable (crates : Crates)

/-! ## Spooling and hashing -/

/-- A body on its way into a temporary file, with both running hashes. Only the
one the digest names is ever updated. -/
structure Spool where
  bytes : Bytes
  size : ℕ
  blake3 : crates.blake3.State
  sha256 : crates.sha256.State

namespace Spool

def new : Spool crates where
  bytes := []
  size := 0
  blake3 := crates.blake3.new
  sha256 := crates.sha256.new

variable {crates}

/-- Write one piece of the body to the file and to the running hash. -/
def write (spool : Spool crates) (algorithm : Algorithm) (piece : Bytes) : Spool crates :=
  let spool := { spool with bytes := spool.bytes ++ piece, size := spool.size + piece.length }
  match algorithm with
  | .blake3 => { spool with blake3 := crates.blake3.update spool.blake3 piece }
  | .sha256 => { spool with sha256 := crates.sha256.update spool.sha256 piece }

/-- The hash of everything written so far, as a digest spells it. -/
def actualHash (spool : Spool crates) : Algorithm → String
  | .blake3 => hexEncode (crates.blake3.finalize spool.blake3)
  | .sha256 => hexEncode (crates.sha256.finalize spool.sha256)

/-- The algorithm of a digest, as both upload paths ask for it. -/
def algorithmOf (crates : Crates) (digest : Digest) : Except ApiError Algorithm :=
  (crates.digests.algorithmKind digest).mapError .badRequest

/-- Verify a completed body against the digest it was sent for. -/
def verify (spool : Spool crates) (digest : Digest) (message : String) : Except ApiError Unit := do
  let algorithm ← algorithmOf crates digest
  rejectIf (spool.size != digest.size.toNat || spool.actualHash algorithm != digest.hash)
    (.badRequest message)

/-! ### What a spool knows -/

/-- The running hash of an algorithm, whatever the state type is. -/
def running (spool : Spool crates) : (algorithm : Algorithm) → (crates.hasher algorithm).State
  | .blake3 => spool.blake3
  | .sha256 => spool.sha256

theorem running_write (spool : Spool crates) (algorithm : Algorithm) (piece : Bytes) :
    (spool.write algorithm piece).running algorithm =
      (crates.hasher algorithm).update (spool.running algorithm) piece := by
  cases algorithm <;> rfl

theorem actualHash_eq (spool : Spool crates) (algorithm : Algorithm) :
    spool.actualHash algorithm =
      hexEncode ((crates.hasher algorithm).finalize (spool.running algorithm)) := by
  cases algorithm <;> rfl

@[simp]
theorem write_bytes (spool : Spool crates) (algorithm : Algorithm) (piece : Bytes) :
    (spool.write algorithm piece).bytes = spool.bytes ++ piece := by
  cases algorithm <;> rfl

@[simp]
theorem write_size (spool : Spool crates) (algorithm : Algorithm) (piece : Bytes) :
    (spool.write algorithm piece).size = spool.size + piece.length := by
  cases algorithm <;> rfl

/-- The spool holds this content, and the hash its digest asks for has run over
the content in some pieces. -/
structure Tracks (digest : Digest) (spool : Spool crates) (content : Bytes) : Prop where
  bytes : spool.bytes = content
  size : spool.size = content.length
  hashed : ∀ algorithm, crates.digests.algorithmKind digest = .ok algorithm →
    ∃ pieces : List Bytes, pieces.flatten = content ∧
      spool.running algorithm =
        pieces.foldl (crates.hasher algorithm).update (crates.hasher algorithm).new

theorem tracks_new (digest : Digest) : Tracks digest (Spool.new crates) [] where
  bytes := rfl
  size := rfl
  hashed algorithm _ := ⟨[], rfl, by cases algorithm <;> rfl⟩

/-- Writing with the algorithm of the digest extends the content. -/
theorem Tracks.write {digest : Digest} {spool : Spool crates} {content : Bytes}
    {algorithm : Algorithm} (h : Tracks digest spool content)
    (halgorithm : crates.digests.algorithmKind digest = .ok algorithm) (piece : Bytes) :
    Tracks digest (spool.write algorithm piece) (content ++ piece) where
  bytes := by rw [write_bytes, h.bytes]
  size := by rw [write_size, h.size, List.length_append]
  hashed algorithm' halgorithm' := by
    rw [halgorithm] at halgorithm'
    obtain rfl := Except.ok.inj halgorithm'
    obtain ⟨pieces, hflatten, hrunning⟩ := h.hashed algorithm halgorithm
    refine ⟨pieces ++ [piece], by simp [hflatten], ?_⟩
    rw [running_write, hrunning, List.foldl_append]
    rfl

theorem Tracks.actualHash {digest : Digest} {spool : Spool crates} {content : Bytes}
    {algorithm : Algorithm} (h : Tracks digest spool content)
    (halgorithm : crates.digests.algorithmKind digest = .ok algorithm) :
    spool.actualHash algorithm = crates.hashText algorithm content := by
  obtain ⟨pieces, hflatten, hrunning⟩ := h.hashed algorithm halgorithm
  rw [actualHash_eq, hrunning, (crates.hasher algorithm).finalize_foldl_update, hflatten,
    Crates.hashText]

/-- Verification accepts exactly the content the digest describes. -/
theorem Tracks.verify_eq_ok {digest : Digest} {spool : Spool crates} {content : Bytes}
    {message : String} {u : Unit} (h : Tracks digest spool content) :
    spool.verify digest message = .ok u ↔ crates.Matches digest content := by
  rw [verify, bind_eq_ok, algorithmOf]
  simp only [mapError_eq_ok, rejectIf_eq_ok, Bool.or_eq_false_iff, bne_eq_false_iff_eq]
  constructor
  · rintro ⟨algorithm, halgorithm, hsize, hhash⟩
    rw [h.size] at hsize
    rw [h.actualHash halgorithm] at hhash
    exact ⟨hsize, algorithm, halgorithm, hhash⟩
  · rintro ⟨hsize, algorithm, halgorithm, hhash⟩
    refine ⟨algorithm, halgorithm, ?_, ?_⟩
    · rw [h.size, hsize]
    · rw [h.actualHash halgorithm, hhash]

/-- Other content is refused with the message of the caller. -/
theorem Tracks.verify_eq_error {digest : Digest} {spool : Spool crates} {content : Bytes}
    {algorithm : Algorithm} (h : Tracks digest spool content)
    (halgorithm : crates.digests.algorithmKind digest = .ok algorithm)
    (hnot : ¬ crates.Matches digest content) (message : String) :
    spool.verify digest message = .error (.badRequest message) := by
  cases hverify : spool.verify digest message with
  | ok u => exact absurd (h.verify_eq_ok.mp hverify) hnot
  | error e =>
      rw [verify, algorithmOf, halgorithm] at hverify
      obtain ⟨_, rfl⟩ := rejectIf_eq_error.mp (hverify : rejectIf _ _ = _)
      rfl

end Spool

/-- Put a verified object, then make it visible in the namespace. -/
def publishBlob (ns : String) (digest : Digest) (source : Bytes) : Handler PutOutcome := do
  let outcome ← callBlobs (.put digest source)
  callMetadata (.registerBlob ns digest outcome)
  return outcome

/-! ## A single upload -/

/-- One chunk of the body of `putBlob`. The size limits come before the hash. -/
def receiveChunk (maxBlobBytes : UInt64) (digest : Digest) (spool : Spool crates)
    (chunk : Except String Bytes) : Except ApiError (Spool crates) := do
  let piece ← chunk.mapError .badRequest
  let size := spool.size + piece.length
  rejectIf (decide (2 ^ 64 ≤ size)) (.tooLarge "blob is too large")
  rejectIf (decide (size > digest.size.toNat) || decide (size > maxBlobBytes.toNat))
    (.tooLarge "blob exceeds declared or configured size")
  let algorithm ← Spool.algorithmOf crates digest
  return spool.write algorithm piece

/-- The part of `putBlob` between the digest and the stores. -/
def receiveBlob (maxBlobBytes : UInt64) (digest : Digest) (body : ByteStream) :
    Except ApiError (Spool crates) := do
  rejectIf (decide (digest.size > maxBlobBytes)) (.tooLarge "blob exceeds configured limit")
  let spool ← body.foldlM (receiveChunk crates maxBlobBytes digest) (Spool.new crates)
  spool.verify digest "content does not match the requested digest"
  return spool

def putStatus : PutOutcome → StatusCode
  | .created => 201
  | .alreadyExists => 204

def putBlob (state : AppState) (headers : HeaderMap) (parts : DigestParts) (body : ByteStream) :
    Handler StatusCode := do
  let ns ← state.auth.authorize crates headers .write
  requireImmutablePrecondition headers
  let digest ← parseDigest crates.digests parts
  let spool ← receiveBlob crates state.maxBlobBytes digest body
  let outcome ← publishBlob ns digest spool.bytes
  return putStatus outcome

/-! ## A pack of uploads -/

/-- One frame of an uploaded pack, spooled and hashed as it arrives. -/
structure PackFrame where
  digest : Digest
  spool : Spool crates

namespace PackFrame

/-- Start spooling and hashing the payload declared by one frame header. -/
def new (digest : Digest) : PackFrame crates where
  digest
  spool := Spool.new crates

variable {crates}

/-- Extend the spool and the digest calculation with one payload chunk. -/
def write (frame : PackFrame crates) (payload : Bytes) : Except ApiError (PackFrame crates) := do
  let algorithm ← Spool.algorithmOf crates frame.digest
  return { frame with spool := frame.spool.write algorithm payload }

/-- Verify and publish a completed frame as an ordinary blob upload. -/
def store (frame : PackFrame crates) (ns : String) : Handler PutOutcome := do
  frame.spool.verify frame.digest "packed blob does not match its declared digest"
  publishBlob ns frame.digest frame.spool.bytes

end PackFrame

/-- A malformed pack is the client's error; an oversized one says which limit. -/
def packError (error : PackError) : ApiError :=
  match error with
  | .blobTooLarge _ _ | .tooManyBytes _ | .tooManyBlobs _ => .tooLarge error.message
  | _ => .badRequest error.message

/-- What `putBlobPack` keeps between two chunks. -/
structure PackUpload where
  reader : PackReader
  frame : Option (PackFrame crates)
  created : ℕ
  existing : ℕ

namespace PackUpload

variable {crates}

def count (upload : PackUpload crates) : PutOutcome → PackUpload crates
  | .created => { upload with created := upload.created + 1 }
  | .alreadyExists => { upload with existing := upload.existing + 1 }

@[simp]
theorem count_reader (upload : PackUpload crates) (outcome : PutOutcome) :
    (upload.count outcome).reader = upload.reader := by
  cases outcome <;> rfl

@[simp]
theorem count_frame (upload : PackUpload crates) (outcome : PutOutcome) :
    (upload.count outcome).frame = upload.frame := by
  cases outcome <;> rfl

def handleEvent (ns : String) (upload : PackUpload crates) :
    PackEvent → Handler (PackUpload crates)
  | .started digest => return { upload with frame := some (PackFrame.new crates digest) }
  | .payload payload => do
      let frame ← okOr upload.frame (ApiError.internal "payload outside a blob pack frame")
      let frame ← frame.write payload
      return { upload with frame := some frame }
  | .complete => do
      let finished ← okOr upload.frame (ApiError.internal "blob pack frame ended before it began")
      let outcome ← finished.store ns
      return { upload with frame := none }.count outcome

/-- The events of a chunk are handled once the whole chunk has been parsed. -/
def handleChunk (ns : String) (upload : PackUpload crates) (chunk : Except String Bytes) :
    Handler (PackUpload crates) := do
  let piece ← chunk.mapError ApiError.badRequest
  let (events, reader) := upload.reader.push piece
  let events ← events.mapError packError
  events.foldlM (handleEvent ns) { upload with reader }

theorem handleChunk_ok (ns : String) (upload : PackUpload crates) (piece : Bytes) :
    upload.handleChunk ns (.ok piece) =
      ((.done ((upload.reader.push piece).1.mapError packError) : Handler (List PackEvent)) >>=
        fun events => events.foldlM (handleEvent ns)
          { upload with reader := (upload.reader.push piece).2 }) := rfl

end PackUpload

structure BlobPackReceipt where
  created : ℕ
  existing : ℕ
  deriving DecidableEq, Repr

/-- Everything `putBlobPack` does once the declared limits are accepted. -/
def receivePack (maxBlobBytes : UInt64) (ns : String) (declaredBlobs declaredBytes : ℕ)
    (body : ByteStream) : Handler BlobPackReceipt := do
  let upload : PackUpload crates :=
    { reader := PackReader.new maxBlobBytes.toNat declaredBlobs declaredBytes
      frame := none, created := 0, existing := 0 }
  let upload ← body.foldlM (PackUpload.handleChunk ns) upload
  upload.reader.finish.mapError packError
  rejectIf (upload.reader.blobs != declaredBlobs || upload.reader.payloadBytes != declaredBytes)
    (ApiError.badRequest "blob pack does not carry what its headers declared")
  return { created := upload.created, existing := upload.existing }

/-- The declared number of blobs and of payload bytes, within the limits. -/
def packDeclaration (maxBlobBytes : UInt64) (headers : HeaderMap) : Except ApiError (ℕ × ℕ) := do
  let declaredBlobs ← requiredU64Header headers "mbx-cache-pack-blobs"
  let declaredBytes ← requiredU64Header headers "mbx-cache-pack-bytes"
  rejectIf (decide (declaredBlobs > MAX_BATCH_ITEMS))
    (.badRequest "blob pack declares more blobs than the supported batch size")
  rejectIf (decide (declaredBytes > maxBlobBytes.toNat))
    (.tooLarge "blob pack exceeds the configured size limit")
  return (declaredBlobs, declaredBytes)

/-- Accept several blobs in one framed request. -/
def putBlobPack (state : AppState) (headers : HeaderMap) (body : ByteStream) :
    Handler BlobPackReceipt := do
  let ns ← state.auth.authorize crates headers .write
  let (declaredBlobs, declaredBytes) ← packDeclaration state.maxBlobBytes headers
  receivePack crates state.maxBlobBytes ns declaredBlobs declaredBytes body

end

/-! ## What is received -/

section

variable {crates : Crates}

/-- A chunk that is received extends the spool by its bytes. -/
theorem Spool.Tracks.receiveChunk {maxBlobBytes : UInt64} {digest : Digest}
    {spool spool' : Spool crates} {content : Bytes} {chunk : Except String Bytes}
    (h : Spool.Tracks digest spool content)
    (hreceive : receiveChunk crates maxBlobBytes digest spool chunk = .ok spool') :
    ∃ piece, chunk = .ok piece ∧ Spool.Tracks digest spool' (content ++ piece) := by
  obtain ⟨piece, hpiece, hreceive⟩ := bind_eq_ok.mp hreceive
  obtain ⟨_, _, hreceive⟩ := bind_eq_ok.mp hreceive
  obtain ⟨_, _, hreceive⟩ := bind_eq_ok.mp hreceive
  obtain ⟨algorithm, halgorithm, hreceive⟩ := bind_eq_ok.mp hreceive
  refine ⟨piece, mapError_eq_ok.mp hpiece, ?_⟩
  rw [← Except.ok.inj hreceive]
  exact h.write (mapError_eq_ok.mp halgorithm) piece

/-- A body that is received to its end is in the spool, chunk after chunk. -/
theorem Spool.Tracks.receive {maxBlobBytes : UInt64} {digest : Digest} :
    ∀ {body : ByteStream} {spool spool' : Spool crates} {content : Bytes},
      Spool.Tracks digest spool content →
      body.foldlM (MbxCache.Server.receiveChunk crates maxBlobBytes digest) spool = .ok spool' →
      ∃ pieces : List Bytes, body = pieces.map .ok ∧
        Spool.Tracks digest spool' (content ++ pieces.flatten)
  | [], spool, spool', content, h, hreceive => by
      rw [← Except.ok.inj hreceive]
      exact ⟨[], rfl, by simpa using h⟩
  | chunk :: body, spool, spool', content, h, hreceive => by
      rw [List.foldlM_cons] at hreceive
      obtain ⟨middle, hmiddle, hrest⟩ := bind_eq_ok.mp hreceive
      obtain ⟨piece, hchunk, htracks⟩ := h.receiveChunk hmiddle
      obtain ⟨pieces, hbody, htracks'⟩ := htracks.receive hrest
      subst hchunk hbody
      exact ⟨piece :: pieces, rfl, by simpa using htracks'⟩

/-- What `receiveBlob` lets through is the content its digest describes. -/
theorem receiveBlob_eq_ok {maxBlobBytes : UInt64} {digest : Digest} {body : ByteStream}
    {spool : Spool crates} (h : receiveBlob crates maxBlobBytes digest body = .ok spool) :
    ∃ pieces : List Bytes, body = pieces.map .ok ∧ spool.bytes = pieces.flatten ∧
      crates.Matches digest pieces.flatten := by
  obtain ⟨_, _, h⟩ := bind_eq_ok.mp h
  obtain ⟨spool', hreceive, h⟩ := bind_eq_ok.mp h
  obtain ⟨_, hverify, h⟩ := bind_eq_ok.mp h
  obtain rfl := Except.ok.inj h
  obtain ⟨pieces, hbody, htracks⟩ := (Spool.tracks_new digest).receive hreceive
  rw [List.nil_append] at htracks
  exact ⟨pieces, hbody, htracks.bytes, htracks.verify_eq_ok.mp hverify⟩

end

end MbxCache.Server
