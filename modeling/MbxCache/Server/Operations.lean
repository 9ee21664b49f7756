/-
# What a handler can do

The operations a handler may suspend on: one call of the blob store or of the
metadata store. Handlers are programs over these, so the same text is executed
alone, beside other requests, and against either metadata store.
-/

import MbxCache.Foundation.Program
import MbxCache.Metadata.Store
import MbxCache.Server.Auth

namespace MbxCache.Server

open Foundation

/-! ## Operations -/

/-- A stream of chunks; an error ends it. -/
abbrev ByteStream := List (Except String Bytes)

/-- A stored object as it is served: its reported size and its bytes. -/
structure Blob where
  size : ℕ
  stream : ByteStream

/-- One call of the blob store. `put` gets the spooled content. -/
inductive BlobOp where
  | get (digest : Digest)
  | put (digest : Digest) (source : Bytes)

@[reducible]
def BlobOp.Value : BlobOp → Type
  | .get _ => Option Blob
  | .put _ _ => PutOutcome

inductive StoreOp where
  | blobs (op : BlobOp)
  | metadata (op : MetadataOp)

@[reducible]
def StoreOp.Value : StoreOp → Type
  | .blobs op => op.Value
  | .metadata op => op.Value

/-- A store may fail any call, with a text that is only logged. -/
abbrev StoreOp.Answer (op : StoreOp) : Type := Except String op.Value

/-- An asynchronous function of the service that may fail. -/
abbrev Handler := Program StoreOp StoreOp.Answer ApiError

/-- Call a store; what it fails with is logged and hidden. -/
def callBlobs (op : BlobOp) : Handler op.Value :=
  .call (.blobs op) fun answer => .done (answer.mapError .internal)

def callMetadata (op : MetadataOp) : Handler op.Value :=
  .call (.metadata op) fun answer => .done (answer.mapError .internal)

/-- Note a read so a future garbage collector can evict by real use. It never
turns a served blob into a failed request. -/
def recordBlobAccess (ns : String) (digests : List Digest) : Handler Unit :=
  .call (.metadata (.touchBlobs ns digests)) fun _ => .done (.ok ())

/-- Read a stream to its end. -/
def readStream : ByteStream → Except ApiError Bytes
  | [] => .ok []
  | chunk :: rest => do
      let bytes ← chunk.mapError .internal
      let later ← readStream rest
      return bytes ++ later

/-- The bytes of a stream before it breaks off. -/
def contents (stream : ByteStream) : Bytes :=
  stream.flatMap fun chunk => match chunk with
    | .ok bytes => bytes
    | .error _ => []

@[simp]
theorem contents_nil : contents [] = [] := rfl

@[simp]
theorem contents_ok (bytes : Bytes) (stream : ByteStream) :
    contents (.ok bytes :: stream) = bytes ++ contents stream := rfl

@[simp]
theorem contents_map_ok (chunks : List Bytes) : contents (chunks.map .ok) = chunks.flatten := by
  induction chunks with
  | nil => rfl
  | cons chunk chunks ih => rw [List.map_cons, contents_ok, ih, List.flatten_cons]

theorem readStream_map_ok (chunks : List Bytes) :
    readStream (chunks.map .ok) = .ok chunks.flatten := by
  induction chunks with
  | nil => rfl
  | cons chunk chunks ih =>
      rw [List.map_cons, readStream, ih]
      rfl

/-- A stream that is read to its end held only chunks. -/
theorem readStream_eq_ok :
    ∀ {stream : ByteStream} {bytes : Bytes}, readStream stream = .ok bytes →
      ∃ chunks : List Bytes, stream = chunks.map .ok ∧ chunks.flatten = bytes
  | [], bytes, h => ⟨[], rfl, by simpa [readStream] using h⟩
  | .error e :: stream, bytes, h => by cases h
  | .ok chunk :: stream, bytes, h => by
      cases hrest : readStream stream with
      | error e =>
          rw [readStream, hrest] at h
          cases h
      | ok later =>
          rw [readStream, hrest] at h
          obtain ⟨chunks, hstream, hflatten⟩ := readStream_eq_ok hrest
          refine ⟨chunk :: chunks, by rw [hstream]; rfl, ?_⟩
          rw [List.flatten_cons, hflatten]
          exact Except.ok.inj h

/-- What the handlers share besides the stores. -/
structure AppState where
  auth : Authorizer
  maxBlobBytes : UInt64

end MbxCache.Server
