/-
# The service

The routes that work on a namespace, one request type with a constructor for each
of them, and the handler that answers it. A request is what is left after the
transport has decoded it: a body that is parsed before the handler starts appears
parsed, one that is read by the handler appears as a stream.
-/

import MbxCache.Server.Download
import MbxCache.Server.Results
import MbxCache.Server.Upload

namespace MbxCache.Server

open Foundation

inductive Request where
  | getBlob (headers : HeaderMap) (parts : DigestParts)
  | putBlob (headers : HeaderMap) (parts : DigestParts) (body : ByteStream)
  | putBlobPack (headers : HeaderMap) (body : ByteStream)
  | missingBlobs (headers : HeaderMap) (digests : List Digest)
  | packBlobs (headers : HeaderMap) (digests : List Digest)
  | getActionResult (headers : HeaderMap) (parts : DigestParts)
  | batchActionResults (headers : HeaderMap) (digests : List Digest)
  | putActionResult (headers : HeaderMap) (parts : DigestParts) (result : ActionResult)
  | getActionManifest (headers : HeaderMap) (parts : DigestParts)
  | putActionManifest (headers : HeaderMap) (parts : DigestParts) (body : ByteStream)

/-- Status, headers and body of a response that is not an error, as far as the
handler decides them. -/
inductive Reply where
  | blob (response : BlobResponse)
  | stored (status : StatusCode)
  | receipt (receipt : BlobPackReceipt)
  | missing (digests : List Digest)
  | pack (response : PackResponse)
  | result (result : ActionResult)
  | results (results : List ActionResult)
  | committed (status : StatusCode)
  | manifest (response : ManifestResponse)
  | manifestStored (status : StatusCode) (etag : String)

def Request.headers : Request → HeaderMap
  | .getBlob headers _ | .putBlob headers _ _ | .putBlobPack headers _ | .missingBlobs headers _
  | .packBlobs headers _ | .getActionResult headers _ | .batchActionResults headers _
  | .putActionResult headers _ _ | .getActionManifest headers _
  | .putActionManifest headers _ _ => headers

/-- What a request needs the right to do. -/
def Request.access : Request → Access
  | .putBlob .. | .putBlobPack .. | .putActionResult .. | .putActionManifest .. => .write
  | _ => .read

/-- The namespace a request works in. -/
def Request.ns (request : Request) : Option String := namespaceHeader request.headers

def handle (crates : Crates) (state : AppState) : Request → Handler Reply
  | .getBlob headers parts => .blob <$> getBlob crates state headers parts
  | .putBlob headers parts body => .stored <$> putBlob crates state headers parts body
  | .putBlobPack headers body => .receipt <$> putBlobPack crates state headers body
  | .missingBlobs headers digests => .missing <$> missingBlobs crates state headers digests
  | .packBlobs headers digests => .pack <$> packBlobs crates state headers digests
  | .getActionResult headers parts => .result <$> getActionResult crates state headers parts
  | .batchActionResults headers digests =>
      .results <$> batchActionResults crates state headers digests
  | .putActionResult headers parts result =>
      .committed <$> putActionResult crates state headers parts result
  | .getActionManifest headers parts => .manifest <$> getActionManifest crates state headers parts
  | .putActionManifest headers parts body =>
      (fun (status, etag) => .manifestStored status etag) <$>
        putActionManifest crates state headers parts body

/-! ## Transport limits -/

/-- The largest value of `usize` on the 64-bit targets the service is built for. -/
def usizeMax : ℕ := 2 ^ 64 - 1

/-- The longest body the router lets through to `putBlobPack`. -/
def packLimit (maxBlobBytes : UInt64) : ℕ :=
  let limit := maxBlobBytes.toNat
  let limit := min usizeMax (limit + BLOB_PACK_MAGIC.length)
  min usizeMax (limit + min usizeMax (BLOB_PACK_HEADER_BYTES * MAX_BATCH_ITEMS))

end MbxCache.Server
