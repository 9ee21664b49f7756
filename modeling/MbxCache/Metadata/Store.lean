/-
# The metadata interface

The operations a metadata store offers and what each of them answers. Both stores
implement this interface, and the handlers are written against it.
-/

import MbxCache.Protocol

namespace MbxCache

open Foundation

/-- What an upload did to the object. -/
inductive PutOutcome where
  | created
  | alreadyExists
  deriving DecidableEq, Repr

inductive CommitOutcome where
  | created
  | alreadyExists
  | conflict
  deriving DecidableEq, Repr

structure ManifestRecord where
  etag : String
  manifest : TaskActionManifest
  deriving DecidableEq, Repr

inductive ManifestCommitOutcome where
  | created
  | updated
  | preconditionFailed
  deriving DecidableEq, Repr

/-- One call of a metadata store. -/
inductive MetadataOp where
  | visibleBlobs (ns : String) (digests : List Digest)
  | blobVisible (ns : String) (digest : Digest)
  | registerBlob (ns : String) (digest : Digest) (stored : PutOutcome)
  | touchBlobs (ns : String) (digests : List Digest)
  | get (ns : String) (action : Digest)
  | getBatch (ns : String) (actions : List Digest)
  | commit (ns : String) (action : Digest) (result : ActionResult)
  | getManifest (ns : String) (key : Digest)
  | commitManifest (ns : String) (key : Digest) (expectedEtag : Option String) (etag : String)
      (manifest : TaskActionManifest)
  deriving DecidableEq, Repr

/-- The value a call gives when the store does not fail. -/
@[reducible]
def MetadataOp.Value : MetadataOp → Type
  | .visibleBlobs _ _ => List Digest
  | .blobVisible _ _ => Bool
  | .registerBlob _ _ _ => Unit
  | .touchBlobs _ _ => Unit
  | .get _ _ => Option ActionResult
  | .getBatch _ _ => List ActionResult
  | .commit _ _ _ => CommitOutcome
  | .getManifest _ _ => Option ManifestRecord
  | .commitManifest _ _ _ _ _ => ManifestCommitOutcome

/-- A store may fail any call, with a text that is only logged. -/
abbrev MetadataOp.Answer (op : MetadataOp) : Type := Except String op.Value

end MbxCache
