/-
# The in-memory metadata store

Three locked collections. Action results are kept as encoded bytes and decoded on
every read; manifests are kept as they are, next to their entity tag.
-/

import Mathlib.Data.Finset.Insert
import MbxCache.Crates
import MbxCache.Metadata.Store

namespace MbxCache

open Foundation

/-- A row of metadata belongs to a namespace and a digest. -/
abbrev MetadataKey := String × Digest

structure MemoryMetadata where
  entries : MetadataKey → Option Bytes
  blobs : Finset MetadataKey
  manifests : MetadataKey → Option (String × TaskActionManifest)

namespace MemoryMetadata

/-- The store of a fresh server. -/
def empty : MemoryMetadata where
  entries _ := none
  blobs := ∅
  manifests _ := none

def visibleBlobs (store : MemoryMetadata) (ns : String) (digests : List Digest) : List Digest :=
  digests.filter fun digest => (ns, digest) ∈ store.blobs

/-- The default: ask about one digest. -/
def blobVisible (store : MemoryMetadata) (ns : String) (digest : Digest) : Bool :=
  !(store.visibleBlobs ns [digest]).isEmpty

/-- Nothing here ages out, so what the put did to the object does not matter. -/
def registerBlob (store : MemoryMetadata) (ns : String) (digest : Digest)
    (_stored : PutOutcome) : MemoryMetadata :=
  { store with blobs := insert (ns, digest) store.blobs }

section

variable (crates : Crates)

def get (store : MemoryMetadata) (ns : String) (action : Digest) :
    Except String (Option ActionResult) :=
  match store.entries (ns, action) with
  | none => .ok none
  | some value => (crates.resultFromSlice value).map some

/-- The default: look the actions up one by one and keep the ones held. -/
def getBatch (store : MemoryMetadata) (ns : String) :
    List Digest → Except String (List ActionResult)
  | [] => .ok []
  | action :: actions => do
      let result ← store.get crates ns action
      let results ← store.getBatch ns actions
      return result.toList ++ results

def commit (store : MemoryMetadata) (ns : String) (action : Digest) (result : ActionResult) :
    Except String CommitOutcome × MemoryMetadata :=
  match crates.resultToVec result with
  | .error error => (.error error, store)
  | .ok encoded =>
      match store.entries (ns, action) with
      | none =>
          (.ok .created,
            { store with entries := Function.update store.entries (ns, action) (some encoded) })
      | some existing =>
          (.ok (if existing = encoded then .alreadyExists else .conflict), store)

end

def getManifest (store : MemoryMetadata) (ns : String) (key : Digest) : Option ManifestRecord :=
  (store.manifests (ns, key)).map fun (etag, manifest) => { etag, manifest }

/-- Whether the stored entry is the one a write expects to replace. -/
def manifestMatched : Option (String × TaskActionManifest) → Option String → Bool
  | none, none => true
  | some (current, _), some expected => current == expected
  | _, _ => false

/-- The comparison and the write are under one lock. -/
def commitManifest (store : MemoryMetadata) (ns : String) (key : Digest)
    (expectedEtag : Option String) (etag : String) (manifest : TaskActionManifest) :
    ManifestCommitOutcome × MemoryMetadata :=
  let entry := store.manifests (ns, key)
  if !manifestMatched entry expectedEtag then (.preconditionFailed, store)
  else
    (if entry.isSome then .updated else .created,
      { store with
        manifests := Function.update store.manifests (ns, key) (some (etag, manifest)) })

/-- The store as an implementation of the interface; it never fails by itself.
Recording an access does nothing here. -/
def exec (crates : Crates) : (op : MetadataOp) → MemoryMetadata → op.Answer × MemoryMetadata
  | .visibleBlobs ns digests, store => (.ok (store.visibleBlobs ns digests), store)
  | .blobVisible ns digest, store => (.ok (store.blobVisible ns digest), store)
  | .registerBlob ns digest stored, store => (.ok (), store.registerBlob ns digest stored)
  | .touchBlobs _ _, store => (.ok (), store)
  | .get ns action, store => (store.get crates ns action, store)
  | .getBatch ns actions, store => (store.getBatch crates ns actions, store)
  | .commit ns action result, store => store.commit crates ns action result
  | .getManifest ns key, store => (.ok (store.getManifest ns key), store)
  | .commitManifest ns key expectedEtag etag manifest, store =>
      let (outcome, store') := store.commitManifest ns key expectedEtag etag manifest
      (.ok outcome, store')

@[simp]
theorem mem_visibleBlobs {store : MemoryMetadata} {ns : String} {digests : List Digest}
    {digest : Digest} :
    digest ∈ store.visibleBlobs ns digests ↔ digest ∈ digests ∧ (ns, digest) ∈ store.blobs := by
  simp [visibleBlobs]

@[simp]
theorem blobVisible_eq_true {store : MemoryMetadata} {ns : String} {digest : Digest} :
    store.blobVisible ns digest = true ↔ (ns, digest) ∈ store.blobs := by
  by_cases h : (ns, digest) ∈ store.blobs <;> simp [blobVisible, visibleBlobs, h]

/-- A manifest write leaves the rest of the store alone. -/
theorem commitManifest_frame (store : MemoryMetadata) (ns : String) (key : Digest)
    (expectedEtag : Option String) (etag : String) (manifest : TaskActionManifest) :
    (store.commitManifest ns key expectedEtag etag manifest).2.blobs = store.blobs ∧
      (store.commitManifest ns key expectedEtag etag manifest).2.entries = store.entries := by
  simp only [commitManifest]
  split <;> exact ⟨rfl, rfl⟩

end MemoryMetadata

end MbxCache
