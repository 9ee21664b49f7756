/-
# The Postgres metadata store

Each method is a program over the statements it sends, so that what runs between
two of its statements is explicit. Sizes are unsigned in a digest and `bigint` in
a table: lists leave out the digests whose size has no `bigint`, single lookups
and writes reinterpret the size.
-/

import Mathlib.Logic.Function.Basic
import MbxCache.Crates
import MbxCache.Metadata.Database
import MbxCache.Metadata.Store

namespace MbxCache

open Foundation

/-- A method of the store: the statements it sends, and its answer. -/
abbrev Query := Program Statement Statement.Answer String

/-- Send a statement; an error of the database is the error of the method. -/
def send (statement : Statement) : Query statement.Value :=
  .call statement .done

/-! ## Sizes -/

/-- `as i64`. -/
def asI64 (size : UInt64) : ℤ :=
  if size.toNat < 2 ^ 63 then size.toNat else size.toNat - 2 ^ 64

/-- `i64::try_from`. -/
def i64TryFrom (size : UInt64) : Option ℤ :=
  if size.toNat < 2 ^ 63 then some size.toNat else none

theorem asI64_injective : Function.Injective asI64 := by
  intro first second h
  have hfirst := first.toNat_lt
  have hsecond := second.toNat_lt
  apply UInt64.toNat_inj.mp
  unfold asI64 at h
  split at h <;> split at h <;> omega

theorem asI64_nonneg {size : UInt64} : 0 ≤ asI64 size ↔ size.toNat < 2 ^ 63 := by
  have hsize := size.toNat_lt
  unfold asI64
  split <;> omega

theorem i64TryFrom_eq (size : UInt64) :
    i64TryFrom size = if size.toNat < 2 ^ 63 then some (asI64 size) else none := by
  unfold i64TryFrom asI64
  split <;> rfl

/-! ## Keys -/

/-- The key of a row about one digest. -/
def rowKey (ns : String) (digest : Digest) : RowKey where
  ns
  algorithm := digest.algorithm
  hash := digest.hash
  size := asI64 digest.size

theorem rowKey_inj {ns ns' : String} {digest digest' : Digest} :
    rowKey ns digest = rowKey ns' digest' ↔ ns = ns' ∧ digest = digest' := by
  constructor
  · intro h
    obtain ⟨hns, halgorithm, hhash, hsize⟩ := RowKey.mk.inj h
    obtain ⟨algorithm, hash, size⟩ := digest
    obtain ⟨algorithm', hash', size'⟩ := digest'
    obtain rfl : algorithm = algorithm' := halgorithm
    obtain rfl : hash = hash' := hhash
    obtain rfl : size = size' := asI64_injective hsize
    exact ⟨hns, rfl⟩
  · rintro ⟨rfl, rfl⟩
    rfl

def representableDigests (digests : List Digest) : List (Digest × ℤ) :=
  digests.filterMap fun digest => (i64TryFrom digest.size).map (digest, ·)

/-- The row of a digest in an unnested list. -/
def columns (digest : Digest × ℤ) : Columns where
  algorithm := digest.1.algorithm
  hash := digest.1.hash
  size := digest.2

namespace PostgresMetadata

/-! ## Methods -/

/-- The digest a returned ordinality stands for. -/
def requestedAt (digests : List (Digest × ℤ)) (ordinal : ℤ) : Except String Digest := do
  let index ← okOr (ordinal - 1).toNat? "out of range integral type conversion attempted"
  okOr (digests[index]?.map Prod.fst) "database returned an invalid blob ordinal"

def visibleBlobs (ns : String) (digests : List Digest) : Query (List Digest) := do
  let digests := representableDigests digests
  if digests.isEmpty then return []
  else
    let rows : List ℤ ← send (.selectVisible ns (digests.map columns))
    let found ← (rows.mapM (requestedAt digests) : Except String (List Digest))
    return found

/-- The default: ask about one digest. -/
def blobVisible (ns : String) (digest : Digest) : Query Bool := do
  let visible ← visibleBlobs ns [digest]
  return !visible.isEmpty

def touchBlobs (ns : String) (digests : List Digest) : Query Unit := do
  let digests := representableDigests digests
  if digests.isEmpty then return
  else
    let _ : ℕ ← send (.touchBlobs ns (digests.map columns))
    return

def registerBlob (ns : String) (digest : Digest) (stored : PutOutcome) : Query Unit := do
  let _ : ℕ ← send (.upsertBlob (rowKey ns digest) (stored == .created))
  return

section

variable (crates : Crates)

/-- Decode a row, if there is one. -/
def decodeResult : Option Json → Except String (Option ActionResult)
  | none => .ok none
  | some value => (crates.resultFromValue value).map some

def get (ns : String) (action : Digest) : Query (Option ActionResult) := do
  let row : Option Json ← send (.selectResult (rowKey ns action))
  decodeResult crates row

def getBatch (ns : String) (actions : List Digest) : Query (List ActionResult) := do
  let actions := representableDigests actions
  if actions.isEmpty then return []
  else
    let rows : List (Option Json) ← send (.selectResults ns (actions.map columns))
    let results ← (rows.mapM (decodeResult crates) : Except String (List (Option ActionResult)))
    return results.reduceOption

/-- The rest of `commit`: read back the row that kept this one out. -/
def compareExisting (ns : String) (action : Digest) (encoded : Json) : Query CommitOutcome := do
  let found ← get crates ns action
  let existing ← okOr found "action result disappeared after conflict"
  let value ← crates.resultToValue existing
  return if value = encoded then .alreadyExists else .conflict

def commit (ns : String) (action : Digest) (result : ActionResult) : Query CommitOutcome := do
  let encoded ← crates.resultToValue result
  let inserted : ℕ ← send (.insertResult (rowKey ns action) encoded)
  if inserted = 1 then return .created
  else compareExisting crates ns action encoded

def decodeManifest : Option (String × Json) → Except String (Option ManifestRecord)
  | none => .ok none
  | some (etag, value) =>
      (crates.manifestFromValue value).map fun manifest => some { etag, manifest }

def getManifest (ns : String) (key : Digest) : Query (Option ManifestRecord) := do
  let row : Option (String × Json) ← send (.selectManifest (rowKey ns key))
  decodeManifest crates row

/-- One statement either way; the number of rows says whether it applied. -/
def writeManifest (ns : String) (key : Digest) (expectedEtag : Option String) (etag : String)
    (manifest : Json) : Query ℕ :=
  match expectedEtag with
  | some expectedEtag => send (.updateManifest (rowKey ns key) etag manifest expectedEtag)
  | none => send (.insertManifest (rowKey ns key) etag manifest)

def commitManifest (ns : String) (key : Digest) (expectedEtag : Option String) (etag : String)
    (manifest : TaskActionManifest) : Query ManifestCommitOutcome := do
  let manifest ← crates.manifestToValue manifest
  let rows ← writeManifest ns key expectedEtag etag manifest
  return if rows = 0 then .preconditionFailed
    else if expectedEtag.isSome then .updated
    else .created

/-- The store as an implementation of the interface. -/
def method : (op : MetadataOp) → Query op.Value
  | .visibleBlobs ns digests => visibleBlobs ns digests
  | .blobVisible ns digest => blobVisible ns digest
  | .registerBlob ns digest stored => registerBlob ns digest stored
  | .touchBlobs ns digests => touchBlobs ns digests
  | .get ns action => get crates ns action
  | .getBatch ns actions => getBatch crates ns actions
  | .commit ns action result => commit crates ns action result
  | .getManifest ns key => getManifest crates ns key
  | .commitManifest ns key expectedEtag etag manifest =>
      commitManifest crates ns key expectedEtag etag manifest

/-- A call with nothing beside it. -/
def exec (now : ℕ) (op : MetadataOp) (db : Database) : op.Answer × Database :=
  (method crates op).run (Database.execute now) db

end

end PostgresMetadata

end MbxCache
