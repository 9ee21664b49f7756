/-
# Records and outside code

The records the service exchanges with its clients, and the code it calls that
is not part of the repository: the protocol crate, the hash functions, and the
JSON serializer. Outside code is one structure of functions, so that every result
says on its face which of their documented laws it uses.

The wire constants are fixed by the repository's own texts: the pack format is
spelled out where it is read, and the batch bound where it is enforced.
-/

import MbxCache.Foundation.Encoding
import MbxCache.Foundation.Json

namespace MbxCache

open Foundation

/-! ## Digests -/

inductive Algorithm where
  | blake3
  | sha256
  deriving DecidableEq, Repr

/-- The name of an algorithm in a digest. -/
def Algorithm.asStr : Algorithm → String
  | .blake3 => "blake3"
  | .sha256 => "sha256"

theorem Algorithm.asStr_injective : Function.Injective Algorithm.asStr := by
  intro first second h
  cases first <;> cases second <;> first | rfl | exact absurd h (by decide)

/-- A content digest as a request names it. Nothing about it is checked until
`validate` is called. -/
structure Digest where
  algorithm : String
  hash : String
  size : UInt64
  deriving DecidableEq, Repr

/-- The digests the service accepts: a known algorithm and a lowercase hash of 32
bytes. -/
structure Digest.WellFormed (digest : Digest) : Prop where
  algorithm : ∃ algorithm : Algorithm, digest.algorithm = algorithm.asStr
  hash_length : digest.hash.length = 64
  hash_lower : LowerHex digest.hash

/-! ## Action results, directories and manifests -/

structure ActionResult where
  action : Digest
  metadata : Option Digest
  outputRoot : Option Digest
  version : ℕ
  deriving DecidableEq, Repr

structure DirectoryNode where
  digest : Digest
  mode : ℕ
  name : String
  deriving DecidableEq, Repr

structure FileNode where
  digest : Digest
  executable : Bool
  mode : ℕ
  name : String
  deriving DecidableEq, Repr

structure SymlinkNode where
  mode : ℕ
  name : String
  target : String
  deriving DecidableEq, Repr

structure Directory where
  directories : List DirectoryNode
  files : List FileNode
  symlinks : List SymlinkNode
  version : ℕ
  deriving DecidableEq, Repr

structure ActionPrediction where
  action : Digest
  adapter : String
  invocation : Digest
  payload : String
  deriving DecidableEq, Repr

structure TaskActionManifest where
  predictions : List ActionPrediction
  task : String
  version : ℕ
  deriving DecidableEq, Repr

/-- Metadata of a rustc or cc result: the two records have the same fields. -/
structure CompilerMetadata where
  kind : String
  stderr : Digest
  stdout : Digest
  version : ℕ
  deriving DecidableEq, Repr

/-! ## Wire constants -/

/-- `MBXPACK1`, the first bytes of every blob pack. -/
def BLOB_PACK_MAGIC : Bytes := [0x4D, 0x42, 0x58, 0x50, 0x41, 0x43, 0x4B, 0x31]

/-- One algorithm byte, 32 hash bytes and an eight-byte length. -/
def BLOB_PACK_HEADER_BYTES : ℕ := 41

def MAX_BATCH_ITEMS : ℕ := 10000

@[simp]
theorem BLOB_PACK_MAGIC_length : BLOB_PACK_MAGIC.length = 8 := rfl

/-! ## Outside code -/

/-- A streaming hash function. The law is the one both hash crates document:
how the input was cut into updates does not matter. -/
structure Hasher where
  State : Type
  new : State
  update : State → Bytes → State
  finalize : State → Bytes
  /-- The hash of a whole input. -/
  hash : Bytes → Bytes
  finalize_foldl_update : ∀ chunks : List Bytes,
    finalize (chunks.foldl update new) = hash chunks.flatten
  hash_length : ∀ bytes, (hash bytes).length = 32

theorem Hasher.finalize_new (hasher : Hasher) : hasher.finalize hasher.new = hasher.hash [] :=
  hasher.finalize_foldl_update []

/-- The checks the protocol crate makes on a digest. -/
structure DigestRules where
  validate : Digest → Bool
  algorithmKind : Digest → Except String Algorithm

/-- What the crate documents about them, and the repository's tests and column
constraints repeat: two algorithms, and lowercase hashes of 32 bytes. -/
structure DigestRules.Documented (rules : DigestRules) : Prop where
  validate_iff : ∀ digest, rules.validate digest = true ↔ digest.WellFormed
  algorithmKind_asStr : ∀ (algorithm : Algorithm) (hash : String) (size : UInt64),
    rules.algorithmKind ⟨algorithm.asStr, hash, size⟩ = .ok algorithm

end MbxCache
