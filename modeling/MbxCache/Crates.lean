/-
# Outside code as a parameter

Every function the service calls that is not in the repository, as one structure.
The laws a result needs are stated where the functions are, and each result names
the ones it uses.
-/

import MbxCache.Model

namespace MbxCache

open Foundation

/-- The functions of the crates the service is built on. Fallible ones report
their error as a text. -/
structure Crates where
  /-- Digest rules of the protocol crate. -/
  digests : DigestRules
  blake3 : Hasher
  sha256 : Hasher
  /-- Parsing and printing JSON documents. -/
  jsonFromSlice : Bytes → Except String Json
  jsonToVec : Json → Except String Bytes
  directoryFromSlice : Bytes → Except String Directory
  directoryToVec : Directory → Except String Bytes
  resultFromSlice : Bytes → Except String ActionResult
  resultToVec : ActionResult → Except String Bytes
  resultFromValue : Json → Except String ActionResult
  resultToValue : ActionResult → Except String Json
  manifestFromSlice : Bytes → Except String TaskActionManifest
  manifestFromValue : Json → Except String TaskActionManifest
  manifestToValue : TaskActionManifest → Except String Json
  /-- Manifests: their own check, the key they are stored under, and the bytes
  their entity tag is taken over. -/
  manifestValidate : TaskActionManifest → Bool
  selectorDigest : TaskActionManifest → Digest
  canonicalJson : TaskActionManifest → Except String Bytes
  /-- Derived deserializers of the schemas. -/
  taskAction : Json → Except String Model.TaskAction
  taskMetadata : Json → Except String Model.TaskMetadata
  rustcAction : Json → Except String Model.RustcAction
  ccAction : Json → Except String Model.CcAction
  buildScriptAction : Json → Except String Model.BuildScriptAction
  buildScriptMetadata : Json → Except String Model.BuildScriptMetadata
  rustcMetadata : Json → Except String CompilerMetadata
  ccMetadata : Json → Except String CompilerMetadata
  rustcMetadataValidate : CompilerMetadata → Bool
  ccMetadataValidate : CompilerMetadata → Bool
  /-- Unpadded URL-safe base64, for the payload of a bearer token. -/
  base64Decode : String → Except String Bytes

namespace Crates

variable (crates : Crates)

def hasher : Algorithm → Hasher
  | .blake3 => crates.blake3
  | .sha256 => crates.sha256

/-- The hash of a whole content, as a digest spells it. -/
def hashText (algorithm : Algorithm) (content : Bytes) : String :=
  hexEncode ((crates.hasher algorithm).hash content)

@[simp]
theorem hashText_length (algorithm : Algorithm) (content : Bytes) :
    (crates.hashText algorithm content).length = 64 := by
  rw [hashText, hexEncode_length, (crates.hasher algorithm).hash_length]

theorem lowerHex_hashText (algorithm : Algorithm) (content : Bytes) :
    LowerHex (crates.hashText algorithm content) :=
  lowerHex_hexEncode _

/-- The content has the declared length and hashes to the declared hash under the
declared algorithm. -/
def Matches (digest : Digest) (content : Bytes) : Prop :=
  content.length = digest.size.toNat ∧
    ∃ algorithm, crates.digests.algorithmKind digest = .ok algorithm ∧
      crates.hashText algorithm content = digest.hash

/-- The serializer's round trips for the two records kept in metadata: what it
writes it reads back, as bytes and as a value, and it can write both. -/
structure RoundTrips : Prop where
  result_slice : ∀ result, ∃ bytes, crates.resultToVec result = .ok bytes ∧
    crates.resultFromSlice bytes = .ok result
  result_value : ∀ result, ∃ value, crates.resultToValue result = .ok value ∧
    crates.resultFromValue value = .ok result
  manifest_value : ∀ manifest, ∃ value, crates.manifestToValue manifest = .ok value ∧
    crates.manifestFromValue value = .ok manifest

end Crates

end MbxCache
