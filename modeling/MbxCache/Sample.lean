/-
# A lawful instance of the outside code

The laws asked of the outside code hold together. The digest rules here are the
documented ones. Hashes, documents and records are the real ones for the handful
of contents below, and one-to-one for every other, so that results which assume
the laws can be applied to inputs a server receives.
-/

import Mathlib.Logic.Equiv.List
import MbxCache.Server.Router

namespace MbxCache.Sample

open Foundation

/-! ## Digests -/

def validate (digest : Digest) : Bool :=
  (digest.algorithm == "blake3" || digest.algorithm == "sha256") &&
    digest.hash.length == 64 && decide (LowerHex digest.hash)

def algorithmKind (digest : Digest) : Except String Algorithm :=
  if digest.algorithm = "blake3" then .ok .blake3
  else if digest.algorithm = "sha256" then .ok .sha256
  else .error "unsupported digest algorithm"

def digestRules : DigestRules where
  validate
  algorithmKind

theorem validate_iff (digest : Digest) : validate digest = true ↔ digest.WellFormed := by
  simp only [validate, Bool.and_eq_true, Bool.or_eq_true, beq_iff_eq, decide_eq_true_eq]
  constructor
  · rintro ⟨⟨halgorithm, hlength⟩, hlower⟩
    refine ⟨?_, hlength, hlower⟩
    rcases halgorithm with h | h
    · exact ⟨.blake3, h⟩
    · exact ⟨.sha256, h⟩
  · rintro ⟨⟨algorithm, halgorithm⟩, hlength, hlower⟩
    refine ⟨⟨?_, hlength⟩, hlower⟩
    cases algorithm with
    | blake3 => exact .inl halgorithm
    | sha256 => exact .inr halgorithm

theorem documented : digestRules.Documented where
  validate_iff := validate_iff
  algorithmKind_asStr algorithm hash size := by
    cases algorithm <;> rfl

/-! ## Documents -/

def number (n : ℕ) : Json := .number (.posInt (UInt64.ofNat n))

mutual

/-- Compact JSON. No document below holds a float, or a string that needs an
escape; a float stands for its bits. -/
def print : Json → String
  | .null => "null"
  | .bool value => if value then "true" else "false"
  | .number (.posInt value) => toString value.toNat
  | .number (.negInt value) => toString value
  | .number (.float bits) => toString bits.toNat
  | .string value => "\"" ++ value ++ "\""
  | .array items => "[" ++ ",".intercalate (printItems items) ++ "]"
  | .object members => "\x7b" ++ ",".intercalate (printMembers members) ++ "\x7d"

def printItems : List Json → List String
  | [] => []
  | item :: items => print item :: printItems items

def printMembers : List (String × Json) → List String
  | [] => []
  | (name, value) :: members => ("\"" ++ name ++ "\":" ++ print value) :: printMembers members

end

/-- The bytes of a text. -/
def utf8 (text : String) : Bytes := text.toUTF8.data.toList

def taskActionJson : Json := .object
  [("args", .array []), ("arch", .string "x86_64"), ("environment", .object []),
    ("kind", .string "task"), ("os", .string "linux"), ("outputs", .array []),
    ("phase", .string "normal"), ("root", .string "."), ("run", .array []), ("shell", .null),
    ("source_hash", .string "0"), ("task", .string "build"), ("tools", .array []),
    ("vars", .object []), ("version", number 1)]

def taskMetadataJson : Json := .object
  [("execution_duration_ns", number 0), ("kind", .string "task"), ("output", .array []),
    ("restored_bytes", number 0), ("roots", .array []), ("task_identity", .string "build"),
    ("version", number 1)]

def directoryJson : Json := .object
  [("directories", .array []), ("files", .array []), ("symlinks", .array []),
    ("version", number 1)]

def taskActionText : Bytes := utf8 (print taskActionJson)

def taskMetadataText : Bytes := utf8 (print taskMetadataJson)

def directoryText : Bytes := utf8 (print directoryJson)

/-- The documents known as text and as value. -/
def documents : List (Bytes × Json) :=
  [(taskActionText, taskActionJson), (taskMetadataText, taskMetadataJson),
    (directoryText, directoryJson)]

def jsonFromSlice (bytes : Bytes) : Except String Json :=
  match documents.lookup bytes with
  | some value => .ok value
  | none => .error "unknown document"

def jsonToVec (value : Json) : Except String Bytes := .ok (utf8 (print value))

/-! ## Serialized records -/

/-- Numbers beyond 64 bits have no place in a document; they become lists. -/
def natToValue (n : ℕ) : Json :=
  if n < 2 ^ 64 then number n else .array (List.replicate n .null)

def natFromValue : Json → Option ℕ
  | .number (.posInt value) => some value.toNat
  | .array items => some items.length
  | _ => none

@[simp]
theorem natFromValue_natToValue (n : ℕ) : natFromValue (natToValue n) = some n := by
  by_cases h : n < 2 ^ 64
  · rw [natToValue, if_pos h]
    simpa [natFromValue, number] using h
  · rw [natToValue, if_neg h]
    simp [natFromValue]

def digestToValue (digest : Digest) : Json := .object
  [("algorithm", .string digest.algorithm), ("hash", .string digest.hash),
    ("size", .number (.posInt digest.size))]

def digestFromValue : Json → Option Digest
  | .object [("algorithm", .string algorithm), ("hash", .string hash),
      ("size", .number (.posInt size))] => some { algorithm, hash, size }
  | _ => none

@[simp]
theorem digestFromValue_digestToValue (digest : Digest) :
    digestFromValue (digestToValue digest) = some digest := rfl

/-- An optional reference is null when there is none. -/
def referenceToValue : Option Digest → Json
  | none => .null
  | some digest => digestToValue digest

def referenceFromValue : Json → Option (Option Digest)
  | .null => some none
  | value => (digestFromValue value).map some

@[simp]
theorem referenceFromValue_referenceToValue (reference : Option Digest) :
    referenceFromValue (referenceToValue reference) = some reference := by
  cases reference <;> rfl

def resultToValue (result : ActionResult) : Json := .object
  [("action", digestToValue result.action), ("metadata", referenceToValue result.metadata),
    ("output_root", referenceToValue result.outputRoot), ("version", natToValue result.version)]

def resultFromValue : Json → Option ActionResult
  | .object [("action", action), ("metadata", metadata), ("output_root", outputRoot),
      ("version", version)] => do
      return {
        action := ← digestFromValue action
        metadata := ← referenceFromValue metadata
        outputRoot := ← referenceFromValue outputRoot
        version := ← natFromValue version }
  | _ => none

theorem resultFromValue_resultToValue (result : ActionResult) :
    resultFromValue (resultToValue result) = some result := by
  simp [resultFromValue, resultToValue]

def predictionToValue (prediction : ActionPrediction) : Json := .object
  [("action", digestToValue prediction.action), ("adapter", .string prediction.adapter),
    ("invocation", digestToValue prediction.invocation),
    ("payload", .string prediction.payload)]

def predictionFromValue : Json → Option ActionPrediction
  | .object [("action", action), ("adapter", .string adapter), ("invocation", invocation),
      ("payload", .string payload)] => do
      return {
        action := ← digestFromValue action
        adapter
        invocation := ← digestFromValue invocation
        payload }
  | _ => none

@[simp]
theorem predictionFromValue_predictionToValue (prediction : ActionPrediction) :
    predictionFromValue (predictionToValue prediction) = some prediction := rfl

def manifestToValue (manifest : TaskActionManifest) : Json := .object
  [("predictions", .array (manifest.predictions.map predictionToValue)),
    ("task", .string manifest.task), ("version", natToValue manifest.version)]

def manifestFromValue : Json → Option TaskActionManifest
  | .object [("predictions", .array predictions), ("task", .string task),
      ("version", version)] => do
      return {
        predictions := ← predictions.mapM predictionFromValue
        task
        version := ← natFromValue version }
  | _ => none

theorem mapM_predictionFromValue (predictions : List ActionPrediction) :
    (predictions.map predictionToValue).mapM predictionFromValue = some predictions := by
  induction predictions with
  | nil => rfl
  | cons prediction predictions ih =>
      rw [List.map_cons, List.mapM_cons, predictionFromValue_predictionToValue, ih]
      rfl

theorem manifestFromValue_manifestToValue (manifest : TaskActionManifest) :
    manifestFromValue (manifestToValue manifest) = some manifest := by
  simp only [manifestFromValue, manifestToValue, mapM_predictionFromValue,
    natFromValue_natToValue]
  rfl

/-! ## Contents -/

def emptyDigest : Digest :=
  ⟨"blake3", "af1349b9f5f9a1a6a0404dea36dcc9499bcb25c9adc112b7cc9a93cae41f3262", 0⟩

def taskActionDigest : Digest :=
  ⟨"blake3", "e4ee2071f3cc3e294b46e421707c8be0d3549ed0eb0bbf6d4c6837f91f2ffe9e", 200⟩

def taskMetadataDigest : Digest :=
  ⟨"blake3", "d31589f2c025683b141f6575503866f9e34d23371ddeacad5c7ab267a0941599", 119⟩

def directoryDigest : Digest :=
  ⟨"blake3", "2bb1dbc35d46c399cb5fde4cd55d1aeaad132902f4f802cd496e37cf55a63774", 55⟩

/-- A result of the task with metadata and no output. -/
def taskResult : ActionResult where
  action := taskActionDigest
  metadata := some taskMetadataDigest
  outputRoot := none
  version := 1

/-- A result of the same task without metadata. -/
def bareResult : ActionResult where
  action := taskActionDigest
  metadata := none
  outputRoot := none
  version := 1

def taskName : String := "bbbbbbbbbbbbbbbbbbbbbbbbbbbbbbbbbbbbbbbbbbbbbbbbbbbbbbbbbbbbbbbb"

/-- A manifest that predicts these actions. -/
def manifest (actions : List Digest) : TaskActionManifest where
  predictions := actions.map fun action =>
    { action, adapter := "rustc", invocation := emptyDigest, payload := "\x7b\x7d" }
  task := taskName
  version := 1

def resultText (result : ActionResult) : Bytes := utf8 (print (resultToValue result))

def manifestText (manifest : TaskActionManifest) : Bytes :=
  utf8 (print (manifestToValue manifest))

/-- BLAKE3 of no content, the documents above, the name of a task and two manifests. -/
def blake3Table : List (Bytes × ℕ) :=
  [([], 0xaf1349b9f5f9a1a6a0404dea36dcc9499bcb25c9adc112b7cc9a93cae41f3262),
    (taskActionText, 0xe4ee2071f3cc3e294b46e421707c8be0d3549ed0eb0bbf6d4c6837f91f2ffe9e),
    (taskMetadataText, 0xd31589f2c025683b141f6575503866f9e34d23371ddeacad5c7ab267a0941599),
    (directoryText, 0x2bb1dbc35d46c399cb5fde4cd55d1aeaad132902f4f802cd496e37cf55a63774),
    (utf8 taskName, 0x542d85592b0780ba29fe2644f3ff5c81b58951e374b33c021e36f618a72ff0f3),
    (manifestText (manifest [taskActionDigest]),
      0x070c5c880439d3b30a56121f9a06ce2fa5ec2465af08d800590a0cfa26c06c7e),
    (manifestText (manifest [taskActionDigest, taskMetadataDigest]),
      0x428c8fca9f629f642f665683f21f34bd59af64eeda6e0bdbbe4daee8d2dd6515)]

/-- SHA-256 of no content. -/
def sha256Table : List (Bytes × ℕ) :=
  [([], 0xe3b0c44298fc1c149afbf4c8996fb92427ae41e4649b934ca495991b7852b855)]

/-- A hash function with known values, which keeps what it has been given. -/
def hasher (table : List (Bytes × ℕ)) : Hasher where
  State := Bytes
  new := []
  update state bytes := state ++ bytes
  finalize state := toBe 32 ((table.lookup state).getD (fromBe state))
  hash bytes := toBe 32 ((table.lookup bytes).getD (fromBe bytes))
  finalize_foldl_update chunks := by
    have hstate : ∀ (chunks : List Bytes) (state : Bytes),
        chunks.foldl (fun state bytes => state ++ bytes) state = state ++ chunks.flatten := by
      intro chunks
      induction chunks with
      | nil => simp
      | cons chunk chunks ih => simp [ih]
    rw [hstate, List.nil_append]
  hash_length bytes := toBe_length _ _

/-! ## Records -/

def taskAction : Model.TaskAction where
  version := 1
  kind := "task"
  task := "build"
  phase := .normal
  run := []
  args := []
  shell := none
  outputs := []
  root := "."
  sourceHash := "0"
  dependencyKeys := []
  environment := []
  commandInputs := []
  vars := []
  tools := []
  os := "linux"
  arch := "x86_64"

def taskMetadata : Model.TaskMetadata where
  version := 1
  kind := "task"
  taskIdentity := "build"
  roots := []
  output := []
  restoredBytes := 0
  executionDurationNs := 0

def directory : Directory where
  directories := []
  files := []
  symlinks := []
  version := 1

/-- The reader of a record that knows one document. -/
def recordOf {α : Type} (document : Json) (record : α) (value : Json) : Except String α :=
  if value = document then .ok record else .error "unknown record"

/-! ### As bytes -/

/-- Strings are counted through the numbers of their characters. -/
instance encodableString : Encodable String :=
  Encodable.ofLeftInjection (fun text => text.toList.map Char.toNat)
    (fun numbers => some (String.ofList (numbers.map Char.ofNat))) fun text => by
      simp [Function.comp_def]

instance encodableDigest : Encodable Digest :=
  Encodable.ofLeftInjection (fun digest => (digest.algorithm, digest.hash, digest.size.toNat))
    (fun parts => some ⟨parts.1, parts.2.1, UInt64.ofNat parts.2.2⟩) fun digest => by simp

instance encodableActionResult : Encodable ActionResult :=
  Encodable.ofLeftInjection
    (fun result => (result.action, result.metadata, result.outputRoot, result.version))
    (fun parts => some ⟨parts.1, parts.2.1, parts.2.2.1, parts.2.2.2⟩) fun _ => rfl

instance encodableActionPrediction : Encodable ActionPrediction :=
  Encodable.ofLeftInjection
    (fun prediction =>
      (prediction.action, prediction.adapter, prediction.invocation, prediction.payload))
    (fun parts => some ⟨parts.1, parts.2.1, parts.2.2.1, parts.2.2.2⟩) fun _ => rfl

instance encodableTaskActionManifest : Encodable TaskActionManifest :=
  Encodable.ofLeftInjection
    (fun manifest => (manifest.predictions, manifest.task, manifest.version))
    (fun parts => some ⟨parts.1, parts.2.1, parts.2.2⟩) fun _ => rfl

section Codec

variable {α : Type} [DecidableEq α]

theorem mem_of_lookup {table : List (α × Bytes)} {record : α} {bytes : Bytes}
    (h : table.lookup record = some bytes) : (record, bytes) ∈ table := by
  obtain ⟨before, after, rfl, _⟩ := List.lookup_eq_some_iff.mp h
  simp

variable [Encodable α]

/-- A known record is written as its text; any other as a zero byte and its number
in unary. No text begins with a zero byte. -/
def toVec (table : List (α × Bytes)) (record : α) : Bytes :=
  (table.lookup record).getD (0 :: List.replicate (Encodable.encode record) 0)

def fromSlice (table : List (α × Bytes)) (bytes : Bytes) : Option α :=
  match bytes with
  | 0 :: rest => Encodable.decode rest.length
  | _ => (table.find? fun entry => entry.2 == bytes).map (·.1)

/-- The texts of a table are texts, and tell its records apart. -/
structure Distinct (table : List (α × Bytes)) : Prop where
  text : ∀ entry ∈ table, entry.2.head? ≠ some 0
  injective : ∀ entry ∈ table, ∀ other ∈ table, entry.2 = other.2 → entry.1 = other.1

theorem fromSlice_toVec {table : List (α × Bytes)} (h : Distinct table) (record : α) :
    fromSlice table (toVec table record) = some record := by
  cases hlookup : table.lookup record with
  | none =>
      rw [toVec, hlookup, Option.getD_none, fromSlice, List.length_replicate, Encodable.encodek]
  | some bytes =>
      have hmem := mem_of_lookup hlookup
      have htext := h.text _ hmem
      rw [toVec, hlookup, Option.getD_some]
      cases hfind : table.find? fun entry => entry.2 == bytes with
      | none => exact absurd (List.find?_eq_none.mp hfind _ hmem) (by simp)
      | some entry =>
          have hentry := List.mem_of_find?_eq_some hfind
          have hsame : entry.2 = bytes := by simpa using List.find?_some hfind
          have hrecord : entry.1 = record := h.injective entry hentry _ hmem hsame
          match bytes, htext with
          | [], _ =>
              rw [fromSlice, hfind, Option.map_some, hrecord]
              simp
          | byte :: rest, htext =>
              have hbyte : byte ≠ 0 := by simpa using htext
              rw [fromSlice, hfind, Option.map_some, hrecord]
              simpa using hbyte

end Codec

/-- The results known as text. -/
def resultTable : List (ActionResult × Bytes) :=
  [(taskResult, resultText taskResult), (bareResult, resultText bareResult)]

/-- The manifests known as text. -/
def manifestTable : List (TaskActionManifest × Bytes) :=
  [manifest [taskActionDigest], manifest [taskActionDigest, taskMetadataDigest]].map
    fun manifest => (manifest, manifestText manifest)

theorem distinct_resultTable : Distinct resultTable where
  text := by decide +kernel
  injective := by decide +kernel

theorem distinct_manifestTable : Distinct manifestTable where
  text := by decide +kernel
  injective := by decide +kernel

/-! ## The instance -/

/-- What a reader that finds nothing reports. -/
def found {α : Type} : Option α → Except String α
  | some a => .ok a
  | none => .error "unknown record"

/-- The key of a manifest is the digest of the task it is about. -/
def selectorDigest (manifest : TaskActionManifest) : Digest where
  algorithm := "blake3"
  hash := hexEncode ((hasher blake3Table).hash (utf8 manifest.task))
  size := UInt64.ofNat (utf8 manifest.task).length

def crates : Crates where
  digests := digestRules
  blake3 := hasher blake3Table
  sha256 := hasher sha256Table
  jsonFromSlice
  jsonToVec
  directoryFromSlice bytes := found (if bytes = directoryText then some directory else none)
  directoryToVec value := found (if value = directory then some directoryText else none)
  resultFromSlice bytes := found (fromSlice resultTable bytes)
  resultToVec result := .ok (toVec resultTable result)
  resultFromValue value := found (resultFromValue value)
  resultToValue result := .ok (resultToValue result)
  manifestFromSlice bytes := found (fromSlice manifestTable bytes)
  manifestFromValue value := found (manifestFromValue value)
  manifestToValue manifest := .ok (manifestToValue manifest)
  manifestValidate manifest := manifest.version == 1
  selectorDigest
  canonicalJson manifest := .ok (toVec manifestTable manifest)
  taskAction := recordOf taskActionJson taskAction
  taskMetadata := recordOf taskMetadataJson taskMetadata
  rustcAction _ := .error "unknown record"
  ccAction _ := .error "unknown record"
  buildScriptAction _ := .error "unknown record"
  buildScriptMetadata _ := .error "unknown record"
  rustcMetadata _ := .error "unknown record"
  ccMetadata _ := .error "unknown record"
  rustcMetadataValidate _ := false
  ccMetadataValidate _ := false
  base64Decode _ := .error "unknown token"

theorem roundTrips : crates.RoundTrips where
  result_slice result :=
    ⟨_, rfl, congrArg found (fromSlice_toVec distinct_resultTable result)⟩
  result_value result := ⟨_, rfl, congrArg found (resultFromValue_resultToValue result)⟩
  manifest_value manifest :=
    ⟨_, rfl, congrArg found (manifestFromValue_manifestToValue manifest)⟩

/-! ## A server and its requests -/

/-- A server that was left open on purpose. -/
def state : Server.AppState where
  auth :=
    { grants := []
      oidc := []
      allowAnonymous := true
      anonymousReadNamespaces := [] }
  maxBlobBytes := 1048576

def headers : Server.HeaderMap :=
  [("mbx-cache-protocol", "1"), ("mbx-cache-namespace", "acme/app"), ("if-none-match", "*")]

/-- Headers of a pack that holds the descriptor. -/
def packHeaders : Server.HeaderMap :=
  headers ++ [("mbx-cache-pack-blobs", "1"), ("mbx-cache-pack-bytes", "200")]

theorem authorize (access : Server.Access) :
    state.auth.authorize crates headers access = .ok "acme/app" := by
  cases access <;> decide +kernel

/-- The upload of a content in one chunk. -/
def upload (digest : Digest) (content : Bytes) : Server.Request :=
  .putBlob headers (Server.partsOf digest) [.ok content]

/-- A task is run: its descriptor and its metadata are uploaded, then its result. -/
def session : List Server.Request :=
  [upload taskActionDigest taskActionText, upload taskMetadataDigest taskMetadataText,
    .putActionResult headers (Server.partsOf taskActionDigest) taskResult]

end MbxCache.Sample
