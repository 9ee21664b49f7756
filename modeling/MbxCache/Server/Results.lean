/-
# Action results and manifests

A result names the action it belongs to, optional client metadata and an optional
output tree. Before it is committed every reference it holds is read back through
the namespace it is published in, so a result is only accepted when what it
refers to could be restored.

The walk over an output tree is the source's own: an explicit stack, a set of
directories on the current path and a set of finished ones. Its termination is
the bound on the number of directories, counted together with the stack.
-/

import Mathlib.Data.Finset.Card
import MbxCache.Server.Operations

namespace MbxCache.Server

open Foundation

section

variable (crates : Crates)

/-! ## References -/

def maxObjectBytes : UInt64 := 16 * 1024 * 1024

/-- The reference a result holds to a blob that is not itself read. -/
def requireBlob (ns : String) (digest : Digest) (label : String) : Handler Unit := do
  validateDigest crates.digests digest
  let visible : Bool ← callMetadata (.blobVisible ns digest)
  rejectIf (!visible) (ApiError.unprocessable s!"{label} is missing")

def requireOutputBlobs (ns : String) (stdout stderr : Digest) (kind : String) :
    Handler Unit := do
  requireBlob crates ns stdout s!"{kind} stdout blob"
  requireBlob crates ns stderr s!"{kind} stderr blob"

/-- The bytes of an object, once the namespace is known to see it. -/
def readVisibleObject (ns : String) (digest : Digest) (missing : String) : Handler Bytes := do
  let visible : Bool ← callMetadata (.blobVisible ns digest)
  rejectIf (!visible) (ApiError.unprocessable missing)
  let found : Option Blob ← callBlobs (.get digest)
  let blob ← okOr found (ApiError.unprocessable missing)
  readStream blob.stream

/-- Parse a JSON object and require the bytes its value prints as. -/
def parseCanonicalObject (label : String) (bytes : Bytes) : Except ApiError Json := do
  let value ← (crates.jsonFromSlice bytes).mapError fun _ =>
    .unprocessable s!"{label} is invalid JSON"
  rejectIf value.asObject.isNone (.unprocessable s!"{label} is not canonical JSON")
  let printed ← (crates.jsonToVec value).mapError .internal
  rejectIf (printed != bytes) (.unprocessable s!"{label} is not canonical JSON")
  return value

def readCanonicalObject (ns : String) (digest : Digest) (label : String) : Handler Json := do
  validateDigest crates.digests digest
  rejectIf (decide (digest.size > maxObjectBytes)) (ApiError.unprocessable s!"{label} is too large")
  let bytes ← readVisibleObject ns digest s!"{label} blob is missing"
  parseCanonicalObject crates label bytes

/-! ## Descriptors and metadata -/

inductive ActionKind where
  | buildScript
  | cc
  | rustc
  | task
  deriving DecidableEq, Repr

/-- The name a kind has in descriptors and in metadata. -/
def ActionKind.name : ActionKind → String
  | .buildScript => "build-script"
  | .cc => "cc"
  | .rustc => "rustc"
  | .task => "task"

def supportedVersion (what : String) (supported version : UInt64) : Except ApiError Unit :=
  rejectIf (version != supported) (.unprocessable s!"unsupported {what} schema {version}")

/-- Parse a record from a JSON value and make its own checks. -/
def parseRecord {α : Type} (what : String) (parse : Json → Except String α)
    (validate : α → Bool) (value : Json) : Except ApiError α := do
  let record ← (parse value).mapError fun error => .unprocessable s!"invalid {what}: {error}"
  rejectIf (!validate record) (.unprocessable s!"invalid {what} values")
  return record

def validateBuildScriptAction (value : Json) (version : UInt64) : Except ApiError ActionKind := do
  supportedVersion "build-script action" 2 version
  discard <| parseRecord "build-script action" crates.buildScriptAction
    (Model.BuildScriptAction.validate crates.digests) value
  return .buildScript

def validateCcAction (value : Json) (version : UInt64) : Except ApiError ActionKind := do
  supportedVersion "cc action" 1 version
  discard <| parseRecord "cc action" crates.ccAction
    (Model.CcAction.validate crates.digests) value
  return .cc

def validateRustcAction (value : Json) (version : UInt64) : Except ApiError ActionKind := do
  supportedVersion "rustc action" 1 version
  discard <| parseRecord "rustc action" crates.rustcAction
    (Model.RustcAction.validate crates.digests) value
  return .rustc

/-- Fields of a task action whose absence the parser would not notice. -/
def taskActionFields : List String :=
  ["version", "kind", "task", "phase", "run", "args", "shell", "outputs", "root", "source_hash",
    "environment", "vars", "tools", "os", "arch"]

/-- Descriptors are checked to be objects before they get here. -/
def validateTaskAction (value : Json) (version : UInt64) : Except ApiError ActionKind := do
  supportedVersion "task action" 1 version
  let members := value.asObject.getD []
  match taskActionFields.find? fun field => (lookupMember members field).isNone with
  | some field => .error (.unprocessable s!"task action field {field.quote} is required")
  | none =>
      discard <| parseRecord "task action" crates.taskAction Model.TaskAction.validate value
      return .task

/-- The kind and the version every canonical object carries. -/
def kindAndVersion (label : String) (value : Json) : Except ApiError (String × UInt64) := do
  let members ← okOr value.asObject (.unprocessable s!"{label} must be a JSON object")
  let kind ← okOr ((lookupMember members "kind").bind Json.asString)
    (.unprocessable s!"{label} kind is required")
  let version ← okOr ((lookupMember members "version").bind Json.asU64)
    (.unprocessable s!"{label} version is required")
  return (kind, version)

/-- The checks on a descriptor once it has been read. -/
def acceptDescriptor (value : Json) : Except ApiError ActionKind := do
  let (kind, version) ← kindAndVersion "action descriptor" value
  match kind with
  | "build-script" => validateBuildScriptAction crates value version
  | "cc" => validateCcAction crates value version
  | "task" => validateTaskAction crates value version
  | "rustc" => validateRustcAction crates value version
  | _ => .error (.unprocessable s!"unsupported action kind {kind.quote}")

def validateActionDescriptor (ns : String) (digest : Digest) : Handler ActionKind := do
  let value ← readCanonicalObject crates ns digest "action descriptor"
  acceptDescriptor crates value

def validateActionResultShape (result : ActionResult) (kind : ActionKind) :
    Except ApiError Unit :=
  rejectIf (kind != .task && (result.metadata.isNone || result.outputRoot.isNone))
    (.unprocessable "compiler action results require metadata and an output root")

def validateTaskRoot (root : String) : Except ApiError Unit :=
  rejectIf (root.isEmpty || root.toList.head? == some '/' || root.toList.contains '\\'
      || root.toList.contains '\x00' || !(root.toList.splitOn '/').all Model.plainComponent)
    (.unprocessable "task metadata root must be a safe relative path")

def validateTaskMetadata (value : Json) (version : UInt64) : Except ApiError Unit := do
  supportedVersion "task metadata" 1 version
  let metadata ← parseRecord "task metadata" crates.taskMetadata Model.TaskMetadata.validate value
  metadata.roots.forM validateTaskRoot

/-- The output streams of compiler metadata, where there are any. -/
def metadataStreams (kind : ActionKind) (value : Json) (version : UInt64) :
    Except ApiError (Option (Digest × Digest)) :=
  match kind with
  | .task => do
      validateTaskMetadata crates value version
      return none
  | .buildScript => do
      supportedVersion "build-script metadata" 1 version
      let metadata ← parseRecord "build-script metadata" crates.buildScriptMetadata
        (Model.BuildScriptMetadata.validate crates.digests) value
      return some (metadata.stdout, metadata.stderr)
  | .cc => do
      supportedVersion "cc metadata" 1 version
      let metadata ← parseRecord "cc metadata" crates.ccMetadata crates.ccMetadataValidate value
      return some (metadata.stdout, metadata.stderr)
  | .rustc => do
      supportedVersion "rustc metadata" 1 version
      let metadata ← parseRecord "rustc metadata" crates.rustcMetadata
        crates.rustcMetadataValidate value
      return some (metadata.stdout, metadata.stderr)

/-- The checks on client metadata once it has been read: its kind is the kind of
the action, and the answer is what it refers to. -/
def acceptMetadata (kind : ActionKind) (value : Json) :
    Except ApiError (Option (Digest × Digest)) := do
  let (named, version) ← kindAndVersion "client metadata" value
  rejectIf (named != kind.name) (.unprocessable "client metadata kind does not match action kind")
  metadataStreams crates kind value version

def validateClientMetadata (ns : String) (digest : Digest) (kind : ActionKind) :
    Handler Unit := do
  let value ← readCanonicalObject crates ns digest "client metadata"
  let streams ← acceptMetadata crates kind value
  match streams with
  | none => return
  | some (stdout, stderr) => requireOutputBlobs crates ns stdout stderr kind.name

/-! ## Output trees -/

/-- The names seen in a directory so far, with one more. -/
def validateEntry (names : List String) (name : String) (mode : ℕ) :
    Except ApiError (List String) := do
  rejectIf (name.isEmpty || name == "." || name == ".." || name.toList.contains '/'
      || name.toList.contains '\\' || name.toList.contains '\x00' || decide (mode > 0o7777))
    (.unprocessable "invalid directory entry")
  rejectIf (names.contains name) (.unprocessable "duplicate directory entry")
  return name :: names

def validateSymlink (names : List String) (node : SymlinkNode) :
    Except ApiError (List String) := do
  let names ← validateEntry names node.name node.mode
  rejectIf (node.target.isEmpty || node.target.toList.contains '\x00')
    (.unprocessable "invalid symlink target")
  return names

def validateDirectoryEntries (directory : Directory) : Except ApiError Unit := do
  let names ← directory.directories.foldlM
    (fun names node => validateEntry names node.name node.mode) []
  let names ← directory.files.foldlM
    (fun names node => validateEntry names node.name node.mode) names
  discard <| directory.symlinks.foldlM validateSymlink names

/-- Parse a directory, require the bytes it prints as, and check its entries. -/
def parseDirectory (bytes : Bytes) : Except ApiError Directory := do
  let directory ← (crates.directoryFromSlice bytes).mapError fun _ =>
    .unprocessable "directory object is invalid"
  let printed ← (crates.directoryToVec directory).mapError .internal
  rejectIf (printed != bytes) (.unprocessable "directory object is not canonical JSON")
  rejectIf (directory.version != 1) (.unprocessable "unsupported directory object version")
  validateDirectoryEntries directory
  return directory

/-- Read one directory and require the files in it. -/
def readDirectory (ns : String) (digest : Digest) : Handler Directory := do
  rejectIf (decide (digest.size > maxObjectBytes))
    (ApiError.unprocessable "directory object is too large")
  let bytes ← readVisibleObject ns digest "directory object is missing"
  let directory ← parseDirectory crates bytes
  directory.files.forM fun file => requireBlob crates ns file.digest "file blob"
  return directory

/-- What is left to do: look into a directory, or leave it. -/
inductive Visit where
  | enter (digest : Digest)
  | exit (digest : Digest)
  deriving DecidableEq, Repr

/-- The visits a directory adds above the rest of the stack. The last directory
is entered first. -/
def pushDirectory (digest : Digest) (directory : Directory) (pending : List Visit) : List Visit :=
  directory.directories.reverse.map (fun node => .enter node.digest) ++ .exit digest :: pending

def maxDirectories : ℕ := 100000

theorem card_union_exit (digest : Digest) (visiting seen : Finset Digest) :
    (seen ∪ visiting).card ≤ (insert digest seen ∪ visiting.erase digest).card := by
  apply Finset.card_le_card
  intro d hd
  by_cases heq : d = digest
  · simp [heq]
  · simpa [heq] using hd

theorem card_union_enter {digest : Digest} {visiting seen : Finset Digest}
    (hseen : digest ∉ seen) (hvisiting : digest ∉ visiting)
    (hbound : ¬ seen.card + (insert digest visiting).card > maxDirectories) :
    (seen ∪ visiting).card < (seen ∪ insert digest visiting).card ∧
      (seen ∪ insert digest visiting).card ≤ maxDirectories := by
  have hnew : digest ∉ seen ∪ visiting := by simp [hseen, hvisiting]
  have hcard : (seen ∪ insert digest visiting).card = (seen ∪ visiting).card + 1 := by
    rw [Finset.union_insert, Finset.card_insert_of_notMem hnew]
  have hle := Finset.card_union_le seen (insert digest visiting)
  omega

/-- The loop of `validateTree`; the head of `pending` is the top of the stack. -/
def visitTree (ns : String) (pending : List Visit) (visiting seen : Finset Digest) :
    Handler Unit :=
  match pending with
  | [] => return
  | .exit digest :: pending => visitTree ns pending (visiting.erase digest) (insert digest seen)
  | .enter digest :: pending =>
      if _hseen : digest ∈ seen then visitTree ns pending visiting seen
      else if _hvisiting : digest ∈ visiting then
        .done (.error (.unprocessable "directory graph contains a cycle"))
      else if _hbound : seen.card + (insert digest visiting).card > maxDirectories then
        .done (.error (.unprocessable "directory graph is too large"))
      else
        readDirectory crates ns digest >>= fun directory =>
          visitTree ns (pushDirectory digest directory pending) (insert digest visiting) seen
termination_by (maxDirectories + 1 - (seen ∪ visiting).card, pending.length)
decreasing_by
  · have hcard := card_union_exit digest visiting seen
    rcases Nat.lt_or_ge (maxDirectories + 1 - (insert digest seen ∪ visiting.erase digest).card)
        (maxDirectories + 1 - (seen ∪ visiting).card) with hlt | hge
    · exact Prod.Lex.left _ _ hlt
    · have heq : maxDirectories + 1 - (insert digest seen ∪ visiting.erase digest).card =
          maxDirectories + 1 - (seen ∪ visiting).card := by omega
      rw [heq]
      exact Prod.Lex.right _ (by simp)
  · exact Prod.Lex.right _ (by simp)
  · obtain ⟨hlt, hle⟩ := card_union_enter _hseen _hvisiting _hbound
    exact Prod.Lex.left _ _ (by omega)

def validateTree (ns : String) (root : Digest) : Handler Unit :=
  visitTree crates ns [.enter root] ∅ ∅

/-! ## Action results -/

def getActionResult (state : AppState) (headers : HeaderMap) (parts : DigestParts) :
    Handler ActionResult := do
  let ns ← state.auth.authorize crates headers .read
  let action ← parseActionDigest crates.digests parts
  let found : Option ActionResult ← callMetadata (.get ns action)
  okOr found (ApiError.notFound "action result not found")

/-- The distinct action digests of a batch, in order of first occurrence. -/
def requestedActions (digests : List Digest) : Except ApiError (List Digest) := do
  rejectIf (decide (digests.length > MAX_BATCH_ITEMS))
    (.badRequest "batch exceeds the supported size")
  digests.foldlM
    (fun requested digest => do
      let digest ← validateActionDigest crates.digests digest
      return if requested.contains digest then requested else requested ++ [digest])
    []

/-- Answer for as many actions as one request asks about. -/
def batchActionResults (state : AppState) (headers : HeaderMap) (digests : List Digest) :
    Handler (List ActionResult) := do
  let ns ← state.auth.authorize crates headers .read
  let requested ← requestedActions crates digests
  callMetadata (.getBatch ns requested)

/-- A check on a reference that is made when the result has it. -/
def whenPresent (reference : Option Digest) (check : Digest → Handler Unit) : Handler Unit :=
  match reference with
  | none => pure ()
  | some digest => check digest

/-- Read back every reference of a result, in the order of the source. -/
def validateResult (ns : String) (action : Digest) (result : ActionResult) : Handler Unit := do
  let kind ← validateActionDescriptor crates ns action
  validateActionResultShape result kind
  whenPresent result.metadata fun metadata => validateClientMetadata crates ns metadata kind
  whenPresent result.outputRoot fun root => validateTree crates ns root

def commitStatus : CommitOutcome → Except ApiError StatusCode
  | .created => .ok 201
  | .alreadyExists => .ok 204
  | .conflict => .error (.conflict "an immutable action result already exists")

def putActionResult (state : AppState) (headers : HeaderMap) (parts : DigestParts)
    (result : ActionResult) : Handler StatusCode := do
  let ns ← state.auth.authorize crates headers .write
  requireImmutablePrecondition headers
  let action ← parseActionDigest crates.digests parts
  rejectIf (result.version != 1 || result.action != action)
    (ApiError.badRequest "action result does not match request")
  validateResult crates ns action result
  let outcome : CommitOutcome ← callMetadata (.commit ns action result)
  commitStatus outcome

/-! ## Action manifests -/

structure ManifestResponse where
  etag : String
  body : Bytes
  deriving DecidableEq

def getActionManifest (state : AppState) (headers : HeaderMap) (parts : DigestParts) :
    Handler ManifestResponse := do
  let ns ← state.auth.authorize crates headers .read
  let key ← parseActionDigest crates.digests parts
  let found : Option ManifestRecord ← callMetadata (.getManifest ns key)
  let record ← okOr found (ApiError.notFound "action manifest not found")
  let body ← (crates.canonicalJson record.manifest).mapError ApiError.internal
  return { etag := quotedEtag record.etag, body }

def maxActionManifestBytes : ℕ := 16 * 1024 * 1024

/-- Collect a body under a bound; a body that fails counts as one too long. -/
def toBytes (limit : ℕ) (body : ByteStream) : Except ApiError Bytes := do
  let bytes ← (readStream body).mapError fun _ => .tooLarge "action manifest is too large"
  rejectIf (decide (bytes.length > limit)) (.tooLarge "action manifest is too large")
  return bytes

/-- The manifest a request carries, the key it is stored under and the entity
tag it is to replace. -/
def acceptManifest (headers : HeaderMap) (parts : DigestParts) (body : ByteStream) :
    Except ApiError (TaskActionManifest × Digest × Option String) := do
  let bytes ← toBytes maxActionManifestBytes body
  let manifest ← (crates.manifestFromSlice bytes).mapError fun error =>
    .badRequest s!"invalid action manifest: {error}"
  let key ← parseActionDigest crates.digests parts
  rejectIf (!crates.manifestValidate manifest || crates.selectorDigest manifest != key)
    (.badRequest "action manifest does not match request")
  let expectedEtag ← manifestPrecondition headers
  return (manifest, key, expectedEtag)

def manifestEtag (manifest : TaskActionManifest) : Except ApiError String := do
  let bytes ← (crates.canonicalJson manifest).mapError .internal
  return crates.hashText .blake3 bytes

def manifestStatus : ManifestCommitOutcome → Except ApiError StatusCode
  | .created => .ok 201
  | .updated => .ok 204
  | .preconditionFailed =>
      .error (.precondition "action manifest changed; read and merge it before retrying")

def putActionManifest (state : AppState) (headers : HeaderMap) (parts : DigestParts)
    (body : ByteStream) : Handler (StatusCode × String) := do
  let ns ← state.auth.authorize crates headers .write
  let (manifest, key, expectedEtag) ← acceptManifest crates headers parts body
  let etag ← manifestEtag crates manifest
  let outcome : ManifestCommitOutcome ←
    callMetadata (.commitManifest ns key expectedEtag etag manifest)
  let status ← manifestStatus outcome
  return (status, quotedEtag etag)

end

end MbxCache.Server
