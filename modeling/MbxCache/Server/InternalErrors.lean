/-
# Who is to blame for an error

A handler answers a request with a value, with an error that names what is wrong
with the request, or with an internal error. The last is kept for the stores: while
every call of them is answered, no request of any client gets one, unless a printer
refuses a value it was given. Whatever the stores fail with, none of it is sent.
-/

import MbxCache.Server.ReadYourWrites

namespace MbxCache.Server

open Foundation Program Pack PackReader

/-! ## Kinds of errors -/

/-- An error that tells a client what is wrong with its request. Nothing is logged. -/
structure ClientError (e : ApiError) : Prop where
  logged : e.logged = none
  atLeast : 400 ≤ e.status
  below : e.status < 500

/-- The error of a printer, of JSON documents or of canonical manifests. -/
inductive PrinterError (crates : Crates) : ApiError → Prop where
  | json (value : Json) (text : String) (refused : crates.jsonToVec value = .error text) :
      PrinterError crates (.internal text)
  | directory (directory : Directory) (text : String)
      (refused : crates.directoryToVec directory = .error text) :
      PrinterError crates (.internal text)
  | manifest (manifest : TaskActionManifest) (text : String)
      (refused : crates.canonicalJson manifest = .error text) :
      PrinterError crates (.internal text)

/-- What a handler may answer while the stores do their part. -/
def Explained (crates : Crates) (e : ApiError) : Prop := ClientError e ∨ PrinterError crates e

section

variable {crates : Crates}

theorem client_new {status : StatusCode} {message : String}
    (h : 400 ≤ status ∧ status < 500) : ClientError (.new status message) :=
  ⟨rfl, h.1, h.2⟩

theorem client_upgradeRequired : ClientError .upgradeRequired := ⟨rfl, by decide, by decide⟩

theorem explained_new {status : StatusCode} {message : String}
    (h : 400 ≤ status ∧ status < 500) : Explained crates (.new status message) :=
  .inl (client_new h)

theorem explained_of_client {α : Type} {outcome : Except ApiError α} (h : Errs ClientError outcome) :
    Errs (Explained crates) outcome :=
  fun e herror => .inl (h e herror)

/-! ## The checks -/

theorem client_authorizePatterns (patterns : List String) (ns : String) :
    Errs ClientError (authorizePatterns patterns ns) := by
  intro e h
  unfold authorizePatterns at h
  split at h
  · cases h
  · obtain rfl := Except.error.inj h
    exact client_new (by decide)

theorem client_authorizeToken (authorizer : Authorizer) (access : Access)
    (ns token : String) :
    Errs ClientError (authorizeToken crates authorizer access ns token) := by
  intro e h
  unfold authorizeToken at h
  dsimp only at h
  split at h
  · exact client_authorizePatterns _ _ e h
  · split at h
    · obtain rfl := Except.error.inj h
      exact client_new (by decide)
    · split at h
      · obtain rfl := Except.error.inj h
        exact client_new (by decide)
      · split at h
        · obtain rfl := Except.error.inj h
          exact client_new (by decide)
        · split at h
          · cases h
          · obtain rfl := Except.error.inj h
            exact client_new (by decide)

theorem client_authorize (authorizer : Authorizer) (headers : HeaderMap) (access : Access) :
    Errs ClientError (authorizer.authorize crates headers access) := by
  intro e h
  unfold Authorizer.authorize at h
  split at h
  · obtain rfl := Except.error.inj h
    exact client_upgradeRequired
  · split at h
    · obtain rfl := Except.error.inj h
      exact client_new (by decide)
    · split at h
      · cases h
      · split at h
        · cases h
        · split at h
          · obtain rfl := Except.error.inj h
            exact client_new (by decide)
          · exact client_authorizeToken _ _ _ _ e h

theorem client_requireImmutablePrecondition (headers : HeaderMap) :
    Errs ClientError (requireImmutablePrecondition headers) := by
  intro e h
  unfold requireImmutablePrecondition at h
  split at h
  · cases h
  · obtain rfl := Except.error.inj h
    exact client_new (by decide)

theorem client_manifestPrecondition (headers : HeaderMap) :
    Errs ClientError (manifestPrecondition headers) := by
  intro e h
  unfold manifestPrecondition at h
  split at h
  · cases h
  · split at h
    · obtain rfl := Except.error.inj h
      exact client_new (by decide)
    · split at h
      · obtain rfl := Except.error.inj h
        exact client_new (by decide)
      · cases h

theorem client_validateDigest (digest : Digest) :
    Errs ClientError (validateDigest crates.digests digest) := by
  intro e h
  unfold validateDigest at h
  split at h
  · cases h
  · obtain rfl := Except.error.inj h
    exact client_new (by decide)

theorem client_parseDigest (parts : DigestParts) :
    Errs ClientError (parseDigest crates.digests parts) :=
  (client_validateDigest _).bind fun _ => errs_ok _

theorem client_validateActionDigest (digest : Digest) :
    Errs ClientError (validateActionDigest crates.digests digest) := by
  apply (client_validateDigest digest).bind
  intro _
  exact (errs_rejectIf (client_new (by decide))).bind fun _ => errs_ok _

theorem client_parseActionDigest (parts : DigestParts) :
    Errs ClientError (parseActionDigest crates.digests parts) := by
  apply (client_parseDigest parts).bind
  intro digest
  exact (errs_rejectIf (client_new (by decide))).bind fun _ => errs_ok _

theorem client_requiredU64Header (headers : HeaderMap) (name : String) :
    Errs ClientError (requiredU64Header headers name) :=
  errs_okOr (client_new (by decide))

theorem client_packDeclaration (maxBlobBytes : UInt64) (headers : HeaderMap) :
    Errs ClientError (packDeclaration maxBlobBytes headers) := by
  apply (client_requiredU64Header headers _).bind
  intro declaredBlobs
  apply (client_requiredU64Header headers _).bind
  intro declaredBytes
  apply (errs_rejectIf (client_new (by decide))).bind
  intro _
  exact (errs_rejectIf (client_new (by decide))).bind fun _ => errs_ok _

theorem client_packError (error : PackError) : ClientError (packError error) := by
  cases error <;> exact client_new (by decide)

/-! ### Uploads -/

theorem client_algorithmOf (digest : Digest) :
    Errs ClientError (Spool.algorithmOf crates digest) :=
  errs_mapError fun _ => client_new (by decide)

theorem client_verify (spool : Spool crates) (digest : Digest) (message : String) :
    Errs ClientError (spool.verify digest message) := by
  apply (client_algorithmOf digest).bind
  exact fun _ => errs_rejectIf (client_new (by decide))

theorem client_receiveBlob (maxBlobBytes : UInt64) (digest : Digest) (body : ByteStream) :
    Errs ClientError (receiveBlob crates maxBlobBytes digest body) := by
  apply (errs_rejectIf (client_new (by decide))).bind
  intro _
  have hchunk : ∀ (spool : Spool crates) (chunk : Except String Bytes),
      Errs ClientError (receiveChunk crates maxBlobBytes digest spool chunk) := by
    intro spool chunk
    apply Errs.bind
    · exact errs_mapError fun _ => client_new (by decide)
    intro piece
    apply (errs_rejectIf (client_new (by decide))).bind
    intro _
    apply (errs_rejectIf (client_new (by decide))).bind
    intro _
    exact (client_algorithmOf digest).bind fun _ => errs_ok _
  apply (errs_foldlM hchunk body _).bind
  intro spool
  exact (client_verify spool digest _).bind fun _ => errs_ok _

/-! ### Downloads -/

theorem explained_checkDigests (digests : List Digest) (message : String) :
    Errs (Explained crates) (checkDigests (validateDigest crates.digests) message digests) := by
  apply (errs_rejectIf (explained_new (by decide))).bind
  exact fun _ => errs_forM (fun digest => explained_of_client (client_validateDigest digest)) digests

theorem explained_packRequest (maxBlobBytes : UInt64) (digests : List Digest) :
    Errs (Explained crates) (packRequest crates maxBlobBytes digests) := by
  apply (errs_rejectIf (explained_new (by decide))).bind
  intro _
  have hadd : ∀ (request : PackRequest) (digest : Digest),
      Errs (Explained crates) (PackRequest.add crates maxBlobBytes request digest) := by
    intro request digest
    apply (explained_of_client (client_validateDigest digest)).bind
    intro _
    split
    · exact errs_ok _
    · apply (errs_rejectIf (explained_new (by decide))).bind
      intro _
      exact (errs_rejectIf (explained_new (by decide))).bind fun _ => errs_ok _
  exact errs_foldlM hadd digests _

theorem explained_packEntries (visible : List Digest) :
    Errs (Explained crates) (packEntries crates visible) := by
  apply errs_foldlM
  intro pack digest
  have hheader : Errs (Explained crates) (packBlobHeader crates digest) := by
    apply (errs_okOr (explained_new (by decide))).bind
    intro hash
    apply (errs_rejectIf (explained_new (by decide))).bind
    intro _
    apply Errs.bind
    · exact errs_mapError fun _ => explained_new (by decide)
    · exact fun _ => errs_ok _
  apply hheader.bind
  intro header
  apply (errs_rejectIf (explained_new (by decide))).bind
  intro _
  exact (errs_rejectIf (explained_new (by decide))).bind fun _ => errs_ok _

theorem explained_requestedActions (digests : List Digest) :
    Errs (Explained crates) (requestedActions crates digests) := by
  apply (errs_rejectIf (explained_new (by decide))).bind
  intro _
  apply errs_foldlM
  intro requested digest
  exact (explained_of_client (client_validateActionDigest digest)).bind fun _ => errs_ok _

/-! ### Descriptors and metadata -/

/-- A printer that refuses a value is named. -/
theorem explained_printed {α : Type} {printer : α → Except String Bytes} {value : α}
    (h : ∀ text, printer value = .error text → PrinterError crates (.internal text)) :
    Errs (Explained crates) ((printer value).mapError .internal) := by
  intro e herror
  obtain ⟨text, hrefused, rfl⟩ := mapError_eq_error.mp herror
  exact .inr (h text hrefused)

theorem explained_parseCanonicalObject (label : String) (bytes : Bytes) :
    Errs (Explained crates) (parseCanonicalObject crates label bytes) := by
  apply Errs.bind
  · exact errs_mapError fun _ => explained_new (by decide)
  intro value
  apply (errs_rejectIf (explained_new (by decide))).bind
  intro _
  apply (explained_printed fun text h => .json value text h).bind
  intro printed
  exact (errs_rejectIf (explained_new (by decide))).bind fun _ => errs_ok _

theorem explained_supportedVersion (what : String) (supported version : UInt64) :
    Errs (Explained crates) (supportedVersion what supported version) :=
  errs_rejectIf (explained_new (by decide))

theorem explained_parseRecord {α : Type} (what : String) (parse : Json → Except String α)
    (validate : α → Bool) (value : Json) :
    Errs (Explained crates) (parseRecord what parse validate value) := by
  apply Errs.bind
  · exact errs_mapError fun _ => explained_new (by decide)
  intro record
  exact (errs_rejectIf (explained_new (by decide))).bind fun _ => errs_ok _

theorem explained_kindAndVersion (label : String) (value : Json) :
    Errs (Explained crates) (kindAndVersion label value) := by
  apply (errs_okOr (explained_new (by decide))).bind
  intro members
  apply (errs_okOr (explained_new (by decide))).bind
  intro kind
  exact (errs_okOr (explained_new (by decide))).bind fun _ => errs_ok _

theorem explained_acceptDescriptor (value : Json) :
    Errs (Explained crates) (acceptDescriptor crates value) := by
  have hrecord : ∀ {α : Type} (what : String) (supported version : UInt64)
      (parse : Json → Except String α) (validate : α → Bool) (kind : ActionKind),
      Errs (Explained crates) (do
        supportedVersion what supported version
        discard <| parseRecord what parse validate value
        return kind) := by
    intro α what supported version parse validate kind
    apply (explained_supportedVersion what supported version).bind
    intro _
    have hdiscard : Errs (Explained crates) (discard <| parseRecord what parse validate value) :=
      (explained_parseRecord what parse validate value).bind fun _ => errs_ok _
    exact hdiscard.bind fun _ => errs_ok _
  apply (explained_kindAndVersion _ value).bind
  rintro ⟨kind, version⟩
  dsimp only
  split
  · exact hrecord _ _ _ _ _ _
  · exact hrecord _ _ _ _ _ _
  · apply (explained_supportedVersion _ _ _).bind
    intro _
    dsimp only
    split
    · exact fun e h => Except.error.inj h ▸ explained_new (by decide)
    · have hdiscard : Errs (Explained crates) (discard <| parseRecord "task action"
          crates.taskAction Model.TaskAction.validate value) :=
        (explained_parseRecord _ _ _ value).bind fun _ => errs_ok _
      exact hdiscard.bind fun _ => errs_ok _
  · exact hrecord _ _ _ _ _ _
  · exact fun e h => Except.error.inj h ▸ explained_new (by decide)

theorem explained_acceptMetadata (kind : ActionKind) (value : Json) :
    Errs (Explained crates) (acceptMetadata crates kind value) := by
  apply (explained_kindAndVersion _ value).bind
  rintro ⟨named, version⟩
  apply (errs_rejectIf (explained_new (by decide))).bind
  intro _
  cases kind with
  | task =>
      have htask : Errs (Explained crates) (validateTaskMetadata crates value version) := by
        apply (explained_supportedVersion _ _ _).bind
        intro _
        apply (explained_parseRecord _ _ _ value).bind
        intro metadata
        exact errs_forM (fun _ => errs_rejectIf (explained_new (by decide))) metadata.roots
      exact htask.bind fun _ => errs_ok _
  | _ =>
      apply (explained_supportedVersion _ _ _).bind
      intro _
      exact (explained_parseRecord _ _ _ value).bind fun _ => errs_ok _

theorem explained_validateActionResultShape (result : ActionResult) (kind : ActionKind) :
    Errs (Explained crates) (validateActionResultShape result kind) :=
  errs_rejectIf (explained_new (by decide))

/-! ### Output trees and manifests -/

theorem explained_validateDirectoryEntries (directory : Directory) :
    Errs (Explained crates) (validateDirectoryEntries directory) := by
  have hentry : ∀ (names : List String) (name : String) (mode : ℕ),
      Errs (Explained crates) (validateEntry names name mode) := by
    intro names name mode
    apply (errs_rejectIf (explained_new (by decide))).bind
    intro _
    exact (errs_rejectIf (explained_new (by decide))).bind fun _ => errs_ok _
  have hsymlink : ∀ (names : List String) (node : SymlinkNode),
      Errs (Explained crates) (validateSymlink names node) := by
    intro names node
    apply (hentry names node.name node.mode).bind
    intro _
    exact (errs_rejectIf (explained_new (by decide))).bind fun _ => errs_ok _
  apply (errs_foldlM (fun names node => hentry names _ _) _ _).bind
  intro names
  apply (errs_foldlM (fun names node => hentry names _ _) _ _).bind
  intro names
  exact (errs_foldlM hsymlink directory.symlinks names).bind fun _ => errs_ok _

theorem explained_parseDirectory (bytes : Bytes) :
    Errs (Explained crates) (parseDirectory crates bytes) := by
  apply Errs.bind
  · exact errs_mapError fun _ => explained_new (by decide)
  intro directory
  apply (explained_printed fun text h => .directory directory text h).bind
  intro printed
  apply (errs_rejectIf (explained_new (by decide))).bind
  intro _
  apply (errs_rejectIf (explained_new (by decide))).bind
  intro _
  exact (explained_validateDirectoryEntries directory).bind fun _ => errs_ok _

theorem explained_acceptManifest (headers : HeaderMap) (parts : DigestParts) (body : ByteStream) :
    Errs (Explained crates) (acceptManifest crates headers parts body) := by
  have hbytes : Errs (Explained crates) (toBytes maxActionManifestBytes body) := by
    apply Errs.bind
    · exact errs_mapError fun _ => explained_new (by decide)
    intro bytes
    exact (errs_rejectIf (explained_new (by decide))).bind fun _ => errs_ok _
  apply hbytes.bind
  intro bytes
  apply Errs.bind
  · exact errs_mapError fun _ => explained_new (by decide)
  intro manifest
  apply (explained_of_client (client_parseActionDigest parts)).bind
  intro key
  apply (errs_rejectIf (explained_new (by decide))).bind
  intro _
  exact (explained_of_client (client_manifestPrecondition headers)).bind fun _ => errs_ok _

theorem explained_manifestEtag (manifest : TaskActionManifest) :
    Errs (Explained crates) (manifestEtag crates manifest) :=
  (explained_printed fun text h => .manifest manifest text h).bind fun _ => errs_ok _

theorem explained_commitStatus (outcome : CommitOutcome) :
    Errs (Explained crates) (commitStatus outcome) := by
  cases outcome with
  | conflict => exact fun e h => Except.error.inj h ▸ explained_new (by decide)
  | _ => exact errs_ok _

theorem explained_manifestStatus (outcome : ManifestCommitOutcome) :
    Errs (Explained crates) (manifestStatus outcome) := by
  cases outcome with
  | preconditionFailed => exact fun e h => Except.error.inj h ▸ explained_new (by decide)
  | _ => exact errs_ok _

/-! ## The handlers -/

/-- Stores whose calls give values, or errors that may be passed on. -/
structure Tolerates (crates : Crates)
    (exec : (op : StoreOp) → Held → op.Answer → Held → Prop) (fact : Held → Prop)
    (errors : ApiError → Prop) : Prop where
  explained : ∀ e, Explained crates e → errors e
  metadata : ∀ op, Under exec fact (EndsWith errors fun _ => True) (callMetadata op)
  put : ∀ digest source,
    Under exec fact (EndsWith errors fun _ => True) (callBlobs (.put digest source))
  get : ∀ digest, Under exec fact (EndsWith errors fun found : Option Blob =>
    ∀ blob, found = some blob → Errs errors (readStream blob.stream)) (callBlobs (.get digest))

section Tolerates

variable {state : AppState} {ns : String} {fact : Held → Prop} {errors : ApiError → Prop}
  {exec : (op : StoreOp) → Held → op.Answer → Held → Prop}

/-- The handler ends with a value or with one of the errors. -/
abbrev Answered {α : Type} (exec : (op : StoreOp) → Held → op.Answer → Held → Prop)
    (fact : Held → Prop) (errors : ApiError → Prop) (handler : Handler α) : Prop :=
  Under exec fact (EndsWith errors fun _ => True) handler

namespace Tolerates

variable (h : Tolerates crates exec fact errors)

include h

theorem check {α β : Type} {outcome : Except ApiError α} {f : α → Handler β}
    (hcheck : Errs (Explained crates) outcome) (hnext : ∀ a, Answered exec fact errors (f a)) :
    Answered exec fact errors ((done outcome : Handler α) >>= f) :=
  under_local (fun e herror => h.explained e (hcheck e herror)) fun a _ => hnext a

theorem last {α : Type} {outcome : Except ApiError α} (hcheck : Errs (Explained crates) outcome) :
    Answered exec fact errors (done outcome : Handler α) :=
  under_done (fun e herror => h.explained e (hcheck e herror)) fun _ _ => trivial

theorem call {β : Type} (op : MetadataOp) {f : op.Value → Handler β}
    (hnext : ∀ a, Answered exec fact errors (f a)) :
    Answered exec fact errors (callMetadata op >>= f) :=
  under_bind (h.metadata op) fun a _ => hnext a

omit h in
theorem access (digests : List Digest) :
    Answered exec fact errors (recordBlobAccess ns digests) :=
  fun _ _ _ _ _ => trivial

/-! ### References -/

theorem requireBlob (digest : Digest) (label : String) :
    Answered exec fact errors (requireBlob crates ns digest label) := by
  apply h.check (explained_of_client (client_validateDigest digest))
  intro _
  apply h.call (.blobVisible ns digest)
  exact fun _ => h.last (errs_rejectIf (explained_new (by decide)))

theorem readVisibleObject (digest : Digest) (missing : String) :
    Answered exec fact errors (readVisibleObject ns digest missing) := by
  apply h.call (.blobVisible ns digest)
  intro visible
  apply h.check (errs_rejectIf (explained_new (by decide)))
  intro _
  apply under_bind (h.get digest)
  intro found hfound
  cases found with
  | none => exact h.explained _ (explained_new (by decide))
  | some blob => exact under_done (hfound blob rfl) fun _ _ => trivial

theorem readCanonicalObject (digest : Digest) (label : String) :
    Answered exec fact errors (readCanonicalObject crates ns digest label) := by
  apply h.check (explained_of_client (client_validateDigest digest))
  intro _
  apply h.check (errs_rejectIf (explained_new (by decide)))
  intro _
  apply under_bind (h.readVisibleObject digest _)
  exact fun bytes _ => h.last (explained_parseCanonicalObject label bytes)

theorem validateClientMetadata (digest : Digest) (kind : ActionKind) :
    Answered exec fact errors (validateClientMetadata crates ns digest kind) := by
  apply under_bind (h.readCanonicalObject digest _)
  intro value _
  apply h.check (explained_acceptMetadata kind value)
  intro streams
  cases streams with
  | none => trivial
  | some pair =>
      apply under_bind (h.requireBlob pair.1 _)
      exact fun _ _ => h.requireBlob pair.2 _

theorem readDirectory (digest : Digest) :
    Answered exec fact errors (readDirectory crates ns digest) := by
  apply h.check (errs_rejectIf (explained_new (by decide)))
  intro _
  apply under_bind (h.readVisibleObject digest _)
  intro bytes _
  apply h.check (explained_parseDirectory bytes)
  intro directory
  apply under_bind (under_forM (fun file => h.requireBlob file.digest _) directory.files)
  exact fun _ _ => trivial

theorem visitTree (pending : List Visit) (visiting seen : Finset Digest) :
    Answered exec fact errors (visitTree crates ns pending visiting seen) := by
  induction pending, visiting, seen using visitTree.induct with
  | case1 visiting seen =>
      rw [Server.visitTree]
      trivial
  | case2 visiting seen digest pending ih =>
      rw [Server.visitTree]
      exact ih
  | case3 visiting seen digest pending hseen ih =>
      rw [Server.visitTree, dif_pos hseen]
      exact ih
  | case4 visiting seen digest pending hseen hvisiting =>
      rw [Server.visitTree, dif_neg hseen, dif_pos hvisiting]
      exact h.explained _ (explained_new (by decide))
  | case5 visiting seen digest pending hseen hvisiting hbound =>
      rw [Server.visitTree, dif_neg hseen, dif_neg hvisiting, dif_pos hbound]
      exact h.explained _ (explained_new (by decide))
  | case6 visiting seen digest pending hseen hvisiting hbound ih =>
      rw [Server.visitTree, dif_neg hseen, dif_neg hvisiting, dif_neg hbound]
      apply under_bind (h.readDirectory digest)
      exact fun directory _ => ih directory

theorem validateResult (action : Digest) (result : ActionResult) :
    Answered exec fact errors (validateResult crates ns action result) := by
  have hdescriptor : Answered exec fact errors (validateActionDescriptor crates ns action) := by
    apply under_bind (h.readCanonicalObject action _)
    exact fun value _ => h.last (explained_acceptDescriptor value)
  have hpresent : ∀ (reference : Option Digest) (check : Digest → Handler Unit),
      (∀ digest, Answered exec fact errors (check digest)) →
      Answered exec fact errors (whenPresent reference check) := by
    intro reference check hcheck
    cases reference with
    | none => trivial
    | some digest => exact hcheck digest
  apply under_bind hdescriptor
  intro kind _
  apply h.check (explained_validateActionResultShape result kind)
  intro _
  apply under_bind (hpresent _ _ fun metadata => h.validateClientMetadata metadata kind)
  intro _ _
  exact hpresent _ _ fun root => h.visitTree [.enter root] ∅ ∅

/-! ### Uploads -/

theorem publishBlob (digest : Digest) (source : Bytes) :
    Answered exec fact errors (publishBlob ns digest source) := by
  apply under_bind (h.put digest source)
  intro outcome _
  apply h.call (.registerBlob ns digest outcome)
  exact fun _ => trivial

theorem putBlob {headers : HeaderMap} {parts : DigestParts} {body : ByteStream} :
    Answered exec fact errors (putBlob crates state headers parts body) := by
  apply h.check (explained_of_client (client_authorize _ _ _))
  intro ns
  apply h.check (explained_of_client (client_requireImmutablePrecondition headers))
  intro _
  apply h.check (explained_of_client (client_parseDigest parts))
  intro digest
  apply h.check (explained_of_client (client_receiveBlob _ digest body))
  intro spool
  apply under_bind (h.publishBlob digest spool.bytes)
  exact fun _ _ => trivial

end Tolerates

/-- An upload whose open frame is there when the parser is in one. -/
def Open (assembly : Assembly) (upload : PackUpload crates) : Prop :=
  assembly.current.isSome = true → upload.frame.isSome = true

namespace Tolerates

variable (h : Tolerates crates exec fact errors)

include h

theorem handleEvent {assembly assembly' : Assembly} {upload : PackUpload crates}
    {event : PackEvent} (hopen : Open assembly upload)
    (htake : assembly.take event = some assembly') :
    Under exec fact
      (EndsWith errors fun later => Open assembly' later ∧ later.reader = upload.reader)
      (upload.handleEvent ns event) := by
  obtain ⟨frames, current⟩ := assembly
  cases event with
  | started digest => exact ⟨fun _ => rfl, rfl⟩
  | payload payload =>
      cases current with
      | none => cases htake
      | some opened =>
          obtain ⟨frame, hframe⟩ := Option.isSome_iff_exists.mp (hopen rfl)
          have hfound : okOr upload.frame
              (ApiError.internal "payload outside a blob pack frame") = .ok frame :=
            okOr_eq_ok.mpr hframe
          apply under_lift hfound
          have hwrite : Errs errors (frame.write payload) := by
            intro e herror
            exact h.explained e
              ((explained_of_client (client_algorithmOf frame.digest)).bind (fun _ => errs_ok _) e herror)
          exact under_local hwrite fun _ _ => ⟨fun _ => rfl, rfl⟩
  | complete =>
      cases current with
      | none => cases htake
      | some finished =>
          obtain rfl := Option.some.inj htake
          obtain ⟨frame, hframe⟩ := Option.isSome_iff_exists.mp (hopen rfl)
          have hfound : okOr upload.frame
              (ApiError.internal "blob pack frame ended before it began") = .ok frame :=
            okOr_eq_ok.mpr hframe
          apply under_lift hfound
          have hstore : Answered exec fact errors (frame.store ns) :=
            h.check (explained_of_client (client_verify _ _ _)) fun _ => h.publishBlob _ _
          apply under_bind hstore
          intro outcome _
          exact ⟨(by cases ·), PackUpload.count_reader _ _⟩

theorem handleEvents :
    ∀ {events : List PackEvent} {assembly assembly' : Assembly} {upload : PackUpload crates},
      Open assembly upload → assemble assembly events = some assembly' →
      Under exec fact
        (EndsWith errors fun later => Open assembly' later ∧ later.reader = upload.reader)
        (events.foldlM (PackUpload.handleEvent ns) upload)
  | [], assembly, assembly', upload, hopen, hassemble => by
      obtain rfl := Option.some.inj hassemble
      exact ⟨hopen, rfl⟩
  | event :: events, assembly, assembly', upload, hopen, hassemble => by
      rw [assemble, List.foldlM_cons] at hassemble
      obtain ⟨middle, htake, hrest⟩ := Option.bind_eq_some_iff.mp hassemble
      rw [List.foldlM_cons]
      apply under_bind (h.handleEvent hopen htake)
      rintro next ⟨hnext, hreader⟩
      rw [← hreader]
      exact handleEvents hnext hrest

/-- The parser announces payloads and ends only inside a frame, so that the two
errors about frames are never given. -/
theorem handleChunk {upload : PackUpload crates} {chunk : Except String Bytes}
    (hmidway : ∃ assembly consumed, Reads upload.reader assembly consumed ∧
      Open assembly upload) :
    Under exec fact (EndsWith errors fun later => ∃ assembly consumed,
      Reads later.reader assembly consumed ∧ Open assembly later)
      (upload.handleChunk ns chunk) := by
  obtain ⟨assembly, consumed, hreads, hopen⟩ := hmidway
  apply under_local (fun e herror => h.explained e
    (errs_mapError (fun _ => explained_new (by decide)) e herror))
  intro piece _
  have hpush := hreads.push piece
  match hresult : upload.reader.push piece with
  | (.error error, reader') => exact h.explained _ (Or.inl (client_packError error))
  | (.ok events, reader') =>
      rw [hresult] at hpush
      obtain ⟨_, _, assembly', hassemble, hreads'⟩ := hpush
      have hopen' : Open assembly { upload with reader := reader' } := hopen
      apply (h.handleEvents hopen' hassemble).imp
      intro outcome hend
      apply hend.imp fun _ he => he
      rintro later ⟨hlater, hreader⟩
      have hreader : later.reader = reader' := hreader
      exact ⟨assembly', consumed ++ piece, hreader ▸ hreads', hlater⟩

theorem putBlobPack {headers : HeaderMap} {body : ByteStream} :
    Answered exec fact errors (putBlobPack crates state headers body) := by
  apply h.check (explained_of_client (client_authorize _ _ _))
  intro ns
  apply h.check (explained_of_client (client_packDeclaration _ headers))
  rintro ⟨declaredBlobs, declaredBytes⟩
  apply under_bind (under_foldlM (fun _ (upload : PackUpload crates) => ∃ assembly consumed,
    Reads upload.reader assembly consumed ∧ Open assembly upload) ?_ body _ ?_)
  · intro upload _
    apply h.check (errs_mapError fun _ => .inl (client_packError _))
    intro _
    apply h.check (errs_rejectIf (explained_new (by decide)))
    exact fun _ => trivial
  · exact fun chunk rest upload hmidway => h.handleChunk hmidway
  · exact ⟨⟨[], none⟩, [], PackReader.reads_new _ _ _, fun hcurrent => by cases hcurrent⟩

/-! ### Downloads -/

omit h in
theorem streamEntries (entries : List (Bytes × Digest)) :
    Answered exec fact errors (streamEntries entries) := by
  induction entries with
  | nil => trivial
  | cons entry entries ih =>
      have hread : Answered exec fact errors (readObject entry.2) := fun _ _ _ _ _ => trivial
      apply under_bind hread
      intro answer _
      cases openEntry entry.2 answer with
      | error error => trivial
      | ok blob =>
          dsimp only
          split
          · trivial
          · exact under_bind ih fun _ _ => trivial

/-- Every handler answers with a value or with one of the errors. -/
theorem handle (request : Request) : Answered exec fact errors (handle crates state request) := by
  cases request with
  | getBlob headers parts =>
      apply under_map
      apply h.check (explained_of_client (client_authorize _ _ _))
      intro ns
      apply h.check (explained_of_client (client_parseDigest parts))
      intro digest
      apply h.call (.blobVisible ns digest)
      intro visible
      apply h.check (errs_rejectIf (explained_new (by decide)))
      intro _
      apply under_bind (access [digest])
      intro _ _
      apply under_bind (h.get digest)
      intro found _
      apply h.check (errs_okOr (explained_new (by decide)))
      exact fun _ => trivial
  | putBlob headers parts body => exact under_map h.putBlob
  | putBlobPack headers body => exact under_map h.putBlobPack
  | missingBlobs headers digests =>
      apply under_map
      apply h.check (explained_of_client (client_authorize _ _ _))
      intro ns
      apply h.check (explained_checkDigests digests _)
      intro _
      apply h.call (.visibleBlobs ns digests)
      exact fun _ => trivial
  | packBlobs headers digests =>
      apply under_map
      apply h.check (explained_of_client (client_authorize _ _ _))
      intro ns
      apply h.check (explained_packRequest _ digests)
      intro request
      apply h.call (.visibleBlobs ns request.requested)
      intro visible
      apply under_bind (access visible)
      intro _ _
      apply h.check (explained_packEntries visible)
      intro pack
      apply under_bind (streamEntries pack.entries)
      exact fun _ _ => trivial
  | getActionResult headers parts =>
      apply under_map
      apply h.check (explained_of_client (client_authorize _ _ _))
      intro ns
      apply h.check (explained_of_client (client_parseActionDigest parts))
      intro action
      apply h.call (.get ns action)
      exact fun _ => h.last (errs_okOr (explained_new (by decide)))
  | batchActionResults headers digests =>
      apply under_map
      apply h.check (explained_of_client (client_authorize _ _ _))
      intro ns
      apply h.check (explained_requestedActions digests)
      exact fun requested => h.metadata (.getBatch ns requested)
  | putActionResult headers parts result =>
      apply under_map
      apply h.check (explained_of_client (client_authorize _ _ _))
      intro ns
      apply h.check (explained_of_client (client_requireImmutablePrecondition headers))
      intro _
      apply h.check (explained_of_client (client_parseActionDigest parts))
      intro action
      apply h.check (errs_rejectIf (explained_new (by decide)))
      intro _
      apply under_bind (h.validateResult action result)
      intro _ _
      apply h.call (.commit ns action result)
      exact fun outcome => h.last (explained_commitStatus outcome)
  | getActionManifest headers parts =>
      apply under_map
      apply h.check (explained_of_client (client_authorize _ _ _))
      intro ns
      apply h.check (explained_of_client (client_parseActionDigest parts))
      intro key
      apply h.call (.getManifest ns key)
      intro found
      apply h.check (errs_okOr (explained_new (by decide)))
      intro record
      apply h.check (explained_printed fun text hrefused => .manifest record.manifest text hrefused)
      exact fun _ => trivial
  | putActionManifest headers parts body =>
      apply under_map
      apply h.check (explained_of_client (client_authorize _ _ _))
      intro ns
      apply h.check (explained_acceptManifest headers parts body)
      rintro ⟨manifest, key, expectedEtag⟩
      apply h.check (explained_manifestEtag manifest)
      intro etag
      apply h.call (.commitManifest ns key expectedEtag etag manifest)
      intro outcome
      apply h.check (explained_manifestStatus outcome)
      exact fun _ => trivial

end Tolerates

end Tolerates

/-! ## Stores that answer -/

/-- One call that is answered. -/
inductive Replies (crates : Crates) : (op : StoreOp) → Held → op.Answer → Held → Prop where
  | answered (chunking : Chunking) (op : StoreOp) (stores : Held) :
      Replies crates op stores (Stores.exec chunking (MemoryMetadata.exec crates) op stores).1
        (Stores.exec chunking (MemoryMetadata.exec crates) op stores).2

/-- What is stored under an action is read back. -/
theorem exists_get {stores : Held} (htrips : crates.RoundTrips) (h : Consistent crates stores)
    (ns : String) (action : Digest) :
    ∃ found, stores.metadata.get crates ns action = .ok found := by
  unfold MemoryMetadata.get
  cases hentry : stores.metadata.entries (ns, action) with
  | none => exact ⟨none, rfl⟩
  | some bytes =>
      obtain ⟨result, hencoded, _⟩ := h.complete ns action bytes hentry
      obtain ⟨_, hto, hfrom⟩ := htrips.result_slice result
      rw [hencoded] at hto
      obtain rfl := Except.ok.inj hto
      dsimp only
      rw [hfrom]
      exact ⟨some result, rfl⟩

theorem exists_getBatch {stores : Held} (htrips : crates.RoundTrips)
    (h : Consistent crates stores) (ns : String) (actions : List Digest) :
    ∃ results, stores.metadata.getBatch crates ns actions = .ok results := by
  induction actions with
  | nil => exact ⟨[], rfl⟩
  | cons action actions ih =>
      obtain ⟨found, hfound⟩ := exists_get htrips h ns action
      obtain ⟨results, hresults⟩ := ih
      rw [MemoryMetadata.getBatch, hfound, hresults]
      exact ⟨_, rfl⟩

/-- On consistent stores no metadata call fails by itself. -/
theorem exists_exec {stores : Held} (htrips : crates.RoundTrips) (h : Consistent crates stores)
    (op : MetadataOp) :
    ∃ value, (MemoryMetadata.exec crates op stores.metadata).1 = .ok value := by
  cases op with
  | get ns action => exact exists_get htrips h ns action
  | getBatch ns actions => exact exists_getBatch htrips h ns actions
  | commit ns action result =>
      obtain ⟨bytes, hto, _⟩ := htrips.result_slice result
      show ∃ value, (stores.metadata.commit crates ns action result).1 = .ok value
      unfold MemoryMetadata.commit
      rw [hto]
      dsimp only
      cases stores.metadata.entries (ns, action) with
      | none => exact ⟨_, rfl⟩
      | some existing => exact ⟨_, rfl⟩
  | visibleBlobs ns digests => exact ⟨_, rfl⟩
  | blobVisible ns digest => exact ⟨_, rfl⟩
  | registerBlob ns digest stored => exact ⟨_, rfl⟩
  | touchBlobs ns digests => exact ⟨_, rfl⟩
  | getManifest ns key => exact ⟨_, rfl⟩
  | commitManifest ns key expectedEtag etag manifest => exact ⟨_, rfl⟩

theorem tolerates_replies (htrips : crates.RoundTrips) :
    Tolerates crates (Replies crates) (Consistent crates) (Explained crates) where
  explained _ h := h
  metadata op := by
    intro stores answer later hconsistent hreplies
    cases hreplies with
    | answered chunking =>
        obtain ⟨value, hvalue⟩ := exists_exec htrips hconsistent op
        show EndsWith _ _ ((MemoryMetadata.exec crates op stores.metadata).1.mapError ApiError.internal)
        rw [hvalue]
        trivial
  put digest source := by
    intro stores answer later hconsistent hreplies
    cases hreplies with
    | answered chunking => trivial
  get digest := by
    intro stores answer later hconsistent hreplies
    cases hreplies with
    | answered chunking =>
        intro blob hblob e herror
        obtain ⟨content, _, rfl⟩ := Option.map_eq_some_iff.mp hblob
        rw [Stores.blobOf, readStream_map_ok] at herror
        cases herror

/-- Whatever the stores do, an error is explained or kept from the client. -/
def Hidden (crates : Crates) (e : ApiError) : Prop :=
  Explained crates e ∨ ∃ text, e = .internal text

theorem tolerates_answers :
    Tolerates crates (HeldAnswers crates) (fun _ => True) (Hidden crates) where
  explained _ h := .inl h
  metadata op := by
    intro stores answer later _ _
    cases answer with
    | error text => exact .inr ⟨text, rfl⟩
    | ok value => trivial
  put digest source := by
    intro stores answer later _ _
    cases answer with
    | error text => exact .inr ⟨text, rfl⟩
    | ok value => trivial
  get digest := by
    intro stores answer later _ _
    have hread : ∀ stream, Errs (Hidden crates) (readStream stream) := by
      intro stream
      induction stream with
      | nil => exact errs_ok _
      | cons chunk stream ih =>
          rw [readStream]
          apply Errs.bind
          · exact errs_mapError fun text => .inr ⟨text, rfl⟩
          · exact fun _ => ih.bind fun _ => errs_ok _
    cases answer with
    | error text => exact .inr ⟨text, rfl⟩
    | ok found => exact fun blob _ => hread blob.stream

/-! ## The runs -/

variable {state : AppState} {pool : Pool Held Request StoreOp StoreOp.Answer ApiError Reply}

/-- The requests of any number of clients while every call of the stores is answered. -/
abbrev AnsweredPool (crates : Crates) (state : AppState)
    (pool : Pool Held Request StoreOp StoreOp.Answer ApiError Reply) : Prop :=
  Pool.Reachable (Replies crates) (handle crates state) Held.empty pool

theorem AnsweredPool.reachable (h : AnsweredPool crates state pool) :
    ReachablePool crates state pool := by
  apply Pool.Reachable.weaken _ h
  intro op stores answer later hreplies
  cases hreplies with
  | answered chunking => exact .answered chunking op stores

/-- A request for a digest that nobody uploaded. -/
def unknownBlob : Request :=
  .getBlob Sample.headers (partsOf { Sample.taskActionDigest with size := 7 })

end

end MbxCache.Server
