/-
# Refused requests

A handler makes its checks before its last store call, and its checks only read.
A request that is answered with an error therefore leaves the catalogue as it
was, provided that a store call that fails has no effect. An upload is the one
request that writes twice; between the two it may leave an object behind that
nobody is told of.
-/

import MbxCache.Foundation.Effects
import MbxCache.Sample
import MbxCache.Server.Stores

namespace MbxCache.Server

open Foundation Program

variable {crates : Crates}

/-! ## Store calls that fail without effect -/

/-- One call of the stores: the right answer, a failure without effect, or an
object whose stream breaks off. -/
inductive Settles (crates : Crates) :
    (op : StoreOp) → Stores MemoryMetadata → op.Answer → Stores MemoryMetadata → Prop where
  | answered (chunking : Chunking) (op : StoreOp) (stores : Stores MemoryMetadata) :
      Settles crates op stores
        (Stores.exec chunking (MemoryMetadata.exec crates) op stores).1
        (Stores.exec chunking (MemoryMetadata.exec crates) op stores).2
  | refused (op : StoreOp) (stores : Stores MemoryMetadata) (error : String) :
      Settles crates op stores (.error error) stores
  | interrupted (stores : Stores MemoryMetadata) (digest : Digest) (content : Bytes)
      (chunks : List Bytes) (error : String) (held : stores.blobs digest = some content)
      (sent : chunks.flatten <+: content) :
      Settles crates (.blobs (.get digest)) stores
        (.ok (some { size := content.length, stream := chunks.map .ok ++ [.error error] })) stores

/-- The calls that only ask. -/
def StoreOp.Reads : StoreOp → Prop
  | .blobs (.get _) => True
  | .blobs (.put _ _) => False
  | .metadata (.visibleBlobs _ _) | .metadata (.blobVisible _ _) | .metadata (.get _ _)
  | .metadata (.getBatch _ _) | .metadata (.getManifest _ _) => True
  | .metadata (.registerBlob _ _ _) | .metadata (.touchBlobs _ _) | .metadata (.commit _ _ _)
  | .metadata (.commitManifest _ _ _ _ _) => False

variable {stores later : Stores MemoryMetadata}

theorem Settles.unchanged_of_reads {op : StoreOp} {answer : op.Answer} (h : op.Reads)
    (hsettles : Settles crates op stores answer later) : later = stores := by
  cases hsettles with
  | refused => rfl
  | interrupted => rfl
  | answered chunking =>
      match op, h with
      | .blobs (.get _), _ => rfl
      | .metadata (.visibleBlobs _ _), _ => rfl
      | .metadata (.blobVisible _ _), _ => rfl
      | .metadata (.get _ _), _ => rfl
      | .metadata (.getBatch _ _), _ => rfl
      | .metadata (.getManifest _ _), _ => rfl

theorem settles_metadata {op : MetadataOp} {answer : op.Answer}
    (h : Settles crates (.metadata op) stores answer later) :
    (∃ error, answer = .error error ∧ later = stores) ∨
      answer = (MemoryMetadata.exec crates op stores.metadata).1 ∧
        later = { stores with metadata := (MemoryMetadata.exec crates op stores.metadata).2 } := by
  cases h with
  | answered chunking => exact .inr ⟨rfl, rfl⟩
  | refused _ _ error => exact .inl ⟨error, rfl, rfl⟩

theorem settles_put {digest : Digest} {source : Bytes} {answer : Except String PutOutcome}
    (h : Settles crates (.blobs (.put digest source)) stores answer later) :
    (∃ error, answer = .error error ∧ later = stores) ∨
      answer = .ok (stores.putObject digest source).1 ∧
        later = (stores.putObject digest source).2 := by
  cases h with
  | answered chunking => exact .inr ⟨rfl, rfl⟩
  | refused _ _ error => exact .inl ⟨error, rfl, rfl⟩

/-! ## Checks only read -/

section Reads

variable {ns : String} {digest : Digest}

theorem reads_blobVisible : Calls StoreOp.Reads (callMetadata (.blobVisible ns digest)) :=
  ⟨trivial, fun _ => trivial⟩

theorem reads_requireBlob {label : String} :
    Calls StoreOp.Reads (requireBlob crates ns digest label) := by
  apply Calls.lift
  intro _ _
  exact reads_blobVisible.bind fun _ => trivial

theorem reads_readVisibleObject {missing : String} :
    Calls StoreOp.Reads (readVisibleObject ns digest missing) := by
  apply reads_blobVisible.bind
  intro visible
  apply Calls.lift
  intro _ _
  have hget : Calls StoreOp.Reads (callBlobs (.get digest)) := ⟨trivial, fun _ => trivial⟩
  apply hget.bind
  intro found
  apply Calls.lift
  intro blob _
  exact calls_done _

theorem reads_readCanonicalObject {label : String} :
    Calls StoreOp.Reads (readCanonicalObject crates ns digest label) := by
  apply Calls.lift
  intro _ _
  apply Calls.lift
  intro _ _
  exact reads_readVisibleObject.bind fun _ => trivial

theorem reads_validateClientMetadata {kind : ActionKind} :
    Calls StoreOp.Reads (validateClientMetadata crates ns digest kind) := by
  apply reads_readCanonicalObject.bind
  intro value
  apply Calls.lift
  intro streams _
  cases streams with
  | none => trivial
  | some pair => exact reads_requireBlob.bind fun _ => reads_requireBlob

theorem reads_readDirectory : Calls StoreOp.Reads (readDirectory crates ns digest) := by
  apply Calls.lift
  intro _ _
  apply reads_readVisibleObject.bind
  intro bytes
  apply Calls.lift
  intro directory _
  exact (calls_forM (fun _ => reads_requireBlob) directory.files).bind fun _ => trivial

theorem reads_visitTree (pending : List Visit) (visiting seen : Finset Digest) :
    Calls StoreOp.Reads (visitTree crates ns pending visiting seen) := by
  induction pending, visiting, seen using visitTree.induct with
  | case1 visiting seen =>
      rw [visitTree]
      trivial
  | case2 visiting seen digest pending ih =>
      rw [visitTree]
      exact ih
  | case3 visiting seen digest pending hseen ih =>
      rw [visitTree, dif_pos hseen]
      exact ih
  | case4 visiting seen digest pending hseen hvisiting =>
      rw [visitTree, dif_neg hseen, dif_pos hvisiting]
      trivial
  | case5 visiting seen digest pending hseen hvisiting hbound =>
      rw [visitTree, dif_neg hseen, dif_neg hvisiting, dif_pos hbound]
      trivial
  | case6 visiting seen digest pending hseen hvisiting hbound ih =>
      rw [visitTree, dif_neg hseen, dif_neg hvisiting, dif_neg hbound]
      exact reads_readDirectory.bind ih

theorem reads_whenPresent {reference : Option Digest} {check : Digest → Handler Unit}
    (h : ∀ digest, Calls StoreOp.Reads (check digest)) :
    Calls StoreOp.Reads (whenPresent reference check) := by
  cases reference with
  | none => trivial
  | some digest => exact h digest

/-- Every check of a result, at any depth of its tree, only reads. -/
theorem reads_validateResult {action : Digest} {result : ActionResult} :
    Calls StoreOp.Reads (validateResult crates ns action result) := by
  apply (reads_readCanonicalObject.bind fun _ => trivial :
    Calls StoreOp.Reads (validateActionDescriptor crates ns action)).bind
  intro kind
  apply Calls.lift
  intro _ _
  apply (reads_whenPresent fun _ => reads_validateClientMetadata).bind
  intro _
  exact reads_whenPresent fun _ => reads_visitTree _ _ _

end Reads

/-! ## Refusals -/

section Refused

variable {state : AppState} {headers : HeaderMap} {parts : DigestParts} {error : ApiError}

/-- A result that is not created changes nothing. -/
theorem commit_unchanged {store : MemoryMetadata} {ns : String} {action : Digest}
    {result : ActionResult}
    (h : (store.commit crates ns action result).1 ≠ .ok .created) :
    (store.commit crates ns action result).2 = store := by
  unfold MemoryMetadata.commit at h ⊢
  split
  · rfl
  · split
    · rename_i hencoded _ hentry
      simp [hencoded, hentry] at h
    · rfl

/-- A manifest that is refused changes nothing. -/
theorem commitManifest_unchanged {store : MemoryMetadata} {ns : String} {key : Digest}
    {expectedEtag : Option String} {etag : String} {manifest : TaskActionManifest}
    (h : (store.commitManifest ns key expectedEtag etag manifest).1 = .preconditionFailed) :
    (store.commitManifest ns key expectedEtag etag manifest).2 = store := by
  unfold MemoryMetadata.commitManifest at h ⊢
  dsimp only at h ⊢
  split
  · rfl
  · rename_i hmatched
    rw [if_neg hmatched] at h
    dsimp only at h
    split at h <;> cases h

/-- A local check that fails is the end of the request. -/
theorem executes_lift {α β : Type} {checked : Except ApiError α} {f : α → Handler β}
    {outcome : Except ApiError β}
    (h : Executes (Settles crates) ((Program.done checked : Handler α) >>= f) stores outcome
      later) :
    later = stores ∨ ∃ a, checked = .ok a ∧ Executes (Settles crates) (f a) stores outcome later := by
  cases checked with
  | error e => exact .inl (executes_done.mp h).2
  | ok a => exact .inr ⟨a, rfl, h⟩

theorem putActionResult_refused {result : ActionResult}
    (h : Executes (Settles crates) (putActionResult crates state headers parts result) stores
      (.error error) later) : later = stores := by
  rcases executes_lift h with hsame | ⟨ns, _, h⟩
  · exact hsame
  rcases executes_lift h with hsame | ⟨_, _, h⟩
  · exact hsame
  rcases executes_lift h with hsame | ⟨action, _, h⟩
  · exact hsame
  rcases executes_lift h with hsame | ⟨_, _, h⟩
  · exact hsame
  have hreads : ∀ {outcome t}, Executes (Settles crates)
      (validateResult crates ns action result) stores outcome t → t = stores :=
    fun hchecks => Calls.unchanged
      (fun _ _ _ _ hop hsettles => hsettles.unchanged_of_reads hop) reads_validateResult hchecks
  rcases executes_bind.mp h with ⟨e, _, hchecks⟩ | ⟨_, middle, hchecks, hcommit⟩
  · exact hreads hchecks
  rw [hreads hchecks] at hcommit
  obtain ⟨answer, t, hsettles, hrest⟩ := executes_call.mp hcommit
  rcases settles_metadata hsettles with ⟨e, rfl, rfl⟩ | ⟨rfl, rfl⟩
  · exact (executes_done.mp hrest).2
  · obtain ⟨hanswer, rfl⟩ := executes_local.mp hrest
    have hnot : (stores.metadata.commit crates ns action result).1 ≠ .ok .created := by
      intro hcreated
      rw [MemoryMetadata.exec, hcreated] at hanswer
      cases hanswer
    rw [MemoryMetadata.exec, commit_unchanged hnot]

theorem putActionManifest_refused {body : ByteStream}
    (h : Executes (Settles crates) (putActionManifest crates state headers parts body) stores
      (.error error) later) : later = stores := by
  rcases executes_lift h with hsame | ⟨ns, _, h⟩
  · exact hsame
  rcases executes_lift h with hsame | ⟨⟨manifest, key, expectedEtag⟩, _, h⟩
  · exact hsame
  rcases executes_lift h with hsame | ⟨etag, _, h⟩
  · exact hsame
  obtain ⟨answer, t, hsettles, hrest⟩ := executes_call.mp h
  rcases settles_metadata hsettles with ⟨e, rfl, rfl⟩ | ⟨rfl, rfl⟩
  · exact (executes_done.mp hrest).2
  · have hlocal : Executes (Settles crates)
        ((Program.done (manifestStatus (stores.metadata.commitManifest ns key expectedEtag etag
          manifest).1) : Handler StatusCode) >>= fun status =>
            .done (.ok (status, quotedEtag etag))) _ (.error error) later := hrest
    obtain ⟨hanswer, rfl⟩ := executes_local.mp hlocal
    cases houtcome : (stores.metadata.commitManifest ns key expectedEtag etag manifest).1 with
    | created =>
        rw [houtcome] at hanswer
        cases hanswer
    | updated =>
        rw [houtcome] at hanswer
        cases hanswer
    | preconditionFailed =>
        have hsame := commitManifest_unchanged houtcome
        simp only [MemoryMetadata.exec, hsame]

/-- An upload that fails may have put its object, and nothing else. -/
theorem putBlob_refused {body : ByteStream}
    (h : Executes (Settles crates) (putBlob crates state headers parts body) stores
      (.error error) later) :
    later = stores ∨ ∃ content, crates.Matches (digestOf parts) content ∧
      stores.blobs (digestOf parts) = none ∧
      later = { stores with
        blobs := Function.update stores.blobs (digestOf parts) (some content) } := by
  rcases executes_lift h with hsame | ⟨ns, _, h⟩
  · exact .inl hsame
  rcases executes_lift h with hsame | ⟨_, _, h⟩
  · exact .inl hsame
  rcases executes_lift h with hsame | ⟨digest, hdigest, h⟩
  · exact .inl hsame
  rcases executes_lift h with hsame | ⟨spool, hspool, h⟩
  · exact .inl hsame
  have hnamed : digest = digestOf parts := ((parseDigest_eq_ok _).mp hdigest).1
  subst hnamed
  obtain ⟨pieces, _, hbytes, hmatches⟩ := receiveBlob_eq_ok hspool
  have hput : later = stores ∨ later =
      (stores.putObject (digestOf parts) spool.bytes).2 := by
    rcases executes_bind.mp h with ⟨e, _, hpublish⟩ | ⟨_, _, _, hdone⟩
    · obtain ⟨answer, t, hsettles, hrest⟩ := executes_call.mp hpublish
      rcases settles_put hsettles with ⟨e, rfl, rfl⟩ | ⟨rfl, rfl⟩
      · exact .inl (executes_done.mp hrest).2
      · obtain ⟨answer, t, hregister, hrest⟩ := executes_call.mp hrest
        rcases settles_metadata hregister with ⟨e, rfl, rfl⟩ | ⟨rfl, rfl⟩
        · exact .inr (executes_done.mp hrest).2
        · cases (executes_done.mp hrest).1
    · cases (executes_done.mp hdone).1
  rcases hput with hsame | hput
  · exact .inl hsame
  · unfold Stores.putObject at hput
    split at hput
    · exact .inl hput
    · rename_i hnone
      exact .inr ⟨pieces.flatten, hmatches, hnone, hbytes ▸ hput⟩

/-- The writes that are answered as one: everything but a pack. -/
inductive SingleWrite : Request → Prop where
  | putBlob (headers : HeaderMap) (parts : DigestParts) (body : ByteStream) :
      SingleWrite (.putBlob headers parts body)
  | putActionResult (headers : HeaderMap) (parts : DigestParts) (result : ActionResult) :
      SingleWrite (.putActionResult headers parts result)
  | putActionManifest (headers : HeaderMap) (parts : DigestParts) (body : ByteStream) :
      SingleWrite (.putActionManifest headers parts body)

/-- Whoever is not let in does not get to the stores. -/
theorem handle_unauthorized {request : Request}
    (h : state.auth.authorize crates request.headers request.access = .error error) :
    handle crates state request = .done (.error error) := by
  cases request <;> dsimp only [Request.headers, Request.access] at h <;>
    simp only [handle, getBlob, putBlob, putBlobPack, missingBlobs, packBlobs, getActionResult,
      batchActionResults, putActionResult, getActionManifest, putActionManifest, h, monadLift_eq,
      error_bind, map_eq_pure_bind]

end Refused

/-- A write that is answered with an error leaves the catalogue of every namespace
as it was. Only an upload may leave something in the blob store: an object where
there was none, with the content its digest describes. A request that is not
authorized does not call a store at all. -/
theorem refused_write_leaves_catalogue (crates : Crates) (state : AppState) :
    (∀ (request : Request) (stores later : Stores MemoryMetadata) (error : ApiError),
      SingleWrite request →
      Executes (Settles crates) (handle crates state request) stores (.error error) later →
      later.metadata = stores.metadata ∧
        (later.blobs = stores.blobs ∨
          ∃ headers parts body content, request = .putBlob headers parts body ∧
            crates.Matches (digestOf parts) content ∧ stores.blobs (digestOf parts) = none ∧
            later.blobs = Function.update stores.blobs (digestOf parts) (some content))) ∧
    ∀ (request : Request) (error : ApiError),
      state.auth.authorize crates request.headers request.access = .error error →
      handle crates state request = .done (.error error) := by
  refine ⟨fun request stores later error hwrite h => ?_, fun _ _ => handle_unauthorized⟩
  cases hwrite with
  | putBlob headers parts body =>
      rcases putBlob_refused (executes_map.mp h) with rfl | ⟨content, hmatches, hnone, rfl⟩
      · exact ⟨rfl, .inl rfl⟩
      · exact ⟨rfl, .inr ⟨headers, parts, body, content, rfl, hmatches, hnone, rfl⟩⟩
  | putActionResult headers parts result =>
      obtain rfl := putActionResult_refused (executes_map.mp h)
      exact ⟨rfl, .inl rfl⟩
  | putActionManifest headers parts body =>
      obtain rfl := putActionManifest_refused (executes_map.mp h)
      exact ⟨rfl, .inl rfl⟩

/-- A server that asks for tokens. -/
def sampleClosed : AppState :=
  { Sample.state with auth := { Sample.state.auth with allowAnonymous := false } }

/-- An upload without a token is refused before it calls a store. -/
theorem refused_upload_leaves_catalogue :
    ∃ later, Executes (Settles Sample.crates)
        (handle Sample.crates sampleClosed
          (Sample.upload Sample.taskActionDigest Sample.taskActionText))
        ⟨fun _ => none, MemoryMetadata.empty⟩
        (.error (.unauthorized "a bearer token is required")) later ∧
      later.metadata = MemoryMetadata.empty := by
  have hcalls := (refused_write_leaves_catalogue Sample.crates sampleClosed).2
    (Sample.upload Sample.taskActionDigest Sample.taskActionText)
    (.unauthorized "a bearer token is required") (by decide +kernel)
  have hexecutes : Executes (Settles Sample.crates)
      (handle Sample.crates sampleClosed
        (Sample.upload Sample.taskActionDigest Sample.taskActionText))
      ⟨fun _ => none, MemoryMetadata.empty⟩
      (.error (.unauthorized "a bearer token is required"))
      ⟨fun _ => none, MemoryMetadata.empty⟩ := by
    rw [hcalls]
    exact .done _ _
  exact ⟨_, hexecutes, ((refused_write_leaves_catalogue Sample.crates sampleClosed).1 _ _ _ _
    (.putBlob _ _ _) hexecutes).1⟩

end MbxCache.Server
