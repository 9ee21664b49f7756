/-
# The calls of a request

Every call of a handler is made in the namespace that its request names, or in none.
Only an upload of a result commits one, which is the result it came with, and a blob is
made visible only under a digest that was checked, or that a frame header spelled, and
within the configured limit. Nothing a store answers changes that.
-/

import MbxCache.Foundation.Monitor
import MbxCache.Pack.Starts
import MbxCache.Server.Runs

namespace MbxCache.Server

open Foundation Program Pack

/-- The namespace a call is made in; objects have none. -/
def StoreOp.ns : StoreOp → Option String
  | .blobs _ => none
  | .metadata (.visibleBlobs ns _) | .metadata (.blobVisible ns _)
  | .metadata (.registerBlob ns _ _) | .metadata (.touchBlobs ns _) | .metadata (.get ns _)
  | .metadata (.getBatch ns _) | .metadata (.commit ns _ _) | .metadata (.getManifest ns _)
  | .metadata (.commitManifest ns _ _ _ _) => some ns

/-- The result that a call commits, if it does. -/
def StoreOp.committed : StoreOp → Option ActionResult
  | .metadata (.commit _ _ result) => some result
  | _ => none

/-- The digest that a call makes visible, if it does. -/
def StoreOp.registered : StoreOp → Option Digest
  | .metadata (.registerBlob _ digest _) => some digest
  | _ => none

/-- A digest that the checks of a path or of a frame header let through. -/
structure Admitted (crates : Crates) (state : AppState) (digest : Digest) : Prop where
  formed : crates.digests.validate digest = true ∨ digest.WellFormed
  limited : digest.size ≤ state.maxBlobBytes

/-- A call that a request may make. -/
structure Inside (crates : Crates) (state : AppState) (request : Request) (op : StoreOp) :
    Prop where
  ns : ∀ ns, op.ns = some ns → request.ns = some ns
  committed : ∀ result, op.committed = some result →
    ∃ headers parts, request = .putActionResult headers parts result
  registered : ∀ digest, op.registered = some digest → Admitted crates state digest

section Inside

variable {crates : Crates} {state : AppState} {ns : String} {request : Request}

theorem inside_blobs {α : Type} (op : BlobOp) {next : (StoreOp.blobs op).Answer → Handler α}
    (hnext : ∀ answer, Calls (Inside crates state request) (next answer)) :
    Calls (Inside crates state request) (.call (.blobs op) next : Handler α) :=
  ⟨⟨fun _ h => (by cases h), fun _ h => (by cases h), fun _ h => (by cases h)⟩, hnext⟩

theorem inside_authorize {α : Type} {access : Access} {f : String → Handler α}
    (hnext : ∀ ns, request.ns = some ns → Calls (Inside crates state request) (f ns)) :
    Calls (Inside crates state request)
      ((done (state.auth.authorize crates request.headers access) : Handler String) >>= f) :=
  Calls.lift fun ns hauth => hnext ns (Authorizer.authorize_eq_ok hauth)

/-- Frames that are open or that these events start are under digests that are let
through. -/
structure Announcing (state : AppState) (events : List PackEvent) (upload : PackUpload crates)
    (_ : Unit) : Prop where
  limit : upload.reader.maxBlobBytes = state.maxBlobBytes.toNat
  frame : ∀ frame, upload.frame = some frame → Admitted crates state frame.digest
  started : ∀ digest, .started digest ∈ events → Admitted crates state digest

section Named

variable (hns : request.ns = some ns)

include hns

theorem inside_metadata (op : MetadataOp) (hop : (StoreOp.metadata op).ns = some ns)
    (hcommitted : (StoreOp.metadata op).committed = none)
    (hregistered : (StoreOp.metadata op).registered = none) :
    Calls (Inside crates state request) (callMetadata op) := by
  refine ⟨⟨fun _ hname => hns.trans (hop.symm.trans hname), ?_, ?_⟩, fun _ => trivial⟩
  · intro result hresult
    rw [hcommitted] at hresult
    cases hresult
  · intro digest hdigest
    rw [hregistered] at hdigest
    cases hdigest

theorem inside_recordBlobAccess (digests : List Digest) :
    Calls (Inside crates state request) (recordBlobAccess ns digests) :=
  ⟨⟨fun _ hname => hns.trans hname, fun _ h => (by cases h), fun _ h => (by cases h)⟩,
    fun _ => trivial⟩

theorem inside_requireBlob (digest : Digest) (label : String) :
    Calls (Inside crates state request) (requireBlob crates ns digest label) := by
  apply Calls.lift
  intro _ _
  apply (inside_metadata hns (.blobVisible ns digest) rfl rfl rfl).bind
  exact fun _ => trivial

theorem inside_readVisibleObject (digest : Digest) (missing : String) :
    Calls (Inside crates state request) (readVisibleObject ns digest missing) := by
  apply (inside_metadata hns (.blobVisible ns digest) rfl rfl rfl).bind
  intro visible
  apply Calls.lift
  intro _ _
  have hget : Calls (Inside crates state request) (callBlobs (.get digest)) :=
    inside_blobs _ fun _ => trivial
  apply hget.bind
  intro found
  apply Calls.lift
  exact fun _ _ => calls_done _

theorem inside_readCanonicalObject (digest : Digest) (label : String) :
    Calls (Inside crates state request) (readCanonicalObject crates ns digest label) := by
  apply Calls.lift
  intro _ _
  apply Calls.lift
  intro _ _
  exact (inside_readVisibleObject hns digest _).bind fun _ => trivial

theorem inside_validateClientMetadata (digest : Digest) (kind : ActionKind) :
    Calls (Inside crates state request) (validateClientMetadata crates ns digest kind) := by
  apply (inside_readCanonicalObject hns digest _).bind
  intro value
  apply Calls.lift
  intro streams _
  cases streams with
  | none => trivial
  | some pair =>
      exact (inside_requireBlob hns pair.1 _).bind fun _ => inside_requireBlob hns pair.2 _

theorem inside_visitTree (pending : List Visit) (visiting seen : Finset Digest) :
    Calls (Inside crates state request) (visitTree crates ns pending visiting seen) := by
  have hread : ∀ digest, Calls (Inside crates state request) (readDirectory crates ns digest) := by
    intro digest
    apply Calls.lift
    intro _ _
    apply (inside_readVisibleObject hns digest _).bind
    intro bytes
    apply Calls.lift
    intro directory _
    apply (calls_forM (fun file : FileNode => inside_requireBlob hns file.digest _) _).bind
    exact fun _ => trivial
  induction pending, visiting, seen using visitTree.induct with
  | case1 visiting seen =>
      rw [visitTree]
      trivial
  | case2 visiting seen digest pending ih =>
      rw [visitTree]
      exact ih
  | case3 visiting seen digest pending hseen ih =>
      rw [visitTree, dif_pos hseen]
      exact ih
  | case4 visiting seen digest pending hseen hvisiting =>
      rw [visitTree, dif_neg hseen, dif_pos hvisiting]
      trivial
  | case5 visiting seen digest pending hseen hvisiting hbound =>
      rw [visitTree, dif_neg hseen, dif_neg hvisiting, dif_pos hbound]
      trivial
  | case6 visiting seen digest pending hseen hvisiting hbound ih =>
      rw [visitTree, dif_neg hseen, dif_neg hvisiting, dif_neg hbound]
      exact (hread digest).bind ih

theorem inside_validateResult (action : Digest) (result : ActionResult) :
    Calls (Inside crates state request) (validateResult crates ns action result) := by
  have hdescriptor : Calls (Inside crates state request) (validateActionDescriptor crates ns action) :=
    (inside_readCanonicalObject hns action _).bind fun _ => trivial
  have hpresent : ∀ (reference : Option Digest) (check : Digest → Handler Unit),
      (∀ digest, Calls (Inside crates state request) (check digest)) →
      Calls (Inside crates state request) (whenPresent reference check) := by
    intro reference check hcheck
    cases reference with
    | none => trivial
    | some digest => exact hcheck digest
  apply hdescriptor.bind
  intro kind
  apply Calls.lift
  intro _ _
  apply (hpresent _ _ fun metadata => inside_validateClientMetadata hns metadata kind).bind
  intro _
  exact hpresent _ _ fun root => inside_visitTree hns [.enter root] ∅ ∅

theorem inside_publishBlob {digest : Digest} (hadmitted : Admitted crates state digest)
    (source : Bytes) : Calls (Inside crates state request) (publishBlob ns digest source) := by
  have hput : Calls (Inside crates state request) (callBlobs (.put digest source)) :=
    inside_blobs _ fun _ => trivial
  apply hput.bind
  intro outcome
  have hregister : Calls (Inside crates state request)
      (callMetadata (.registerBlob ns digest outcome)) := by
    refine ⟨⟨fun _ hname => hns.trans hname, fun _ h => (by cases h), ?_⟩, fun _ => trivial⟩
    intro registered heq
    obtain rfl := Option.some.inj heq
    exact hadmitted
  exact hregister.bind fun _ => trivial

theorem inside_handleEvent {event : PackEvent} {events : List PackEvent}
    {upload : PackUpload crates} (h : Announcing state (event :: events) upload ()) :
    Watched (fun _ _ => True) (Allows (Inside crates state request)) (Announcing state events)
      (upload.handleEvent ns event) () := by
  obtain ⟨hlimit, hframe, hstarted⟩ := h
  have hrest : ∀ digest, .started digest ∈ events → Admitted crates state digest :=
    fun digest hmem => hstarted digest (List.mem_cons_of_mem event hmem)
  cases event with
  | started digest =>
      refine ⟨hlimit, ?_, hrest⟩
      intro frame heq
      obtain rfl := Option.some.inj heq
      exact hstarted digest List.mem_cons_self
  | payload payload =>
      apply watched_lift
      intro frame hopen
      apply watched_lift
      intro written hwritten
      refine ⟨hlimit, ?_, hrest⟩
      intro frame' heq
      obtain rfl := Option.some.inj heq
      obtain ⟨_, _, hwrite⟩ := bind_eq_ok.mp hwritten
      rw [← Except.ok.inj hwrite]
      exact hframe frame (okOr_eq_ok.mp hopen)
  | complete =>
      apply watched_lift
      intro frame hopen
      have hstore : Calls (Inside crates state request) (frame.store ns) :=
        Calls.lift fun _ _ => inside_publishBlob hns (hframe frame (okOr_eq_ok.mp hopen)) _
      apply hstore.watched.bind
      intro outcome _ _
      refine ⟨?_, ?_, hrest⟩
      · rw [PackUpload.count_reader]
        exact hlimit
      · intro frame' heq
        rw [PackUpload.count_frame] at heq
        cases heq

theorem inside_receivePack (declaredBlobs declaredBytes : ℕ) (body : ByteStream) :
    Calls (Inside crates state request)
      (receivePack crates state.maxBlobBytes ns declaredBlobs declaredBytes body) := by
  have hchunk : ∀ (chunk : Except String Bytes) (upload : PackUpload crates),
      Announcing state [] upload () →
      Watched (fun _ _ => True) (Allows (Inside crates state request)) (Announcing state [])
        (upload.handleChunk ns chunk) () := by
    rintro chunk upload ⟨hlimit, hframe, _⟩
    apply watched_lift
    intro piece _
    cases hpush : upload.reader.push piece with
    | mk result reader =>
        cases result with
        | error error => trivial
        | ok events =>
            have hstarts := PackReader.starts_push hpush
            apply watched_foldlM (Announcing state) fun _ _ _ _ hbefore =>
              inside_handleEvent hns hbefore
            refine ⟨hstarts.limits.maxBlobBytes.trans hlimit, hframe, ?_⟩
            intro digest hmem
            obtain ⟨hformed, hsize⟩ := hstarts.announced digest hmem
            exact ⟨.inr hformed, UInt64.le_iff_toNat_le.mpr (hlimit ▸ hsize)⟩
  have hnone : Announcing state []
      { reader := PackReader.new state.maxBlobBytes.toNat declaredBlobs declaredBytes
        frame := none, created := 0, existing := 0 : PackUpload crates } () :=
    ⟨rfl, fun _ heq => (by cases heq), fun _ hmem => (by cases hmem)⟩
  apply (watched_foldlM (fun _ => Announcing state []) (fun chunk _ upload _ hbefore =>
    hchunk chunk upload hbefore) hnone).calls.bind
  intro upload
  apply Calls.lift
  intro _ _
  apply Calls.lift
  exact fun _ _ => trivial

end Named

theorem inside_streamEntries (entries : List (Bytes × Digest)) :
    Calls (Inside crates state request) (streamEntries entries) := by
  induction entries with
  | nil => trivial
  | cons entry entries ih =>
      have hread : Calls (Inside crates state request) (readObject entry.2) := inside_blobs _ fun _ => trivial
      apply hread.bind
      intro answer
      cases openEntry entry.2 answer with
      | error error => trivial
      | ok blob =>
          dsimp only
          split
          · trivial
          · exact ih.bind fun _ => trivial

/-- The calls of a handler are ones that its request may make. -/
theorem inside_handle (request : Request) :
    Calls (Inside crates state request) (handle crates state request) := by
  cases request with
  | getBlob headers parts =>
      apply Calls.map
      apply inside_authorize
      intro ns hns
      apply Calls.lift
      intro digest _
      apply (inside_metadata hns (.blobVisible ns digest) rfl rfl rfl).bind
      intro visible
      apply Calls.lift
      intro _ _
      apply (inside_recordBlobAccess hns [digest]).bind
      intro _
      have hget : Calls (Inside crates state (.getBlob headers parts)) (callBlobs (.get digest)) :=
        inside_blobs _ fun _ => trivial
      apply hget.bind
      intro found
      apply Calls.lift
      exact fun _ _ => trivial
  | putBlob headers parts body =>
      apply Calls.map
      apply inside_authorize
      intro ns hns
      apply Calls.lift
      intro _ _
      apply Calls.lift
      intro digest hdigest
      apply Calls.lift
      intro spool hspool
      obtain ⟨_, hlimit, _⟩ := bind_eq_ok.mp hspool
      have hadmitted : Admitted crates state digest := by
        obtain ⟨rfl, hvalid⟩ := (parseDigest_eq_ok _).mp hdigest
        exact ⟨.inl hvalid, by simpa using hlimit⟩
      exact (inside_publishBlob hns hadmitted spool.bytes).bind fun _ => trivial
  | putBlobPack headers body =>
      apply Calls.map
      apply inside_authorize
      intro ns hns
      apply Calls.lift
      exact fun declared _ => inside_receivePack hns _ _ body
  | missingBlobs headers digests =>
      apply Calls.map
      apply inside_authorize
      intro ns hns
      apply Calls.lift
      intro _ _
      exact (inside_metadata hns (.visibleBlobs ns digests) rfl rfl rfl).bind fun _ => trivial
  | packBlobs headers digests =>
      apply Calls.map
      apply inside_authorize
      intro ns hns
      apply Calls.lift
      intro request _
      apply (inside_metadata hns (.visibleBlobs ns request.requested) rfl rfl rfl).bind
      intro visible
      apply (inside_recordBlobAccess hns visible).bind
      intro _
      apply Calls.lift
      intro pack _
      exact (inside_streamEntries pack.entries).bind fun _ => trivial
  | getActionResult headers parts =>
      apply Calls.map
      apply inside_authorize
      intro ns hns
      apply Calls.lift
      intro action _
      exact (inside_metadata hns (.get ns action) rfl rfl rfl).bind fun _ => calls_done _
  | batchActionResults headers digests =>
      apply Calls.map
      apply inside_authorize
      intro ns hns
      apply Calls.lift
      exact fun requested _ => inside_metadata hns (.getBatch ns requested) rfl rfl rfl
  | putActionResult headers parts result =>
      apply Calls.map
      apply inside_authorize
      intro ns hns
      apply Calls.lift
      intro _ _
      apply Calls.lift
      intro action _
      apply Calls.lift
      intro _ _
      apply (inside_validateResult hns action result).bind
      intro _
      have hcommit : Calls (Inside crates state (.putActionResult headers parts result))
          (callMetadata (.commit ns action result)) := by
        refine ⟨⟨fun _ hname => hns.trans hname, ?_, fun _ h => (by cases h)⟩, fun _ => trivial⟩
        intro committed heq
        obtain rfl := Option.some.inj heq
        exact ⟨headers, parts, rfl⟩
      exact hcommit.bind fun _ => calls_done _
  | getActionManifest headers parts =>
      apply Calls.map
      apply inside_authorize
      intro ns hns
      apply Calls.lift
      intro key _
      apply (inside_metadata hns (.getManifest ns key) rfl rfl rfl).bind
      intro found
      apply Calls.lift
      intro record _
      apply Calls.lift
      exact fun _ _ => trivial
  | putActionManifest headers parts body =>
      apply Calls.map
      apply inside_authorize
      intro ns hns
      apply Calls.lift
      rintro ⟨manifest, key, expectedEtag⟩ _
      apply Calls.lift
      intro etag _
      apply (inside_metadata hns (.commitManifest ns key expectedEtag etag manifest) rfl rfl rfl).bind
      intro outcome
      apply Calls.lift
      exact fun _ _ => trivial

end Inside

end MbxCache.Server
