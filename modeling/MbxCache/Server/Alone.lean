/-
# Requests with nothing beside them

What a request answers when the stores do not fail and no other request runs: a
download of one blob, an upload of one, and a pack of the visible ones among the
requested digests. Downloads read and change nothing.
-/

import MbxCache.Server.Guarantees

namespace MbxCache.Server

open Foundation Program Pack

section

variable (crates : Crates) (chunking : Chunking)

/-- One call of the stores while nothing fails. -/
abbrev alone : (op : StoreOp) → Held → op.Answer × Held :=
  Stores.exec chunking (MemoryMetadata.exec crates)

variable {crates chunking}

/-! ## Calls -/

theorem run_callMetadata (op : MetadataOp) (stores : Held) :
    run (alone crates chunking) (callMetadata op) stores =
      ((MemoryMetadata.exec crates op stores.metadata).1.mapError .internal,
        Stores.afterMetadata (MemoryMetadata.exec crates) op stores) := rfl

theorem run_blobVisible (ns : String) (digest : Digest) (stores : Held) :
    run (alone crates chunking) (callMetadata (.blobVisible ns digest)) stores =
      (.ok (stores.metadata.blobVisible ns digest), stores) := rfl

theorem run_visibleBlobs (ns : String) (digests : List Digest) (stores : Held) :
    run (alone crates chunking) (callMetadata (.visibleBlobs ns digests)) stores =
      (.ok (stores.metadata.visibleBlobs ns digests), stores) := rfl

theorem run_recordBlobAccess (ns : String) (digests : List Digest) (stores : Held) :
    run (alone crates chunking) (recordBlobAccess ns digests) stores = (.ok (), stores) := rfl

theorem run_getObject (digest : Digest) (stores : Held) :
    run (alone crates chunking) (callBlobs (.get digest)) stores =
      (.ok ((stores.blobs digest).map (Stores.blobOf chunking)), stores) := rfl

/-! ## One blob -/

/-- A visible digest whose object is held can be fetched. -/
theorem run_getBlob {state : AppState} {headers : HeaderMap} {parts : DigestParts} {ns : String}
    {content : Bytes} {stores : Held}
    (hauth : state.auth.authorize crates headers .read = .ok ns)
    (hvalid : crates.digests.validate (digestOf parts) = true)
    (hsees : Sees stores ns (digestOf parts))
    (hheld : stores.blobs (digestOf parts) = some content) :
    ∃ response, run (alone crates chunking) (getBlob crates state headers parts) stores =
        (.ok response, stores) ∧
      response.contentLength = content.length ∧
      response.body = (chunking.chunks content).map .ok := by
  have hparse : parseDigest crates.digests parts = .ok (digestOf parts) :=
    (parseDigest_eq_ok _).mpr ⟨rfl, hvalid⟩
  have hvisible : stores.metadata.blobVisible ns (digestOf parts) = true :=
    MemoryMetadata.blobVisible_eq_true.mpr hsees
  unfold getBlob
  simp only [monadLift_eq, hauth, hparse, ok_bind]
  rw [run_bind_ok _ (run_blobVisible ns (digestOf parts) stores), hvisible]
  simp only [Bool.not_true, rejectIf, Bool.false_eq_true, if_false, ok_bind]
  rw [run_bind_ok _ (run_recordBlobAccess ns [digestOf parts] stores),
    run_bind_ok _ (run_getObject (digestOf parts) stores), hheld]
  exact ⟨_, rfl, rfl, rfl⟩

/-! ## One upload -/

section Upload

variable {state : AppState} {single : HeaderMap} {ns : String}

@[simp]
theorem digestOf_partsOf (digest : Digest) : digestOf (partsOf digest) = digest := rfl

/-- Headers of a single upload that is let through to its body. -/
structure Uploader (crates : Crates) (state : AppState) (single : HeaderMap) (ns : String) :
    Prop where
  granted : state.auth.authorize crates single .write = .ok ns
  immutable : requireImmutablePrecondition single = .ok ()

/-- Whoever may upload a pack may upload its frames one by one: a single upload
needs one more header, which authorization does not read. -/
theorem uploader_of_granted {headers : HeaderMap}
    (h : state.auth.authorize crates headers .write = .ok ns) :
    Uploader crates state (("if-none-match", "*") :: headers) ns := by
  have hget : ∀ name, name ≠ "if-none-match" →
      HeaderMap.get (("if-none-match", "*") :: headers) name = headers.get name := by
    intro name hne
    have hdiffers : (name == "if-none-match") = false := by simpa using hne
    rw [HeaderMap.get, List.lookup_cons, hdiffers]
    rfl
  refine ⟨?_, rfl⟩
  rw [← h, Authorizer.authorize, Authorizer.authorize, namespaceHeader, namespaceHeader,
    bearerToken, bearerToken, hget _ (by decide), hget _ (by decide), hget _ (by decide)]

/-- The stores after an object was put and registered. -/
def published (stores : Held) (ns : String) (digest : Digest) (source : Bytes) : Held :=
  { (stores.putObject digest source).2 with
    metadata := stores.metadata.registerBlob ns digest (stores.putObject digest source).1 }

theorem run_publishBlob (stores : Held) (ns : String) (digest : Digest) (source : Bytes) :
    run (alone crates chunking) (publishBlob ns digest source) stores =
      (.ok (stores.putObject digest source).1, published stores ns digest source) := by
  have hmetadata := Stores.putObject_metadata stores digest source
  rw [published, ← hmetadata]
  rfl

/-- A body of the declared length within the limit is received to its end. -/
theorem receive_map_ok {digest : Digest} {algorithm : Algorithm} {maxBlobBytes : UInt64}
    (halgorithm : crates.digests.algorithmKind digest = .ok algorithm)
    (hlimit : digest.size ≤ maxBlobBytes) :
    ∀ (pieces : List Bytes) {spool : Spool crates} {content : Bytes},
      spool.Tracks digest content →
      content.length + pieces.flatten.length ≤ digest.size.toNat →
      ∃ spool', (pieces.map .ok : ByteStream).foldlM (receiveChunk crates maxBlobBytes digest)
          spool = .ok spool' ∧ spool'.Tracks digest (content ++ pieces.flatten)
  | [], spool, content, h, _ => ⟨spool, rfl, by simpa using h⟩
  | piece :: pieces, spool, content, h, hlength => by
      have hsize := digest.size.toNat_lt
      have hmax : digest.size.toNat ≤ maxBlobBytes.toNat := hlimit
      rw [List.flatten_cons, List.length_append] at hlength
      have hreceive : receiveChunk crates maxBlobBytes digest spool (.ok piece) =
          .ok (spool.write algorithm piece) := by
        have hwrap : decide (2 ^ 64 ≤ spool.size + piece.length) = false := by
          rw [h.size, decide_eq_false_iff_not]
          omega
        have hlimits : (decide (spool.size + piece.length > digest.size.toNat) ||
            decide (spool.size + piece.length > maxBlobBytes.toNat)) = false := by
          rw [h.size, Bool.or_eq_false_iff, decide_eq_false_iff_not, decide_eq_false_iff_not]
          omega
        apply bind_eq_ok.mpr
        refine ⟨piece, rfl, bind_eq_ok.mpr ⟨(), rejectIf_eq_ok.mpr hwrap, ?_⟩⟩
        refine bind_eq_ok.mpr ⟨(), rejectIf_eq_ok.mpr hlimits, ?_⟩
        exact bind_eq_ok.mpr ⟨algorithm, mapError_eq_ok.mpr halgorithm, rfl⟩
      obtain ⟨spool', hrest, htracks⟩ := receive_map_ok halgorithm hlimit pieces
        (h.write halgorithm piece) (by rw [List.length_append]; omega)
      refine ⟨spool', ?_, by simpa using htracks⟩
      rw [List.map_cons, List.foldlM_cons, hreceive]
      exact hrest

/-- A single upload of verified content, in any pieces, is a put and a
registration. -/
theorem run_putBlob (hrules : crates.digests.Documented)
    (huploader : Uploader crates state single ns) {digest : Digest} (hwf : digest.WellFormed)
    (hlimit : digest.size ≤ state.maxBlobBytes) (pieces : List Bytes)
    (hmatches : crates.Matches digest pieces.flatten) (stores : Held) :
    run (alone crates chunking)
        (putBlob crates state single (partsOf digest) (pieces.map .ok)) stores =
      (.ok (putStatus (stores.putObject digest pieces.flatten).1),
        published stores ns digest pieces.flatten) := by
  have hparse : parseDigest crates.digests (partsOf digest) = .ok digest :=
    (parseDigest_eq_ok _).mpr ⟨rfl, (hrules.validate_iff digest).mpr hwf⟩
  obtain ⟨algorithm, halgorithm, _⟩ := hmatches.2
  obtain ⟨spool, hfold, htracks⟩ := receive_map_ok halgorithm hlimit pieces
    (Spool.tracks_new digest) (by rw [List.length_nil, Nat.zero_add, hmatches.1])
  rw [List.nil_append] at htracks
  have hreceive : receiveBlob crates state.maxBlobBytes digest (pieces.map .ok) = .ok spool := by
    have hnot : decide (digest.size > state.maxBlobBytes) = false := by simpa using hlimit
    refine bind_eq_ok.mpr ⟨(), rejectIf_eq_ok.mpr hnot, bind_eq_ok.mpr ⟨spool, hfold, ?_⟩⟩
    exact bind_eq_ok.mpr ⟨(), htracks.verify_eq_ok.mpr hmatches, rfl⟩
  unfold putBlob
  simp only [monadLift_eq, huploader.granted, huploader.immutable, hparse, hreceive, ok_bind]
  rw [htracks.bytes, run_bind_ok _ (run_publishBlob stores ns digest pieces.flatten)]
  rfl

end Upload

/-! ## An object that is read back -/

theorem run_readVisibleObject {ns missing : String} {digest : Digest} {content : Bytes}
    {stores : Held} (hsees : Sees stores ns digest)
    (hheld : stores.blobs digest = some content) :
    run (alone crates chunking) (readVisibleObject ns digest missing) stores =
      (.ok content, stores) := by
  have hvisible : stores.metadata.blobVisible ns digest = true :=
    MemoryMetadata.blobVisible_eq_true.mpr hsees
  unfold readVisibleObject
  rw [run_bind_ok _ (run_blobVisible ns digest stores), hvisible]
  simp only [Bool.not_true, rejectIf, Bool.false_eq_true, if_false, monadLift_eq, ok_bind]
  rw [run_bind_ok _ (run_getObject digest stores), hheld]
  simp only [Option.map_some, okOr, ok_bind, Stores.blobOf, readStream_map_ok,
    chunking.flatten_chunks, run_done]

theorem HoldsObject.run_read {ns label : String} {digest : Digest} {value : Json}
    {stores : Held} (h : HoldsObject crates stores ns digest label value) :
    run (alone crates chunking) (readCanonicalObject crates ns digest label) stores =
      (.ok value, stores) := by
  obtain ⟨content, hheld, hparse⟩ := h.object
  have hvalid : validateDigest crates.digests digest = .ok () := validateDigest_eq_ok.mpr h.valid
  have hsmall : decide (digest.size > maxObjectBytes) = false := by simpa using h.small
  unfold readCanonicalObject
  simp only [monadLift_eq, hvalid, ok_bind, hsmall, rejectIf, Bool.false_eq_true, if_false]
  rw [run_bind_ok _ (run_readVisibleObject h.sees hheld), hparse, run_done]

/-- The descriptor of a published result is accepted when it is validated again. -/
theorem Published.run_validateActionDescriptor {ns : String} {action : Digest}
    {result : ActionResult} {stores : Held} (h : Published crates stores ns action result) :
    ∃ kind, run (alone crates chunking) (validateActionDescriptor crates ns action) stores =
      (.ok kind, stores) := by
  obtain ⟨kind, value, hobject, haccept, _⟩ := h.kind
  refine ⟨kind, ?_⟩
  unfold validateActionDescriptor
  rw [run_bind_ok _ hobject.run_read, haccept]
  rfl

/-! ## A pack -/

/-- The object under a digest, where there is one. -/
def objectOf (stores : Held) (digest : Digest) : Bytes := (stores.blobs digest).getD []

/-- What the frames of a pack look like while nothing fails. -/
def sentEntries (chunking : Chunking) (stores : Held) (entries : List (Bytes × Digest)) :
    ByteStream :=
  entries.flatMap fun entry =>
    .ok entry.1 :: (chunking.chunks (objectOf stores entry.2)).map .ok

theorem sentEntries_cons (stores : Held) (entry : Bytes × Digest)
    (entries : List (Bytes × Digest)) :
    sentEntries chunking stores (entry :: entries) =
      (.ok entry.1 :: (chunking.chunks (objectOf stores entry.2)).map .ok) ++
        sentEntries chunking stores entries := rfl

theorem run_streamEntries {stores : Held} :
    ∀ {entries : List (Bytes × Digest)},
      (∀ entry ∈ entries, ∃ content, stores.blobs entry.2 = some content ∧
        content.length = entry.2.size.toNat) →
      run (alone crates chunking) (streamEntries entries) stores =
        (.ok (sentEntries chunking stores entries), stores)
  | [], _ => rfl
  | (header, digest) :: entries, hheld => by
      obtain ⟨content, hcontent, hlength⟩ := hheld (header, digest) (by simp)
      have hobject : objectOf stores digest = content := by simp [objectOf, hcontent]
      have hread : run (alone crates chunking) (readObject digest) stores =
          (.ok (.ok (some (Stores.blobOf chunking content))), stores) := by
        show (Except.ok (Except.ok ((stores.blobs digest).map (Stores.blobOf chunking))), stores)
          = _
        rw [hcontent]
        rfl
      have hopen : openEntry digest (.ok (some (Stores.blobOf chunking content))) =
          .ok (Stores.blobOf chunking content) :=
        openEntry_eq_ok.mpr ⟨rfl, hlength⟩
      have hforward : forwardBlob (Stores.blobOf chunking content).size 0
          (Stores.blobOf chunking content).stream = (chunking.chunks content).map .ok := by
        apply forwardBlob_map_ok
        · show content.length < 2 ^ 64
          rw [hlength]
          exact digest.size.toNat_lt
        · rw [Nat.zero_add, chunking.flatten_chunks]
          rfl
      have hrest := run_streamEntries fun entry (hmem : entry ∈ entries) =>
        hheld entry (by simp [hmem])
      rw [streamEntries, run_bind_ok _ hread, hopen]
      dsimp only
      rw [hforward, broken_ok, broken_map_ok, if_neg (by decide), run_bind_ok _ hrest,
        sentEntries_cons, hobject]
      rfl

theorem broken_sentEntries (stores : Held) (entries : List (Bytes × Digest)) :
    broken (sentEntries chunking stores entries) = false := by
  induction entries with
  | nil => rfl
  | cons entry entries ih =>
      rw [sentEntries_cons, broken_append, broken_ok, broken_map_ok, ih]
      rfl

theorem contents_sentEntries (stores : Held) (entries : List (Bytes × Digest)) :
    contents (sentEntries chunking stores entries) =
      entries.flatMap fun entry => entry.1 ++ objectOf stores entry.2 := by
  induction entries with
  | nil => rfl
  | cons entry entries ih =>
      rw [sentEntries_cons, contents_append, contents_ok, contents_map_ok,
        chunking.flatten_chunks, ih, List.flatMap_cons]

/-- An accepted pack: what was asked for, what of it is visible, and the response
that lists it. -/
structure PackAnswered (crates : Crates) (chunking : Chunking) (state : AppState)
    (headers : HeaderMap) (digests : List Digest) (stores : Held) (response : PackResponse)
    (ns : String) (request : PackRequest) (pack : PackEntries) : Prop where
  granted : state.auth.authorize crates headers .read = .ok ns
  requested : packRequest crates state.maxBlobBytes digests = .ok request
  listed : packEntries crates (stores.metadata.visibleBlobs ns request.requested) = .ok pack
  contentLength : response.contentLength = pack.packBytes
  packBlobs : response.packBlobs = pack.entries.length
  packBytes : response.packBytes = pack.packPayloadBytes
  body : response.body = .ok BLOB_PACK_MAGIC :: sentEntries chunking stores pack.entries

/-- The requested digests a namespace sees have objects, and these are right. -/
def Present (crates : Crates) (stores : Held) (ns : String) (digests : List Digest) : Prop :=
  ∀ digest ∈ digests, Sees stores ns digest →
    ∃ content, stores.blobs digest = some content ∧ crates.Matches digest content

theorem Sound.present {stores : Held} (h : Sound crates stores) (ns : String)
    (digests : List Digest) : Present crates stores ns digests := by
  intro digest _ hsees
  obtain ⟨content, hheld⟩ := h.stored ns digest hsees
  exact ⟨content, hheld, h.integrity digest content hheld⟩

/-- A pack that is answered is sent to its end. -/
theorem run_packBlobs {state : AppState} {headers : HeaderMap} {digests : List Digest}
    {stores later : Held} {response : PackResponse} {ns : String}
    (hgranted : state.auth.authorize crates headers .read = .ok ns)
    (hpresent : Present crates stores ns digests)
    (hrun : run (alone crates chunking) (packBlobs crates state headers digests) stores =
      (.ok response, later)) :
    ∃ request pack,
      PackAnswered crates chunking state headers digests stores response ns request pack := by
  obtain ⟨ns', hauth, hrun⟩ := exists_of_run_lift_ok _ hrun
  obtain rfl : ns' = ns := Except.ok.inj (hauth.symm.trans hgranted)
  obtain ⟨request, hrequest, hrun⟩ := exists_of_run_lift_ok _ hrun
  rw [run_bind_ok _ (run_visibleBlobs ns' request.requested stores),
    run_bind_ok _ (run_recordBlobAccess ns' _ stores)] at hrun
  obtain ⟨pack, hpack, hrun⟩ := exists_of_run_lift_ok _ hrun
  obtain ⟨added, hentries, hdigests, _⟩ := packEntries_foldlM hpack
  rw [List.nil_append] at hentries
  have hheld : ∀ entry ∈ pack.entries, ∃ content, stores.blobs entry.2 = some content ∧
      content.length = entry.2.size.toNat := by
    intro entry hmem
    have hvisible : entry.2 ∈ stores.metadata.visibleBlobs ns' request.requested := by
      rw [← hdigests, ← hentries]
      exact List.mem_map_of_mem hmem
    obtain ⟨hin, hsees⟩ := MemoryMetadata.mem_visibleBlobs.mp hvisible
    obtain ⟨_, _, hadded⟩ := bind_eq_ok.mp hrequest
    rw [(packRequest_foldlM digests hadded).1, List.mem_eraseDups] at hin
    obtain ⟨content, hcontent, hmatches⟩ := hpresent entry.2 hin hsees
    exact ⟨content, hcontent, hmatches.1⟩
  rw [run_bind_ok _ (run_streamEntries hheld)] at hrun
  have hresponse := (Prod.mk.inj hrun).1
  refine ⟨request, pack, ⟨hauth, hrequest, hpack, ?_, ?_, ?_, ?_⟩⟩
  all_goals rw [← Except.ok.inj hresponse]

/-- The requested digests a namespace can see, each once, with their objects. -/
def visibleFrames (stores : Held) (ns : String) (digests : List Digest) : List Frame :=
  (stores.metadata.visibleBlobs ns digests.eraseDups).map fun digest =>
    (digest, objectOf stores digest)

theorem framesOf_entries {stores : Held} :
    ∀ {entries : List (Bytes × Digest)},
      (∀ entry ∈ entries, packBlobHeader crates entry.2 = .ok entry.1) →
      FramesOf crates (entries.map fun entry => (entry.2, objectOf stores entry.2))
        (entries.flatMap fun entry => entry.1 ++ objectOf stores entry.2)
  | [], _ => .nil
  | entry :: entries, hheaders => by
      rw [List.map_cons, List.flatMap_cons]
      apply FramesOf.cons (hheaders entry (by simp))
      exact framesOf_entries fun other hmem => hheaders other (by simp [hmem])

/-- The body of an answered pack: the magic and one frame for each distinct
visible digest, in order of first request. -/
theorem PackAnswered.frames {state : AppState} {headers : HeaderMap} {digests : List Digest}
    {stores : Held} {response : PackResponse} {ns : String} {request : PackRequest}
    {pack : PackEntries}
    (h : PackAnswered crates chunking state headers digests stores response ns request pack) :
    broken response.body = false ∧ ∃ rest,
      contents response.body = BLOB_PACK_MAGIC ++ rest ∧
      FramesOf crates (visibleFrames stores ns digests) rest := by
  obtain ⟨_, _, hrequest⟩ := bind_eq_ok.mp h.requested
  obtain ⟨hrequested, _⟩ := packRequest_foldlM digests hrequest
  obtain ⟨added, hentries, hdigests, hheaders, _⟩ := packEntries_foldlM h.listed
  rw [List.nil_append] at hentries
  refine ⟨?_, pack.entries.flatMap fun entry => entry.1 ++ objectOf stores entry.2, ?_, ?_⟩
  · rw [h.body, broken_ok, broken_sentEntries]
  · rw [h.body, contents_ok, contents_sentEntries]
  · have hframes : visibleFrames stores ns digests =
        pack.entries.map fun entry => (entry.2, objectOf stores entry.2) := by
      rw [visibleFrames, ← hrequested, ← hdigests, hentries, List.map_map]
      rfl
    rw [hframes, hentries]
    exact framesOf_entries hheaders

/-- A frame of the pack carries the object of its digest. -/
theorem Present.held {stores : Held} {ns : String} {digests : List Digest}
    (h : Present crates stores ns digests) {frame : Frame}
    (hmem : frame ∈ visibleFrames stores ns digests) :
    stores.blobs frame.1 = some frame.2 ∧ crates.Matches frame.1 frame.2 := by
  obtain ⟨digest, hdigest, rfl⟩ := List.mem_map.mp hmem
  obtain ⟨hin, hsees⟩ := MemoryMetadata.mem_visibleBlobs.mp hdigest
  obtain ⟨content, hcontent, hmatches⟩ := h digest (List.mem_eraseDups.mp hin) hsees
  have hobject : objectOf stores digest = content := by simp [objectOf, hcontent]
  rw [hobject]
  exact ⟨hcontent, hmatches⟩

end

end MbxCache.Server
