/-
# What is downloaded as a pack can be uploaded again

The encoder of a pack is the download handler, its decoder the reader of the
upload handler. They meet in the plain encoding of a list of frames: the handler
writes it for the objects it serves, within every limit an upload is checked
against, and the reader takes nothing else.
-/

import Mathlib.Algebra.Order.BigOperators.Group.List
import MbxCache.Server.PackReceive
import MbxCache.Server.Runs

namespace MbxCache.Server

open Foundation Program Pack PackReader

section

variable {crates : Crates} {chunking : Chunking}

/-! ## Headers -/

/-- The handler writes the header the reader parses. -/
theorem packBlobHeader_eq (hrules : crates.digests.Documented) {digest : Digest}
    (hwf : digest.WellFormed) : packBlobHeader crates digest = .ok (frameHeader digest) := by
  obtain ⟨algorithm, hash, hlength, hname, hdecode, _, hheader⟩ := exists_frameHeader hwf
  have hkind : crates.digests.algorithmKind digest = .ok algorithm := by
    obtain ⟨name, text, size⟩ := digest
    obtain rfl : name = algorithm.asStr := hname
    exact hrules.algorithmKind_asStr algorithm text size
  have hlength' : (hash.length != 32) = false := by simp [hlength]
  refine bind_eq_ok.mpr ⟨hash, okOr_eq_ok.mpr hdecode, ?_⟩
  refine bind_eq_ok.mpr ⟨(), rejectIf_eq_ok.mpr hlength', ?_⟩
  refine bind_eq_ok.mpr ⟨algorithm, mapError_eq_ok.mpr hkind, ?_⟩
  rw [hheader]
  cases algorithm <;> rfl

/-- The frames a handler writes are the plain encoding of its frames. -/
theorem framesOf_iff (hrules : crates.digests.Documented) :
    ∀ (frames : List Frame) (bytes : Bytes), (∀ frame ∈ frames, frame.1.WellFormed) →
      (FramesOf crates frames bytes ↔ bytes = encodeFrames frames)
  | [], bytes, _ => by
      constructor
      · intro h
        cases h
        rfl
      · rintro rfl
        exact .nil
  | (digest, content) :: frames, bytes, hwf => by
      have hheader := packBlobHeader_eq hrules (hwf (digest, content) (by simp))
      have hrest := fun rest => framesOf_iff hrules frames rest
        fun frame hmem => hwf frame (by simp [hmem])
      constructor
      · intro h
        cases h with
        | cons named later =>
            rw [hheader] at named
            rw [← Except.ok.inj named, (hrest _).mp later]
            rfl
      · rintro rfl
        exact .cons hheader ((hrest _).mpr rfl)

/-! ## The limits of an answered pack -/

/-- The frames of an answered pack fit everything an upload is checked against. -/
structure Uploadable (maxBlobBytes : UInt64) (frames : List Frame) : Prop where
  within : Within maxBlobBytes.toNat frames.length (declaredBytes frames) frames
  blobs : frames.length ≤ MAX_BATCH_ITEMS
  bytes : declaredBytes frames ≤ maxBlobBytes.toNat
  transport : (encodePack frames).length ≤ packLimit maxBlobBytes

/-- The transport limit has room for the frames the other two limits allow. -/
theorem le_packLimit {maxBlobBytes : UInt64} {blobs bytes length : ℕ}
    (hblobs : blobs ≤ MAX_BATCH_ITEMS) (hbytes : bytes ≤ maxBlobBytes.toNat)
    (hlength : length = BLOB_PACK_MAGIC.length + BLOB_PACK_HEADER_BYTES * blobs + bytes)
    (hwrap : length < 2 ^ 64) : length ≤ packLimit maxBlobBytes := by
  have hheaders := Nat.mul_le_mul_left BLOB_PACK_HEADER_BYTES hblobs
  rw [packLimit, usizeMax]
  generalize BLOB_PACK_HEADER_BYTES * MAX_BATCH_ITEMS = room at hheaders ⊢
  omega

theorem visibleFrames_length_le (stores : Held) (ns : String) (digests : List Digest) :
    (visibleFrames stores ns digests).length ≤ digests.eraseDups.length := by
  rw [visibleFrames, List.length_map]
  exact List.length_filter_le _ _

theorem declaredBytes_visibleFrames_le (stores : Held) (ns : String) (digests : List Digest) :
    declaredBytes (visibleFrames stores ns digests) ≤
      (digests.eraseDups.map (·.size.toNat)).sum := by
  rw [declaredBytes, visibleFrames, List.map_map]
  apply List.Sublist.sum_le_sum
  · exact List.filter_sublist.map _
  · exact fun size _ => Nat.zero_le size

theorem PackAnswered.uploadable (hrules : crates.digests.Documented) {state : AppState}
    {headers : HeaderMap} {digests : List Digest} {stores : Held} {response : PackResponse}
    {ns : String} {request : PackRequest} {pack : PackEntries}
    (h : PackAnswered crates chunking state headers digests stores response ns request pack)
    (hpresent : Present crates stores ns digests) :
    Uploadable state.maxBlobBytes (visibleFrames stores ns digests) ∧
      response.packBlobs = (visibleFrames stores ns digests).length ∧
      response.packBytes = declaredBytes (visibleFrames stores ns digests) ∧
      response.contentLength = (encodePack (visibleFrames stores ns digests)).length := by
  obtain ⟨_, hcount, hrequest⟩ := bind_eq_ok.mp h.requested
  obtain ⟨hrequested, htotal, hlimit, hvalid⟩ := packRequest_foldlM digests hrequest
  obtain ⟨added, hentries, hdigests, _, hwrap, hpayload, hbytes⟩ := packEntries_foldlM h.listed
  rw [List.nil_append] at hentries
  have hframes : (visibleFrames stores ns digests).map (·.1) =
      stores.metadata.visibleBlobs ns request.requested := by
    rw [visibleFrames, List.map_map, hrequested]
    exact List.map_id _
  have hsizes : declaredBytes (visibleFrames stores ns digests) =
      ((stores.metadata.visibleBlobs ns request.requested).map (·.size.toNat)).sum := by
    rw [← hframes, List.map_map]
    rfl
  have hbound : declaredBytes (visibleFrames stores ns digests) ≤ state.maxBlobBytes.toNat :=
    (declaredBytes_visibleFrames_le stores ns digests).trans (htotal ▸ hlimit)
  have hfits : ∀ frame ∈ visibleFrames stores ns digests,
      frame.Fits state.maxBlobBytes.toNat := by
    intro frame hmem
    have hin : frame.1 ∈ digests := by
      have hvisible : frame.1 ∈ stores.metadata.visibleBlobs ns request.requested :=
        hframes ▸ List.mem_map_of_mem hmem
      rw [← List.mem_eraseDups, ← hrequested]
      exact (MemoryMetadata.mem_visibleBlobs.mp hvisible).1
    exact ⟨(hrules.validate_iff frame.1).mp (hvalid frame.1 hin),
      (size_le_declaredBytes hmem).trans hbound, (hpresent.held hmem).2.1⟩
  have hlength : (encodePack (visibleFrames stores ns digests)).length =
      BLOB_PACK_MAGIC.length + (BLOB_PACK_HEADER_BYTES *
        (visibleFrames stores ns digests).length +
          declaredBytes (visibleFrames stores ns digests)) := by
    rw [encodePack, List.length_append, encodeFrames_length hfits]
  have hcontent : pack.packBytes = (encodePack (visibleFrames stores ns digests)).length := by
    have hheaders : ∀ listed : List Digest,
        (listed.map fun digest => BLOB_PACK_HEADER_BYTES + digest.size.toNat).sum =
          BLOB_PACK_HEADER_BYTES * listed.length + (listed.map (·.size.toNat)).sum := by
      intro listed
      rw [List.sum_map_add, List.map_const', List.sum_replicate_nat, Nat.mul_comm]
    rw [hbytes, hlength, hsizes, hheaders, ← hframes, List.length_map]
  have hcount' : (visibleFrames stores ns digests).length ≤ MAX_BATCH_ITEMS := by
    have hbatch : digests.length ≤ MAX_BATCH_ITEMS := by simpa using rejectIf_eq_ok.mp hcount
    exact ((visibleFrames_length_le stores ns digests).trans (length_eraseDups_le digests)).trans
      hbatch
  refine ⟨⟨⟨hfits, le_rfl, le_rfl⟩, hcount', hbound, ?_⟩, ?_, ?_, ?_⟩
  · have hwrapped := hwrap (by rw [BLOB_PACK_MAGIC_length]; norm_num)
    rw [hcontent] at hwrapped
    apply le_packLimit hcount' hbound _ hwrapped
    rw [hlength, Nat.add_assoc]
  · rw [h.packBlobs, hentries, ← List.length_map (f := (·.2)), hdigests, ← hframes,
      List.length_map]
  · rw [h.packBytes, hpayload, hsizes, Nat.zero_add]
  · rw [h.contentLength, hcontent]

/-! ## Both directions -/

/-- The reader takes the encoding of frames within its limits in any pieces. -/
theorem readAll_encodePack {maxBlobBytes : ℕ} {frames : List Frame}
    (h : Within maxBlobBytes frames.length (declaredBytes frames) frames) {chunks : List Bytes}
    (hchunks : chunks.flatten = encodePack frames) :
    (PackReader.new maxBlobBytes frames.length (declaredBytes frames)).readAll chunks =
      .ok (frames.flatMap frameEvents, frames.length, declaredBytes frames) := by
  have hdecode := decode_encodePack h
  rw [← hchunks] at hdecode
  have houtcome := outcome_pushAll maxBlobBytes frames.length (declaredBytes frames) chunks
  rw [readAll]
  generalize (PackReader.new maxBlobBytes frames.length (declaredBytes frames)).pushAll chunks =
    outcome at houtcome
  cases houtcome with
  | refused error reader hrefused => cases hrefused.symm.trans hdecode
  | unfinished events reader error hfinish hrefused => cases hrefused.symm.trans hdecode
  | finished events reader read hfinish hencoded hwithin hevents hblobs hbytes =>
      have hread : read = frames := by
        have hsame := decode_encodePack hwithin
        rw [← hencoded, hdecode] at hsame
        exact (Except.ok.inj hsame).symm
      subst hread
      dsimp only
      rw [hfinish, hevents, hblobs, hbytes]

/-- What the reader takes is the encoding of the frames it reports. -/
theorem exists_frames_of_readAll {maxBlobBytes maxBlobs maxPayloadBytes : ℕ}
    {chunks : List Bytes} {events : List PackEvent} {blobs bytes : ℕ}
    (h : (PackReader.new maxBlobBytes maxBlobs maxPayloadBytes).readAll chunks =
      .ok (events, blobs, bytes)) :
    ∃ frames, chunks.flatten = encodePack frames ∧
      Within maxBlobBytes maxBlobs maxPayloadBytes frames ∧
      events = frames.flatMap frameEvents ∧ blobs = frames.length ∧
      bytes = declaredBytes frames := by
  have houtcome := outcome_pushAll maxBlobBytes maxBlobs maxPayloadBytes chunks
  rw [readAll] at h
  generalize (PackReader.new maxBlobBytes maxBlobs maxPayloadBytes).pushAll chunks =
    outcome at h houtcome
  cases houtcome with
  | refused error reader hrefused => cases h
  | unfinished events' reader error hfinish hrefused =>
      dsimp only at h
      rw [hfinish] at h
      cases h
  | finished events' reader frames hfinish hencoded hwithin hevents hblobs hbytes =>
      dsimp only at h
      rw [hfinish] at h
      obtain ⟨rfl, hcounts⟩ := Prod.mk.inj (Except.ok.inj h)
      obtain ⟨rfl, rfl⟩ := Prod.mk.inj hcounts
      exact ⟨frames, hencoded, hwithin, hevents, hblobs, hbytes⟩

/-- What a downloaded pack is: one frame for each distinct digest of the request
that the namespace sees, in order of first request, with the stored bytes; it is
within the limits of an upload, and what its head declares reads it back. -/
structure Downloaded (crates : Crates) (state : AppState) (ns : String) (digests : List Digest)
    (stores : Held) (response : PackResponse) (frames : List Frame) : Prop where
  digests : frames.map (·.1) = digests.eraseDups.filter fun digest =>
    stores.metadata.blobVisible ns digest
  stored : ∀ frame ∈ frames, stores.blobs frame.1 = some frame.2
  unbroken : broken response.body = false
  body : ∃ rest, contents response.body = BLOB_PACK_MAGIC ++ rest ∧ FramesOf crates frames rest
  contentLength : response.contentLength = (contents response.body).length
  packBlobs_le : response.packBlobs ≤ MAX_BATCH_ITEMS
  packBytes_le : response.packBytes ≤ state.maxBlobBytes.toNat
  length_le : (contents response.body).length ≤ packLimit state.maxBlobBytes
  readBack : ∀ chunks : List Bytes, chunks.flatten = contents response.body →
    (PackReader.new state.maxBlobBytes.toNat response.packBlobs response.packBytes).readAll
      chunks = .ok (frames.flatMap frameEvents, response.packBlobs, response.packBytes)

section Answered

variable {state : AppState} {headers : HeaderMap} {digests : List Digest} {stores : Held}
  {response : PackResponse} {ns : String} {request : PackRequest} {pack : PackEntries}

theorem PackAnswered.contents_body (hrules : crates.digests.Documented)
    (h : PackAnswered crates chunking state headers digests stores response ns request pack)
    (hpresent : Present crates stores ns digests) :
    contents response.body = encodePack (visibleFrames stores ns digests) := by
  have hfits := (h.uploadable hrules hpresent).1.within.fits
  obtain ⟨_, rest, hcontents, hframes⟩ := h.frames
  rw [hcontents,
    (framesOf_iff hrules _ rest fun frame hmem => (hfits frame hmem).wellFormed).mp hframes]
  rfl

theorem PackAnswered.downloaded (hrules : crates.digests.Documented)
    (h : PackAnswered crates chunking state headers digests stores response ns request pack)
    (hpresent : Present crates stores ns digests) :
    Downloaded crates state ns digests stores response (visibleFrames stores ns digests) := by
  obtain ⟨huploadable, hblobs, hbytes, hlength⟩ := h.uploadable hrules hpresent
  have hencoded := h.contents_body hrules hpresent
  constructor
  · rw [visibleFrames, List.map_map]
    have hvisible : ∀ digest : Digest, decide ((ns, digest) ∈ stores.metadata.blobs) =
        stores.metadata.blobVisible ns digest := by
      intro digest
      rw [Bool.eq_iff_iff, decide_eq_true_eq, MemoryMetadata.blobVisible_eq_true]
    simp only [MemoryMetadata.visibleBlobs, hvisible]
    exact List.map_id _
  · exact fun frame hmem => (hpresent.held hmem).1
  · exact h.frames.1
  · exact h.frames.2
  · rw [hlength, hencoded]
  · exact hblobs ▸ huploadable.blobs
  · exact hbytes ▸ huploadable.bytes
  · exact hencoded ▸ huploadable.transport
  · intro chunks hchunks
    rw [hblobs, hbytes]
    exact readAll_encodePack huploadable.within (hchunks.trans hencoded)

/-- A body that is a downloaded pack carries what the head of the pack declares. -/
theorem PackAnswered.carries (hrules : crates.digests.Documented)
    (h : PackAnswered crates chunking state headers digests stores response ns request pack)
    (hpresent : Present crates stores ns digests) {chunks : List Bytes}
    (hchunks : chunks.flatten = contents response.body) :
    Carries crates (chunks.map .ok) (response.packBlobs, response.packBytes)
      (visibleFrames stores ns digests) := by
  obtain ⟨huploadable, hblobs, hbytes, _⟩ := h.uploadable hrules hpresent
  refine ⟨⟨chunks, rfl, hchunks.trans (h.contents_body hrules hpresent)⟩, hblobs.symm,
    hbytes.symm, fun frame hmem => ?_⟩
  exact ⟨(huploadable.within.fits frame hmem).wellFormed, (hpresent.held hmem).2⟩

end Answered

/-- The encoder and the decoder agree. An accepted download can be read back in
any pieces under the counts of its head, and uploaded again by whoever may write;
and whatever the reader accepts is what the handler would have written for the
frames the reader reports. -/
theorem pack_round_trip (hrules : crates.digests.Documented) :
    (∀ state headers digests (stores later : Held) response ns,
      state.auth.authorize crates headers .read = .ok ns → Present crates stores ns digests →
      run (alone crates chunking) (packBlobs crates state headers digests) stores =
        (.ok response, later) →
      (∃ frames, Downloaded crates state ns digests stores response frames) ∧
      ∀ uploadHeaders other (chunks : List Bytes) (start : Held),
        state.auth.authorize crates uploadHeaders .write = .ok other →
        requiredU64Header uploadHeaders "mbx-cache-pack-blobs" = .ok response.packBlobs →
        requiredU64Header uploadHeaders "mbx-cache-pack-bytes" = .ok response.packBytes →
        chunks.flatten = contents response.body →
        ∃ receipt after, run (alone crates chunking)
            (putBlobPack crates state uploadHeaders (chunks.map .ok)) start =
              (.ok receipt, after) ∧
          receipt.created + receipt.existing = response.packBlobs) ∧
    ∀ maxBlobBytes maxBlobs maxPayloadBytes (chunks : List Bytes) events blobs bytes,
      (PackReader.new maxBlobBytes maxBlobs maxPayloadBytes).readAll chunks =
        .ok (events, blobs, bytes) →
      ∃ frames rest, chunks.flatten = BLOB_PACK_MAGIC ++ rest ∧ FramesOf crates frames rest ∧
        events = frames.flatMap frameEvents ∧ blobs = frames.length ∧
        bytes = declaredBytes frames := by
  constructor
  · intro state headers digests stores later response ns hauth hpresent hrun
    obtain ⟨request, pack, hanswered⟩ := run_packBlobs hauth hpresent hrun
    have hdownloaded := hanswered.downloaded hrules hpresent
    refine ⟨⟨_, hdownloaded⟩, ?_⟩
    intro uploadHeaders other chunks start hgranted hblobs hbytes hchunks
    have hdeclared : packDeclaration state.maxBlobBytes uploadHeaders =
        .ok (response.packBlobs, response.packBytes) :=
      packDeclaration_eq_ok.mpr
        ⟨hblobs, hbytes, hdownloaded.packBlobs_le, hdownloaded.packBytes_le⟩
    have hcarries := hanswered.carries hrules hpresent hchunks
    have hrunUpload : run (alone crates chunking)
        (putBlobPack crates state uploadHeaders (chunks.map .ok)) start =
          run (alone crates chunking) (receivePack crates state.maxBlobBytes other
            response.packBlobs response.packBytes (chunks.map .ok)) start := by
      rw [putBlobPack, hgranted, hdeclared]
      rfl
    rw [hrunUpload]
    have hlimit : (response.packBlobs, response.packBytes).2 ≤ state.maxBlobBytes.toNat :=
      hdownloaded.packBytes_le
    rcases run_receivePack hrules (uploader_of_granted hgranted) hlimit (chunks.map .ok) start
      with ⟨receipt, frames, hrun, _, _, _, htotal⟩ |
      ⟨e, after, _, _, _, hnot⟩
    · exact ⟨receipt, _, hrun, htotal⟩
    · exact absurd hcarries (hnot _)
  · intro maxBlobBytes maxBlobs maxPayloadBytes chunks events blobs bytes h
    obtain ⟨frames, hencoded, hwithin, hevents, hblobs, hbytes⟩ := exists_frames_of_readAll h
    refine ⟨frames, encodeFrames frames, hencoded, ?_, hevents, hblobs, hbytes⟩
    exact (framesOf_iff hrules frames _ fun frame hmem =>
      (hwithin.fits frame hmem).wellFormed).mpr rfl

/-- A request that names a digest twice, and one that nobody uploaded. -/
theorem pack_round_trip_session :
    ∃ response frames, Downloaded Sample.crates Sample.state "acme/app"
      [Sample.taskActionDigest, Sample.emptyDigest, Sample.taskActionDigest] sessionPool.state
      response frames := by
  have hsound := reachable_sessionPool.checked.1.sound
  have hanswered : (run (alone Sample.crates .whole) (packBlobs Sample.crates Sample.state
      Sample.headers [Sample.taskActionDigest, Sample.emptyDigest, Sample.taskActionDigest])
      sessionPool.state).1.isOk = true := by
    decide +kernel
  cases hrun : run (alone Sample.crates .whole) (packBlobs Sample.crates Sample.state
      Sample.headers [Sample.taskActionDigest, Sample.emptyDigest, Sample.taskActionDigest])
      sessionPool.state with
  | mk outcome later =>
      rw [hrun] at hanswered
      cases outcome with
      | error e => cases hanswered
      | ok response =>
          obtain ⟨hdownloaded, _⟩ := (pack_round_trip Sample.documented).1 _ _ _ _ _ _ _
            (Sample.authorize .read) (hsound.present "acme/app" _) hrun
          exact ⟨response, hdownloaded⟩

end

end MbxCache.Server
