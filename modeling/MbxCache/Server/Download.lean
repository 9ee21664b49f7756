/-
# Downloading blobs

One blob, a question about many, and a pack of many. A namespace gets what it
can see, and visibility is asked of the metadata before an object is read.

A pack answers with its head first and reads the objects while it streams. The
source overlaps up to sixteen of these reads and keeps their order; reads change
nothing, so here they follow one another.
-/

import MbxCache.Pack.Encoding
import MbxCache.Server.Operations

namespace MbxCache.Server

open Foundation Pack

section

variable (crates : Crates)

/-! ## One blob -/

structure BlobResponse where
  contentLength : ℕ
  etag : String
  digest : String
  body : ByteStream

def getBlob (state : AppState) (headers : HeaderMap) (parts : DigestParts) :
    Handler BlobResponse := do
  let ns ← state.auth.authorize crates headers .read
  let digest ← parseDigest crates.digests parts
  let visible : Bool ← callMetadata (.blobVisible ns digest)
  rejectIf (!visible) (ApiError.notFound "blob not found")
  recordBlobAccess ns [digest]
  let found : Option Blob ← callBlobs (.get digest)
  let blob ← okOr found (ApiError.notFound "blob not found")
  return {
    contentLength := blob.size
    etag := quotedEtag digest.hash
    digest := s!"{digest.algorithm}={digest.hash}"
    body := blob.stream }

/-! ## A question about many -/

/-- A list of digests in a request body is bounded and every one is checked. -/
def checkDigests (check : Digest → Except ApiError Unit) (message : String)
    (digests : List Digest) : Except ApiError Unit := do
  rejectIf (decide (digests.length > MAX_BATCH_ITEMS)) (.badRequest message)
  digests.forM check

def missingBlobs (state : AppState) (headers : HeaderMap) (digests : List Digest) :
    Handler (List Digest) := do
  let ns ← state.auth.authorize crates headers .read
  checkDigests (validateDigest crates.digests) "at most 10000 digests may be checked" digests
  let visible : List Digest ← callMetadata (.visibleBlobs ns digests)
  return digests.filter fun digest => !visible.contains digest

/-! ## A pack of many -/

/-- The distinct digests of a request in order of their first occurrence, and
their summed sizes. `seen` holds the digests of `requested`. -/
structure PackRequest where
  totalBytes : ℕ
  requested : List Digest
  deriving DecidableEq, Repr

def PackRequest.add (maxBlobBytes : UInt64) (request : PackRequest) (digest : Digest) :
    Except ApiError PackRequest := do
  validateDigest crates.digests digest
  if request.requested.contains digest then return request
  let totalBytes := request.totalBytes + digest.size.toNat
  rejectIf (decide (2 ^ 64 ≤ totalBytes)) (.tooLarge "blob pack is too large")
  rejectIf (decide (totalBytes > maxBlobBytes.toNat))
    (.tooLarge "blob pack exceeds the configured size limit")
  return { totalBytes, requested := request.requested ++ [digest] }

def packRequest (maxBlobBytes : UInt64) (digests : List Digest) : Except ApiError PackRequest := do
  rejectIf (decide (digests.length > MAX_BATCH_ITEMS))
    (.badRequest "at most 10000 digests may be packed")
  digests.foldlM (PackRequest.add crates maxBlobBytes) { totalBytes := 0, requested := [] }

/-- The header that goes before the bytes of one blob. The digest has been
validated, so neither of its errors about the hash is ever given. -/
def packBlobHeader (digest : Digest) : Except ApiError Bytes := do
  let hash ← okOr (hexDecode digest.hash) (.badRequest "invalid digest hash")
  rejectIf (hash.length != 32) (.badRequest "invalid digest hash length")
  let algorithm ← (crates.digests.algorithmKind digest).mapError .badRequest
  let tag : UInt8 := match algorithm with
    | .blake3 => 1
    | .sha256 => 2
  return tag :: hash ++ u64ToBeBytes digest.size

/-- The frames of a pack and the lengths its head declares. -/
structure PackEntries where
  packBytes : ℕ
  packPayloadBytes : ℕ
  entries : List (Bytes × Digest)

def PackEntries.add (pack : PackEntries) (digest : Digest) : Except ApiError PackEntries := do
  let header ← packBlobHeader crates digest
  let packPayloadBytes := pack.packPayloadBytes + digest.size.toNat
  rejectIf (decide (2 ^ 64 ≤ packPayloadBytes)) (.tooLarge "blob pack is too large")
  let packBytes := pack.packBytes + BLOB_PACK_HEADER_BYTES + digest.size.toNat
  rejectIf (decide (2 ^ 64 ≤ packBytes)) (.tooLarge "blob pack is too large")
  return { packBytes, packPayloadBytes, entries := pack.entries ++ [(header, digest)] }

def packEntries (visible : List Digest) : Except ApiError PackEntries :=
  visible.foldlM (PackEntries.add crates)
    { packBytes := BLOB_PACK_MAGIC.length, packPayloadBytes := 0, entries := [] }

/-- Read an object; here a failure ends the stream, not the request. -/
def readObject (digest : Digest) : Handler (Except String (Option Blob)) :=
  Program.perform (StoreOp.blobs (BlobOp.get digest))

/-- Open the stored object of a frame. -/
def openEntry (digest : Digest) : Except String (Option Blob) → Except String Blob
  | .error error => .error error
  | .ok none => .error "visible blob is missing from storage"
  | .ok (some blob) =>
      if blob.size ≠ digest.size.toNat then .error "stored blob size does not match its digest"
      else .ok blob

/-- Forward a stored object, and fail where it turns out to be longer or shorter
than advertised. -/
def forwardBlob (size : ℕ) : (streamed : ℕ) → ByteStream → ByteStream
  | streamed, [] =>
      if streamed ≠ size then [.error "stored blob stream is shorter than advertised"] else []
  | _, .error error :: _ => [.error error]
  | streamed, .ok chunk :: rest =>
      if 2 ^ 64 ≤ streamed + chunk.length then [.error "stored blob stream is too large"]
      else if streamed + chunk.length > size then
        [.error "stored blob stream is larger than advertised"]
      else .ok chunk :: forwardBlob size (streamed + chunk.length) rest

/-- A stream that ends with an error is not continued. -/
def broken (stream : ByteStream) : Bool :=
  stream.any fun chunk => chunk matches .error _

/-- The frames of a pack as they are sent. -/
def streamEntries : List (Bytes × Digest) → Handler ByteStream
  | [] => return []
  | (header, digest) :: entries => do
      let answer ← readObject digest
      match openEntry digest answer with
      | .error error => return [.error error]
      | .ok blob =>
          let sent := .ok header :: forwardBlob blob.size 0 blob.stream
          if broken sent then return sent
          else
            let later ← streamEntries entries
            return sent ++ later

structure PackResponse where
  contentLength : ℕ
  packBlobs : ℕ
  packBytes : ℕ
  body : ByteStream

def packBlobs (state : AppState) (headers : HeaderMap) (digests : List Digest) :
    Handler PackResponse := do
  let ns ← state.auth.authorize crates headers .read
  let request ← packRequest crates state.maxBlobBytes digests
  let visible : List Digest ← callMetadata (.visibleBlobs ns request.requested)
  recordBlobAccess ns visible
  let pack ← packEntries crates visible
  let frames ← streamEntries pack.entries
  return {
    contentLength := pack.packBytes
    packBlobs := pack.entries.length
    packBytes := pack.packPayloadBytes
    body := .ok BLOB_PACK_MAGIC :: frames }

end

/-! ## What is sent -/

@[simp]
theorem broken_nil : broken [] = false := rfl

@[simp]
theorem broken_ok (bytes : Bytes) (stream : ByteStream) :
    broken (.ok bytes :: stream) = broken stream := rfl

@[simp]
theorem broken_error (error : String) (stream : ByteStream) :
    broken (.error error :: stream) = true := rfl

@[simp]
theorem broken_append (first second : ByteStream) :
    broken (first ++ second) = (broken first || broken second) := by
  simp [broken]

@[simp]
theorem broken_map_ok (chunks : List Bytes) : broken (chunks.map .ok) = false := by
  induction chunks with
  | nil => rfl
  | cons chunk chunks ih => exact ih

@[simp]
theorem contents_append (first second : ByteStream) :
    contents (first ++ second) = contents first ++ contents second := by
  simp [contents]

/-- What is forwarded without an error is the whole stream. -/
theorem forwardBlob_unbroken {size : ℕ} :
    ∀ {streamed : ℕ} {stream : ByteStream},
      broken (forwardBlob size streamed stream) = false →
      forwardBlob size streamed stream = stream ∧ streamed + (contents stream).length = size
  | streamed, [], h => by
      unfold forwardBlob at h ⊢
      by_cases hsize : streamed = size
      · simp [hsize]
      · simp [hsize] at h
  | streamed, .error error :: stream, h => by
      unfold forwardBlob at h
      cases h
  | streamed, .ok chunk :: stream, h => by
      unfold forwardBlob at h ⊢
      by_cases hlarge : 2 ^ 64 ≤ streamed + chunk.length
      · rw [if_pos hlarge] at h
        cases h
      · rw [if_neg hlarge] at h ⊢
        by_cases hover : streamed + chunk.length > size
        · rw [if_pos hover] at h
          cases h
        · rw [if_neg hover] at h ⊢
          obtain ⟨hsame, hlength⟩ := forwardBlob_unbroken (h : broken _ = false)
          rw [hsame]
          refine ⟨rfl, ?_⟩
          rw [contents_ok, List.length_append, ← Nat.add_assoc]
          exact hlength

/-- A stream of the advertised length is forwarded as it is. -/
theorem forwardBlob_map_ok {size : ℕ} (hsize : size < 2 ^ 64) :
    ∀ (streamed : ℕ) (chunks : List Bytes), streamed + chunks.flatten.length = size →
      forwardBlob size streamed (chunks.map .ok) = chunks.map .ok
  | streamed, [], h => by
      have heq : streamed = size := by simpa using h
      simp [forwardBlob, heq]
  | streamed, chunk :: chunks, h => by
      rw [List.flatten_cons, List.length_append, ← Nat.add_assoc] at h
      rw [List.map_cons, forwardBlob, if_neg (by omega), if_neg (by omega),
        forwardBlob_map_ok hsize (streamed + chunk.length) chunks h]

theorem openEntry_eq_ok {digest : Digest} {answer : Except String (Option Blob)} {blob : Blob} :
    openEntry digest answer = .ok blob ↔
      answer = .ok (some blob) ∧ blob.size = digest.size.toNat := by
  match answer with
  | .error error => simp [openEntry]
  | .ok none => simp [openEntry]
  | .ok (some found) =>
      by_cases hsize : found.size = digest.size.toNat
      · simp only [openEntry, hsize, ne_eq, not_true_eq_false, if_false, Except.ok.injEq,
          Option.some.injEq]
        constructor
        · rintro rfl
          exact ⟨rfl, hsize⟩
        · exact fun h => h.1
      · simp only [openEntry, hsize, ne_eq, not_false_eq_true, if_true, reduceCtorEq,
          Except.ok.injEq, Option.some.injEq, false_iff, not_and]
        rintro rfl
        exact hsize

/-- The frames of a pack as its handler writes them. -/
inductive FramesOf (crates : Crates) : List Frame → Bytes → Prop where
  | nil : FramesOf crates [] []
  | cons {digest : Digest} {header content rest : Bytes} {frames : List Frame}
      (named : packBlobHeader crates digest = .ok header) (later : FramesOf crates frames rest) :
      FramesOf crates ((digest, content) :: frames) (header ++ content ++ rest)

section Entries

variable {crates : Crates}

theorem eraseDups_concat (digests : List Digest) (digest : Digest) :
    (digests ++ [digest]).eraseDups =
      if digest ∈ digests then digests.eraseDups else digests.eraseDups ++ [digest] := by
  rw [List.eraseDups_append]
  by_cases h : digest ∈ digests <;> simp [List.removeAll, h, List.eraseDups_cons]

theorem length_eraseDups_le (digests : List Digest) :
    digests.eraseDups.length ≤ digests.length := by
  induction digests using List.reverseRecOn with
  | nil => simp
  | append_singleton digests digest ih =>
      rw [eraseDups_concat, List.length_append, List.length_singleton]
      split
      · exact Nat.le_add_right_of_le ih
      · rw [List.length_append, List.length_singleton]
        exact Nat.add_le_add_right ih 1

/-- An accepted request is the distinct digests in order of first occurrence,
every one of them valid, and their sizes within the limit. -/
theorem packRequest_foldlM {maxBlobBytes : UInt64} (digests : List Digest) :
    ∀ {request : PackRequest},
      digests.foldlM (PackRequest.add crates maxBlobBytes)
        { totalBytes := 0, requested := [] } = .ok request →
      request.requested = digests.eraseDups ∧
        request.totalBytes = (digests.eraseDups.map (·.size.toNat)).sum ∧
        request.totalBytes ≤ maxBlobBytes.toNat ∧
        ∀ digest ∈ digests, crates.digests.validate digest = true := by
  induction digests using List.reverseRecOn with
  | nil =>
      intro request h
      rw [← Except.ok.inj h]
      simp
  | append_singleton digests digest ih =>
      intro request h
      rw [List.foldlM_append] at h
      obtain ⟨middle, hmiddle, hlast⟩ := bind_eq_ok.mp h
      obtain ⟨hrequested, htotal, hbound, hvalid⟩ := ih hmiddle
      rw [List.foldlM_cons] at hlast
      obtain ⟨last, hadd, hdone⟩ := bind_eq_ok.mp hlast
      obtain rfl := Except.ok.inj hdone
      obtain ⟨_, hvalidate, hadd⟩ := bind_eq_ok.mp hadd
      have hdigest := validateDigest_eq_ok.mp hvalidate
      have hvalid' : ∀ other ∈ digests ++ [digest], crates.digests.validate other = true := by
        intro other hmem
        rcases List.mem_append.mp hmem with hold | hnew
        · exact hvalid other hold
        · rw [List.mem_singleton.mp hnew]
          exact hdigest
      by_cases hseen : digest ∈ digests
      · have hcontains : middle.requested.contains digest = true := by
          rw [hrequested]
          simpa using hseen
        rw [hcontains] at hadd
        obtain rfl := Except.ok.inj hadd
        rw [eraseDups_concat, if_pos hseen]
        exact ⟨hrequested, htotal, hbound, hvalid'⟩
      · have hcontains : middle.requested.contains digest = false := by
          rw [hrequested]
          simpa using hseen
        rw [hcontains] at hadd
        obtain ⟨_, _, hadd⟩ := bind_eq_ok.mp hadd
        obtain ⟨_, hlimit, hadd⟩ := bind_eq_ok.mp hadd
        obtain rfl := Except.ok.inj hadd
        rw [eraseDups_concat, if_neg hseen]
        refine ⟨by rw [hrequested], by simp [htotal], ?_, hvalid'⟩
        simpa using hlimit

/-- One entry a digest, in order, each with its header. -/
theorem packEntries_foldlM :
    ∀ {visible : List Digest} {pack pack' : PackEntries},
      visible.foldlM (PackEntries.add crates) pack = .ok pack' →
      ∃ added : List (Bytes × Digest), pack'.entries = pack.entries ++ added ∧
        added.map (·.2) = visible ∧
        (∀ entry ∈ added, packBlobHeader crates entry.2 = .ok entry.1) ∧
        (pack.packBytes < 2 ^ 64 → pack'.packBytes < 2 ^ 64) ∧
        pack'.packPayloadBytes = pack.packPayloadBytes + (visible.map (·.size.toNat)).sum ∧
        pack'.packBytes = pack.packBytes +
          (visible.map fun digest => BLOB_PACK_HEADER_BYTES + digest.size.toNat).sum
  | [], pack, pack', h => by
      rw [← Except.ok.inj h]
      exact ⟨[], by simp⟩
  | digest :: visible, pack, pack', h => by
      rw [List.foldlM_cons] at h
      obtain ⟨middle, hadd, hrest⟩ := bind_eq_ok.mp h
      obtain ⟨header, hheader, hadd⟩ := bind_eq_ok.mp hadd
      obtain ⟨_, _, hadd⟩ := bind_eq_ok.mp hadd
      obtain ⟨_, hwrap, hadd⟩ := bind_eq_ok.mp hadd
      obtain rfl := Except.ok.inj hadd
      obtain ⟨added, hentries, hdigests, hheaders, hwraps, hpayload, hbytes⟩ :=
        packEntries_foldlM hrest
      have hwrap := of_decide_eq_false (rejectIf_eq_ok.mp hwrap)
      refine ⟨(header, digest) :: added, ?_, by simp [hdigests], ?_,
        fun _ => hwraps (Nat.lt_of_not_le hwrap), ?_, ?_⟩
      · rw [hentries, List.append_assoc]
        rfl
      · intro entry hmem
        rcases List.mem_cons.mp hmem with rfl | hmem
        · exact hheader
        · exact hheaders entry hmem
      · rw [hpayload, List.map_cons, List.sum_cons, Nat.add_assoc]
      · rw [hbytes, List.map_cons, List.sum_cons]
        show pack.packBytes + BLOB_PACK_HEADER_BYTES + digest.size.toNat + _ = _
        omega

end Entries

end MbxCache.Server
