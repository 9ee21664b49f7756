/-
# The stream of a pack

A pack answers with its head and then streams: reads of the objects run ahead of
what is sent, at most `MAX_PACK_STORAGE_READS` of them, and one object at a time is
forwarded. Reads complete in any order and storage answers each as it likes.

What was sent and what is still to come together are the stream a sequential
handler would send for the same answers. That one keeps the promise of the head.
-/

import MbxCache.Foundation.ReadAhead
import MbxCache.Metadata.Spec
import MbxCache.Sample
import MbxCache.Server.Download
import MbxCache.Server.Stores

namespace MbxCache.Server

open Foundation Program Pack

def MAX_PACK_STORAGE_READS : ℕ := 16

/-- A frame to read, and what storage will answer. -/
abbrev PackRead := (Bytes × Digest) × Except String (Option Blob)

/-! ## The stream -/

/-- An object that is being forwarded: its reported size, how much of it was
streamed, and what is left of its stream. -/
structure Forwarding where
  size : ℕ
  streamed : ℕ
  stream : ByteStream

inductive Forwarded where
  | yielded (chunk : Bytes) (later : Forwarding)
  | failed (error : String)
  | complete

/-- The next item of an object. -/
def Forwarding.next (forwarding : Forwarding) : Forwarded :=
  match forwarding.stream with
  | [] =>
      if forwarding.streamed ≠ forwarding.size then
        .failed "stored blob stream is shorter than advertised"
      else .complete
  | .error error :: _ => .failed error
  | .ok chunk :: rest =>
      let streamed := forwarding.streamed + chunk.length
      if 2 ^ 64 ≤ streamed then .failed "stored blob stream is too large"
      else if streamed > forwarding.size then
        .failed "stored blob stream is larger than advertised"
      else .yielded chunk { forwarding with streamed, stream := rest }

structure PackStream where
  reads : ReadAhead PackRead
  current : Option Forwarding
  body : ByteStream
  ended : Bool

namespace PackStream

def new (reads : List PackRead) : PackStream where
  reads := ReadAhead.new reads
  current := none
  body := [.ok BLOB_PACK_MAGIC]
  ended := false

inductive Step : PackStream → PackStream → Prop where
  | read (s : PackStream) (reads : ReadAhead PackRead) (running : s.ended = false)
      (moved : ReadAhead.Step MAX_PACK_STORAGE_READS s.reads none reads) :
      Step s { s with reads }
  | opened (s : PackStream) (reads : ReadAhead PackRead) (running : s.ended = false)
      (idle : s.current = none) (header : Bytes) (digest : Digest)
      (answer : Except String (Option Blob)) (blob : Blob)
      (moved : ReadAhead.Step MAX_PACK_STORAGE_READS s.reads (some ((header, digest), answer))
        reads)
      (found : openEntry digest answer = .ok blob) :
      Step s { s with
        reads
        current := some { size := blob.size, streamed := 0, stream := blob.stream }
        body := s.body ++ [.ok header] }
  | refused (s : PackStream) (reads : ReadAhead PackRead) (running : s.ended = false)
      (idle : s.current = none) (header : Bytes) (digest : Digest)
      (answer : Except String (Option Blob)) (error : String)
      (moved : ReadAhead.Step MAX_PACK_STORAGE_READS s.reads (some ((header, digest), answer))
        reads)
      (failed : openEntry digest answer = .error error) :
      Step s { s with reads, body := s.body ++ [.error error], ended := true }
  | yielded (s : PackStream) (running : s.ended = false) (forwarding later : Forwarding)
      (chunk : Bytes) (busy : s.current = some forwarding)
      (item : forwarding.next = .yielded chunk later) :
      Step s { s with current := some later, body := s.body ++ [.ok chunk] }
  | broken (s : PackStream) (running : s.ended = false) (forwarding : Forwarding) (error : String)
      (busy : s.current = some forwarding) (item : forwarding.next = .failed error) :
      Step s { s with body := s.body ++ [.error error], ended := true }
  | served (s : PackStream) (running : s.ended = false) (forwarding : Forwarding)
      (busy : s.current = some forwarding) (item : forwarding.next = .complete) :
      Step s { s with current := none }
  | finished (s : PackStream) (running : s.ended = false) (idle : s.current = none)
      (all : s.reads.remaining = []) : Step s { s with ended := true }

/-- Runs of the stream for the answers storage gives. -/
inductive Run (reads : List PackRead) : PackStream → Prop where
  | start : Run reads (new reads)
  | step {s later : PackStream} (prior : Run reads s) (taken : Step s later) : Run reads later

end PackStream

/-! ## The sequential stream -/

/-- What follows a stream that did not break. -/
def andThen (first later : ByteStream) : ByteStream :=
  if broken first then first else first ++ later

/-- The frames as a handler sends them that reads one object after another. -/
def framesSent : List PackRead → ByteStream
  | [] => []
  | ((header, digest), answer) :: reads =>
      match openEntry digest answer with
      | .error error => [.error error]
      | .ok blob => andThen (.ok header :: forwardBlob blob.size 0 blob.stream) (framesSent reads)

/-- The handler that does read one after another sends them. -/
theorem run_streamEntries_stores {M : Type} (chunking : Chunking)
    (metadata : (op : MetadataOp) → M → op.Answer × M) (stores : Stores M) :
    ∀ entries : List (Bytes × Digest),
      run (Stores.exec chunking metadata) (streamEntries entries) stores =
        (.ok (framesSent (entries.map fun entry =>
          (entry, .ok ((stores.blobs entry.2).map (Stores.blobOf chunking))))), stores)
  | [] => rfl
  | (header, digest) :: entries => by
      let answer : Except String (Option Blob) :=
        .ok ((stores.blobs digest).map (Stores.blobOf chunking))
      have hread : run (Stores.exec chunking metadata) (readObject digest) stores =
          (.ok answer, stores) := rfl
      have hrest := run_streamEntries_stores chunking metadata stores entries
      rw [streamEntries, run_bind_ok _ hread, List.map_cons, framesSent]
      cases hopen : openEntry digest answer with
      | error error => rfl
      | ok blob =>
          dsimp only
          unfold andThen
          split
          · rfl
          · rw [run_bind_ok _ hrest]
            rfl

theorem forwardBlob_eq (forwarding : Forwarding) :
    forwardBlob forwarding.size forwarding.streamed forwarding.stream =
      match forwarding.next with
      | .yielded chunk later =>
          .ok chunk :: forwardBlob later.size later.streamed later.stream
      | .failed error => [.error error]
      | .complete => [] := by
  obtain ⟨size, streamed, stream⟩ := forwarding
  match stream with
  | [] =>
      unfold forwardBlob Forwarding.next
      dsimp only
      split <;> rfl
  | .error error :: stream => rfl
  | .ok chunk :: stream =>
      rw [forwardBlob, Forwarding.next]
      dsimp only
      split
      · rfl
      · split <;> rfl

theorem andThen_ok (bytes : Bytes) (first later : ByteStream) :
    andThen (.ok bytes :: first) later = .ok bytes :: andThen first later := by
  unfold andThen
  rw [broken_ok]
  split <;> rfl

namespace PackStream

/-- What is still to come. -/
def rest (s : PackStream) : ByteStream :=
  if s.ended then []
  else match s.current with
    | none => framesSent s.reads.remaining
    | some forwarding =>
        andThen (forwardBlob forwarding.size forwarding.streamed forwarding.stream)
          (framesSent s.reads.remaining)

section Rest

variable (queue : ReadAhead PackRead) (body : ByteStream)

theorem rest_idle : rest ⟨queue, none, body, false⟩ = framesSent queue.remaining := rfl

theorem rest_busy (forwarding : Forwarding) :
    rest ⟨queue, some forwarding, body, false⟩ =
      andThen (forwardBlob forwarding.size forwarding.streamed forwarding.stream)
        (framesSent queue.remaining) := rfl

theorem rest_ended (current : Option Forwarding) : rest ⟨queue, current, body, true⟩ = [] := rfl

end Rest

/-- A step sends what comes next of the sequential stream, or nothing. -/
theorem Step.stream {s later : PackStream} (h : Step s later) :
    later.body ++ later.rest = s.body ++ s.rest := by
  obtain ⟨queue, current, body, ended⟩ := s
  cases h with
  | read reads running moved =>
      have hremaining : queue.remaining = reads.remaining := moved.remaining
      show body ++ _ = body ++ _
      rw [rest, rest, hremaining]
  | opened reads running idle header digest answer blob moved found =>
      obtain rfl : ended = false := running
      obtain rfl : current = none := idle
      have hremaining : queue.remaining = ((header, digest), answer) :: reads.remaining :=
        moved.remaining
      rw [rest_idle, hremaining, framesSent, found, rest_busy, List.append_assoc]
      dsimp only
      rw [andThen_ok]
      rfl
  | refused reads running idle header digest answer error moved failed =>
      obtain rfl : ended = false := running
      obtain rfl : current = none := idle
      have hremaining : queue.remaining = ((header, digest), answer) :: reads.remaining :=
        moved.remaining
      rw [rest_idle, hremaining, framesSent, failed, rest_ended, List.append_nil]
  | yielded running forwarding next chunk busy item =>
      obtain rfl : ended = false := running
      obtain rfl : current = some forwarding := busy
      rw [rest_busy, rest_busy, forwardBlob_eq forwarding, item, List.append_assoc]
      dsimp only
      rw [andThen_ok]
      rfl
  | broken running forwarding error busy item =>
      obtain rfl : ended = false := running
      obtain rfl : current = some forwarding := busy
      rw [rest_busy, forwardBlob_eq forwarding, item, rest_ended, List.append_nil]
      rfl
  | served running forwarding busy item =>
      obtain rfl : ended = false := running
      obtain rfl : current = some forwarding := busy
      rw [rest_busy, forwardBlob_eq forwarding, item, rest_idle]
      rfl
  | finished running idle all =>
      obtain rfl : ended = false := running
      obtain rfl : current = none := idle
      have hremaining : queue.remaining = [] := all
      rw [rest_idle, hremaining, rest_ended]
      rfl

/-- What was sent is the beginning of the sequential stream, and all of it when the
stream has ended. -/
theorem Run.stream {reads : List PackRead} {s : PackStream} (hrun : Run reads s) :
    s.body ++ s.rest = .ok BLOB_PACK_MAGIC :: framesSent reads := by
  induction hrun with
  | start => rfl
  | step _ taken ih => rw [taken.stream, ih]

/-- No more than the window is under way. -/
theorem Run.bounded {reads : List PackRead} {s : PackStream} (hrun : Run reads s) :
    s.reads.inFlight.length ≤ MAX_PACK_STORAGE_READS := by
  induction hrun with
  | start => exact Nat.zero_le _
  | step _ taken ih =>
      cases taken with
      | read reads running moved => exact moved.bounded ih
      | opened reads running idle header digest answer blob moved found => exact moved.bounded ih
      | refused reads running idle header digest answer error moved failed =>
          exact moved.bounded ih
      | yielded running forwarding next chunk busy item => exact ih
      | broken running forwarding error busy item => exact ih
      | served running forwarding busy item => exact ih
      | finished running idle all => exact ih

theorem Run.prefix {reads : List PackRead} {s : PackStream} (hrun : Run reads s) :
    s.body <+: .ok BLOB_PACK_MAGIC :: framesSent reads :=
  ⟨s.rest, hrun.stream⟩

theorem Run.ended {reads : List PackRead} {s : PackStream} (hrun : Run reads s)
    (hended : s.ended = true) : s.body = .ok BLOB_PACK_MAGIC :: framesSent reads := by
  rw [← hrun.stream, rest, if_pos hended, List.append_nil]

end PackStream

/-! ## What the sequential stream promises -/

/-- Storage found the object with the size of its digest and streamed exactly as
many bytes, to the end. -/
def Kept (read : PackRead) : Prop :=
  ∃ (blob : Blob) (chunks : List Bytes), read.2 = .ok (some blob) ∧
    blob.size = read.1.2.size.toNat ∧ blob.stream = chunks.map .ok ∧
    chunks.flatten.length = read.1.2.size.toNat

theorem exists_chunks_of_unbroken :
    ∀ {stream : ByteStream}, broken stream = false → ∃ chunks : List Bytes, stream = chunks.map .ok
  | [], _ => ⟨[], rfl⟩
  | .error _ :: _, h => by cases h
  | .ok chunk :: stream, h => by
      obtain ⟨chunks, hchunks⟩ := exists_chunks_of_unbroken (show broken stream = false from h)
      exact ⟨chunk :: chunks, by rw [hchunks]; rfl⟩

theorem forwardBlob_eq_unbroken {size : ℕ} (hsize : size < 2 ^ 64) {stream : ByteStream} :
    broken (forwardBlob size 0 stream) = false ↔
      ∃ chunks : List Bytes, stream = chunks.map .ok ∧ chunks.flatten.length = size := by
  constructor
  · intro h
    obtain ⟨hsame, hlength⟩ := forwardBlob_unbroken h
    rw [hsame] at h
    obtain ⟨chunks, rfl⟩ := exists_chunks_of_unbroken h
    refine ⟨chunks, rfl, ?_⟩
    rw [← hlength, contents_map_ok, Nat.zero_add]
  · rintro ⟨chunks, rfl, hlength⟩
    rw [forwardBlob_map_ok hsize 0 chunks (by omega), broken_map_ok]

/-- No more is forwarded than the size. -/
theorem forwardBlob_le {size : ℕ} :
    ∀ {streamed : ℕ} {stream : ByteStream}, streamed ≤ size →
      streamed + (contents (forwardBlob size streamed stream)).length ≤ size
  | streamed, [], h => by
      unfold forwardBlob
      split <;> exact h
  | streamed, .error error :: stream, h => h
  | streamed, .ok chunk :: stream, h => by
      unfold forwardBlob
      split
      · exact h
      · split
        · exact h
        · next hover =>
            rw [contents_ok, List.length_append, ← Nat.add_assoc]
            exact forwardBlob_le (Nat.le_of_not_lt hover)

theorem andThen_of_broken (first later : ByteStream) (h : broken first = true) :
    andThen first later = first := if_pos h

theorem andThen_of_unbroken (first later : ByteStream) (h : broken first = false) :
    andThen first later = first ++ later := if_neg (by simp [h])

theorem broken_andThen {first later : ByteStream} :
    broken (andThen first later) = false ↔ broken first = false ∧ broken later = false := by
  unfold andThen
  split
  · next h => simp [h]
  · rw [broken_append, Bool.or_eq_false_iff]

/-- The stream ends without an error exactly where storage kept every promise. -/
theorem broken_framesSent :
    ∀ {reads : List PackRead}, broken (framesSent reads) = false ↔ ∀ read ∈ reads, Kept read
  | [] => by simp [framesSent]
  | ((header, digest), answer) :: reads => by
      rw [framesSent, List.forall_mem_cons, ← @broken_framesSent reads]
      cases hopen : openEntry digest answer with
      | error error =>
          have hnot : ¬Kept ((header, digest), answer) := by
            rintro ⟨blob, _, hanswer, hsize, _⟩
            have hfound := openEntry_eq_ok.mpr ⟨hanswer, hsize⟩
            rw [hopen] at hfound
            cases hfound
          simp [hnot]
      | ok blob =>
          obtain ⟨hanswer, hsize⟩ := openEntry_eq_ok.mp hopen
          dsimp only
          rw [broken_andThen, broken_ok, hsize, forwardBlob_eq_unbroken digest.size.toNat_lt]
          apply and_congr_left'
          constructor
          · rintro ⟨chunks, hstream, hlength⟩
            exact ⟨blob, chunks, hanswer, hsize, hstream, hlength⟩
          · rintro ⟨other, chunks, hother, _, hstream, hlength⟩
            obtain rfl : blob = other := Option.some.inj (Except.ok.inj (hanswer.symm.trans hother))
            exact ⟨chunks, hstream, hlength⟩

section Frames

variable {crates : Crates}

/-- Frames whose content has the length of their digest. -/
def Exact (frames : List Frame) : Prop :=
  ∀ frame ∈ frames, frame.2.length = frame.1.size.toNat

/-- A frame that was cut short is a beginning of one with the length of its digest. -/
theorem Exact.cut {frames : List Frame} {digest : Digest} {header part bytes : Bytes}
    (hexact : Exact frames) (hframes : FramesOf crates frames bytes)
    (hheader : packBlobHeader crates digest = .ok header)
    (hpart : part.length ≤ digest.size.toNat) :
    ∃ content, Exact ((digest, content) :: frames) ∧
      FramesOf crates ((digest, content) :: frames) (header ++ content ++ bytes) ∧
      header ++ part <+: header ++ content ++ bytes := by
  let missing := List.replicate (digest.size.toNat - part.length) (0 : UInt8)
  refine ⟨part ++ missing, List.forall_mem_cons.mpr ⟨?_, hexact⟩, .cons hheader hframes, ?_⟩
  · show (part ++ missing).length = digest.size.toNat
    rw [List.length_append, List.length_replicate]
    omega
  · rw [List.append_assoc, List.append_assoc]
    exact (List.prefix_append_right_inj header).mpr (List.prefix_append part _)

/-- One frame for each digest, with content of its length, of which the stream
sends a beginning; and without an error all of it. -/
theorem contents_framesSent :
    ∀ {reads : List PackRead},
      (∀ read ∈ reads, packBlobHeader crates read.1.2 = .ok read.1.1) →
      ∃ frames bytes, frames.map Prod.fst = reads.map (·.1.2) ∧ Exact frames ∧
        FramesOf crates frames bytes ∧ contents (framesSent reads) <+: bytes ∧
        (broken (framesSent reads) = false → contents (framesSent reads) = bytes)
  | [], _ => ⟨[], [], rfl, by simp [Exact], .nil, List.prefix_rfl, fun _ => rfl⟩
  | ((header, digest), answer) :: reads, hheaders => by
      have hheader : packBlobHeader crates digest = .ok header :=
        hheaders ((header, digest), answer) (by simp)
      obtain ⟨frames, bytes, hdigests, hexact, hframes, hprefix, hall⟩ :=
        contents_framesSent fun read (hmem : read ∈ reads) => hheaders read (by simp [hmem])
      have hdigests' : ∀ content, ((digest, content) :: frames).map Prod.fst =
          (((header, digest), answer) :: reads).map (·.1.2) := by
        intro content
        rw [List.map_cons, List.map_cons, hdigests]
      rw [framesSent]
      cases hopen : openEntry digest answer with
      | error error =>
          obtain ⟨content, hexact', hframes', _⟩ :=
            hexact.cut hframes hheader (show [].length ≤ _ from Nat.zero_le _)
          exact ⟨_, _, hdigests' content, hexact', hframes', List.nil_prefix,
            fun h => by cases h⟩
      | ok blob =>
          obtain ⟨_, hsize⟩ := openEntry_eq_ok.mp hopen
          let sent := forwardBlob blob.size 0 blob.stream
          show ∃ frames bytes, _ ∧ _ ∧ _ ∧ contents (andThen (.ok header :: sent) _) <+: _ ∧
            (broken (andThen (.ok header :: sent) _) = _ →
              contents (andThen (.ok header :: sent) _) = _)
          cases hbroken : broken sent with
          | true =>
              have hle : 0 + (contents sent).length ≤ blob.size := forwardBlob_le (Nat.zero_le _)
              rw [Nat.zero_add, hsize] at hle
              obtain ⟨content, hexact', hframes', hprefix'⟩ := hexact.cut hframes hheader hle
              rw [andThen_of_broken (.ok header :: sent) _ hbroken, broken_ok, hbroken]
              exact ⟨_, _, hdigests' content, hexact', hframes', hprefix', fun h => by cases h⟩
          | false =>
              obtain ⟨hsame, hlength⟩ := forwardBlob_unbroken hbroken
              rw [Nat.zero_add, hsize, ← hsame] at hlength
              have hcontents : contents (.ok header :: sent ++ framesSent reads) =
                  header ++ contents sent ++ contents (framesSent reads) := by
                rw [contents_append, contents_ok]
              rw [andThen_of_unbroken (.ok header :: sent) _ hbroken, hcontents,
                broken_append]
              refine ⟨(digest, contents sent) :: frames, _, hdigests' _,
                List.forall_mem_cons.mpr ⟨hlength, hexact⟩, .cons hheader hframes,
                (List.prefix_append_right_inj _).mpr hprefix, fun h => ?_⟩
              rw [hall (Bool.or_eq_false_iff.mp h).2]

theorem packBlobHeader_length {digest : Digest} {header : Bytes}
    (h : packBlobHeader crates digest = .ok header) : header.length = BLOB_PACK_HEADER_BYTES := by
  obtain ⟨hash, _, h⟩ := bind_eq_ok.mp h
  obtain ⟨_, hlength, h⟩ := bind_eq_ok.mp h
  obtain ⟨algorithm, _, h⟩ := bind_eq_ok.mp h
  have hlength : hash.length = 32 := by simpa using rejectIf_eq_ok.mp hlength
  rw [← Except.ok.inj h]
  simp [hlength, u64ToBeBytes_length, BLOB_PACK_HEADER_BYTES]

/-- A header and the size of its digest for each frame. -/
theorem FramesOf.length {frames : List Frame} {bytes : Bytes} (h : FramesOf crates frames bytes)
    (hexact : Exact frames) : bytes.length =
      ((frames.map Prod.fst).map fun digest => BLOB_PACK_HEADER_BYTES + digest.size.toNat).sum := by
  induction h with
  | nil => rfl
  | cons named later ih =>
      rw [Exact, List.forall_mem_cons] at hexact
      have hrest := ih hexact.2
      have hcontent := hexact.1
      dsimp only at hcontent
      rw [List.map_cons, List.map_cons, List.sum_cons, List.length_append, List.length_append,
        packBlobHeader_length named, hcontent, hrest]

theorem Exact.payload {frames : List Frame} (hexact : Exact frames) :
    (frames.map (·.2.length)).sum = ((frames.map Prod.fst).map (·.size.toNat)).sum := by
  rw [List.map_map]
  exact congrArg List.sum (List.map_congr_left hexact)

end Frames

/-! ## The head -/

section Head

variable {crates : Crates} {M : Type} {metadata : (op : MetadataOp) → M → op.Answer × M}
  {holds : M → MetadataView → Prop} {chunking : Chunking}

/-- What `packBlobs` does before it streams: the frames and lengths of its head. -/
def packHead (crates : Crates) (state : AppState) (headers : HeaderMap) (digests : List Digest) :
    Handler PackEntries := do
  let ns ← state.auth.authorize crates headers .read
  let request ← packRequest crates state.maxBlobBytes digests
  let visible : List Digest ← callMetadata (.visibleBlobs ns request.requested)
  recordBlobAccess ns visible
  packEntries crates visible

theorem packBlobs_eq (state : AppState) (headers : HeaderMap) (digests : List Digest) :
    packBlobs crates state headers digests =
      packHead crates state headers digests >>= fun pack =>
        streamEntries pack.entries >>= fun frames => return {
          contentLength := pack.packBytes
          packBlobs := pack.entries.length
          packBytes := pack.packPayloadBytes
          body := .ok BLOB_PACK_MAGIC :: frames } := by
  simp only [packBlobs, packHead, Program.bind_assoc]

/-- The distinct requested digests that a namespace sees, in order of the request. -/
noncomputable def visibleDigests (view : MetadataView) (ns : String) (digests : List Digest) :
    List Digest :=
  open Classical in digests.eraseDups.filter fun digest => (ns, digest) ∈ view.visible

/-- An accepted request lists what the metadata answered for its distinct digests. -/
theorem exists_of_run_packHead {state : AppState} {headers : HeaderMap} {digests : List Digest}
    {stores later : Stores M} {pack : PackEntries}
    (hrun : run (Stores.exec chunking metadata) (packHead crates state headers digests) stores =
      (.ok pack, later)) :
    later.blobs = stores.blobs ∧ ∃ ns visible,
      state.auth.authorize crates headers .read = .ok ns ∧
      (metadata (.visibleBlobs ns digests.eraseDups) stores.metadata).1 = .ok visible ∧
      packEntries crates visible = .ok pack := by
  obtain ⟨ns, hauth, hrun⟩ := exists_of_run_lift_ok _ hrun
  obtain ⟨request, hrequest, hrun⟩ := exists_of_run_lift_ok _ hrun
  obtain ⟨visible, seen, hvisible, hrun⟩ := exists_of_run_bind_ok _ hrun
  obtain ⟨u, touched, htouched, hlisted⟩ := exists_of_run_bind_ok _ hrun
  obtain ⟨hlisted, hlater⟩ := Prod.mk.inj hlisted
  obtain ⟨_, _, hadded⟩ := bind_eq_ok.mp hrequest
  constructor
  · have hseen : stores.blobs = seen.blobs := congrArg (fun outcome => outcome.2.blobs) hvisible
    have hrecorded : seen.blobs = touched.blobs :=
      congrArg (fun outcome => outcome.2.blobs) htouched
    rw [← hlater, ← hrecorded, ← hseen]
  · refine ⟨ns, visible, hauth, ?_, hlisted⟩
    rw [← (packRequest_foldlM digests hadded).1]
    exact mapError_eq_ok.mp (Prod.mk.inj hvisible).1

/-- A store that meets the specification answers with what the namespace sees. -/
theorem visible_of_meetsSpec (hmeets : MeetsSpec metadata holds) {s : M} {view : MetadataView}
    (hholds : holds s view) {ns : String} {digests visible : List Digest}
    (hanswer : (metadata (.visibleBlobs ns digests.eraseDups) s).1 = .ok visible) :
    visible = visibleDigests view ns digests := by
  rcases hmeets (.visibleBlobs ns digests.eraseDups) s view hholds with ⟨error, hfailed⟩ | ⟨hmet, _⟩
  · rw [hfailed] at hanswer
    cases hanswer
  · exact Except.ok.inj (hanswer.symm.trans hmet)

end Head

/-! ## The promise of the head -/

section Promise

variable {crates : Crates} {M : Type} {metadata : (op : MetadataOp) → M → op.Answer × M}
  {holds : M → MetadataView → Prop} {chunking : Chunking}

/-- What a head promises about the body: the digests of its frames, in order, the
length, and that the stream breaks exactly where storage does not keep its part. -/
structure Honest (crates : Crates) (digests : List Digest) (pack : PackEntries)
    (reads : List PackRead) (s : PackStream) : Prop where
  sends : ∃ frames bytes, frames.map Prod.fst = digests ∧ Exact frames ∧
    FramesOf crates frames bytes ∧ contents s.body <+: BLOB_PACK_MAGIC ++ bytes ∧
    (BLOB_PACK_MAGIC ++ bytes).length = pack.packBytes
  within : (contents s.body).length ≤ pack.packBytes
  breaks : s.ended = true → (broken s.body = false ↔ ∀ read ∈ reads, Kept read)
  complete : s.ended = true → broken s.body = false →
    ∃ frames bytes, frames.map Prod.fst = digests ∧ Exact frames ∧
      FramesOf crates frames bytes ∧ contents s.body = BLOB_PACK_MAGIC ++ bytes ∧
      (contents s.body).length = pack.packBytes ∧ frames.length = pack.entries.length ∧
      (frames.map (·.2.length)).sum = pack.packPayloadBytes

theorem contents_le {first later : ByteStream} (h : first <+: later) :
    contents first <+: contents later := by
  obtain ⟨rest, rfl⟩ := h
  rw [contents_append]
  exact List.prefix_append _ _

theorem honest_of_listed {digests : List Digest} {pack : PackEntries}
    (hlisted : packEntries crates digests = .ok pack) {reads : List PackRead}
    (hreads : reads.map Prod.fst = pack.entries) {s : PackStream}
    (hrun : PackStream.Run reads s) : Honest crates digests pack reads s := by
  obtain ⟨added, hentries, hdigests, hheaders, _, hpayload, hbytes⟩ := packEntries_foldlM hlisted
  rw [List.nil_append] at hentries
  have hheaders' : ∀ read ∈ reads, packBlobHeader crates read.1.2 = .ok read.1.1 := by
    intro read hmem
    apply hheaders
    rw [← hentries, ← hreads]
    exact List.mem_map_of_mem hmem
  obtain ⟨frames, bytes, hnamed, hexact, hframes, hprefix, hall⟩ := contents_framesSent hheaders'
  have hnames : frames.map Prod.fst = digests := by
    rw [hnamed, ← hdigests, ← hentries, ← hreads, List.map_map]
    rfl
  have htotal : (BLOB_PACK_MAGIC ++ bytes).length = pack.packBytes := by
    rw [List.length_append, hframes.length hexact, hnames, hbytes]
  have hbody : contents s.body <+: BLOB_PACK_MAGIC ++ bytes := by
    apply (contents_le hrun.prefix).trans
    rw [contents_ok]
    exact (List.prefix_append_right_inj _).mpr hprefix
  constructor
  · exact ⟨frames, bytes, hnames, hexact, hframes, hbody, htotal⟩
  · exact htotal ▸ hbody.length_le
  · intro hended
    rw [hrun.ended hended, broken_ok]
    exact broken_framesSent
  · intro hended hunbroken
    rw [hrun.ended hended, broken_ok] at hunbroken
    have hcontents : contents s.body = BLOB_PACK_MAGIC ++ bytes := by
      rw [hrun.ended hended, contents_ok, hall hunbroken]
    refine ⟨frames, bytes, hnames, hexact, hframes, hcontents, hcontents ▸ htotal, ?_, ?_⟩
    · rw [← List.length_map (f := Prod.fst), hnames, ← hdigests, List.length_map, hentries]
    · rw [hexact.payload, hnames, hpayload, Nat.zero_add]

/-- Any storage, any order of completion, at any moment of the stream: what was
sent is a beginning of what the head promised, and the stream ends without an error
exactly where storage found and streamed every object as its digest says. -/
theorem pack_stream_honest (hmeets : MeetsSpec metadata holds) {state : AppState}
    {headers : HeaderMap} {digests : List Digest} {stores later : Stores M} {view : MetadataView}
    {pack : PackEntries} (hholds : holds stores.metadata view)
    (haccepted : run (Stores.exec chunking metadata) (packHead crates state headers digests)
      stores = (.ok pack, later))
    {reads : List PackRead} (hreads : reads.map Prod.fst = pack.entries) {s : PackStream}
    (hrun : PackStream.Run reads s) :
    ∃ ns, state.auth.authorize crates headers .read = .ok ns ∧
      Honest crates (visibleDigests view ns digests) pack reads s := by
  obtain ⟨_, ns, visible, hauth, hanswer, hlisted⟩ := exists_of_run_packHead haccepted
  rw [visible_of_meetsSpec hmeets hholds hanswer] at hlisted
  exact ⟨ns, hauth, honest_of_listed hlisted hreads hrun⟩

end Promise

/-! ### One object -/

/-- A namespace that sees the descriptor of the sample task. -/
def describedStores : Stores MemoryMetadata where
  blobs := Function.update (fun _ => none) Sample.taskActionDigest (some Sample.taskActionText)
  metadata := MemoryMetadata.empty.registerBlob "acme/app" Sample.taskActionDigest .created

noncomputable def describedView : MetadataView :=
  (MetadataView.empty.perform (.registerBlob "acme/app" Sample.taskActionDigest .created)).2

theorem holds_described :
    MemoryMetadata.Holds Sample.crates describedStores.metadata describedView :=
  (MemoryMetadata.holds_empty.exec Sample.roundTrips
    (.registerBlob "acme/app" Sample.taskActionDigest .created)).2

/-- The head of a pack of it has one frame. -/
theorem exists_packHead : ∃ pack later header,
    run (Stores.exec .whole (MemoryMetadata.exec Sample.crates))
        (packHead Sample.crates Sample.state Sample.headers [Sample.taskActionDigest])
        describedStores = (.ok pack, later) ∧
      pack.entries = [(header, Sample.taskActionDigest)] := by
  have hhead : (run (Stores.exec .whole (MemoryMetadata.exec Sample.crates))
      (packHead Sample.crates Sample.state Sample.headers [Sample.taskActionDigest])
      describedStores).1.toOption.map (fun pack => pack.entries.map Prod.snd) =
        some [Sample.taskActionDigest] := by
    decide +kernel
  cases hrun : run (Stores.exec .whole (MemoryMetadata.exec Sample.crates))
      (packHead Sample.crates Sample.state Sample.headers [Sample.taskActionDigest])
      describedStores with
  | mk outcome later =>
      rw [hrun] at hhead
      cases outcome with
      | error e => cases hhead
      | ok pack =>
          have hdigests : pack.entries.map Prod.snd = [Sample.taskActionDigest] :=
            Option.some.inj hhead
          obtain ⟨⟨header, digest⟩, hentries, rfl⟩ := List.map_eq_singleton_iff.mp hdigests
          exact ⟨pack, later, header, rfl, hentries⟩

/-- The object is found, and its first chunk holds all of it. -/
def describedRead (header : Bytes) (later : ByteStream) : PackRead :=
  ((header, Sample.taskActionDigest), .ok (some {
    size := Sample.taskActionText.length
    stream := .ok Sample.taskActionText :: later }))

theorem length_taskActionText :
    Sample.taskActionText.length = Sample.taskActionDigest.size.toNat := by
  decide +kernel

/-- A chunk that is the whole object. -/
theorem Forwarding.next_whole {chunk : Bytes} (hlength : chunk.length < 2 ^ 64)
    (later : ByteStream) :
    (Forwarding.mk chunk.length 0 (.ok chunk :: later)).next =
      .yielded chunk ⟨chunk.length, chunk.length, later⟩ := by
  simp only [Forwarding.next, Nat.zero_add, gt_iff_lt, Nat.lt_irrefl, if_false,
    if_neg (Nat.not_le_of_lt hlength)]

theorem Forwarding.next_nothing (size : ℕ) : (Forwarding.mk size size []).next = .complete := by
  simp only [Forwarding.next, ne_eq, not_true_eq_false, if_false]

theorem PackStream.run_described (header : Bytes) (later : ByteStream) :
    Run [describedRead header later]
      { reads := ⟨[], []⟩
        current := some ⟨Sample.taskActionText.length, Sample.taskActionText.length, later⟩
        body := [.ok BLOB_PACK_MAGIC, .ok header, .ok Sample.taskActionText]
        ended := false } := by
  let read := describedRead header later
  have hstarted : Run [read] { new [read] with reads := ⟨[], [(read, false)]⟩ } :=
    Run.start.step (.read _ _ rfl (.start read [] [] (by decide)))
  have hcompleted : Run [read] { new [read] with reads := ⟨[], [(read, true)]⟩ } :=
    hstarted.step (.read _ _ rfl (.complete [] [] [] read))
  have hopened := hcompleted.step (.opened _ ⟨[], []⟩ rfl rfl header Sample.taskActionDigest _ _
    (.deliver [] read []) (openEntry_eq_ok.mpr ⟨rfl, length_taskActionText⟩))
  have hlength : Sample.taskActionText.length < 2 ^ 64 :=
    length_taskActionText ▸ UInt64.toNat_lt _
  exact hopened.step (.yielded _ rfl _ _ _ rfl (Forwarding.next_whole hlength later))

/-- It is streamed to its end. -/
theorem pack_stream_honest_sample : ∃ pack reads s,
    PackStream.Run reads s ∧ s.ended = true ∧ broken s.body = false ∧
      Honest Sample.crates (visibleDigests describedView "acme/app" [Sample.taskActionDigest]) pack
        reads s := by
  obtain ⟨pack, later, header, hhead, hentries⟩ := exists_packHead
  have hserved := (PackStream.run_described header []).step (.served _ rfl _ rfl (Forwarding.next_nothing _))
  have hended := hserved.step (.finished _ rfl rfl rfl)
  have hreads : [describedRead header []].map Prod.fst = pack.entries := hentries.symm
  obtain ⟨ns, hauth, hhonest⟩ := pack_stream_honest (MemoryMetadata.meetsSpec Sample.roundTrips)
    holds_described hhead hreads hended
  obtain rfl : "acme/app" = ns := Except.ok.inj ((Sample.authorize .read).symm.trans hauth)
  exact ⟨pack, _, _, hended, rfl, rfl, hhonest⟩

/-- All of the object arrives, and then its stream fails: so does the pack. -/
theorem failed_stream_breaks_pack : ∃ pack later reads s,
    run (Stores.exec .whole (MemoryMetadata.exec Sample.crates))
        (packHead Sample.crates Sample.state Sample.headers [Sample.taskActionDigest])
        describedStores = (.ok pack, later) ∧
      reads.map Prod.fst = pack.entries ∧ PackStream.Run reads s ∧ s.ended = true ∧
      broken s.body = true ∧
      ∀ read ∈ reads, ∃ blob, read.2 = .ok (some blob) ∧ blob.size = read.1.2.size.toNat ∧
        (contents blob.stream).length = read.1.2.size.toNat := by
  obtain ⟨pack, later, header, hhead, hentries⟩ := exists_packHead
  have hbroken := (PackStream.run_described header [.error "connection reset"]).step
    (.broken _ rfl _ "connection reset" rfl rfl)
  refine ⟨pack, later, [describedRead header [.error "connection reset"]], _, hhead,
    hentries.symm, hbroken, rfl, rfl, fun read hmem => ?_⟩
  obtain rfl := List.mem_singleton.mp hmem
  refine ⟨_, rfl, length_taskActionText, ?_⟩
  show (Sample.taskActionText ++ []).length = _
  rw [List.append_nil]
  exact length_taskActionText

end MbxCache.Server
