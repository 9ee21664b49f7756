/-
# A pack upload is a sequence of uploads

The handler of a pack keeps its own frame beside the parser. It is followed event
by event: `Follows` says that the frame in progress tracks what the parser has
reported of it, and that the stores are where the single uploads of the finished
frames would have left them.

The events of a chunk are handled after the whole chunk was parsed, so how far a
refused pack got depends on the chunking. What does not depend on it is that the
frames that were stored are the first ones of the body and were verified.
-/

import MbxCache.Pack.Chunking
import MbxCache.Sample
import MbxCache.Server.Alone

namespace MbxCache.Server

open Foundation Program Pack PackReader

section

variable {crates : Crates} {chunking : Chunking} {state : AppState} {single : HeaderMap}
  {ns : String}

/-! ## Single uploads in order -/

/-- Upload the frames one after another as single blobs, each after the one
before it is answered. -/
def putInOrder (crates : Crates) (chunking : Chunking) (state : AppState) (single : HeaderMap)
    (frames : List Frame) (start : Held) : List (Except ApiError StatusCode) × Held :=
  frames.foldl
    (fun answered frame =>
      let answer := run (alone crates chunking)
        (putBlob crates state single (partsOf frame.1) [.ok frame.2]) answered.2
      (answered.1 ++ [answer.1], answer.2))
    ([], start)

/-- How many single uploads were answered with this status. -/
def answeredWith (status : StatusCode) (statuses : List (Except ApiError StatusCode)) : ℕ :=
  statuses.countP fun
    | .ok answered => answered == status
    | .error _ => false

@[simp]
theorem answeredWith_concat (status answered : StatusCode)
    (statuses : List (Except ApiError StatusCode)) :
    answeredWith status (statuses ++ [.ok answered]) =
      answeredWith status statuses + if answered = status then 1 else 0 := by
  simp [answeredWith, List.countP_append, List.countP_singleton]

/-- What is asked of the digest in a frame header before its payload is read. -/
structure Announced (maxBlobBytes : UInt64) (digest : Digest) : Prop where
  wellFormed : digest.WellFormed
  limited : digest.size ≤ maxBlobBytes

/-- The algorithm of an announced digest is known. -/
theorem Announced.algorithmKind {maxBlobBytes : UInt64} {digest : Digest}
    (h : Announced maxBlobBytes digest) (hrules : crates.digests.Documented) :
    ∃ algorithm, crates.digests.algorithmKind digest = .ok algorithm := by
  obtain ⟨algorithm, hname⟩ := h.wellFormed.algorithm
  obtain ⟨name, hash, size⟩ := digest
  obtain rfl : name = algorithm.asStr := hname
  exact ⟨algorithm, hrules.algorithmKind_asStr algorithm hash size⟩

theorem run_putFrame (hrules : crates.digests.Documented)
    (huploader : Uploader crates state single ns) {frame : Frame}
    (hannounced : Announced state.maxBlobBytes frame.1)
    (hmatches : crates.Matches frame.1 frame.2) (stores : Held) :
    run (alone crates chunking) (putBlob crates state single (partsOf frame.1) [.ok frame.2])
        stores =
      (.ok (putStatus (stores.putObject frame.1 frame.2).1),
        published stores ns frame.1 frame.2) := by
  have hwhole : [frame.2].flatten = frame.2 := List.flatten_singleton
  have hput : run (alone crates chunking)
      (putBlob crates state single (partsOf frame.1) ([frame.2].map .ok)) stores = _ :=
    run_putBlob hrules huploader hannounced.wellFormed hannounced.limited [frame.2]
      (hwhole.symm ▸ hmatches) stores
  rw [hwhole] at hput
  exact hput

theorem putInOrder_concat (hrules : crates.digests.Documented)
    (huploader : Uploader crates state single ns) (frames : List Frame) {frame : Frame}
    (hannounced : Announced state.maxBlobBytes frame.1)
    (hmatches : crates.Matches frame.1 frame.2) (start : Held) :
    putInOrder crates chunking state single (frames ++ [frame]) start =
      ((putInOrder crates chunking state single frames start).1 ++
          [.ok (putStatus ((putInOrder crates chunking state single frames start).2.putObject
            frame.1 frame.2).1)],
        published (putInOrder crates chunking state single frames start).2 ns frame.1 frame.2) := by
  rw [putInOrder, List.foldl_append, ← putInOrder, List.foldl_cons, List.foldl_nil]
  dsimp only
  rw [run_putFrame hrules huploader hannounced hmatches]

/-! ## In step with the parser -/

/-- The upload after some events of a pack: the frame in progress tracks what was
reported of it, and the finished frames have been stored as single uploads would
have stored them. -/
structure Follows (crates : Crates) (chunking : Chunking) (state : AppState)
    (single : HeaderMap) (start : Held) (assembly : Assembly) (upload : PackUpload crates)
    (stores : Held) : Prop where
  verified : ∀ frame ∈ assembly.frames, crates.Matches frame.1 frame.2
  idle : assembly.current = none → upload.frame = none
  busy : ∀ digest got, assembly.current = some (digest, got) →
    ∃ frame, upload.frame = some frame ∧ frame.digest = digest ∧ frame.spool.Tracks digest got
  stores : (putInOrder crates chunking state single assembly.frames start).2 = stores
  created : upload.created =
    answeredWith 201 (putInOrder crates chunking state single assembly.frames start).1
  existing : upload.existing =
    answeredWith 204 (putInOrder crates chunking state single assembly.frames start).1
  total : upload.created + upload.existing = assembly.frames.length

/-- Every digest an assembly names satisfies a condition. -/
structure AllDigests (P : Digest → Prop) (assembly : Assembly) : Prop where
  frames : ∀ frame ∈ assembly.frames, P frame.1
  current : ∀ frame, assembly.current = some frame → P frame.1

/-- Events only add digests. -/
theorem AllDigests.of_take {P : Digest → Prop} {assembly assembly' : Assembly} {event : PackEvent}
    (h : AllDigests P assembly') (htake : assembly.take event = some assembly') :
    AllDigests P assembly := by
  obtain ⟨frames, current⟩ := assembly
  cases event with
  | started digest =>
      cases current with
      | some frame => cases htake
      | none =>
          obtain rfl := Option.some.inj htake
          exact ⟨h.frames, fun frame heq => by cases heq⟩
  | payload bytes =>
      cases current with
      | none => cases htake
      | some frame =>
          obtain rfl := Option.some.inj htake
          refine ⟨h.frames, fun other heq => ?_⟩
          obtain rfl := Option.some.inj heq
          exact h.current (frame.1, frame.2 ++ bytes) rfl
  | complete =>
      cases current with
      | none => cases htake
      | some frame =>
          obtain rfl := Option.some.inj htake
          refine ⟨fun other hmem => h.frames other (by simp [hmem]), fun other heq => ?_⟩
          have hsame : frame = other := Option.some.inj heq
          exact h.frames other (by simp [hsame])

theorem AllDigests.of_assemble {P : Digest → Prop} :
    ∀ {events : List PackEvent} {assembly assembly' : Assembly}, AllDigests P assembly' →
      assemble assembly events = some assembly' → AllDigests P assembly
  | [], assembly, assembly', h, hassemble => by
      obtain rfl := Option.some.inj hassemble
      exact h
  | event :: events, assembly, assembly', h, hassemble => by
      obtain ⟨middle, htake, hrest⟩ := Option.bind_eq_some_iff.mp hassemble
      exact (h.of_assemble hrest).of_take htake

/-- The error of a frame whose payload is not what its header declares. -/
def mismatch : ApiError := .badRequest "packed blob does not match its declared digest"

section Step

variable {start : Held}

/-- One event of the parser. A frame that is completed is stored if it is what its
header declares, and ends the request otherwise. -/
theorem Follows.handleEvent (hrules : crates.digests.Documented)
    (huploader : Uploader crates state single ns) {assembly assembly' : Assembly}
    {upload : PackUpload crates} {stores : Held} {event : PackEvent}
    (h : Follows crates chunking state single start assembly upload stores)
    (htake : assembly.take event = some assembly')
    (hall : AllDigests (Announced state.maxBlobBytes) assembly') :
    (∃ upload' stores', run (alone crates chunking) (upload.handleEvent ns event) stores =
        (.ok upload', stores') ∧ upload'.reader = upload.reader ∧
        Follows crates chunking state single start assembly' upload' stores') ∨
      ∃ bad, run (alone crates chunking) (upload.handleEvent ns event) stores =
        (.error mismatch, stores) ∧ assembly'.frames = assembly.frames ++ [bad] ∧
        ¬ crates.Matches bad.1 bad.2 := by
  obtain ⟨frames, current⟩ := assembly
  cases event with
  | started digest =>
      cases current with
      | some frame => cases htake
      | none =>
          obtain rfl := Option.some.inj htake
          refine .inl ⟨_, stores, rfl, rfl, ⟨h.verified, ?_, ?_, h.stores, h.created,
            h.existing, h.total⟩⟩
          · intro heq
            cases heq
          intro digest' got heq
          obtain ⟨rfl, rfl⟩ := Prod.mk.inj (Option.some.inj heq)
          exact ⟨_, rfl, rfl, Spool.tracks_new digest⟩
  | payload payload =>
      cases current with
      | none => cases htake
      | some open' =>
          obtain ⟨digest, got⟩ := open'
          obtain rfl := Option.some.inj htake
          obtain ⟨frame, hframe, rfl, htracks⟩ := h.busy digest got rfl
          have hannounced : Announced state.maxBlobBytes frame.digest :=
            hall.current (frame.digest, got ++ payload) rfl
          obtain ⟨algorithm, halgorithm⟩ := hannounced.algorithmKind hrules
          have hwrite : frame.write payload =
              .ok { frame with spool := frame.spool.write algorithm payload } :=
            bind_eq_ok.mpr ⟨algorithm, mapError_eq_ok.mpr halgorithm, rfl⟩
          refine .inl ⟨{ upload with
            frame := some { frame with spool := frame.spool.write algorithm payload } },
            stores, ?_, rfl, ⟨h.verified, ?_, ?_, h.stores, h.created, h.existing, h.total⟩⟩
          · simp only [PackUpload.handleEvent, hframe, okOr, monadLift_eq, ok_bind, hwrite]
            rfl
          · intro heq
            cases heq
          · intro digest' got' heq
            obtain ⟨rfl, rfl⟩ := Prod.mk.inj (Option.some.inj heq)
            exact ⟨_, rfl, rfl, htracks.write halgorithm payload⟩
  | complete =>
      cases current with
      | none => cases htake
      | some finished =>
          obtain ⟨digest, got⟩ := finished
          obtain rfl := Option.some.inj htake
          obtain ⟨frame, hframe, rfl, htracks⟩ := h.busy digest got rfl
          have hannounced : Announced state.maxBlobBytes frame.digest :=
            hall.frames (frame.digest, got) (by simp)
          by_cases hmatches : crates.Matches frame.digest got
          · left
            have hverify : frame.spool.verify frame.digest
                "packed blob does not match its declared digest" = .ok () :=
              htracks.verify_eq_ok.mpr hmatches
            have hpublish : run (alone crates chunking)
                (publishBlob ns frame.digest frame.spool.bytes) stores = _ :=
              run_publishBlob stores ns frame.digest frame.spool.bytes
            rw [htracks.bytes] at hpublish
            have hnext : putInOrder crates chunking state single
                (frames ++ [(frame.digest, got)]) start = _ :=
              putInOrder_concat hrules huploader frames hannounced hmatches start
            rw [h.stores] at hnext
            refine ⟨{ upload with frame := none }.count
              (stores.putObject frame.digest got).1, published stores ns frame.digest got,
              ?_, PackUpload.count_reader _ _, ?_⟩
            · simp only [PackUpload.handleEvent, hframe, okOr, monadLift_eq, ok_bind,
                PackFrame.store, hverify, htracks.bytes]
              rw [run_bind_ok _ hpublish]
              rfl
            · refine ⟨?_, fun _ => PackUpload.count_frame _ _, ?_, ?_, ?_, ?_, ?_⟩
              · intro other hmem
                rcases List.mem_append.mp hmem with hold | hnew
                · exact h.verified other hold
                · rw [List.mem_singleton.mp hnew]
                  exact hmatches
              · intro digest got' heq
                cases heq
              · rw [hnext]
              · rw [hnext, answeredWith_concat, ← h.created]
                cases (stores.putObject frame.digest got).1 <;> rfl
              · rw [hnext, answeredWith_concat, ← h.existing]
                cases (stores.putObject frame.digest got).1 <;> rfl
              · have htotal := h.total
                rw [List.length_append, List.length_singleton, ← htotal]
                cases (stores.putObject frame.digest got).1 <;>
                  simp only [PackUpload.count] <;> omega
          · right
            refine ⟨(frame.digest, got), ?_, rfl, hmatches⟩
            obtain ⟨algorithm, halgorithm⟩ := hannounced.algorithmKind hrules
            have hverify := htracks.verify_eq_error halgorithm hmatches
              "packed blob does not match its declared digest"
            simp only [PackUpload.handleEvent, hframe, okOr, monadLift_eq, ok_bind,
              PackFrame.store, hverify, error_bind]
            rfl

/-- A refusal between two frames: the stores hold the first frames of the body,
each one verified. -/
structure StoredPrefix (crates : Crates) (chunking : Chunking) (state : AppState)
    (single : HeaderMap) (start : Held) (frames : List Frame) (stores : Held) : Prop where
  verified : ∀ frame ∈ frames, crates.Matches frame.1 frame.2
  stores : stores = (putInOrder crates chunking state single frames start).2

theorem Follows.storedPrefix {assembly : Assembly} {upload : PackUpload crates} {stores : Held}
    (h : Follows crates chunking state single start assembly upload stores) :
    StoredPrefix crates chunking state single start assembly.frames stores :=
  ⟨h.verified, h.stores.symm⟩

/-- The events of a chunk, in order. -/
theorem Follows.handleEvents (hrules : crates.digests.Documented)
    (huploader : Uploader crates state single ns) :
    ∀ {events : List PackEvent} {assembly assembly' : Assembly} {upload : PackUpload crates}
      {stores : Held}, Follows crates chunking state single start assembly upload stores →
      assemble assembly events = some assembly' →
      AllDigests (Announced state.maxBlobBytes) assembly' →
      (∃ upload' stores', run (alone crates chunking)
          (events.foldlM (PackUpload.handleEvent ns) upload) stores = (.ok upload', stores') ∧
          upload'.reader = upload.reader ∧
          Follows crates chunking state single start assembly' upload' stores') ∨
        ∃ frames bad stores', run (alone crates chunking)
          (events.foldlM (PackUpload.handleEvent ns) upload) stores = (.error mismatch, stores') ∧
          frames ++ [bad] <+: assembly'.frames ∧ ¬ crates.Matches bad.1 bad.2 ∧
          StoredPrefix crates chunking state single start frames stores'
  | [], assembly, assembly', upload, stores, h, hassemble, _ => by
      obtain rfl := Option.some.inj hassemble
      exact .inl ⟨upload, stores, rfl, rfl, h⟩
  | event :: events, assembly, assembly', upload, stores, h, hassemble, hall => by
      obtain ⟨middle, htake, hrest⟩ := Option.bind_eq_some_iff.mp hassemble
      rw [List.foldlM_cons]
      rcases h.handleEvent hrules huploader htake (hall.of_assemble hrest) with
        ⟨upload', stores', hrun, hreader, hfollows⟩ | ⟨bad, hrun, hframes, hbad⟩
      · rw [run_bind_ok _ hrun, ← hreader]
        exact handleEvents hrules huploader hfollows hrest hall
      · right
        refine ⟨assembly.frames, bad, stores, run_bind_error _ hrun, ?_, hbad, h.storedPrefix⟩
        rw [← hframes]
        exact frames_prefix_of_assemble hrest

/-- What a pack upload has to carry to be accepted. -/
structure Carries (crates : Crates) (body : ByteStream) (declared : ℕ × ℕ)
    (frames : List Frame) : Prop where
  body : ∃ chunks : List Bytes, body = chunks.map .ok ∧ chunks.flatten = encodePack frames
  blobs : frames.length = declared.1
  bytes : declaredBytes frames = declared.2
  verified : ∀ frame ∈ frames, frame.1.WellFormed ∧ crates.Matches frame.1 frame.2

/-- A refused body, from a point where `consumed` was received: the status, what
was stored, and that nothing acceptable continues it. -/
structure Refused (crates : Crates) (chunking : Chunking) (state : AppState)
    (single : HeaderMap) (start : Held) (reader : PackReader) (consumed : Bytes)
    (body : ByteStream) (e : ApiError) (stores : Held) : Prop where
  status : (e.status = 400 ∨ e.status = 413) ∧ e.logged = none
  stored : ∃ frames, StoredPrefix crates chunking state single start frames stores ∧
    (∀ frame ∈ frames, frame.1.WellFormed) ∧
    (frames = [] ∨ encodePack frames <+: consumed ++ contents body)
  unacceptable : ∀ (frames : List Frame) (chunks : List Bytes), body = chunks.map .ok →
    reader.decode (consumed ++ chunks.flatten) = .ok frames →
    ∃ frame ∈ frames, ¬ crates.Matches frame.1 frame.2

theorem packError_status (error : PackError) :
    ((packError error).status = 400 ∨ (packError error).status = 413) ∧
      (packError error).logged = none := by
  cases error <;> simp [packError, ApiError.badRequest, ApiError.tooLarge, ApiError.new]

/-- The body up to a point of the parser that is refused there. -/
theorem Follows.refused {reader : PackReader} {assembly : Assembly} {upload : PackUpload crates}
    {stores : Held} {consumed : Bytes} {body : ByteStream} {e : ApiError}
    (h : Follows crates chunking state single start assembly upload stores)
    (hreads : Reads reader assembly consumed)
    (hstatus : (e.status = 400 ∨ e.status = 413) ∧ e.logged = none)
    (hnot : ∀ chunks : List Bytes, body = chunks.map .ok →
      ∀ frames, reader.decode (consumed ++ chunks.flatten) ≠ .ok frames) :
    Refused crates chunking state single start reader consumed body e stores := by
  refine ⟨hstatus, ⟨assembly.frames, h.storedPrefix, ?_, ?_⟩, ?_⟩
  · exact fun frame hmem => (hreads.announced.1 frame hmem).1
  · exact hreads.frames_prefix.1.imp id fun hprefix => hprefix.trans (List.prefix_append _ _)
  · intro frames chunks hbody hdecode
    exact absurd hdecode (hnot chunks hbody frames)

/-- A refusal after a chunk is a refusal of the body with that chunk in front. -/
theorem Refused.cons {reader reader' : PackReader} {consumed piece : Bytes} {body : ByteStream}
    {e : ApiError} {stores : Held} (hlimits : SameLimits reader reader')
    (h : Refused crates chunking state single start reader' (consumed ++ piece) body e stores) :
    Refused crates chunking state single start reader consumed (.ok piece :: body) e stores := by
  obtain ⟨frames, hstored, hwf, hprefix⟩ := h.stored
  refine ⟨h.status, ⟨frames, hstored, hwf, ?_⟩, ?_⟩
  · rw [contents_ok, ← List.append_assoc]
    exact hprefix
  · intro frames' chunks hbody hdecode
    match chunks, hbody with
    | [], hbody => cases hbody
    | first :: rest, hbody =>
        obtain ⟨hfirst, hrest⟩ := List.cons.inj hbody
        obtain rfl := Except.ok.inj hfirst
        apply h.unacceptable frames' rest hrest
        rw [hlimits.decode_eq, List.append_assoc]
        exact hdecode

/-- What matters about the handler's own state is the frame and the counts. -/
theorem Follows.withReader {assembly : Assembly} {upload : PackUpload crates} {stores : Held}
    (h : Follows crates chunking state single start assembly upload stores)
    (reader : PackReader) :
    Follows crates chunking state single start assembly { upload with reader } stores :=
  ⟨h.verified, h.idle, h.busy, h.stores, h.created, h.existing, h.total⟩

/-- One chunk of the body. -/
theorem Follows.handleChunk (hrules : crates.digests.Documented)
    (huploader : Uploader crates state single ns) {assembly : Assembly}
    {upload : PackUpload crates} {stores : Held} {consumed piece : Bytes} (body : ByteStream)
    (h : Follows crates chunking state single start assembly upload stores)
    (hreads : Reads upload.reader assembly consumed)
    (hlimit : upload.reader.maxBlobBytes = state.maxBlobBytes.toNat) :
    (∃ upload' stores' assembly', run (alone crates chunking)
        (upload.handleChunk ns (.ok piece)) stores = (.ok upload', stores') ∧
        SameLimits upload.reader upload'.reader ∧
        Reads upload'.reader assembly' (consumed ++ piece) ∧
        Follows crates chunking state single start assembly' upload' stores') ∨
      ∃ e stores', run (alone crates chunking) (upload.handleChunk ns (.ok piece)) stores =
        (.error e, stores') ∧
        Refused crates chunking state single start upload.reader consumed (.ok piece :: body) e
          stores' := by
  have hpush := hreads.push piece
  match hresult : upload.reader.push piece with
  | (.error error, reader') =>
      rw [hresult] at hpush
      right
      refine ⟨packError error, stores, ?_, h.refused hreads (packError_status error) ?_⟩
      · rw [PackUpload.handleChunk_ok, hresult]
        rfl
      · intro chunks hbody frames hdecode
        match chunks, hbody with
        | first :: rest, hbody =>
            obtain rfl := Except.ok.inj (List.cons.inj hbody).1
            rw [List.flatten_cons, ← List.append_assoc, hpush] at hdecode
            cases hdecode
  | (.ok events, reader') =>
      rw [hresult] at hpush
      obtain ⟨hlimits, _, assembly', hassemble, hreads'⟩ := hpush
      have hannounced := hreads'.announced
      rw [hlimits.maxBlobBytes, hlimit] at hannounced
      have hall : AllDigests (Announced state.maxBlobBytes) assembly' :=
        ⟨fun frame hmem => ⟨(hannounced.1 frame hmem).1, (hannounced.1 frame hmem).2⟩,
          fun frame heq => ⟨(hannounced.2 frame heq).1, (hannounced.2 frame heq).2⟩⟩
      have hchunk : upload.handleChunk ns (.ok piece) =
          events.foldlM (PackUpload.handleEvent ns) { upload with reader := reader' } := by
        rw [PackUpload.handleChunk_ok, hresult]
        rfl
      rw [hchunk]
      rcases (h.withReader reader').handleEvents hrules huploader hassemble hall with
        ⟨upload', stores', hrun, hreader, hfollows⟩ | ⟨frames, bad, stores', hrun, hframes, hbad,
          hstored⟩
      · have hreader : reader' = upload'.reader := hreader.symm
        subst hreader
        exact .inl ⟨upload', stores', assembly', hrun, hlimits, hreads', hfollows⟩
      · right
        refine ⟨mismatch, stores', hrun, ⟨⟨.inl rfl, rfl⟩, ⟨frames, hstored, ?_, ?_⟩, ?_⟩⟩
        · intro frame hmem
          have hin : frame ∈ assembly'.frames := hframes.subset (by simp [hmem])
          exact (hannounced.1 frame hin).1
        · have hshorter : frames <+: assembly'.frames :=
            (List.prefix_append frames [bad]).trans hframes
          rcases hreads'.frames_prefix.1 with hnone | hprefix
          · exact .inl (List.prefix_nil.mp (hnone ▸ hshorter))
          · right
            rw [contents_ok, ← List.append_assoc]
            exact ((encodePack_le hshorter).trans hprefix).trans (List.prefix_append _ _)
        · intro frames' chunks hbody hdecode
          match chunks, hbody with
          | first :: rest, hbody =>
              obtain rfl := Except.ok.inj (List.cons.inj hbody).1
              rw [← hlimits.decode_eq, List.flatten_cons, ← List.append_assoc] at hdecode
              have hprefix := hreads'.frames_prefix.2 rest.flatten frames' hdecode
              exact ⟨bad, (hframes.trans hprefix).subset (by simp), hbad⟩

/-- The whole body, chunk by chunk. -/
theorem Follows.handleBody (hrules : crates.digests.Documented)
    (huploader : Uploader crates state single ns) :
    ∀ (body : ByteStream) {assembly : Assembly} {upload : PackUpload crates} {stores : Held}
      {consumed : Bytes}, Follows crates chunking state single start assembly upload stores →
      Reads upload.reader assembly consumed →
      upload.reader.maxBlobBytes = state.maxBlobBytes.toNat →
      (∃ (upload' : PackUpload crates) (stores' : Held) (assembly' : Assembly)
          (chunks : List Bytes), run (alone crates chunking) (body.foldlM
          (PackUpload.handleChunk ns) upload) stores = (.ok upload', stores') ∧
          body = chunks.map .ok ∧ SameLimits upload.reader upload'.reader ∧
          Reads upload'.reader assembly' (consumed ++ chunks.flatten) ∧
          Follows crates chunking state single start assembly' upload' stores') ∨
        ∃ e stores', run (alone crates chunking)
          (body.foldlM (PackUpload.handleChunk ns) upload) stores = (.error e, stores') ∧
          Refused crates chunking state single start upload.reader consumed body e stores'
  | [], assembly, upload, stores, consumed, h, hreads, _ =>
      .inl ⟨upload, stores, assembly, [], rfl, rfl, .refl _, by simpa using hreads, h⟩
  | .error error :: body, assembly, upload, stores, consumed, h, hreads, _ => by
      right
      refine ⟨.badRequest error, stores, rfl, h.refused hreads ⟨.inl rfl, rfl⟩ ?_⟩
      intro chunks hbody
      match chunks, hbody with
      | [], hbody => cases hbody
      | first :: rest, hbody => cases (List.cons.inj hbody).1
  | .ok piece :: body, assembly, upload, stores, consumed, h, hreads, hlimit => by
      rw [List.foldlM_cons]
      rcases h.handleChunk hrules huploader body hreads hlimit with
        ⟨upload', stores', assembly', hrun, hlimits, hreads', hfollows⟩ | ⟨e, stores', hrun,
          hrefused⟩
      · rw [run_bind_ok _ hrun]
        rcases handleBody hrules huploader body hfollows hreads'
            (hlimits.maxBlobBytes.trans hlimit) with
          ⟨upload'', stores'', assembly'', chunks, hrun', rfl, hlimits', hreads'', hfollows'⟩ |
            ⟨e, stores'', hrun', hrefused⟩
        · refine .inl ⟨upload'', stores'', assembly'', piece :: chunks, hrun', rfl,
            hlimits.trans hlimits', ?_, hfollows'⟩
          rw [List.flatten_cons, ← List.append_assoc]
          exact hreads''
        · exact .inr ⟨e, stores'', hrun', hrefused.cons hlimits⟩
      · exact .inr ⟨e, stores', run_bind_error _ hrun, hrefused⟩

theorem follows_new (start : Held) (reader : PackReader) :
    Follows crates chunking state single start ⟨[], none⟩
      { reader, frame := none, created := 0, existing := 0 } start where
  verified := by simp
  idle _ := rfl
  busy := by simp
  stores := rfl
  created := rfl
  existing := rfl
  total := rfl

end Step

/-! ## The whole request -/

/-- Frames a body carries are what the plain reading makes of it. -/
theorem Carries.decode {chunks : List Bytes} {declared : ℕ × ℕ} {frames : List Frame}
    {maxBlobBytes : UInt64} (hlimit : declared.2 ≤ maxBlobBytes.toNat)
    (h : Carries crates (chunks.map .ok) declared frames) :
    Pack.decode chunks.flatten maxBlobBytes.toNat declared.1 declared.2 = .ok frames := by
  obtain ⟨chunks', hbody, hencoded⟩ := h.body
  have hsame : chunks = chunks' :=
    List.map_injective_iff.mpr (fun first second h => Except.ok.inj h) hbody
  rw [hsame, hencoded]
  apply decode_encodePack
  refine ⟨fun frame hmem => ?_, h.blobs.le, h.bytes.le⟩
  obtain ⟨hwf, hmatches⟩ := h.verified frame hmem
  refine ⟨hwf, ?_, hmatches.1⟩
  exact (size_le_declaredBytes hmem).trans (h.bytes.trans_le hlimit)

/-- What `receivePack` comes to: every frame of an acceptable body was stored, or
the body is refused and no frames would have been acceptable. -/
theorem run_receivePack (hrules : crates.digests.Documented)
    (huploader : Uploader crates state single ns) {declared : ℕ × ℕ}
    (hlimit : declared.2 ≤ state.maxBlobBytes.toNat) (body : ByteStream) (start : Held) :
    (∃ receipt frames, run (alone crates chunking)
        (receivePack crates state.maxBlobBytes ns declared.1 declared.2 body) start =
          (.ok receipt, (putInOrder crates chunking state single frames start).2) ∧
        Carries crates body declared frames ∧
        receipt.created =
          answeredWith 201 (putInOrder crates chunking state single frames start).1 ∧
        receipt.existing =
          answeredWith 204 (putInOrder crates chunking state single frames start).1 ∧
        receipt.created + receipt.existing = declared.1) ∨
      ∃ e stores, run (alone crates chunking)
        (receivePack crates state.maxBlobBytes ns declared.1 declared.2 body) start =
          (.error e, stores) ∧
        ((e.status = 400 ∨ e.status = 413) ∧ e.logged = none) ∧
        (∃ frames, StoredPrefix crates chunking state single start frames stores ∧
          (∀ frame ∈ frames, frame.1.WellFormed) ∧
          (frames = [] ∨ encodePack frames <+: contents body)) ∧
        ∀ frames, ¬ Carries crates body declared frames := by
  have hstart : Follows crates chunking state single start ⟨[], none⟩
      { reader := PackReader.new state.maxBlobBytes.toNat declared.1 declared.2
        frame := none, created := 0, existing := 0 } start :=
    follows_new start _
  have hbody := hstart.handleBody hrules huploader body (reads_new _ _ _) rfl
  rw [receivePack]
  rcases hbody with ⟨upload, stores, assembly, chunks, hrun, rfl, hlimits, hreads, hfollows⟩ |
    ⟨e, stores, hrun, hrefused⟩
  · rw [run_bind_ok _ hrun]
    rw [List.nil_append] at hreads
    have hdecode : ∀ frames, Carries crates (chunks.map .ok) declared frames →
        upload.reader.decode chunks.flatten = .ok frames := by
      intro frames hcarries
      rw [hlimits.decode_eq]
      exact hcarries.decode hlimit
    have hstored : ∃ frames, StoredPrefix crates chunking state single start frames stores ∧
        (∀ frame ∈ frames, frame.1.WellFormed) ∧
        (frames = [] ∨ encodePack frames <+: contents (chunks.map .ok)) := by
      refine ⟨assembly.frames, hfollows.storedPrefix, ?_, ?_⟩
      · exact fun frame hmem => (hreads.announced.1 frame hmem).1
      · rw [contents_map_ok]
        exact hreads.frames_prefix.1
    cases hfinish : upload.reader.finish with
    | error error =>
        right
        refine ⟨packError error, stores, rfl, packError_status error, hstored, ?_⟩
        intro frames hcarries
        have hnot := hreads.finish_error hfinish
        rw [hdecode frames hcarries] at hnot
        cases hnot
    | ok u =>
        obtain ⟨_, hconsumed, hwithin, hblobs, hbytes⟩ := hreads.finish_ok hfinish
        by_cases hcounts : assembly.frames.length = declared.1 ∧
            declaredBytes assembly.frames = declared.2
        · left
          have hagrees : (upload.reader.blobs != declared.1 ||
              upload.reader.payloadBytes != declared.2) = false := by
            simp [hblobs, hbytes, hcounts.1, hcounts.2]
          refine ⟨{ created := upload.created, existing := upload.existing }, assembly.frames, ?_,
            ⟨⟨chunks, rfl, hconsumed⟩, hcounts.1, hcounts.2, ?_⟩, hfollows.created,
            hfollows.existing, hfollows.total.trans hcounts.1⟩
          · simp only [Except.mapError, monadLift_eq, ok_bind, hagrees, rejectIf,
              Bool.false_eq_true, if_false, hfollows.stores]
            rfl
          · intro frame hmem
            exact ⟨(hreads.announced.1 frame hmem).1, hfollows.verified frame hmem⟩
        · right
          have hdiffers : (upload.reader.blobs != declared.1 ||
              upload.reader.payloadBytes != declared.2) = true := by
            by_contra hnot
            apply hcounts
            simpa [hblobs, hbytes] using hnot
          refine ⟨.badRequest "blob pack does not carry what its headers declared", stores, ?_, ?_,
            hstored, ?_⟩
          · simp only [Except.mapError, monadLift_eq, ok_bind, hdiffers, rejectIf, if_true,
              error_bind]
            rfl
          · exact ⟨.inl rfl, rfl⟩
          · intro frames hcarries
            have hsame := hdecode frames hcarries
            rw [hconsumed, PackReader.decode, decode_encodePack hwithin] at hsame
            apply hcounts
            rw [Except.ok.inj hsame]
            exact ⟨hcarries.blobs, hcarries.bytes⟩
  · right
    refine ⟨e, stores, run_bind_error _ hrun, hrefused.status, ?_, ?_⟩
    · obtain ⟨frames, hstored, hwf, hprefix⟩ := hrefused.stored
      exact ⟨frames, hstored, hwf, hprefix⟩
    · intro frames hcarries
      obtain ⟨chunks, rfl, _⟩ := hcarries.body
      obtain ⟨frame, hmem, hbad⟩ :=
        hrefused.unacceptable frames chunks rfl (hcarries.decode hlimit)
      exact hbad (hcarries.verified frame hmem).2

/-- The declared counts of a pack upload that its limits let through. -/
structure Declares (maxBlobBytes : UInt64) (headers : HeaderMap) (declared : ℕ × ℕ) : Prop where
  blobs : requiredU64Header headers "mbx-cache-pack-blobs" = .ok declared.1
  bytes : requiredU64Header headers "mbx-cache-pack-bytes" = .ok declared.2
  blobs_le : declared.1 ≤ MAX_BATCH_ITEMS
  bytes_le : declared.2 ≤ maxBlobBytes.toNat

theorem packDeclaration_eq_ok {maxBlobBytes : UInt64} {headers : HeaderMap}
    {declared : ℕ × ℕ} :
    packDeclaration maxBlobBytes headers = .ok declared ↔
      Declares maxBlobBytes headers declared := by
  obtain ⟨blobs, bytes⟩ := declared
  simp only [packDeclaration, bind_eq_ok, rejectIf_eq_ok, decide_eq_false_iff_not, not_lt,
    gt_iff_lt]
  constructor
  · rintro ⟨blobs', hblobs, bytes', hbytes, _, hcount, _, hlimit, heq⟩
    obtain ⟨rfl, rfl⟩ := Prod.mk.inj (Except.ok.inj heq)
    exact ⟨hblobs, hbytes, hcount, hlimit⟩
  · rintro ⟨hblobs, hbytes, hcount, hlimit⟩
    exact ⟨blobs, hblobs, bytes, hbytes, (), hcount, (), hlimit, rfl⟩

/-- Declared counts that are refused are the client's error. -/
theorem packDeclaration_eq_error {maxBlobBytes : UInt64} {headers : HeaderMap} {e : ApiError}
    (h : packDeclaration maxBlobBytes headers = .error e) :
    (e.status = 400 ∨ e.status = 413) ∧ e.logged = none := by
  rcases bind_eq_error.mp h with hblobs | ⟨blobs, _, h⟩
  · obtain ⟨_, rfl⟩ := okOr_eq_error.mp hblobs
    exact ⟨.inl rfl, rfl⟩
  rcases bind_eq_error.mp h with hbytes | ⟨bytes, _, h⟩
  · obtain ⟨_, rfl⟩ := okOr_eq_error.mp hbytes
    exact ⟨.inl rfl, rfl⟩
  rcases bind_eq_error.mp h with hcount | ⟨_, _, h⟩
  · obtain ⟨_, rfl⟩ := rejectIf_eq_error.mp hcount
    exact ⟨.inl rfl, rfl⟩
  rcases bind_eq_error.mp h with hlimit | ⟨_, _, h⟩
  · obtain ⟨_, rfl⟩ := rejectIf_eq_error.mp hlimit
    exact ⟨.inr rfl, rfl⟩
  · cases h

/-- A pack upload that is let in does what single uploads of its frames do in
order, or of the first of them if it is refused. It is answered exactly when the
body carries what its headers declare, within the limits, and every payload is
what its frame declares. A refusal names the client's error; none comes from the
handler's own frame. -/
theorem put_blob_pack_sequence (hrules : crates.digests.Documented)
    (huploader : Uploader crates state single ns) {headers : HeaderMap}
    (hgranted : state.auth.authorize crates headers .write = .ok ns) (body : ByteStream)
    (start : Held) :
    ((∃ receipt, (run (alone crates chunking) (putBlobPack crates state headers body) start).1 =
        .ok receipt) ↔
      ∃ declared frames, Declares state.maxBlobBytes headers declared ∧
        Carries crates body declared frames) ∧
    (∀ receipt later, run (alone crates chunking) (putBlobPack crates state headers body) start =
        (.ok receipt, later) →
      ∃ declared frames, Declares state.maxBlobBytes headers declared ∧
        Carries crates body declared frames ∧
        later = (putInOrder crates chunking state single frames start).2 ∧
        receipt.created =
          answeredWith 201 (putInOrder crates chunking state single frames start).1 ∧
        receipt.existing =
          answeredWith 204 (putInOrder crates chunking state single frames start).1 ∧
        receipt.created + receipt.existing = declared.1) ∧
    ∀ e later, run (alone crates chunking) (putBlobPack crates state headers body) start =
        (.error e, later) →
      ((e.status = 400 ∨ e.status = 413) ∧ e.logged = none) ∧
        ∃ frames, (∀ frame ∈ frames, frame.1.WellFormed ∧ crates.Matches frame.1 frame.2) ∧
          (frames = [] ∨ encodePack frames <+: contents body) ∧
          later = (putInOrder crates chunking state single frames start).2 := by
  have hrun : run (alone crates chunking) (putBlobPack crates state headers body) start =
      run (alone crates chunking)
        ((done (packDeclaration state.maxBlobBytes headers) : Handler (ℕ × ℕ)) >>= fun declared =>
          receivePack crates state.maxBlobBytes ns declared.1 declared.2 body) start := by
    rw [putBlobPack, hgranted]
    rfl
  rw [hrun]
  cases hdeclared : packDeclaration state.maxBlobBytes headers with
  | error e =>
      have hstatus := packDeclaration_eq_error hdeclared
      refine ⟨⟨?_, ?_⟩, ?_, ?_⟩
      · rintro ⟨receipt, h⟩
        cases h
      · rintro ⟨declared, frames, h, _⟩
        rw [packDeclaration_eq_ok.mpr h] at hdeclared
        cases hdeclared
      · intro receipt later h
        cases h
      · intro e' later h
        obtain ⟨he, hlater⟩ := Prod.mk.inj h
        obtain rfl := Except.error.inj he
        exact ⟨hstatus, [], by simp, .inl rfl, hlater.symm⟩
  | ok declared =>
      have hdeclares := packDeclaration_eq_ok.mp hdeclared
      rw [ok_bind]
      rcases run_receivePack hrules huploader hdeclares.bytes_le body start with
        ⟨receipt, frames, hrun, hcarries, hcreated, hexisting, htotal⟩ |
          ⟨e, stores, hrun, hstatus, ⟨frames, hstored, hwf, hprefix⟩, hnot⟩
      · rw [hrun]
        refine ⟨⟨fun _ => ⟨declared, frames, hdeclares, hcarries⟩, fun _ => ⟨receipt, rfl⟩⟩, ?_, ?_⟩
        · intro receipt' later h
          obtain ⟨hreceipt, hlater⟩ := Prod.mk.inj h
          obtain rfl := Except.ok.inj hreceipt
          exact ⟨declared, frames, hdeclares, hcarries, hlater.symm, hcreated, hexisting, htotal⟩
        · intro e later h
          cases (Prod.mk.inj h).1
      · rw [hrun]
        refine ⟨⟨?_, ?_⟩, ?_, ?_⟩
        · rintro ⟨receipt, h⟩
          cases h
        · rintro ⟨declared', frames', h, hcarries⟩
          rw [packDeclaration_eq_ok.mpr h] at hdeclared
          obtain rfl := Except.ok.inj hdeclared
          exact absurd hcarries (hnot frames')
        · intro receipt later h
          cases (Prod.mk.inj h).1
        · intro e' later h
          obtain ⟨he, hlater⟩ := Prod.mk.inj h
          obtain rfl := Except.error.inj he
          refine ⟨hstatus, frames, ?_, hprefix, hlater.symm.trans hstored.stores⟩
          exact fun frame hmem => ⟨hwf frame hmem, hstored.verified frame hmem⟩

end

/-- A pack of one frame is taken by the sample server. -/
theorem put_blob_pack_sequence_sample :
    ∃ receipt, (run (alone Sample.crates .whole)
      (putBlobPack Sample.crates Sample.state Sample.packHeaders
        [.ok (encodePack [(Sample.taskActionDigest, Sample.taskActionText)])]) Held.empty).1 =
      .ok receipt := by
  have hgranted : Sample.state.auth.authorize Sample.crates Sample.packHeaders .write =
      .ok "acme/app" := by
    decide +kernel
  refine (put_blob_pack_sequence Sample.documented (uploader_of_granted hgranted) hgranted _
    Held.empty).1.mpr ⟨(1, 200), _, ⟨?_, ?_, ?_, ?_⟩, ⟨⟨[_], rfl, List.flatten_singleton⟩, ?_, ?_, ?_⟩⟩
  · decide +kernel
  · decide +kernel
  · decide +kernel
  · decide +kernel
  · rfl
  · decide +kernel
  · intro frame hmem
    obtain rfl := List.mem_singleton.mp hmem
    exact ⟨(Sample.validate_iff _).mp (by decide +kernel), by decide +kernel, .blake3, rfl,
      by decide +kernel⟩

end MbxCache.Server
