/-
# Writing a pack, and reading it back whole

The plain meaning of the format, without chunks: a frame is a header followed by
its payload, a pack is the magic followed by frames, and `decode` is the recursive
reading of a whole pack with the limits checked in the order of the stream.

The two directions meet in `decodeFrames_append`: a prefix of complete frames
within the limits is read back as it was written, and reading goes on behind it.
-/

import MbxCache.Pack.Reader

namespace MbxCache.Pack

open Foundation

/-- A blob in a pack: the digest its header declares and its payload. -/
abbrev Frame := Digest × Bytes

/-- The algorithm byte of a frame header. -/
def Algorithm.tag : Algorithm → UInt8
  | .blake3 => 1
  | .sha256 => 2

/-- The 41 header bytes for a digest of known algorithm. -/
def headerBytes (algorithm : Algorithm) (hash : Bytes) (size : UInt64) : Bytes :=
  Algorithm.tag algorithm :: (hash ++ u64ToBeBytes size)

/-- The header that declares a digest. -/
def frameHeader (digest : Digest) : Bytes :=
  headerBytes (if digest.algorithm = Algorithm.sha256.asStr then .sha256 else .blake3)
    ((hexDecode digest.hash).getD []) digest.size

def encodeFrame (frame : Frame) : Bytes := frameHeader frame.1 ++ frame.2

def encodeFrames (frames : List Frame) : Bytes := frames.flatMap encodeFrame

def encodePack (frames : List Frame) : Bytes := BLOB_PACK_MAGIC ++ encodeFrames frames

/-- Payload bytes of a list of frames, as their headers declare them. -/
def declaredBytes (frames : List Frame) : ℕ := (frames.map (·.1.size.toNat)).sum

@[simp]
theorem encodeFrames_append (first second : List Frame) :
    encodeFrames (first ++ second) = encodeFrames first ++ encodeFrames second := by
  simp [encodeFrames]

@[simp]
theorem encodeFrames_nil : encodeFrames [] = [] := rfl

@[simp]
theorem encodeFrames_cons (frame : Frame) (frames : List Frame) :
    encodeFrames (frame :: frames) = encodeFrame frame ++ encodeFrames frames := rfl

@[simp]
theorem declaredBytes_nil : declaredBytes [] = 0 := rfl

@[simp]
theorem declaredBytes_cons (frame : Frame) (frames : List Frame) :
    declaredBytes (frame :: frames) = frame.1.size.toNat + declaredBytes frames := by
  simp [declaredBytes]

@[simp]
theorem declaredBytes_append (first second : List Frame) :
    declaredBytes (first ++ second) = declaredBytes first + declaredBytes second := by
  simp [declaredBytes]

theorem size_le_declaredBytes {frame : Frame} {frames : List Frame} (h : frame ∈ frames) :
    frame.1.size.toNat ≤ declaredBytes frames := by
  induction frames with
  | nil => cases h
  | cons first frames ih =>
      rw [declaredBytes_cons]
      rcases List.mem_cons.mp h with rfl | hrest
      · exact Nat.le_add_right _ _
      · exact (ih hrest).trans (Nat.le_add_left _ _)

theorem encodePack_le {first second : List Frame} (h : first <+: second) :
    encodePack first <+: encodePack second := by
  obtain ⟨rest, rfl⟩ := h
  rw [encodePack, encodePack, encodeFrames_append, ← List.append_assoc]
  exact List.prefix_append _ _

/-- A frame a reader with this ceiling takes: a digest the format can carry and
exactly the payload it declares. -/
structure Frame.Fits (maxBlobBytes : ℕ) (frame : Frame) : Prop where
  wellFormed : frame.1.WellFormed
  size_le : frame.1.size.toNat ≤ maxBlobBytes
  payload_length : frame.2.length = frame.1.size.toNat

/-! ## Headers -/

theorem headerBytes_length {hash : Bytes} (h : hash.length = 32) (algorithm : Algorithm)
    (size : UInt64) : (headerBytes algorithm hash size).length = BLOB_PACK_HEADER_BYTES := by
  simp [headerBytes, h, BLOB_PACK_HEADER_BYTES]

/-- Reading back a header that was written. -/
theorem parseHeader_headerBytes {hash : Bytes} (h : hash.length = 32) (algorithm : Algorithm)
    (size : UInt64) (maxBlobBytes : ℕ) :
    parseHeader maxBlobBytes (headerBytes algorithm hash size) =
      if size.toNat > maxBlobBytes then .error (.blobTooLarge size.toNat maxBlobBytes)
      else .ok { algorithm := algorithm.asStr, hash := hexEncode hash, size } := by
  have hhash : ((headerBytes algorithm hash size).drop 1).take 32 = hash := by
    simp [headerBytes, ← h]
  have hsize : ((headerBytes algorithm hash size).drop 33).take 8 = u64ToBeBytes size := by
    simp [headerBytes, h, List.take_of_length_le]
  cases algorithm with
  | blake3 => simp only [parseHeader, hhash, hsize, u64FromBeBytes_u64ToBeBytes]; rfl
  | sha256 => simp only [parseHeader, hhash, hsize, u64FromBeBytes_u64ToBeBytes]; rfl

/-- Every 41 bytes with a known algorithm byte are the header of something. -/
theorem exists_headerBytes {header : Bytes} (hlen : header.length = BLOB_PACK_HEADER_BYTES)
    {algorithm : Algorithm} (htag : header.getD 0 0 = Algorithm.tag algorithm) :
    ∃ (hash : Bytes) (size : UInt64), hash.length = 32 ∧
      header = headerBytes algorithm hash size := by
  have hlen' : header.length = 41 := hlen
  refine ⟨(header.drop 1).take 32, u64FromBeBytes (header.drop 33), by simp [hlen'], ?_⟩
  have hbe : u64ToBeBytes (u64FromBeBytes (header.drop 33)) = header.drop 33 :=
    u64ToBeBytes_u64FromBeBytes (by simp [hlen'])
  match header, hlen', htag with
  | tag :: rest, hlen', htag =>
      have htag' : tag = Algorithm.tag algorithm := htag
      rw [headerBytes, hbe, ← htag']
      simp

/-- Only headers parse, and a parsed digest determines its header. -/
theorem frameHeader_of_parseHeader {maxBlobBytes : ℕ} {header : Bytes} {digest : Digest}
    (hlen : header.length = BLOB_PACK_HEADER_BYTES)
    (h : parseHeader maxBlobBytes header = .ok digest) :
    frameHeader digest = header ∧ digest.WellFormed ∧ digest.size.toNat ≤ maxBlobBytes := by
  obtain ⟨algorithm, htag⟩ : ∃ algorithm, header.getD 0 0 = Algorithm.tag algorithm := by
    unfold parseHeader at h
    dsimp only at h
    split at h
    · rename_i htag
      exact ⟨.blake3, htag⟩
    · rename_i htag
      exact ⟨.sha256, htag⟩
    · cases h
  obtain ⟨hash, size, hhash, rfl⟩ := exists_headerBytes hlen htag
  rw [parseHeader_headerBytes hhash] at h
  split at h
  · cases h
  · rename_i hsize
    injection h with hdigest
    subst hdigest
    refine ⟨?_, ⟨⟨algorithm, rfl⟩, by simp [hhash], lowerHex_hexEncode hash⟩, by simpa using hsize⟩
    cases algorithm with
    | blake3 => simp [frameHeader, Algorithm.asStr]
    | sha256 => simp [frameHeader, Algorithm.asStr]

/-- A well-formed digest has a header, and it parses to the digest. -/
theorem exists_frameHeader {digest : Digest} (h : digest.WellFormed) :
    ∃ (algorithm : Algorithm) (hash : Bytes), hash.length = 32 ∧
      digest.algorithm = algorithm.asStr ∧ hexDecode digest.hash = some hash ∧
      hexEncode hash = digest.hash ∧ frameHeader digest = headerBytes algorithm hash digest.size := by
  obtain ⟨algorithm, halgorithm⟩ := h.algorithm
  obtain ⟨hash, hdecode, hlength, hencode⟩ :=
    exists_hexDecode_of_lowerHex (show digest.hash.length = 2 * 32 from h.hash_length)
      h.hash_lower
  refine ⟨algorithm, hash, hlength, halgorithm, hdecode, hencode, ?_⟩
  rw [frameHeader, hdecode, halgorithm]
  cases algorithm <;> rfl

theorem frameHeader_length {digest : Digest} (h : digest.WellFormed) :
    (frameHeader digest).length = BLOB_PACK_HEADER_BYTES := by
  obtain ⟨algorithm, hash, hlength, _, _, _, hheader⟩ := exists_frameHeader h
  rw [hheader, headerBytes_length hlength]

theorem parseHeader_frameHeader {digest : Digest} {maxBlobBytes : ℕ} (h : digest.WellFormed)
    (hsize : digest.size.toNat ≤ maxBlobBytes) :
    parseHeader maxBlobBytes (frameHeader digest) = .ok digest := by
  obtain ⟨algorithm, hash, hlength, halgorithm, _, hencode, hheader⟩ := exists_frameHeader h
  rw [hheader, parseHeader_headerBytes hlength, if_neg (by omega), hencode, ← halgorithm]

theorem encodeFrame_length {maxBlobBytes : ℕ} {frame : Frame}
    (h : frame.Fits maxBlobBytes) :
    (encodeFrame frame).length = BLOB_PACK_HEADER_BYTES + frame.1.size.toNat := by
  rw [encodeFrame, List.length_append, frameHeader_length h.wellFormed, h.payload_length]

theorem encodeFrames_length {maxBlobBytes : ℕ} {frames : List Frame}
    (h : ∀ frame ∈ frames, frame.Fits maxBlobBytes) :
    (encodeFrames frames).length =
      BLOB_PACK_HEADER_BYTES * frames.length + declaredBytes frames := by
  induction frames with
  | nil => rfl
  | cons frame frames ih =>
      have hframe := encodeFrame_length (h frame (by simp))
      have hrest := ih fun later hlater => h later (by simp [hlater])
      simp only [encodeFrames_cons, List.length_append, hframe, hrest, List.length_cons,
        declaredBytes_cons, BLOB_PACK_HEADER_BYTES]
      omega

/-! ## The plain reading of a pack -/

/-- Read frames until the bytes end, counting what came before. -/
def decodeFrames (maxBlobBytes maxBlobs maxPayloadBytes : ℕ) (blobs payloadBytes : ℕ)
    (bytes : Bytes) : Except PackError (List Frame) :=
  if bytes = [] then .ok []
  else if _hshort : bytes.length < BLOB_PACK_HEADER_BYTES then .error .truncated
  else
    match parseHeader maxBlobBytes (bytes.take BLOB_PACK_HEADER_BYTES) with
    | .error error => .error error
    | .ok digest =>
        let rest := bytes.drop BLOB_PACK_HEADER_BYTES
        let payload := rest.take digest.size.toNat
        if blobs + 1 > maxBlobs then .error (.tooManyBlobs maxBlobs)
        else if payloadBytes + payload.length > maxPayloadBytes then
          .error (.tooManyBytes maxPayloadBytes)
        else if payload.length < digest.size.toNat then .error .truncated
        else
          match decodeFrames maxBlobBytes maxBlobs maxPayloadBytes (blobs + 1)
              (payloadBytes + payload.length) (rest.drop digest.size.toNat) with
          | .error error => .error error
          | .ok frames => .ok ((digest, payload) :: frames)
termination_by bytes.length
decreasing_by
  simp only [List.length_drop, BLOB_PACK_HEADER_BYTES] at *
  omega

/-- The plain reading of a whole pack. -/
def decode (bytes : Bytes) (maxBlobBytes maxBlobs maxPayloadBytes : ℕ) :
    Except PackError (List Frame) :=
  if bytes.length < BLOB_PACK_MAGIC.length then .error .truncated
  else if bytes.take BLOB_PACK_MAGIC.length ≠ BLOB_PACK_MAGIC then .error .magic
  else decodeFrames maxBlobBytes maxBlobs maxPayloadBytes 0 0 (bytes.drop BLOB_PACK_MAGIC.length)

/-! ### One frame -/

section Frame

variable {maxBlobBytes maxBlobs maxPayloadBytes blobs payloadBytes : ℕ}

/-- Reading begins by parsing 41 bytes. -/
theorem decodeFrames_header {header : Bytes} (hlength : header.length = BLOB_PACK_HEADER_BYTES)
    (tail : Bytes) :
    decodeFrames maxBlobBytes maxBlobs maxPayloadBytes blobs payloadBytes (header ++ tail) =
      match parseHeader maxBlobBytes header with
      | .error error => .error error
      | .ok digest =>
          if blobs + 1 > maxBlobs then .error (.tooManyBlobs maxBlobs)
          else if payloadBytes + (tail.take digest.size.toNat).length > maxPayloadBytes then
            .error (.tooManyBytes maxPayloadBytes)
          else if (tail.take digest.size.toNat).length < digest.size.toNat then
            .error .truncated
          else
            match decodeFrames maxBlobBytes maxBlobs maxPayloadBytes (blobs + 1)
                (payloadBytes + (tail.take digest.size.toNat).length)
                (tail.drop digest.size.toNat) with
            | .error error => .error error
            | .ok frames => .ok ((digest, tail.take digest.size.toNat) :: frames) := by
  have hlong : ¬ (header ++ tail).length < BLOB_PACK_HEADER_BYTES := by
    rw [List.length_append, hlength]
    omega
  have hne : header ++ tail ≠ [] := by
    intro h
    rw [h] at hlong
    exact hlong (by decide)
  rw [decodeFrames, if_neg hne, dif_neg hlong, List.take_left' hlength, List.drop_left' hlength]

theorem decodeFrames_nil :
    decodeFrames maxBlobBytes maxBlobs maxPayloadBytes blobs payloadBytes [] = .ok [] := by
  rw [decodeFrames, if_pos rfl]

/-- A part of a header is a truncated pack. -/
theorem decodeFrames_short {bytes : Bytes} (hne : bytes ≠ [])
    (hshort : bytes.length < BLOB_PACK_HEADER_BYTES) :
    decodeFrames maxBlobBytes maxBlobs maxPayloadBytes blobs payloadBytes bytes =
      .error .truncated := by
  rw [decodeFrames, if_neg hne, dif_pos hshort]

/-- A frame within the limits is read back as it was written. -/
theorem decodeFrames_encodeFrame {frame : Frame} (hfits : frame.Fits maxBlobBytes)
    (hblobs : blobs + 1 ≤ maxBlobs)
    (hbytes : payloadBytes + frame.1.size.toNat ≤ maxPayloadBytes) (rest : Bytes) :
    decodeFrames maxBlobBytes maxBlobs maxPayloadBytes blobs payloadBytes
        (encodeFrame frame ++ rest) =
      (decodeFrames maxBlobBytes maxBlobs maxPayloadBytes (blobs + 1)
        (payloadBytes + frame.1.size.toNat) rest).map (frame :: ·) := by
  obtain ⟨hwf, hsize, hlength⟩ := hfits
  have hpayload : (frame.2 ++ rest).take frame.1.size.toNat = frame.2 := List.take_left' hlength
  have hbehind : (frame.2 ++ rest).drop frame.1.size.toNat = rest := List.drop_left' hlength
  rw [encodeFrame, List.append_assoc, decodeFrames_header (frameHeader_length hwf),
    parseHeader_frameHeader hwf hsize]
  dsimp only
  rw [hpayload, hbehind, hlength, if_neg (by omega), if_neg (by omega), if_neg (by omega)]
  cases decodeFrames maxBlobBytes maxBlobs maxPayloadBytes (blobs + 1)
    (payloadBytes + frame.1.size.toNat) rest <;> rfl

/-- Complete frames within the limits are read back as they were written, and
reading goes on behind them. -/
theorem decodeFrames_append (rest : Bytes) :
    ∀ (frames : List Frame) (blobs payloadBytes : ℕ),
      (∀ frame ∈ frames, frame.Fits maxBlobBytes) →
      blobs + frames.length ≤ maxBlobs →
      payloadBytes + declaredBytes frames ≤ maxPayloadBytes →
      decodeFrames maxBlobBytes maxBlobs maxPayloadBytes blobs payloadBytes
          (encodeFrames frames ++ rest) =
        (decodeFrames maxBlobBytes maxBlobs maxPayloadBytes (blobs + frames.length)
          (payloadBytes + declaredBytes frames) rest).map (frames ++ ·)
  | [], blobs, payloadBytes, _, _, _ => by
      simp only [encodeFrames_nil, List.nil_append, List.length_nil, Nat.add_zero,
        declaredBytes_nil]
      cases decodeFrames maxBlobBytes maxBlobs maxPayloadBytes blobs payloadBytes rest <;> rfl
  | frame :: frames, blobs, payloadBytes, hfits, hblobs, hbytes => by
      simp only [List.length_cons, declaredBytes_cons] at hblobs hbytes
      rw [encodeFrames_cons, List.append_assoc,
        decodeFrames_encodeFrame (hfits frame (by simp)) (by omega) (by omega),
        decodeFrames_append rest frames (blobs + 1) (payloadBytes + frame.1.size.toNat)
          (fun later hmem => hfits later (by simp [hmem])) (by omega) (by omega)]
      have hcount : blobs + 1 + frames.length = blobs + (frames.length + 1) := by omega
      have htotal : payloadBytes + frame.1.size.toNat + declaredBytes frames =
          payloadBytes + (frame.1.size.toNat + declaredBytes frames) := by omega
      rw [hcount, htotal, List.length_cons, declaredBytes_cons]
      cases decodeFrames maxBlobBytes maxBlobs maxPayloadBytes (blobs + (frames.length + 1))
        (payloadBytes + (frame.1.size.toNat + declaredBytes frames)) rest <;> rfl

end Frame

/-! ### A whole pack -/

/-- The limits leave room for these frames. -/
structure Within (maxBlobBytes maxBlobs maxPayloadBytes : ℕ) (frames : List Frame) : Prop where
  fits : ∀ frame ∈ frames, frame.Fits maxBlobBytes
  blobs_le : frames.length ≤ maxBlobs
  bytes_le : declaredBytes frames ≤ maxPayloadBytes

/-- The magic and complete frames are read as those frames, then the rest. -/
theorem decode_encodePack_append {maxBlobBytes maxBlobs maxPayloadBytes : ℕ}
    {frames : List Frame} (h : Within maxBlobBytes maxBlobs maxPayloadBytes frames)
    (rest : Bytes) :
    decode (encodePack frames ++ rest) maxBlobBytes maxBlobs maxPayloadBytes =
      (decodeFrames maxBlobBytes maxBlobs maxPayloadBytes frames.length
        (declaredBytes frames) rest).map (frames ++ ·) := by
  have hlong : ¬ (encodePack frames ++ rest).length < BLOB_PACK_MAGIC.length := by
    simp only [encodePack, List.length_append]
    omega
  have hblobs := h.blobs_le
  have hbytes := h.bytes_le
  rw [decode, if_neg hlong, encodePack, List.append_assoc, List.take_left' rfl,
    if_neg (not_not.mpr rfl), List.drop_left' rfl,
    decodeFrames_append rest frames 0 0 h.fits (by omega) (by omega), Nat.zero_add, Nat.zero_add]

theorem decode_encodePack {maxBlobBytes maxBlobs maxPayloadBytes : ℕ} {frames : List Frame}
    (h : Within maxBlobBytes maxBlobs maxPayloadBytes frames) :
    decode (encodePack frames) maxBlobBytes maxBlobs maxPayloadBytes = .ok frames := by
  have hdecode := decode_encodePack_append h []
  rw [decodeFrames_nil, List.append_nil] at hdecode
  simpa [Except.map] using hdecode

end MbxCache.Pack
