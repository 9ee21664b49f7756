/-
# The pack reader

A pack is the magic prefix followed by one frame per blob: an algorithm byte, the
raw 32-byte hash, the payload length as a big-endian word, and that many payload
bytes. The reader is a state machine over arbitrary chunk boundaries, because a
frame header can arrive split across as many chunks as the network chooses.

The loop of `push` is kept as one iteration and its closure. An iteration need
not consume a byte, so termination counts held and unread bytes together and
breaks ties by state.

Counters are natural numbers. They never exceed the bytes received
(`Reads.counters_le`), so they agree with the 64-bit counters on every stream
shorter than 2^64 bytes.
-/

import Mathlib.Tactic.Linarith
import MbxCache.Protocol

namespace MbxCache.Pack

open Foundation

/-- What a caller should do with the bytes a chunk contained. -/
inductive PackEvent where
  | started (digest : Digest)
  | payload (bytes : Bytes)
  | complete
  deriving DecidableEq, Repr

/-- A pack that is not a pack. -/
inductive PackError where
  | magic
  | algorithm (tag : UInt8)
  | truncated
  | blobTooLarge (size limit : ℕ)
  | tooManyBlobs (limit : ℕ)
  | tooManyBytes (limit : ℕ)
  deriving DecidableEq, Repr

def PackError.message : PackError → String
  | .magic => "blob pack does not start with the expected magic prefix"
  | .algorithm tag => s!"blob pack declares an unknown digest algorithm {tag.toNat}"
  | .truncated => "blob pack ended inside a frame"
  | .blobTooLarge size limit =>
      s!"blob pack declares a blob of {size} bytes, over the {limit} byte limit"
  | .tooManyBlobs limit => s!"blob pack carries more than the declared {limit} blobs"
  | .tooManyBytes limit => s!"blob pack carries more than the declared {limit} payload bytes"

inductive State where
  | magic
  | header
  | payload
  deriving DecidableEq, Repr

/-- Incremental reader for one uploaded pack. -/
structure PackReader where
  state : State
  buffer : Bytes
  maxBlobBytes : ℕ
  maxBlobs : ℕ
  maxPayloadBytes : ℕ
  blobs : ℕ
  payloadBytes : ℕ
  remaining : ℕ
  deriving DecidableEq, Repr

/-- Decode one complete frame header. Checks come in stream order: the algorithm
byte is read before the length. -/
def parseHeader (maxBlobBytes : ℕ) (header : Bytes) : Except PackError Digest :=
  let hash := hexEncode ((header.drop 1).take 32)
  let size := u64FromBeBytes ((header.drop 33).take 8)
  let digest (algorithm : Algorithm) : Except PackError Digest :=
    if size.toNat > maxBlobBytes then .error (.blobTooLarge size.toNat maxBlobBytes)
    else .ok { algorithm := algorithm.asStr, hash, size }
  match header.getD 0 0 with
  | 1 => digest .blake3
  | 2 => digest .sha256
  | other => .error (.algorithm other)

namespace PackReader

/-- A reader bounded by one blob's ceiling and the request's declaration. -/
def new (maxBlobBytes maxBlobs maxPayloadBytes : ℕ) : PackReader where
  state := .magic
  buffer := []
  maxBlobBytes
  maxBlobs
  maxPayloadBytes
  blobs := 0
  payloadBytes := 0
  remaining := 0

/-- Buffer until `wanted` bytes are held; the answer is the reader and the bytes
it left unread. -/
def fill (reader : PackReader) (rest : Bytes) (wanted : ℕ) : PackReader × Bytes :=
  if reader.buffer.length < wanted then
    let take := min (wanted - reader.buffer.length) rest.length
    ({ reader with buffer := reader.buffer ++ rest.take take }, rest.drop take)
  else (reader, rest)

/-- What one turn of the loop decided. -/
inductive Turn where
  | stop (result : Except PackError (List PackEvent)) (reader : PackReader)
  | again (reader : PackReader) (rest : Bytes) (events : List PackEvent)

/-- Start the frame whose header has been parsed. A frame without payload is
complete at once, and the reader is back between frames. -/
def startFrame (reader : PackReader) (digest : Digest) (rest : Bytes)
    (events : List PackEvent) : Turn :=
  let reader := { reader with
    buffer := [], remaining := digest.size.toNat, blobs := reader.blobs + 1 }
  if reader.blobs > reader.maxBlobs then .stop (.error (.tooManyBlobs reader.maxBlobs)) reader
  else if reader.remaining = 0 then
    .again { reader with state := .header } rest (events ++ [.started digest, .complete])
  else .again { reader with state := .payload } rest (events ++ [.started digest])

/-- One turn of the loop in `push`. -/
def turn (reader : PackReader) (rest : Bytes) (events : List PackEvent) : Turn :=
  match reader.state with
  | .magic =>
      let (reader, rest) := reader.fill rest BLOB_PACK_MAGIC.length
      if reader.buffer.length ≠ BLOB_PACK_MAGIC.length then .stop (.ok events) reader
      else if reader.buffer ≠ BLOB_PACK_MAGIC then .stop (.error .magic) reader
      else .again { reader with buffer := [], state := .header } rest events
  | .header =>
      if rest = [] ∧ reader.buffer = [] then .stop (.ok events) reader
      else
        let (reader, rest) := reader.fill rest BLOB_PACK_HEADER_BYTES
        if reader.buffer.length ≠ BLOB_PACK_HEADER_BYTES then .stop (.ok events) reader
        else
          match parseHeader reader.maxBlobBytes reader.buffer with
          | .error error => .stop (.error error) reader
          | .ok digest => reader.startFrame digest rest events
  | .payload =>
      if rest = [] then .stop (.ok events) reader
      else
        let take := min reader.remaining rest.length
        let reader := { reader with
          remaining := reader.remaining - take, payloadBytes := reader.payloadBytes + take }
        if reader.payloadBytes > reader.maxPayloadBytes then
          .stop (.error (.tooManyBytes reader.maxPayloadBytes)) reader
        else if reader.remaining = 0 then
          .again { reader with state := .header } (rest.drop take)
            (events ++ [.payload (rest.take take), .complete])
        else .again reader (rest.drop take) (events ++ [.payload (rest.take take)])

/-- Ranks the states for turns that consume nothing. -/
def rank : State → ℕ
  | .payload => 1
  | .magic | .header => 0

theorem fill_length (reader : PackReader) (rest : Bytes) (wanted : ℕ) :
    (reader.fill rest wanted).2.length + (reader.fill rest wanted).1.buffer.length =
      rest.length + reader.buffer.length := by
  unfold fill
  split
  · simp only [List.length_drop, List.length_append, List.length_take]
    omega
  · rfl

/-- A frame is started with an emptied buffer, whether or not it has a payload. -/
theorem startFrame_again {reader reader' : PackReader} {digest : Digest} {rest rest' : Bytes}
    {events events' : List PackEvent}
    (h : reader.startFrame digest rest events = .again reader' rest' events') :
    reader'.buffer = [] ∧ rest' = rest := by
  simp only [startFrame] at h
  split at h
  · exact Turn.noConfusion h
  · split at h
    · injection h with hreader hrest _
      exact ⟨by rw [← hreader], hrest.symm⟩
    · injection h with hreader hrest _
      exact ⟨by rw [← hreader], hrest.symm⟩

/-- Every turn that loops either uses up a held or unread byte or leaves the
payload state without taking one. -/
theorem turn_decreases {reader reader' : PackReader} {rest rest' : Bytes}
    {events events' : List PackEvent}
    (h : reader.turn rest events = .again reader' rest' events') :
    rest'.length + reader'.buffer.length < rest.length + reader.buffer.length ∨
      (rest'.length + reader'.buffer.length = rest.length + reader.buffer.length ∧
        rank reader'.state < rank reader.state) := by
  unfold turn at h
  cases hstate : reader.state with
  | magic =>
      simp only [hstate] at h
      have hfill := reader.fill_length rest BLOB_PACK_MAGIC.length
      revert h
      generalize reader.fill rest BLOB_PACK_MAGIC.length = filled at hfill ⊢
      intro h
      split at h
      · exact Turn.noConfusion h
      · rename_i hlength
        split at h
        · exact Turn.noConfusion h
        · injection h with hreader hrest _
          left
          rw [← hreader, ← hrest]
          simp only [BLOB_PACK_MAGIC_length] at hlength
          simp only [List.length_nil]
          omega
  | header =>
      simp only [hstate] at h
      split at h
      · exact Turn.noConfusion h
      · have hfill := reader.fill_length rest BLOB_PACK_HEADER_BYTES
        revert h
        generalize reader.fill rest BLOB_PACK_HEADER_BYTES = filled at hfill ⊢
        intro h
        split at h
        · exact Turn.noConfusion h
        · rename_i hlength
          split at h
          · exact Turn.noConfusion h
          · obtain ⟨hbuffer, hrest⟩ := startFrame_again h
            left
            rw [hbuffer, hrest]
            simp only [BLOB_PACK_HEADER_BYTES] at hlength
            simp only [List.length_nil]
            omega
  | payload =>
      simp only [hstate] at h
      split at h
      · exact Turn.noConfusion h
      · rename_i hrest
        have hpos : 0 < rest.length := List.length_pos_iff.mpr hrest
        split at h
        · exact Turn.noConfusion h
        · split at h
          · injection h with hreader hrest' _
            rw [← hreader, ← hrest']
            simp only [List.length_drop, rank]
            omega
          · injection h with hreader hrest' _
            left
            rw [← hreader, ← hrest']
            simp only [List.length_drop]
            omega

/-- Consume one chunk of the request body from where a turn of the loop begins. -/
def pushLoop (reader : PackReader) (rest : Bytes) (events : List PackEvent) :
    Except PackError (List PackEvent) × PackReader :=
  match _hturn : reader.turn rest events with
  | .stop result reader' => (result, reader')
  | .again reader' rest' events' => pushLoop reader' rest' events'
termination_by (rest.length + reader.buffer.length, rank reader.state)
decreasing_by
  rcases turn_decreases _hturn with hlt | ⟨heq, hrank⟩
  · exact Prod.Lex.left _ _ hlt
  · rw [heq]
    exact Prod.Lex.right _ hrank

theorem pushLoop_stop {reader reader' : PackReader} {rest : Bytes} {events : List PackEvent}
    {result : Except PackError (List PackEvent)}
    (h : reader.turn rest events = .stop result reader') :
    reader.pushLoop rest events = (result, reader') := by
  rw [pushLoop]
  split
  · rename_i hturn
    rw [h] at hturn
    injection hturn with hresult hreader
    rw [hresult, hreader]
  · rename_i hturn
    rw [h] at hturn
    exact Turn.noConfusion hturn

theorem pushLoop_again {reader reader' : PackReader} {rest rest' : Bytes}
    {events events' : List PackEvent}
    (h : reader.turn rest events = .again reader' rest' events') :
    reader.pushLoop rest events = reader'.pushLoop rest' events' := by
  rw [pushLoop]
  split
  · rename_i hturn
    rw [h] at hturn
    exact Turn.noConfusion hturn
  · rename_i hturn
    rw [h] at hturn
    injection hturn with hreader hrest hevents
    rw [hreader, hrest, hevents]

/-- Consume one chunk of the request body. -/
def push (reader : PackReader) (chunk : Bytes) :
    Except PackError (List PackEvent) × PackReader :=
  reader.pushLoop chunk []

/-- Assert the pack ended on a frame boundary. -/
def finish (reader : PackReader) : Except PackError Unit :=
  if reader.state = .header ∧ reader.buffer = [] then .ok () else .error .truncated

end PackReader

end MbxCache.Pack
