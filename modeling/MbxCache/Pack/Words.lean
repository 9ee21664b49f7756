/-
# The counters as machine words

The reader with the 64-bit counters of the source, whose sums wrap. Every turn of the
loop uses up a byte or leaves the payload state, from any state whatever, so a push
ends even after one that failed. Until one fails the counters say what they should,
and where the sums fit they are those of the reader with natural numbers.
-/

import MbxCache.Pack.Chunking

namespace MbxCache.Pack

open Foundation

/-- Incremental reader for one uploaded pack, as it is compiled. -/
structure WordReader where
  state : State
  buffer : Bytes
  maxBlobBytes : UInt64
  maxBlobs : UInt64
  maxPayloadBytes : UInt64
  blobs : UInt64
  payloadBytes : UInt64
  remaining : UInt64
  deriving DecidableEq, Repr

namespace WordReader

def new (maxBlobBytes maxBlobs maxPayloadBytes : UInt64) : WordReader where
  state := .magic
  buffer := []
  maxBlobBytes
  maxBlobs
  maxPayloadBytes
  blobs := 0
  payloadBytes := 0
  remaining := 0

def fill (reader : WordReader) (rest : Bytes) (wanted : ℕ) : WordReader × Bytes :=
  if reader.buffer.length < wanted then
    let take := min (wanted - reader.buffer.length) rest.length
    ({ reader with buffer := reader.buffer ++ rest.take take }, rest.drop take)
  else (reader, rest)

inductive Turn where
  | stop (result : Except PackError (List PackEvent)) (reader : WordReader)
  | again (reader : WordReader) (rest : Bytes) (events : List PackEvent)

def startFrame (reader : WordReader) (digest : Digest) (rest : Bytes)
    (events : List PackEvent) : Turn :=
  let reader := { reader with
    buffer := [], remaining := digest.size, blobs := reader.blobs + 1 }
  if reader.blobs > reader.maxBlobs then
    .stop (.error (.tooManyBlobs reader.maxBlobs.toNat)) reader
  else if reader.remaining = 0 then
    .again { reader with state := .header } rest (events ++ [.started digest, .complete])
  else .again { reader with state := .payload } rest (events ++ [.started digest])

/-- How many bytes of the payload a turn takes. -/
def taken (reader : WordReader) (rest : Bytes) : ℕ := min reader.remaining.toNat rest.length

/-- One turn of the loop in `push`. -/
def turn (reader : WordReader) (rest : Bytes) (events : List PackEvent) : Turn :=
  match reader.state with
  | .magic =>
      let (reader, rest) := reader.fill rest BLOB_PACK_MAGIC.length
      if reader.buffer.length ≠ BLOB_PACK_MAGIC.length then .stop (.ok events) reader
      else if reader.buffer ≠ BLOB_PACK_MAGIC then .stop (.error .magic) reader
      else .again { reader with buffer := [], state := .header } rest events
  | .header =>
      if rest = [] ∧ reader.buffer = [] then .stop (.ok events) reader
      else
        let (reader, rest) := reader.fill rest BLOB_PACK_HEADER_BYTES
        if reader.buffer.length ≠ BLOB_PACK_HEADER_BYTES then .stop (.ok events) reader
        else
          match parseHeader reader.maxBlobBytes.toNat reader.buffer with
          | .error error => .stop (.error error) reader
          | .ok digest => reader.startFrame digest rest events
  | .payload =>
      if rest = [] then .stop (.ok events) reader
      else
        let take := reader.taken rest
        let reader := { reader with
          remaining := reader.remaining - UInt64.ofNat take,
          payloadBytes := reader.payloadBytes + UInt64.ofNat take }
        if reader.payloadBytes > reader.maxPayloadBytes then
          .stop (.error (.tooManyBytes reader.maxPayloadBytes.toNat)) reader
        else if reader.remaining = 0 then
          .again { reader with state := .header } (rest.drop take)
            (events ++ [.payload (rest.take take), .complete])
        else .again reader (rest.drop take) (events ++ [.payload (rest.take take)])

/-! ## One turn -/

/-- The buffer after filling it. -/
def filled (reader : WordReader) (rest : Bytes) (wanted : ℕ) : Bytes :=
  reader.buffer ++ rest.take (wanted - reader.buffer.length)

/-- The reader and the unread bytes after filling the buffer, without a case split. -/
theorem fill_eq (reader : WordReader) (rest : Bytes) (wanted : ℕ) :
    reader.fill rest wanted =
      ({ reader with buffer := reader.filled rest wanted },
        rest.drop (wanted - reader.buffer.length)) := by
  unfold fill
  split
  case isTrue h =>
    dsimp only
    rw [filled, ← List.take_eq_take_min, ← List.drop_eq_drop_min]
  case isFalse h =>
    rw [filled, Nat.sub_eq_zero_of_le (Nat.le_of_not_lt h), List.take_zero, List.drop_zero,
      List.append_nil]

theorem filled_length_le (reader : WordReader) (rest : Bytes) (wanted : ℕ) :
    (reader.filled rest wanted).length ≤ max reader.buffer.length wanted := by
  rw [filled, List.length_append, List.length_take]
  omega

/-- A full buffer is made of bytes that were held and bytes that were unread. -/
theorem used_of_full {reader : WordReader} {rest : Bytes} {wanted : ℕ}
    (h : (reader.filled rest wanted).length = wanted) :
    (rest.drop (wanted - reader.buffer.length)).length + wanted =
      rest.length + reader.buffer.length := by
  rw [filled, List.length_append, List.length_take] at h
  rw [List.length_drop]
  omega

/-- What a turn can do. -/
inductive Turned (reader : WordReader) (rest : Bytes) (events : List PackEvent) : Turn → Prop where
  | waited (buffer : Bytes) (kept : buffer = reader.buffer ∨
      (reader.state = .magic ∧ buffer.length ≤ max reader.buffer.length 8) ∨
        (reader.state = .header ∧ buffer.length ≤ max reader.buffer.length 41)) :
      Turned reader rest events (.stop (.ok events) { reader with buffer })
  | notMagic (buffer : Bytes) (state : reader.state = .magic) (full : buffer.length = 8) :
      Turned reader rest events (.stop (.error .magic) { reader with buffer })
  | magic (left : Bytes) (state : reader.state = .magic)
      (used : left.length + 8 = rest.length + reader.buffer.length) :
      Turned reader rest events (.again { reader with buffer := [], state := .header } left events)
  | badHeader (buffer : Bytes) (error : PackError) (state : reader.state = .header)
      (full : buffer.length = 41) :
      Turned reader rest events (.stop (.error error) { reader with buffer })
  | tooMany (error : PackError) (digest : Digest) (state : reader.state = .header) :
      Turned reader rest events (.stop (.error error)
        { reader with buffer := [], remaining := digest.size, blobs := reader.blobs + 1 })
  | empty (left : Bytes) (digest : Digest) (state : reader.state = .header)
      (used : left.length + 41 = rest.length + reader.buffer.length) (size : digest.size = 0)
      (within : reader.blobs + 1 ≤ reader.maxBlobs) :
      Turned reader rest events (.again
        { reader with
          state := .header, buffer := [], remaining := digest.size, blobs := reader.blobs + 1 }
        left (events ++ [.started digest, .complete]))
  | opened (left : Bytes) (digest : Digest) (state : reader.state = .header)
      (used : left.length + 41 = rest.length + reader.buffer.length) (size : digest.size ≠ 0)
      (within : reader.blobs + 1 ≤ reader.maxBlobs) :
      Turned reader rest events (.again
        { reader with
          state := .payload, buffer := [], remaining := digest.size, blobs := reader.blobs + 1 }
        left (events ++ [.started digest]))
  | tooMuch (error : PackError) (remaining payloadBytes : UInt64)
      (state : reader.state = .payload) :
      Turned reader rest events (.stop (.error error) { reader with remaining, payloadBytes })
  | finished (payloadBytes : UInt64) (state : reader.state = .payload) (more : rest ≠ [])
      (last : reader.taken rest = reader.remaining.toNat)
      (within : payloadBytes ≤ reader.maxPayloadBytes) :
      Turned reader rest events (.again
        { reader with state := .header, remaining := 0, payloadBytes }
        (rest.drop (reader.taken rest))
        (events ++ [.payload (rest.take (reader.taken rest)), .complete]))
  | continued (remaining payloadBytes : UInt64) (state : reader.state = .payload)
      (left : remaining ≠ 0)
      (sum : remaining.toNat + reader.taken rest = reader.remaining.toNat)
      (all : reader.taken rest = rest.length) (more : rest ≠ [])
      (within : payloadBytes ≤ reader.maxPayloadBytes) :
      Turned reader rest events (.again { reader with remaining, payloadBytes }
        (rest.drop (reader.taken rest))
        (events ++ [.payload (rest.take (reader.taken rest))]))

theorem startFrame_turned {reader : WordReader} {rest : Bytes} {events : List PackEvent}
    {buffer left : Bytes} (digest : Digest) (state : reader.state = .header)
    (used : left.length + 41 = rest.length + reader.buffer.length) :
    Turned reader rest events (({ reader with buffer }).startFrame digest left events) := by
  unfold startFrame
  dsimp only
  split
  case isTrue hmany => exact .tooMany _ digest state
  case isFalse hwithin =>
    have hblobs : reader.blobs + 1 ≤ reader.maxBlobs := UInt64.not_lt.mp hwithin
    split
    case isTrue hempty => exact .empty left digest state used hempty hblobs
    case isFalse hsize => exact .opened left digest state used hsize hblobs

/-- What is left of a payload once some of it has been taken. -/
theorem remaining_sub {reader : WordReader} {rest : Bytes} :
    (reader.remaining - UInt64.ofNat (reader.taken rest)).toNat + reader.taken rest =
      reader.remaining.toNat := by
  have hle : reader.taken rest ≤ reader.remaining.toNat := Nat.min_le_left _ _
  have hfits : reader.taken rest < 2 ^ 64 := hle.trans_lt reader.remaining.toNat_lt
  have htaken : (UInt64.ofNat (reader.taken rest)).toNat = reader.taken rest :=
    UInt64.toNat_ofNat_of_lt' hfits
  rw [UInt64.toNat_sub_of_le _ _ (by rw [UInt64.le_iff_toNat_le, htaken]; exact hle), htaken]
  omega

theorem turned (reader : WordReader) (rest : Bytes) (events : List PackEvent) :
    Turned reader rest events (reader.turn rest events) := by
  unfold turn
  cases hstate : reader.state with
  | magic =>
      dsimp only
      rw [fill_eq]
      have hlength := reader.filled_length_le rest BLOB_PACK_MAGIC.length
      split
      case isTrue hshort => exact .waited _ (.inr (.inl ⟨hstate, hlength⟩))
      case isFalse hfull =>
        have hfull : (reader.filled rest 8).length = 8 := not_not.mp hfull
        split
        case isTrue hother => exact .notMagic _ hstate hfull
        case isFalse hmagic => exact .magic _ hstate (used_of_full hfull)
  | header =>
      dsimp only
      split
      case isTrue hnone => exact .waited reader.buffer (.inl rfl)
      case isFalse hsome =>
        rw [fill_eq]
        have hlength := reader.filled_length_le rest BLOB_PACK_HEADER_BYTES
        split
        case isTrue hshort => exact .waited _ (.inr (.inr ⟨hstate, hlength⟩))
        case isFalse hfull =>
          have hfull : (reader.filled rest 41).length = 41 := not_not.mp hfull
          split
          case h_1 error hparse => exact .badHeader _ error hstate hfull
          case h_2 digest hparse => exact startFrame_turned digest hstate (used_of_full hfull)
  | payload =>
      dsimp only
      split
      case isTrue hnone => exact .waited reader.buffer (.inl rfl)
      case isFalse hsome =>
        have hsum : (reader.remaining - UInt64.ofNat (reader.taken rest)).toNat +
            reader.taken rest = reader.remaining.toNat := remaining_sub
        rw [← hstate]
        split
        case isTrue hmuch => exact .tooMuch _ _ _ hstate
        case isFalse hwithin =>
          have hbytes := UInt64.not_lt.mp hwithin
          split
          case isTrue hlast =>
            rw [hlast] at hsum ⊢
            exact .finished _ hstate hsome ((Nat.zero_add _).symm.trans hsum) hbytes
          case isFalse hmore =>
            have hall : reader.taken rest = rest.length := by
              have hpos : (reader.remaining - UInt64.ofNat (reader.taken rest)).toNat ≠ 0 :=
                fun hzero => hmore (UInt64.toNat_inj.mp hzero)
              rw [taken] at hsum hpos ⊢
              omega
            exact .continued _ _ hstate hmore hsum hall hsome hbytes

theorem turned_of_eq {reader : WordReader} {rest : Bytes} {events : List PackEvent} {turn : Turn}
    (h : reader.turn rest events = turn) : Turned reader rest events turn :=
  h ▸ reader.turned rest events

/-! ## The loop -/

/-- Bounds the turns that are left: twice the bytes held and unread, and one more in
the payload state, which may be left without taking a byte. -/
def measure (reader : WordReader) (rest : Bytes) : ℕ :=
  2 * (rest.length + reader.buffer.length) + PackReader.rank reader.state

theorem measure_lt {reader reader' : WordReader} {rest rest' : Bytes}
    {events events' : List PackEvent}
    (h : reader.turn rest events = .again reader' rest' events') :
    reader'.measure rest' < reader.measure rest := by
  cases turned_of_eq h with
  | magic _ state used =>
      simp only [measure, PackReader.rank, state, List.length_nil]
      omega
  | empty _ digest state used size within =>
      simp only [measure, PackReader.rank, state, List.length_nil]
      omega
  | opened _ digest state used size within =>
      simp only [measure, PackReader.rank, state, List.length_nil]
      omega
  | finished payloadBytes state more last within =>
      simp only [measure, PackReader.rank, state, List.length_drop]
      omega
  | continued remaining payloadBytes state left sum all more within =>
      have hpos := List.length_pos_iff.mpr more
      simp only [measure, PackReader.rank, state, List.length_drop]
      omega

def pushLoop (reader : WordReader) (rest : Bytes) (events : List PackEvent) :
    Except PackError (List PackEvent) × WordReader :=
  match _hturn : reader.turn rest events with
  | .stop result reader' => (result, reader')
  | .again reader' rest' events' => pushLoop reader' rest' events'
termination_by reader.measure rest
decreasing_by exact measure_lt _hturn

/-- Consume one chunk of the request body. -/
def push (reader : WordReader) (chunk : Bytes) :
    Except PackError (List PackEvent) × WordReader :=
  reader.pushLoop chunk []

/-- The loop, given up after so many turns. -/
def loop : ℕ → WordReader → Bytes → List PackEvent →
    Option (Except PackError (List PackEvent) × WordReader)
  | 0, _, _, _ => none
  | turns + 1, reader, rest, events =>
      match reader.turn rest events with
      | .stop result reader' => some (result, reader')
      | .again reader' rest' events' => loop turns reader' rest' events'

theorem pushLoop_stop {reader reader' : WordReader} {rest : Bytes} {events : List PackEvent}
    {result : Except PackError (List PackEvent)}
    (h : reader.turn rest events = .stop result reader') :
    reader.pushLoop rest events = (result, reader') := by
  rw [pushLoop]
  split
  · rename_i hturn
    rw [h] at hturn
    injection hturn with hresult hreader
    rw [hresult, hreader]
  · rename_i hturn
    rw [h] at hturn
    exact Turn.noConfusion hturn

theorem pushLoop_again {reader reader' : WordReader} {rest rest' : Bytes}
    {events events' : List PackEvent}
    (h : reader.turn rest events = .again reader' rest' events') :
    reader.pushLoop rest events = reader'.pushLoop rest' events' := by
  rw [pushLoop]
  split
  · rename_i hturn
    rw [h] at hturn
    exact Turn.noConfusion hturn
  · rename_i hturn
    rw [h] at hturn
    injection hturn with hreader hrest hevents
    rw [hreader, hrest, hevents]

theorem loop_eq_pushLoop (turns : ℕ) (reader : WordReader) (rest : Bytes)
    (events : List PackEvent) (h : reader.measure rest < turns) :
    loop turns reader rest events = some (reader.pushLoop rest events) := by
  induction turns generalizing reader rest events with
  | zero => exact absurd h (Nat.not_lt_zero _)
  | succ turns ih =>
      rw [loop]
      cases hturn : reader.turn rest events with
      | stop result reader' => rw [pushLoop_stop hturn]
      | again reader' rest' events' =>
          dsimp only
          rw [pushLoop_again hturn]
          apply ih
          have hlt := measure_lt hturn
          omega

/-! ## Runs -/

/-- Where a run of pushes is: between two of them, or at a turn of the loop in one. -/
inductive Place where
  | between
  | within (chunk rest : Bytes) (events : List PackEvent)

/-- The readers of all runs, with the events of the pushes that returned, and with
none from the first error on. -/
inductive Visited (maxBlobBytes maxBlobs maxPayloadBytes : UInt64) :
    WordReader → Option (List PackEvent) → Place → Prop where
  | new : Visited maxBlobBytes maxBlobs maxPayloadBytes
      (WordReader.new maxBlobBytes maxBlobs maxPayloadBytes) (some []) .between
  | pushed {reader : WordReader} {emitted : Option (List PackEvent)} (chunk : Bytes)
      (prior : Visited maxBlobBytes maxBlobs maxPayloadBytes reader emitted .between) :
      Visited maxBlobBytes maxBlobs maxPayloadBytes reader emitted (.within chunk chunk [])
  | again {reader reader' : WordReader} {emitted : Option (List PackEvent)}
      {chunk rest rest' : Bytes} {events events' : List PackEvent}
      (prior : Visited maxBlobBytes maxBlobs maxPayloadBytes reader emitted
        (.within chunk rest events))
      (taken : reader.turn rest events = .again reader' rest' events') :
      Visited maxBlobBytes maxBlobs maxPayloadBytes reader' emitted (.within chunk rest' events')
  | returned {reader reader' : WordReader} {emitted : Option (List PackEvent)}
      {chunk rest : Bytes} {events events' : List PackEvent}
      (prior : Visited maxBlobBytes maxBlobs maxPayloadBytes reader emitted
        (.within chunk rest events))
      (taken : reader.turn rest events = .stop (.ok events') reader') :
      Visited maxBlobBytes maxBlobs maxPayloadBytes reader' (emitted.map (· ++ events')) .between
  | refused {reader reader' : WordReader} {emitted : Option (List PackEvent)}
      {chunk rest : Bytes} {events : List PackEvent} {error : PackError}
      (prior : Visited maxBlobBytes maxBlobs maxPayloadBytes reader emitted
        (.within chunk rest events))
      (taken : reader.turn rest events = .stop (.error error) reader') :
      Visited maxBlobBytes maxBlobs maxPayloadBytes reader' none .between

/-- The events so far, those of the present push included. -/
def Place.events : Place → List PackEvent
  | .between => []
  | .within _ _ events => events

/-- The buffer holds a part of a header at most. -/
structure Bounded (reader : WordReader) : Prop where
  magic : reader.state = .magic → reader.buffer.length ≤ 8
  header : reader.buffer.length ≤ 41

/-- What the reader says of the events it has given: a frame is open exactly in the
payload state, and then a part of it is still to come. -/
structure Sound (reader : WordReader) (assembly : Assembly) : Prop where
  payload : reader.state = .payload ↔ ∃ digest got, assembly.current = some (digest, got)
  current : ∀ digest got, assembly.current = some (digest, got) → reader.buffer = [] ∧
    0 < reader.remaining.toNat ∧ reader.remaining.toNat + got.length = digest.size.toNat
  blobs : reader.blobs ≤ reader.maxBlobs
  payloadBytes : reader.payloadBytes ≤ reader.maxPayloadBytes

variable {maxBlobBytes maxBlobs maxPayloadBytes : UInt64} {reader : WordReader}
  {emitted : Option (List PackEvent)} {place : Place}

theorem Bounded.turn (h : reader.Bounded) {rest : Bytes} {events : List PackEvent} {turn : Turn}
    (hturned : reader.Turned rest events turn) : match turn with
      | .stop _ reader' => reader'.Bounded
      | .again reader' _ _ => reader'.Bounded := by
  have hheader := h.header
  cases hturned with
  | waited buffer kept =>
      obtain rfl | ⟨hstate, hlength⟩ | ⟨hstate, hlength⟩ := kept
      · exact ⟨h.magic, h.header⟩
      · have hmagic := h.magic hstate
        constructor
        · intro _
          show buffer.length ≤ 8
          omega
        · show buffer.length ≤ 41
          omega
      · constructor
        · intro hmagic
          exact absurd (hstate.symm.trans hmagic) nofun
        · show buffer.length ≤ 41
          omega
  | notMagic buffer state full =>
      constructor
      · intro _
        exact full.le
      · show buffer.length ≤ 41
        omega
  | badHeader buffer error state full =>
      constructor
      · intro hmagic
        exact absurd (state.symm.trans hmagic) nofun
      · exact full.le
  | magic left state used => exact ⟨fun _ => Nat.zero_le 8, Nat.zero_le 41⟩
  | tooMany error digest state => exact ⟨fun _ => Nat.zero_le 8, Nat.zero_le 41⟩
  | empty left digest state used size within => exact ⟨fun _ => Nat.zero_le 8, Nat.zero_le 41⟩
  | opened left digest state used size within => exact ⟨fun _ => Nat.zero_le 8, Nat.zero_le 41⟩
  | tooMuch error remaining payloadBytes state => exact ⟨h.magic, h.header⟩
  | finished payloadBytes state more last within => exact ⟨nofun, h.header⟩
  | continued remaining payloadBytes state left sum all more within => exact ⟨h.magic, h.header⟩

/-- In every run, failed or not. -/
theorem Visited.bounded
    (h : Visited maxBlobBytes maxBlobs maxPayloadBytes reader emitted place) :
    reader.Bounded := by
  induction h with
  | new => exact ⟨fun _ => Nat.zero_le 8, Nat.zero_le 41⟩
  | pushed chunk prior ih => exact ih
  | again prior taken ih => exact ih.turn (turned_of_eq taken)
  | returned prior taken ih => exact ih.turn (turned_of_eq taken)
  | refused prior taken ih => exact ih.turn (turned_of_eq taken)

section

variable {assembly : Assembly} {digest : Digest} {got : Bytes}

theorem assembled_started (digest : Digest) (h : assembly.current = none) :
    assemble assembly [.started digest] = some ⟨assembly.frames, some (digest, [])⟩ := by
  obtain ⟨frames, current⟩ := assembly
  obtain rfl : current = none := h
  rfl

theorem assembled_empty (digest : Digest) (h : assembly.current = none) :
    assemble assembly [.started digest, .complete] =
      some ⟨assembly.frames ++ [(digest, [])], none⟩ :=
  assemble_append (assembled_started digest h) [.complete]

theorem assembled_payload (bytes : Bytes) (h : assembly.current = some (digest, got)) :
    assemble assembly [.payload bytes] =
      some ⟨assembly.frames, some (digest, got ++ bytes)⟩ := by
  obtain ⟨frames, current⟩ := assembly
  obtain rfl : current = some (digest, got) := h
  rfl

theorem assembled_last (bytes : Bytes) (h : assembly.current = some (digest, got)) :
    assemble assembly [.payload bytes, .complete] =
      some ⟨assembly.frames ++ [(digest, got ++ bytes)], none⟩ :=
  assemble_append (assembled_payload bytes h) [.complete]

end

/-- What a turn adds to the events continues the frames that have been given. -/
theorem Sound.turn {assembly : Assembly} (h : reader.Sound assembly) {rest : Bytes}
    {events : List PackEvent} {turn : Turn} (hturned : reader.Turned rest events turn) :
    match turn with
    | .stop (.ok events') reader' => events' = events ∧ reader'.Sound assembly
    | .stop (.error _) _ => True
    | .again reader' _ events' => ∃ new assembly', events' = events ++ new ∧
        assemble assembly new = some assembly' ∧ reader'.Sound assembly' := by
  have hclosed : reader.state ≠ .payload → assembly.current = none := by
    intro hstate
    cases hcurrent : assembly.current with
    | none => rfl
    | some frame => exact absurd (h.payload.mpr ⟨frame.1, frame.2, hcurrent⟩) hstate
  cases hturned with
  | notMagic buffer state full => exact trivial
  | badHeader buffer error state full => exact trivial
  | tooMany error digest state => exact trivial
  | tooMuch error remaining payloadBytes state => exact trivial
  | waited buffer kept =>
      refine ⟨rfl, h.payload, ?_, h.blobs, h.payloadBytes⟩
      intro digest got hcurrent
      obtain ⟨hbuffer, hremaining⟩ := h.current digest got hcurrent
      have hstate := h.payload.mpr ⟨digest, got, hcurrent⟩
      refine ⟨?_, hremaining⟩
      obtain rfl | ⟨hmagic, -⟩ | ⟨hheader, -⟩ := kept
      · exact hbuffer
      · exact absurd (hstate.symm.trans hmagic) nofun
      · exact absurd (hstate.symm.trans hheader) nofun
  | magic left state used =>
      have hnone := hclosed (by rw [state]; nofun)
      refine ⟨[], assembly, (List.append_nil events).symm, rfl, ?_, ?_, h.blobs, h.payloadBytes⟩
      · rw [hnone]
        exact ⟨nofun, nofun⟩
      · rw [hnone]
        nofun
  | empty left digest state used size within =>
      have hnone := hclosed (by rw [state]; nofun)
      refine ⟨[.started digest, .complete], ⟨assembly.frames ++ [(digest, [])], none⟩, rfl, ?_,
        ⟨nofun, nofun⟩, nofun, within, h.payloadBytes⟩
      exact assembled_empty digest hnone
  | opened left digest state used size within =>
      have hnone := hclosed (by rw [state]; nofun)
      refine ⟨[.started digest], ⟨assembly.frames, some (digest, [])⟩, rfl, ?_,
        ⟨fun _ => ⟨digest, [], rfl⟩, fun _ => rfl⟩, ?_, within, h.payloadBytes⟩
      · exact assembled_started digest hnone
      · intro digest' got hcurrent
        cases hcurrent
        refine ⟨rfl, ?_, rfl⟩
        apply Nat.pos_of_ne_zero
        intro hzero
        exact size (UInt64.toNat_inj.mp hzero)
  | finished payloadBytes state more last within =>
      obtain ⟨digest, got, hcurrent⟩ := h.payload.mp state
      refine ⟨[.payload (rest.take (reader.taken rest)), .complete],
        ⟨assembly.frames ++ [(digest, got ++ rest.take (reader.taken rest))], none⟩, rfl, ?_,
        ⟨nofun, nofun⟩, nofun, h.blobs, within⟩
      exact assembled_last _ hcurrent
  | continued remaining payloadBytes state left sum all more within =>
      obtain ⟨digest, got, hcurrent⟩ := h.payload.mp state
      obtain ⟨hbuffer, -, hsize⟩ := h.current digest got hcurrent
      refine ⟨[.payload (rest.take (reader.taken rest))],
        ⟨assembly.frames, some (digest, got ++ rest.take (reader.taken rest))⟩, rfl, ?_,
        ⟨fun _ => ⟨digest, _, rfl⟩, fun _ => state⟩, ?_, h.blobs, within⟩
      · exact assembled_payload _ hcurrent
      · intro digest' got' hcurrent'
        cases hcurrent'
        refine ⟨hbuffer, ?_, ?_⟩
        · apply Nat.pos_of_ne_zero
          intro hzero
          exact left (UInt64.toNat_inj.mp hzero)
        · show remaining.toNat + (got ++ rest.take (reader.taken rest)).length = digest.size.toNat
          rw [List.length_append, List.length_take, all, Nat.min_self, ← all, ← hsize, ← sum]
          omega

/-- Until the first error. -/
theorem Visited.sound
    (h : Visited maxBlobBytes maxBlobs maxPayloadBytes reader emitted place) :
    ∀ before, emitted = some before → ∃ assembly,
      assemble ⟨[], none⟩ (before ++ place.events) = some assembly ∧ reader.Sound assembly := by
  induction h with
  | new =>
      rintro before hbefore
      cases hbefore
      exact ⟨⟨[], none⟩, rfl, ⟨nofun, nofun⟩, nofun, Nat.zero_le _, Nat.zero_le _⟩
  | pushed chunk prior ih => exact ih
  | @again reader reader' emitted chunk rest rest' events events' prior taken ih =>
      intro before hbefore
      obtain ⟨assembly, hassembled, hsound⟩ := ih before hbefore
      obtain ⟨new, assembly', hevents, hnew, hsound'⟩ :=
        hsound.turn (turned_of_eq taken)
      refine ⟨assembly', ?_, hsound'⟩
      show assemble _ (before ++ events') = some assembly'
      rw [hevents, ← List.append_assoc]
      exact (assemble_append hassembled new).trans hnew
  | @returned reader reader' emitted chunk rest events events' prior taken ih =>
      intro before hbefore
      obtain ⟨earlier, hearlier, rfl⟩ := Option.map_eq_some_iff.mp hbefore
      obtain ⟨assembly, hassembled, hsound⟩ := ih earlier hearlier
      obtain ⟨rfl, hsound'⟩ := hsound.turn (turned_of_eq taken)
      refine ⟨assembly, ?_, hsound'⟩
      show assemble _ (earlier ++ events' ++ []) = some assembly
      rw [List.append_nil]
      exact hassembled
  | refused prior taken ih => nofun

/-! ## Sums that fit -/

/-- The sums and the difference a turn makes are those of natural numbers. -/
def Fits (reader : WordReader) (rest : Bytes) : Prop :=
  match reader.state with
  | .magic => True
  | .header => ∀ digest, (reader.filled rest BLOB_PACK_HEADER_BYTES).length =
      BLOB_PACK_HEADER_BYTES → parseHeader reader.maxBlobBytes.toNat
        (reader.filled rest BLOB_PACK_HEADER_BYTES) = .ok digest →
          (reader.blobs + 1).toNat = reader.blobs.toNat + 1
  | .payload => (reader.payloadBytes + UInt64.ofNat (reader.taken rest)).toNat =
        reader.payloadBytes.toNat + reader.taken rest ∧
      (reader.remaining - UInt64.ofNat (reader.taken rest)).toNat + reader.taken rest =
        reader.remaining.toNat

/-- The limits a reader was made with, and a place in a chunk that has been read up
to some point. -/
structure Keeps (maxBlobs maxPayloadBytes : UInt64) (reader : WordReader) (place : Place) :
    Prop where
  maxBlobs : reader.maxBlobs = maxBlobs
  maxPayloadBytes : reader.maxPayloadBytes = maxPayloadBytes
  rest : ∀ chunk rest events, place = .within chunk rest events → rest.length ≤ chunk.length

theorem Bounded.rest_le (h : reader.Bounded) {reader' : WordReader} {rest rest' : Bytes}
    {events events' : List PackEvent}
    (hturned : reader.Turned rest events (.again reader' rest' events')) :
    rest'.length ≤ rest.length := by
  have hheader := h.header
  cases hturned with
  | magic _ state used =>
      have hmagic := h.magic state
      omega
  | empty _ digest state used size within => omega
  | opened _ digest state used size within => omega
  | finished payloadBytes state more last within =>
      rw [List.length_drop]
      omega
  | continued remaining payloadBytes state left sum all more within =>
      rw [List.length_drop]
      omega

theorem Turned.limits {rest : Bytes} {events : List PackEvent} {turn : Turn}
    (h : reader.Turned rest events turn) : match turn with
      | .stop _ reader' | .again reader' _ _ => reader'.maxBlobs = reader.maxBlobs ∧
          reader'.maxPayloadBytes = reader.maxPayloadBytes := by
  cases h <;> exact ⟨rfl, rfl⟩

theorem Visited.keeps
    (h : Visited maxBlobBytes maxBlobs maxPayloadBytes reader emitted place) :
    Keeps maxBlobs maxPayloadBytes reader place := by
  induction h with
  | new => exact ⟨rfl, rfl, nofun⟩
  | pushed chunk prior ih =>
      refine ⟨ih.maxBlobs, ih.maxPayloadBytes, ?_⟩
      intro chunk' rest events hplace
      cases hplace
      exact le_rfl
  | again prior taken ih =>
      obtain ⟨hblobs, hbytes⟩ := (turned_of_eq taken).limits
      refine ⟨hblobs.trans ih.maxBlobs, hbytes.trans ih.maxPayloadBytes, ?_⟩
      intro chunk' rest events hplace
      cases hplace
      exact (prior.bounded.rest_le (turned_of_eq taken)).trans (ih.rest _ _ _ rfl)
  | returned prior taken ih =>
      obtain ⟨hblobs, hbytes⟩ := (turned_of_eq taken).limits
      exact ⟨hblobs.trans ih.maxBlobs, hbytes.trans ih.maxPayloadBytes, nofun⟩
  | refused prior taken ih =>
      obtain ⟨hblobs, hbytes⟩ := (turned_of_eq taken).limits
      exact ⟨hblobs.trans ih.maxBlobs, hbytes.trans ih.maxPayloadBytes, nofun⟩

theorem toNat_add_taken {rest : Bytes}
    (h : reader.payloadBytes.toNat + rest.length < 2 ^ 64) :
    (reader.payloadBytes + UInt64.ofNat (reader.taken rest)).toNat =
      reader.payloadBytes.toNat + reader.taken rest := by
  have hle : reader.taken rest ≤ rest.length := Nat.min_le_right _ _
  rw [UInt64.toNat_add, UInt64.toNat_ofNat_of_lt' (by show _ < 2 ^ 64; omega),
    Nat.mod_eq_of_lt (by omega)]

/-- Until the first error, no sum wraps in a chunk that is short enough. -/
theorem Visited.fits {before : List PackEvent} {chunk rest : Bytes} {events : List PackEvent}
    (h : Visited maxBlobBytes maxBlobs maxPayloadBytes reader (some before)
      (.within chunk rest events))
    (hchunk : maxPayloadBytes.toNat + chunk.length < 2 ^ 64)
    (hblobs : maxBlobs.toNat + 1 < 2 ^ 64) : reader.Fits rest := by
  obtain ⟨assembly, -, hsound⟩ := h.sound before rfl
  have hkeeps := h.keeps
  have hcounted := UInt64.le_iff_toNat_le.mp hsound.blobs
  have hbytes := UInt64.le_iff_toNat_le.mp hsound.payloadBytes
  rw [hkeeps.maxBlobs] at hcounted
  rw [hkeeps.maxPayloadBytes] at hbytes
  have hrest := hkeeps.rest chunk rest events rfl
  unfold Fits
  split
  · exact trivial
  · intro digest _ _
    rw [UInt64.toNat_add]
    exact Nat.mod_eq_of_lt (by show reader.blobs.toNat + 1 < 2 ^ 64; omega)
  · exact ⟨toNat_add_taken (by omega), remaining_sub⟩

/-! ## The reader with natural numbers -/

def toNat (reader : WordReader) : PackReader where
  state := reader.state
  buffer := reader.buffer
  maxBlobBytes := reader.maxBlobBytes.toNat
  maxBlobs := reader.maxBlobs.toNat
  maxPayloadBytes := reader.maxPayloadBytes.toNat
  blobs := reader.blobs.toNat
  payloadBytes := reader.payloadBytes.toNat
  remaining := reader.remaining.toNat

def Turn.toNat : Turn → PackReader.Turn
  | .stop result reader => .stop result reader.toNat
  | .again reader rest events => .again reader.toNat rest events

theorem toNat_fill (reader : WordReader) (rest : Bytes) (wanted : ℕ) :
    reader.toNat.fill rest wanted =
      ({ reader.toNat with buffer := reader.filled rest wanted },
        rest.drop (wanted - reader.buffer.length)) := by
  unfold PackReader.fill
  split
  case isTrue h =>
    dsimp only
    rw [← List.take_eq_take_min, ← List.drop_eq_drop_min]
    rfl
  case isFalse h =>
    have hzero : wanted - reader.buffer.length = 0 := Nat.sub_eq_zero_of_le (Nat.le_of_not_lt h)
    rw [filled, hzero, List.take_zero, List.drop_zero, List.append_nil]
    rfl

theorem toNat_startFrame {buffer rest : Bytes} {digest : Digest} {events : List PackEvent}
    (h : (reader.blobs + 1).toNat = reader.blobs.toNat + 1) :
    (({ reader with buffer }).startFrame digest rest events).toNat =
      ({ reader with buffer } : WordReader).toNat.startFrame digest rest events := by
  have hmany : reader.blobs + 1 > reader.maxBlobs ↔
      reader.blobs.toNat + 1 > reader.maxBlobs.toNat := by
    rw [gt_iff_lt, UInt64.lt_iff_toNat_lt, h]
  have hzero : digest.size = 0 ↔ digest.size.toNat = 0 := UInt64.toNat_inj.symm
  unfold startFrame PackReader.startFrame
  dsimp only [toNat]
  by_cases hover : reader.blobs + 1 > reader.maxBlobs
  · rw [if_pos hover, if_pos (hmany.mp hover), Turn.toNat, toNat, h]
  · rw [if_neg hover, if_neg (fun hcount => hover (hmany.mpr hcount))]
    by_cases hempty : digest.size = 0
    · rw [if_pos hempty, if_pos (hzero.mp hempty), Turn.toNat, toNat, h]
    · rw [if_neg hempty, if_neg (fun hsize => hempty (hzero.mpr hsize)), Turn.toNat, toNat, h]

/-- A turn whose sums fit is the turn with natural numbers. -/
theorem turn_toNat {rest : Bytes} (h : reader.Fits rest) (events : List PackEvent) :
    (reader.turn rest events).toNat = reader.toNat.turn rest events := by
  unfold turn PackReader.turn
  unfold Fits at h
  have hstate : reader.toNat.state = reader.state := rfl
  cases hreader : reader.state with
  | magic =>
      rw [hstate, hreader]
      dsimp only
      rw [toNat_fill, fill_eq]
      dsimp only
      by_cases hfull : (reader.filled rest BLOB_PACK_MAGIC.length).length = BLOB_PACK_MAGIC.length
      · rw [if_neg (not_not.mpr hfull), if_neg (not_not.mpr hfull)]
        by_cases hmagic : reader.filled rest BLOB_PACK_MAGIC.length = BLOB_PACK_MAGIC
        · rw [if_neg (not_not.mpr hmagic), if_neg (not_not.mpr hmagic)]
          rfl
        · rw [if_pos hmagic, if_pos hmagic]
          rfl
      · rw [if_pos hfull, if_pos hfull]
        rfl
  | header =>
      have hbuffer : reader.toNat.buffer = reader.buffer := rfl
      have hlimit : reader.toNat.maxBlobBytes = reader.maxBlobBytes.toNat := rfl
      rw [hreader] at h
      rw [hstate, hreader]
      dsimp only
      rw [hbuffer]
      by_cases hnone : rest = [] ∧ reader.buffer = []
      · rw [if_pos hnone, if_pos hnone]
        rfl
      · rw [if_neg hnone, if_neg hnone, toNat_fill, fill_eq]
        dsimp only
        by_cases hfull : (reader.filled rest BLOB_PACK_HEADER_BYTES).length =
            BLOB_PACK_HEADER_BYTES
        · rw [if_neg (not_not.mpr hfull), if_neg (not_not.mpr hfull)]
          rw [hlimit]
          cases hparse : parseHeader reader.maxBlobBytes.toNat
            (reader.filled rest BLOB_PACK_HEADER_BYTES) with
          | error error => rfl
          | ok digest => exact toNat_startFrame (h digest hfull hparse)
        · rw [if_pos hfull, if_pos hfull]
          rfl
  | payload =>
      rw [hreader] at h
      obtain ⟨hsum, hleft⟩ := h
      have hmany : reader.payloadBytes + UInt64.ofNat (reader.taken rest) > reader.maxPayloadBytes ↔
          reader.payloadBytes.toNat + reader.taken rest > reader.maxPayloadBytes.toNat := by
        rw [gt_iff_lt, UInt64.lt_iff_toNat_lt, hsum]
      have hzero : reader.remaining - UInt64.ofNat (reader.taken rest) = 0 ↔
          reader.remaining.toNat - reader.taken rest = 0 := by
        rw [← UInt64.toNat_inj, ← hleft, Nat.add_sub_cancel]
        rfl
      have hdifference : (reader.remaining - UInt64.ofNat (reader.taken rest)).toNat =
          reader.remaining.toNat - reader.taken rest := by
        rw [← hleft, Nat.add_sub_cancel]
      have htaken : min reader.toNat.remaining rest.length = reader.taken rest := rfl
      have hremaining : reader.toNat.remaining = reader.remaining.toNat := rfl
      have hpayload : reader.toNat.payloadBytes = reader.payloadBytes.toNat := rfl
      have hlimit : reader.toNat.maxPayloadBytes = reader.maxPayloadBytes.toNat := rfl
      rw [hstate, hreader]
      dsimp only
      rw [htaken, hremaining, hpayload, hlimit]
      by_cases hnone : rest = []
      · rw [if_pos hnone, if_pos hnone]
        rfl
      · rw [if_neg hnone, if_neg hnone]
        by_cases hover : reader.payloadBytes + UInt64.ofNat (reader.taken rest) >
            reader.maxPayloadBytes
        · rw [if_pos hover, if_pos (hmany.mp hover), Turn.toNat, toNat, hsum, hdifference]
          rfl
        · rw [if_neg hover, if_neg (fun hcount => hover (hmany.mpr hcount))]
          by_cases hlast : reader.remaining - UInt64.ofNat (reader.taken rest) = 0
          · rw [if_pos hlast, if_pos (hzero.mp hlast), Turn.toNat, toNat, hsum, hdifference]
            rfl
          · rw [if_neg hlast, if_neg (fun hleft => hlast (hzero.mpr hleft)), Turn.toNat, toNat, hsum,
              hdifference]
            rfl

/-- So is a push, until the first error, where the chunk is short enough. -/
theorem Visited.pushLoop_toNat {before : List PackEvent} {chunk : Bytes}
    (hchunk : maxPayloadBytes.toNat + chunk.length < 2 ^ 64)
    (hblobs : maxBlobs.toNat + 1 < 2 ^ 64) (reader : WordReader) (rest : Bytes)
    (events : List PackEvent) (h : Visited maxBlobBytes maxBlobs maxPayloadBytes reader
      (some before) (.within chunk rest events)) :
    reader.toNat.pushLoop rest events =
      ((reader.pushLoop rest events).1, (reader.pushLoop rest events).2.toNat) := by
  have hturn := turn_toNat (h.fits hchunk hblobs) events
  cases hnext : reader.turn rest events with
  | stop result reader' =>
      rw [hnext] at hturn
      rw [pushLoop_stop hnext, PackReader.pushLoop_stop hturn.symm]
  | again reader' rest' events' =>
      rw [hnext] at hturn
      rw [pushLoop_again hnext, PackReader.pushLoop_again hturn.symm]
      exact Visited.pushLoop_toNat hchunk hblobs reader' rest' events' (h.again hnext)
termination_by reader.measure rest
decreasing_by exact measure_lt hnext

theorem Visited.push_toNat {before : List PackEvent}
    (h : Visited maxBlobBytes maxBlobs maxPayloadBytes reader (some before) .between)
    {chunk : Bytes} (hchunk : maxPayloadBytes.toNat + chunk.length < 2 ^ 64)
    (hblobs : maxBlobs.toNat + 1 < 2 ^ 64) :
    reader.toNat.push chunk = ((reader.push chunk).1, (reader.push chunk).2.toNat) :=
  Visited.pushLoop_toNat hchunk hblobs reader chunk [] (h.pushed chunk)

/-- The events given after a push, as long as there was no error. -/
def afterPush (emitted : Option (List PackEvent)) :
    Except PackError (List PackEvent) → Option (List PackEvent)
  | .ok events => emitted.map (· ++ events)
  | .error _ => none

theorem Visited.pushLoop (reader : WordReader) (rest : Bytes) (events : List PackEvent)
    {chunk : Bytes} (h : Visited maxBlobBytes maxBlobs maxPayloadBytes reader emitted
      (.within chunk rest events)) :
    Visited maxBlobBytes maxBlobs maxPayloadBytes (reader.pushLoop rest events).2
      (afterPush emitted (reader.pushLoop rest events).1) .between := by
  cases hnext : reader.turn rest events with
  | stop result reader' =>
      rw [pushLoop_stop hnext]
      cases result with
      | ok events' => exact h.returned hnext
      | error error => exact h.refused hnext
  | again reader' rest' events' =>
      rw [pushLoop_again hnext]
      exact Visited.pushLoop reader' rest' events' (h.again hnext)
termination_by reader.measure rest
decreasing_by exact measure_lt hnext

/-! ## A counter that wraps -/

/-- A frame of an empty blob. -/
def emptyFrame : Bytes := 1 :: List.replicate 40 0

/-- A reader between frames after so many of them, none with a payload. -/
def counting (count : ℕ) : WordReader where
  state := .header
  buffer := []
  maxBlobBytes := 0
  maxBlobs := 0xFFFFFFFFFFFFFFFF
  maxPayloadBytes := 0
  blobs := UInt64.ofNat count
  payloadBytes := 0
  remaining := 0

theorem parseHeader_emptyFrame :
    parseHeader 0 emptyFrame = .ok ⟨"blake3", hexEncode (List.replicate 32 0), 0⟩ := by
  decide +kernel

theorem counting_waits (count : ℕ) (events : List PackEvent) :
    (counting count).turn [] events = .stop (.ok events) (counting count) := rfl

theorem fill_emptyFrame (count : ℕ) : (counting count).fill emptyFrame BLOB_PACK_HEADER_BYTES =
    ({ counting count with buffer := emptyFrame }, []) := rfl

theorem counting_turn {count : ℕ} (h : count + 1 < 2 ^ 64) (events : List PackEvent) :
    (counting count).turn emptyFrame events = .again (counting (count + 1)) []
      (events ++ [.started ⟨"blake3", hexEncode (List.replicate 32 0), 0⟩, .complete]) := by
  have hstate : (counting count).state = .header := rfl
  have hlimit : (counting count).maxBlobBytes.toNat = 0 := rfl
  have hfull : ¬ emptyFrame.length ≠ BLOB_PACK_HEADER_BYTES := not_not.mpr rfl
  have hsum : UInt64.ofNat count + 1 = UInt64.ofNat (count + 1) := by
    rw [UInt64.ofNat_add]
    rfl
  have hwithin : ¬ UInt64.ofNat (count + 1) > 0xFFFFFFFFFFFFFFFF := by
    rw [gt_iff_lt, UInt64.lt_iff_toNat_lt, UInt64.toNat_ofNat_of_lt' h]
    show ¬ 2 ^ 64 - 1 < count + 1
    omega
  unfold turn
  rw [hstate]
  dsimp only
  rw [if_neg (fun hnone => List.cons_ne_nil _ _ hnone.1), fill_emptyFrame]
  dsimp only
  rw [if_neg hfull, hlimit, parseHeader_emptyFrame]
  show ({ counting count with buffer := emptyFrame } : WordReader).startFrame _ [] events = _
  unfold startFrame
  dsimp only [counting]
  rw [hsum, if_neg hwithin, if_pos rfl]

theorem visited_counting (count : ℕ) (h : count < 2 ^ 64) :
    ∃ before, Visited 0 0xFFFFFFFFFFFFFFFF 0 (counting count) (some before) .between := by
  induction count with
  | zero =>
      have hnew : Visited 0 0xFFFFFFFFFFFFFFFF 0 (new 0 0xFFFFFFFFFFFFFFFF 0) (some []) .between :=
        .new
      have hturned : Visited 0 0xFFFFFFFFFFFFFFFF 0 (counting 0) (some [])
          (.within BLOB_PACK_MAGIC [] []) := (hnew.pushed BLOB_PACK_MAGIC).again rfl
      exact ⟨_, hturned.returned (counting_waits 0 [])⟩
  | succ count ih =>
      obtain ⟨before, hvisited⟩ := ih (Nat.lt_of_succ_lt h)
      have hturned := (hvisited.pushed emptyFrame).again (counting_turn h [])
      exact ⟨_, hturned.returned (counting_waits (count + 1) _)⟩

/-- After as many empty frames as a word can count, the next one wraps the counter,
however short the chunk and low the limit on bytes. -/
theorem blobs_wrap : ∃ reader before, Visited 0 0xFFFFFFFFFFFFFFFF 0 reader (some before)
      (.within emptyFrame emptyFrame []) ∧
    (0 : UInt64).toNat + emptyFrame.length < 2 ^ 64 ∧ ¬ reader.Fits emptyFrame := by
  obtain ⟨before, hvisited⟩ := visited_counting (2 ^ 64 - 1) (by decide)
  refine ⟨_, before, hvisited.pushed emptyFrame, by decide, ?_⟩
  intro hfits
  have hsum := hfits _ rfl parseHeader_emptyFrame
  exact absurd hsum (by decide)

end WordReader

/-- The reader ends every push and stays within its bounds. From any state, every
push ends within a bounded number of turns, and pushes lead from states of a run to
states of the run. In every run the buffer holds a header at most. Until the first
error the reader is in the payload state exactly when a frame is open of which a part
is still to come, and then the buffer is empty and that part and the payload given are
the declared size; the counters are within their limits; and no sum wraps in a chunk
that is short enough, if the limit on blobs is below the largest word. -/
theorem push_bounded (maxBlobBytes maxBlobs maxPayloadBytes : UInt64) :
    (∀ (reader : WordReader) (chunk : Bytes),
      WordReader.loop (2 * (chunk.length + reader.buffer.length) + 2) reader chunk [] =
        some (reader.push chunk)) ∧
    (∀ reader emitted chunk,
      WordReader.Visited maxBlobBytes maxBlobs maxPayloadBytes reader emitted .between →
        WordReader.Visited maxBlobBytes maxBlobs maxPayloadBytes (reader.push chunk).2
          (WordReader.afterPush emitted (reader.push chunk).1) .between) ∧
    ∀ reader emitted place,
      WordReader.Visited maxBlobBytes maxBlobs maxPayloadBytes reader emitted place →
        reader.buffer.length ≤ BLOB_PACK_HEADER_BYTES ∧
        ∀ before, emitted = some before →
          (∃ assembly, assemble ⟨[], none⟩ (before ++ place.events) = some assembly ∧
            reader.Sound assembly) ∧
          reader.blobs ≤ maxBlobs ∧ reader.payloadBytes ≤ maxPayloadBytes ∧
          ∀ chunk rest events, place = .within chunk rest events →
            maxPayloadBytes.toNat + chunk.length < 2 ^ 64 → maxBlobs.toNat + 1 < 2 ^ 64 →
              reader.Fits rest := by
  refine ⟨?_, ?_, ?_⟩
  · intro reader chunk
    apply WordReader.loop_eq_pushLoop
    have hrank : PackReader.rank reader.state ≤ 1 := by
      cases reader.state <;> decide
    rw [WordReader.measure]
    omega
  · intro reader emitted chunk h
    exact WordReader.Visited.pushLoop reader chunk [] (h.pushed chunk)
  · intro reader emitted place h
    refine ⟨h.bounded.header, ?_⟩
    rintro before rfl
    obtain ⟨assembly, hassembled, hsound⟩ := h.sound before rfl
    have hkeeps := h.keeps
    refine ⟨⟨assembly, hassembled, hsound⟩, hkeeps.maxBlobs ▸ hsound.blobs,
      hkeeps.maxPayloadBytes ▸ hsound.payloadBytes, ?_⟩
    rintro chunk rest events rfl hchunk hblobs
    exact h.fits hchunk hblobs

end MbxCache.Pack
