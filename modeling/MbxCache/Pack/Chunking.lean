/-
# The reader does not see chunk boundaries

The reader is simulated by the bytes it has received. `Reads` says what its state
means: the bytes so far are the magic, the frames completed so far, and a part of
the next header or payload that the state names exactly. One turn of the loop
keeps this for the bytes it used; at a turn that refuses, the plain reading of
those bytes, whatever follows them, refuses for the same reason.

The events are assembled by a strict reader that fails on a payload outside a
frame, so an assembled stream is also known to be in order.
-/

import MbxCache.Pack.Encoding

namespace MbxCache.Pack

open Foundation

/-! ## Assembling events -/

/-- Frames completed so far and the frame in progress. -/
structure Assembly where
  frames : List Frame
  current : Option Frame
  deriving DecidableEq, Repr

/-- Take one event; a payload or an end outside a frame has no meaning, and
neither has a frame inside a frame. -/
def Assembly.take (assembly : Assembly) (event : PackEvent) : Option Assembly :=
  match event, assembly.current with
  | .started digest, none => some { assembly with current := some (digest, []) }
  | .payload bytes, some (digest, got) =>
      some { assembly with current := some (digest, got ++ bytes) }
  | .complete, some frame => some { frames := assembly.frames ++ [frame], current := none }
  | _, _ => none

def assemble (assembly : Assembly) (events : List PackEvent) : Option Assembly :=
  events.foldlM Assembly.take assembly

theorem assemble_append {assembly middle : Assembly} {first : List PackEvent}
    (h : assemble assembly first = some middle) (second : List PackEvent) :
    assemble assembly (first ++ second) = assemble middle second := by
  have h' : List.foldlM Assembly.take assembly first = some middle := h
  simp only [assemble, List.foldlM_append, h']
  rfl

/-- Events only add frames at the end. -/
theorem frames_prefix_of_take {assembly assembly' : Assembly} {event : PackEvent}
    (h : assembly.take event = some assembly') : assembly.frames <+: assembly'.frames := by
  obtain ⟨frames, current⟩ := assembly
  cases event with
  | started digest =>
      cases current with
      | some frame => cases h
      | none =>
          obtain rfl := Option.some.inj h
          exact List.prefix_refl frames
  | payload bytes =>
      cases current with
      | none => cases h
      | some frame =>
          obtain rfl := Option.some.inj h
          exact List.prefix_refl frames
  | complete =>
      cases current with
      | none => cases h
      | some frame =>
          obtain rfl := Option.some.inj h
          exact List.prefix_append frames [frame]

theorem frames_prefix_of_assemble :
    ∀ {events : List PackEvent} {assembly assembly' : Assembly},
      assemble assembly events = some assembly' → assembly.frames <+: assembly'.frames
  | [], assembly, assembly', h => by
      obtain rfl := Option.some.inj h
      exact List.prefix_refl assembly.frames
  | event :: events, assembly, assembly', h => by
      obtain ⟨middle, htake, hrest⟩ := Option.bind_eq_some_iff.mp h
      exact (frames_prefix_of_take htake).trans (frames_prefix_of_assemble hrest)

/-- Join a payload with the payload that follows it. -/
def joinPayload : PackEvent → List PackEvent → List PackEvent
  | .payload first, .payload second :: rest => .payload (first ++ second) :: rest
  | event, rest => event :: rest

/-- Concatenate adjacent payload events. -/
def coalesce (events : List PackEvent) : List PackEvent :=
  events.foldr joinPayload []

/-- The events of one frame read in one piece. -/
def frameEvents (frame : Frame) : List PackEvent :=
  if frame.2 = [] then [.started frame.1, .complete]
  else [.started frame.1, .payload frame.2, .complete]

/-- No payload event is empty. -/
def NonemptyPayloads (events : List PackEvent) : Prop :=
  ∀ bytes, PackEvent.payload bytes ∈ events → bytes ≠ []

@[simp]
theorem nonemptyPayloads_cons {event : PackEvent} {events : List PackEvent} :
    NonemptyPayloads (event :: events) ↔ event ≠ .payload [] ∧ NonemptyPayloads events := by
  constructor
  · intro h
    refine ⟨?_, fun bytes hmem => h bytes (by simp [hmem])⟩
    rintro rfl
    exact h [] (by simp) rfl
  · rintro ⟨hevent, hrest⟩ bytes hmem rfl
    rcases List.mem_cons.mp hmem with heq | htail
    · exact hevent heq.symm
    · exact hrest [] htail rfl

theorem NonemptyPayloads.append {first second : List PackEvent}
    (hfirst : NonemptyPayloads first) (hsecond : NonemptyPayloads second) :
    NonemptyPayloads (first ++ second) := by
  intro bytes hmem
  rcases List.mem_append.mp hmem with h | h
  · exact hfirst bytes h
  · exact hsecond bytes h

/-- Events that assemble to complete frames coalesce to the events of those
frames. Inside an open frame, the first of them ends it. -/
theorem coalesce_of_assemble :
    ∀ (events : List PackEvent) (assembly result : Assembly),
      assemble assembly events = some result → result.current = none →
      NonemptyPayloads events →
      match assembly.current with
      | none => ∃ later, result.frames = assembly.frames ++ later ∧
          coalesce events = later.flatMap frameEvents
      | some (digest, got) => ∃ payload later,
          result.frames = assembly.frames ++ (digest, got ++ payload) :: later ∧
          coalesce events =
            (if payload = [] then [] else [.payload payload]) ++
              .complete :: later.flatMap frameEvents
  | [], ⟨frames, current⟩, result, hassemble, hclosed, _ => by
      have hresult : result = ⟨frames, current⟩ := (Option.some.inj hassemble).symm
      subst hresult
      cases current with
      | none => exact ⟨[], by simp, rfl⟩
      | some frame => cases hclosed
  | .started digest :: events, ⟨frames, current⟩, result, hassemble, hclosed, hpayloads => by
      cases current with
      | some frame => cases hassemble
      | none =>
          obtain ⟨payload, later, hframes, hevents⟩ :=
            coalesce_of_assemble events ⟨frames, some (digest, [])⟩ result hassemble hclosed
              (nonemptyPayloads_cons.mp hpayloads).2
          refine ⟨(digest, payload) :: later, by simpa using hframes, ?_⟩
          rw [coalesce, List.foldr_cons, ← coalesce, hevents]
          by_cases hempty : payload = []
          · simp [hempty, frameEvents, joinPayload]
          · simp [hempty, frameEvents, joinPayload]
  | .payload bytes :: events, ⟨frames, current⟩, result, hassemble, hclosed, hpayloads => by
      cases current with
      | none => cases hassemble
      | some frame =>
          obtain ⟨digest, got⟩ := frame
          obtain ⟨hbytes, hrest⟩ := nonemptyPayloads_cons.mp hpayloads
          obtain ⟨payload, later, hframes, hevents⟩ :=
            coalesce_of_assemble events ⟨frames, some (digest, got ++ bytes)⟩ result hassemble
              hclosed hrest
          have hne : bytes ≠ [] := fun h => hbytes (by rw [h])
          refine ⟨bytes ++ payload, later, by simpa using hframes, ?_⟩
          rw [coalesce, List.foldr_cons, ← coalesce, hevents]
          by_cases hempty : payload = []
          · simp [hempty, hne, joinPayload]
          · simp [hempty, hne, joinPayload]
  | .complete :: events, ⟨frames, current⟩, result, hassemble, hclosed, hpayloads => by
      cases current with
      | none => cases hassemble
      | some frame =>
          obtain ⟨digest, got⟩ := frame
          obtain ⟨later, hframes, hevents⟩ :=
            coalesce_of_assemble events ⟨frames ++ [(digest, got)], none⟩ result hassemble hclosed
              (nonemptyPayloads_cons.mp hpayloads).2
          refine ⟨[], later, by simpa using hframes, ?_⟩
          rw [coalesce, List.foldr_cons, ← coalesce, hevents]
          cases later.flatMap frameEvents <;> rfl

/-! ## What the state of a reader means -/

namespace PackReader

/-- The limits of a reader leave room for these frames. -/
abbrev Within (reader : PackReader) (frames : List Frame) : Prop :=
  Pack.Within reader.maxBlobBytes reader.maxBlobs reader.maxPayloadBytes frames

/-- The plain reading of a whole pack under a reader's limits. -/
abbrev decode (reader : PackReader) (bytes : Bytes) : Except PackError (List Frame) :=
  Pack.decode bytes reader.maxBlobBytes reader.maxBlobs reader.maxPayloadBytes

/-- The limits are fixed at construction. -/
structure SameLimits (reader reader' : PackReader) : Prop where
  maxBlobBytes : reader'.maxBlobBytes = reader.maxBlobBytes
  maxBlobs : reader'.maxBlobs = reader.maxBlobs
  maxPayloadBytes : reader'.maxPayloadBytes = reader.maxPayloadBytes

theorem SameLimits.refl (reader : PackReader) : SameLimits reader reader := ⟨rfl, rfl, rfl⟩

theorem SameLimits.trans {first second third : PackReader} (h : SameLimits first second)
    (h' : SameLimits second third) : SameLimits first third :=
  ⟨h'.1.trans h.1, h'.2.trans h.2, h'.3.trans h.3⟩

theorem SameLimits.decode_eq {reader reader' : PackReader} (h : SameLimits reader reader')
    (bytes : Bytes) : reader'.decode bytes = reader.decode bytes := by
  rw [PackReader.decode, PackReader.decode, h.maxBlobBytes, h.maxBlobs, h.maxPayloadBytes]

/-- The bytes a reader has received, and the frames it has made of them. In the
payload state the open frame lacks exactly `remaining` bytes, at least one. -/
inductive Reads (reader : PackReader) : Assembly → Bytes → Prop where
  | magic (hstate : reader.state = .magic)
      (hbuffer : reader.buffer.length < BLOB_PACK_MAGIC.length)
      (hblobs : reader.blobs = 0) (hbytes : reader.payloadBytes = 0) :
      Reads reader ⟨[], none⟩ reader.buffer
  | header (frames : List Frame) (hstate : reader.state = .header)
      (hbuffer : reader.buffer.length < BLOB_PACK_HEADER_BYTES)
      (hwithin : reader.Within frames) (hblobs : reader.blobs = frames.length)
      (hbytes : reader.payloadBytes = declaredBytes frames) :
      Reads reader ⟨frames, none⟩ (encodePack frames ++ reader.buffer)
  | payload (frames : List Frame) (digest : Digest) (got : Bytes)
      (hstate : reader.state = .payload) (hbuffer : reader.buffer = [])
      (hwithin : reader.Within frames) (hwf : digest.WellFormed)
      (hsize : digest.size.toNat ≤ reader.maxBlobBytes)
      (hgot : got.length + reader.remaining = digest.size.toNat)
      (hremaining : 0 < reader.remaining)
      (hblobs : reader.blobs = frames.length + 1) (hblobs_le : reader.blobs ≤ reader.maxBlobs)
      (hbytes : reader.payloadBytes = declaredBytes frames + got.length)
      (hbytes_le : reader.payloadBytes ≤ reader.maxPayloadBytes) :
      Reads reader ⟨frames, some (digest, got)⟩
        (encodePack frames ++ (frameHeader digest ++ got))

theorem reads_new (maxBlobBytes maxBlobs maxPayloadBytes : ℕ) :
    Reads (new maxBlobBytes maxBlobs maxPayloadBytes) ⟨[], none⟩ [] :=
  .magic rfl (Nat.succ_pos 7) rfl rfl

/-! ## One turn of the loop -/

/-- What a turn does to a reader that has received `consumed`: it uses a part of
the unread bytes and reports what they complete, or waits for more bytes, or
refuses as the plain reading does. -/
def Turn.Follows (reader : PackReader) (assembly : Assembly) (consumed rest : Bytes)
    (events : List PackEvent) : Turn → Prop
  | .again reader' rest' events' =>
      SameLimits reader reader' ∧ ∃ used new assembly', rest = used ++ rest' ∧
        events' = events ++ new ∧ NonemptyPayloads new ∧
        assemble assembly new = some assembly' ∧ Reads reader' assembly' (consumed ++ used)
  | .stop (.ok events') reader' =>
      SameLimits reader reader' ∧ events' = events ∧ Reads reader' assembly (consumed ++ rest)
  | .stop (.error error) _ =>
      ∀ later, reader.decode (consumed ++ rest ++ later) = .error error

/-- Filling from a short buffer takes what is missing, or all there is. -/
theorem fill_of_short {reader : PackReader} {wanted : ℕ} (h : reader.buffer.length < wanted)
    (rest : Bytes) :
    ∃ used rest', rest = used ++ rest' ∧
      reader.fill rest wanted = ({ reader with buffer := reader.buffer ++ used }, rest') ∧
      ((reader.buffer ++ used).length < wanted ∧ rest' = [] ∨
        (reader.buffer ++ used).length = wanted) := by
  refine ⟨rest.take (min (wanted - reader.buffer.length) rest.length),
    rest.drop (min (wanted - reader.buffer.length) rest.length),
    (List.take_append_drop _ _).symm, by rw [fill, if_pos h], ?_⟩
  rw [List.drop_eq_nil_iff, List.length_append, List.length_take]
  omega

theorem turn_follows_magic {reader : PackReader} (hstate : reader.state = .magic)
    (hbuffer : reader.buffer.length < BLOB_PACK_MAGIC.length) (hblobs : reader.blobs = 0)
    (hbytes : reader.payloadBytes = 0) (rest : Bytes) (events : List PackEvent) :
    (reader.turn rest events).Follows reader ⟨[], none⟩ reader.buffer rest events := by
  obtain ⟨used, rest', rfl, hfill, hlength⟩ := fill_of_short hbuffer rest
  simp only [turn, hstate, hfill]
  rcases hlength with ⟨hshort, rfl⟩ | hfull
  · rw [if_pos (Nat.ne_of_lt hshort)]
    refine ⟨⟨rfl, rfl, rfl⟩, rfl, ?_⟩
    rw [List.append_nil]
    exact .magic rfl hshort hblobs hbytes
  · rw [if_neg (not_not.mpr hfull)]
    by_cases hmagic : reader.buffer ++ used = BLOB_PACK_MAGIC
    · rw [if_neg (not_not.mpr hmagic)]
      refine ⟨⟨rfl, rfl, rfl⟩, used, [], ⟨[], none⟩, rfl, by simp, by simp [NonemptyPayloads],
        rfl, ?_⟩
      rw [hmagic]
      exact .header [] rfl (Nat.succ_pos 40) ⟨by simp, by simp, by simp⟩ hblobs hbytes
    · rw [if_pos hmagic]
      intro later
      have hlong : ¬ (reader.buffer ++ (used ++ rest') ++ later).length <
          BLOB_PACK_MAGIC.length := by
        rw [← hfull]
        simp only [List.length_append]
        omega
      have htake : (reader.buffer ++ (used ++ rest') ++ later).take BLOB_PACK_MAGIC.length =
          reader.buffer ++ used := by
        rw [← List.append_assoc reader.buffer, List.append_assoc (reader.buffer ++ used)]
        exact List.take_left' hfull
      rw [PackReader.decode, Pack.decode, if_neg hlong, htake, if_pos hmagic]

theorem turn_follows_header {reader : PackReader} {frames : List Frame}
    (hstate : reader.state = .header)
    (hbuffer : reader.buffer.length < BLOB_PACK_HEADER_BYTES) (hwithin : reader.Within frames)
    (hblobs : reader.blobs = frames.length)
    (hbytes : reader.payloadBytes = declaredBytes frames) (rest : Bytes)
    (events : List PackEvent) :
    (reader.turn rest events).Follows reader ⟨frames, none⟩
      (encodePack frames ++ reader.buffer) rest events := by
  by_cases hidle : rest = [] ∧ reader.buffer = []
  · simp only [turn, hstate, if_pos hidle]
    refine ⟨.refl reader, rfl, ?_⟩
    rw [hidle.1, List.append_nil]
    exact .header frames hstate hbuffer hwithin hblobs hbytes
  · obtain ⟨used, rest', rfl, hfill, hlength⟩ := fill_of_short hbuffer rest
    simp only [turn, hstate, if_neg hidle, hfill]
    rcases hlength with ⟨hshort, rfl⟩ | hfull
    · rw [if_pos (Nat.ne_of_lt hshort)]
      refine ⟨⟨rfl, rfl, rfl⟩, rfl, ?_⟩
      rw [List.append_nil, List.append_assoc]
      exact .header frames rfl hshort ⟨hwithin.1, hwithin.2, hwithin.3⟩ hblobs hbytes
    · rw [if_neg (not_not.mpr hfull)]
      have hread : ∀ later, reader.decode
          (encodePack frames ++ reader.buffer ++ (used ++ rest') ++ later) =
          (decodeFrames reader.maxBlobBytes reader.maxBlobs reader.maxPayloadBytes frames.length
            (declaredBytes frames) ((reader.buffer ++ used) ++ (rest' ++ later))).map
            (frames ++ ·) := by
        intro later
        rw [← decode_encodePack_append hwithin]
        simp only [List.append_assoc]
      cases hparse : parseHeader reader.maxBlobBytes (reader.buffer ++ used) with
      | error error =>
          intro later
          rw [hread later, decodeFrames_header hfull, hparse]
          rfl
      | ok digest =>
          obtain ⟨hheader, hwf, hsize⟩ := frameHeader_of_parseHeader hfull hparse
          simp only [startFrame]
          by_cases hmany : reader.blobs + 1 > reader.maxBlobs
          · rw [if_pos hmany]
            intro later
            rw [hread later, decodeFrames_header hfull, hparse]
            dsimp only
            rw [if_pos (by omega)]
            rfl
          · rw [if_neg hmany]
            by_cases hempty : digest.size.toNat = 0
            · rw [if_pos hempty]
              refine ⟨⟨rfl, rfl, rfl⟩, used, [.started digest, .complete],
                ⟨frames ++ [(digest, [])], none⟩, rfl, rfl, by simp [NonemptyPayloads], rfl, ?_⟩
              have hconsumed : encodePack frames ++ reader.buffer ++ used =
                  encodePack (frames ++ [(digest, [])]) ++ [] := by
                simp [encodePack, encodeFrame, hheader]
              rw [hconsumed]
              refine .header _ rfl (Nat.succ_pos 40) ⟨?_, ?_, ?_⟩ ?_ ?_
              · intro frame hmem
                rcases List.mem_append.mp hmem with hold | hnew
                · exact hwithin.fits frame hold
                · rw [List.mem_singleton.mp hnew]
                  exact ⟨hwf, hsize, by simp [hempty]⟩
              · simp only [List.length_append, List.length_singleton]
                omega
              · have := hwithin.bytes_le
                simpa [hempty] using this
              · simp [hblobs]
              · simp [hbytes, hempty]
            · rw [if_neg hempty]
              refine ⟨⟨rfl, rfl, rfl⟩, used, [.started digest], ⟨frames, some (digest, [])⟩, rfl,
                rfl, by simp [NonemptyPayloads], rfl, ?_⟩
              have hconsumed : encodePack frames ++ reader.buffer ++ used =
                  encodePack frames ++ (frameHeader digest ++ []) := by
                rw [hheader, List.append_nil, List.append_assoc]
              rw [hconsumed]
              have hbytes_le := hwithin.bytes_le
              exact .payload frames digest [] rfl rfl ⟨hwithin.1, hwithin.2, hwithin.3⟩ hwf hsize
                (by simp) (Nat.pos_of_ne_zero hempty) (by simp [hblobs]) (Nat.not_lt.mp hmany)
                (by simp [hbytes]) (by rw [hbytes]; exact hbytes_le)

/-- Reading from inside a frame: the header was read, `got` of its payload too. -/
theorem decode_open_frame {reader : PackReader} {frames : List Frame} {digest : Digest}
    (hwithin : reader.Within frames) (hwf : digest.WellFormed)
    (hsize : digest.size.toNat ≤ reader.maxBlobBytes)
    (hblobs : frames.length + 1 ≤ reader.maxBlobs) (got tail : Bytes) :
    reader.decode (encodePack frames ++ (frameHeader digest ++ got) ++ tail) =
      Except.map (fun later : List Frame => frames ++ later)
        (if declaredBytes frames + ((got ++ tail).take digest.size.toNat).length >
            reader.maxPayloadBytes then .error (.tooManyBytes reader.maxPayloadBytes)
          else if ((got ++ tail).take digest.size.toNat).length < digest.size.toNat then
            .error .truncated
          else
            match decodeFrames reader.maxBlobBytes reader.maxBlobs reader.maxPayloadBytes
                (frames.length + 1)
                (declaredBytes frames + ((got ++ tail).take digest.size.toNat).length)
                ((got ++ tail).drop digest.size.toNat) with
            | .error error => .error error
            | .ok later => .ok ((digest, (got ++ tail).take digest.size.toNat) :: later)) := by
  have hassoc : encodePack frames ++ (frameHeader digest ++ got) ++ tail =
      encodePack frames ++ (frameHeader digest ++ (got ++ tail)) := by
    simp only [List.append_assoc]
  rw [hassoc, PackReader.decode, decode_encodePack_append hwithin,
    decodeFrames_header (frameHeader_length hwf), parseHeader_frameHeader hwf hsize]
  dsimp only
  exact congrArg (Except.map fun later : List Frame => frames ++ later) (if_neg (by omega))

theorem turn_follows_payload {reader : PackReader} {frames : List Frame} {digest : Digest}
    {got : Bytes} (hstate : reader.state = .payload) (hbuffer : reader.buffer = [])
    (hwithin : reader.Within frames) (hwf : digest.WellFormed)
    (hsize : digest.size.toNat ≤ reader.maxBlobBytes)
    (hgot : got.length + reader.remaining = digest.size.toNat)
    (hremaining : 0 < reader.remaining) (hblobs : reader.blobs = frames.length + 1)
    (hblobs_le : reader.blobs ≤ reader.maxBlobs)
    (hbytes : reader.payloadBytes = declaredBytes frames + got.length)
    (hbytes_le : reader.payloadBytes ≤ reader.maxPayloadBytes) (rest : Bytes)
    (events : List PackEvent) :
    (reader.turn rest events).Follows reader ⟨frames, some (digest, got)⟩
      (encodePack frames ++ (frameHeader digest ++ got)) rest events := by
  by_cases hidle : rest = []
  · simp only [turn, hstate, if_pos hidle]
    refine ⟨.refl reader, rfl, ?_⟩
    rw [hidle, List.append_nil]
    exact .payload frames digest got hstate hbuffer hwithin hwf hsize hgot hremaining hblobs
      hblobs_le hbytes hbytes_le
  · simp only [turn, hstate, if_neg hidle]
    have hpos : 0 < rest.length := List.length_pos_iff.mpr hidle
    have htaken : (rest.take (min reader.remaining rest.length)).length =
        min reader.remaining rest.length := by
      rw [List.length_take]
      omega
    have hused : NonemptyPayloads [.payload (rest.take (min reader.remaining rest.length))] := by
      intro bytes hmem hempty
      rw [List.mem_singleton, PackEvent.payload.injEq] at hmem
      rw [hmem, ← List.length_eq_zero_iff, htaken] at hempty
      omega
    have hsplit : rest = rest.take (min reader.remaining rest.length) ++
        rest.drop (min reader.remaining rest.length) := (List.take_append_drop _ _).symm
    by_cases hmany : reader.payloadBytes + min reader.remaining rest.length >
        reader.maxPayloadBytes
    · rw [if_pos hmany]
      intro later
      -- Whatever follows, the reading of this frame takes at least the bytes at hand.
      have hread : ((got ++ (rest ++ later)).take digest.size.toNat).length ≥
          got.length + min reader.remaining rest.length := by
        simp only [List.length_take, List.length_append]
        omega
      rw [List.append_assoc (encodePack frames ++ (frameHeader digest ++ got)) rest later,
        decode_open_frame hwithin hwf hsize (by omega), if_pos (by omega)]
      rfl
    · rw [if_neg hmany]
      by_cases hlast : reader.remaining - min reader.remaining rest.length = 0
      · rw [if_pos hlast]
        refine ⟨⟨rfl, rfl, rfl⟩, _, [.payload (rest.take (min reader.remaining rest.length)),
          .complete], ⟨frames ++ [(digest, got ++ rest.take (min reader.remaining rest.length))],
          none⟩, hsplit, rfl, ?_, rfl, ?_⟩
        · exact hused.append (by simp [NonemptyPayloads])
        · have hconsumed : encodePack frames ++ (frameHeader digest ++ got) ++
              rest.take (min reader.remaining rest.length) =
              encodePack (frames ++
                [(digest, got ++ rest.take (min reader.remaining rest.length))]) ++
                reader.buffer := by
            simp [encodePack, encodeFrame, hbuffer]
          rw [hconsumed]
          refine .header _ rfl (by rw [hbuffer]; exact Nat.succ_pos 40) ⟨?_, ?_, ?_⟩ ?_ ?_
          · intro frame hmem
            rcases List.mem_append.mp hmem with hold | hnew
            · exact hwithin.fits frame hold
            · rw [List.mem_singleton.mp hnew]
              refine ⟨hwf, hsize, ?_⟩
              simp only [List.length_append, htaken]
              omega
          · simp only [List.length_append, List.length_singleton]
            omega
          · simp only [declaredBytes_append, declaredBytes_cons, declaredBytes_nil]
            omega
          · simp only [List.length_append, List.length_singleton]
            omega
          · simp only [declaredBytes_append, declaredBytes_cons, declaredBytes_nil]
            omega
      · rw [if_neg hlast]
        refine ⟨⟨rfl, rfl, rfl⟩, _, [.payload (rest.take (min reader.remaining rest.length))],
          ⟨frames, some (digest, got ++ rest.take (min reader.remaining rest.length))⟩, hsplit,
          rfl, hused, rfl, ?_⟩
        have hconsumed : encodePack frames ++ (frameHeader digest ++ got) ++
            rest.take (min reader.remaining rest.length) =
            encodePack frames ++ (frameHeader digest ++
              (got ++ rest.take (min reader.remaining rest.length))) := by
          simp only [List.append_assoc]
        rw [hconsumed]
        refine .payload frames digest _ rfl hbuffer ⟨hwithin.1, hwithin.2, hwithin.3⟩ hwf hsize
          ?_ (Nat.pos_of_ne_zero hlast) hblobs hblobs_le ?_ (Nat.not_lt.mp hmany)
        · simp only [List.length_append, htaken]
          omega
        · simp only [List.length_append, htaken]
          omega

/-- The step lemma: one turn of the loop follows the bytes. -/
theorem Reads.turn_follows {reader : PackReader} {assembly : Assembly} {consumed : Bytes}
    (h : Reads reader assembly consumed) (rest : Bytes) (events : List PackEvent) :
    (reader.turn rest events).Follows reader assembly consumed rest events := by
  cases h with
  | magic hstate hbuffer hblobs hbytes =>
      exact turn_follows_magic hstate hbuffer hblobs hbytes rest events
  | header frames hstate hbuffer hwithin hblobs hbytes =>
      exact turn_follows_header hstate hbuffer hwithin hblobs hbytes rest events
  | payload frames digest got hstate hbuffer hwithin hwf hsize hgot hremaining hblobs hblobs_le
      hbytes hbytes_le =>
      exact turn_follows_payload hstate hbuffer hwithin hwf hsize hgot hremaining hblobs
        hblobs_le hbytes hbytes_le rest events

/-! ## Whole chunks and whole streams -/

/-- What consuming a chunk does to a reader that has received `consumed`. -/
def Consumes (reader : PackReader) (assembly : Assembly) (consumed chunk : Bytes) :
    Except PackError (List PackEvent) × PackReader → Prop
  | (.ok events, reader') =>
      SameLimits reader reader' ∧ NonemptyPayloads events ∧
        ∃ assembly', assemble assembly events = some assembly' ∧
          Reads reader' assembly' (consumed ++ chunk)
  | (.error error, _) => ∀ later, reader.decode (consumed ++ chunk ++ later) = .error error

/-- The loop, by induction on its turns: the events it adds to those it was given
assemble, and the chunk is used up. -/
theorem Reads.pushLoop (reader : PackReader) (rest : Bytes) (events : List PackEvent)
    {assembly : Assembly} {consumed : Bytes} (h : Reads reader assembly consumed) :
    match reader.pushLoop rest events with
    | (.ok events', reader') => ∃ new, events' = events ++ new ∧
        Consumes reader assembly consumed rest (.ok new, reader')
    | (.error error, reader') =>
        Consumes reader assembly consumed rest (.error error, reader') := by
  have hturn := h.turn_follows rest events
  match hnext : reader.turn rest events with
  | .stop (.ok events') reader' =>
      rw [hnext] at hturn
      obtain ⟨hlimits, rfl, hreads⟩ := hturn
      rw [pushLoop_stop hnext]
      exact ⟨[], by simp, hlimits, by simp [NonemptyPayloads], assembly, rfl, hreads⟩
  | .stop (.error error) reader' =>
      rw [hnext] at hturn
      rw [pushLoop_stop hnext]
      exact hturn
  | .again reader' rest' events' =>
      rw [hnext] at hturn
      obtain ⟨hlimits, used, new, assembly', hsplit, rfl, hpayloads, hassemble, hreads⟩ := hturn
      have hrest := Reads.pushLoop reader' rest' (events ++ new) hreads
      rw [pushLoop_again hnext]
      match hloop : reader'.pushLoop rest' (events ++ new) with
      | (.ok events', reader'') =>
          rw [hloop] at hrest
          obtain ⟨more, rfl, hlimits', hpayloads', assembly'', hassemble', hreads'⟩ := hrest
          refine ⟨new ++ more, by simp, hlimits.trans hlimits', hpayloads.append hpayloads',
            assembly'', ?_, ?_⟩
          · rw [assemble_append hassemble, hassemble']
          · rw [hsplit, ← List.append_assoc]
            exact hreads'
      | (.error error, reader'') =>
          rw [hloop] at hrest
          intro later
          have hdecode := hrest later
          rw [hlimits.decode_eq] at hdecode
          rw [← hdecode, hsplit]
          simp only [List.append_assoc]
termination_by (rest.length + reader.buffer.length, rank reader.state)
decreasing_by
  rcases turn_decreases hnext with hlt | ⟨heq, hrank⟩
  · exact Prod.Lex.left _ _ hlt
  · rw [heq]
    exact Prod.Lex.right _ hrank

theorem Reads.push {reader : PackReader} {assembly : Assembly} {consumed : Bytes}
    (h : Reads reader assembly consumed) (chunk : Bytes) :
    Consumes reader assembly consumed chunk (reader.push chunk) := by
  have hloop := h.pushLoop reader chunk []
  rw [PackReader.push]
  match hresult : reader.pushLoop chunk [] with
  | (.ok events, reader') =>
      rw [hresult] at hloop
      obtain ⟨new, rfl, hconsumes⟩ := hloop
      exact hconsumes
  | (.error error, reader') =>
      rw [hresult] at hloop
      exact hloop

/-- Push the chunks of a stream in order, stopping at the first error. -/
def pushAll (reader : PackReader) : List Bytes → Except PackError (List PackEvent) × PackReader
  | [] => (.ok [], reader)
  | chunk :: chunks =>
      match reader.push chunk with
      | (.error error, reader') => (.error error, reader')
      | (.ok events, reader') =>
          match reader'.pushAll chunks with
          | (.ok more, reader'') => (.ok (events ++ more), reader'')
          | (.error error, reader'') => (.error error, reader'')

/-- The run lemma: a stream is consumed chunk by chunk. -/
theorem Reads.pushAll {reader : PackReader} {assembly : Assembly} {consumed : Bytes}
    (h : Reads reader assembly consumed) (chunks : List Bytes) :
    Consumes reader assembly consumed chunks.flatten (reader.pushAll chunks) := by
  induction chunks generalizing reader assembly consumed with
  | nil =>
      exact ⟨.refl reader, by simp [NonemptyPayloads], assembly, rfl, by simpa using h⟩
  | cons chunk chunks ih =>
      have hpush := h.push chunk
      rw [PackReader.pushAll, List.flatten_cons]
      match hresult : reader.push chunk with
      | (.error error, reader') =>
          rw [hresult] at hpush
          intro later
          rw [← hpush (chunks.flatten ++ later)]
          simp only [List.append_assoc]
      | (.ok events, reader') =>
          rw [hresult] at hpush
          obtain ⟨hlimits, hpayloads, assembly', hassemble, hreads⟩ := hpush
          have hrest := ih hreads
          match hresult' : reader'.pushAll chunks with
          | (.ok more, reader'') =>
              rw [hresult'] at hrest
              obtain ⟨hlimits', hpayloads', assembly'', hassemble', hreads'⟩ := hrest
              dsimp only
              rw [hresult']
              refine ⟨hlimits.trans hlimits', hpayloads.append hpayloads', assembly'', ?_, ?_⟩
              · rw [assemble_append hassemble, hassemble']
              · rw [← List.append_assoc]
                exact hreads'
          | (.error error, reader'') =>
              rw [hresult'] at hrest
              dsimp only
              rw [hresult']
              intro later
              have hdecode := hrest later
              rw [hlimits.decode_eq] at hdecode
              rw [← hdecode]
              simp only [List.append_assoc]

/-- A stream may end exactly between frames. -/
theorem Reads.finish_ok {reader : PackReader} {assembly : Assembly} {consumed : Bytes}
    (h : Reads reader assembly consumed) (hfinish : reader.finish = .ok ()) :
    assembly.current = none ∧ consumed = encodePack assembly.frames ∧
      reader.Within assembly.frames ∧ reader.blobs = assembly.frames.length ∧
      reader.payloadBytes = declaredBytes assembly.frames := by
  have hend : reader.state = .header ∧ reader.buffer = [] := by
    by_contra hnot
    rw [PackReader.finish, if_neg hnot] at hfinish
    cases hfinish
  cases h with
  | magic hstate => simp [hstate] at hend
  | header frames hstate hbuffer hwithin hblobs hbytes =>
      exact ⟨rfl, by rw [hend.2, List.append_nil], hwithin, hblobs, hbytes⟩
  | payload frames digest got hstate => simp [hstate] at hend

/-- Where it may not end, the plain reading finds the pack truncated. -/
theorem Reads.finish_error {reader : PackReader} {assembly : Assembly} {consumed : Bytes}
    (h : Reads reader assembly consumed) {error : PackError}
    (hfinish : reader.finish = .error error) : reader.decode consumed = .error error := by
  have hnot : ¬ (reader.state = .header ∧ reader.buffer = []) := by
    intro hend
    rw [PackReader.finish, if_pos hend] at hfinish
    cases hfinish
  rw [PackReader.finish, if_neg hnot] at hfinish
  injection hfinish with herror
  subst herror
  cases h with
  | magic hstate hbuffer => rw [PackReader.decode, Pack.decode, if_pos hbuffer]
  | header frames hstate hbuffer hwithin hblobs hbytes =>
      have hne : reader.buffer ≠ [] := fun hempty => hnot ⟨hstate, hempty⟩
      rw [PackReader.decode, decode_encodePack_append hwithin, decodeFrames_short hne hbuffer]
      rfl
  | payload frames digest got hstate hbuffer hwithin hwf hsize hgot hremaining hblobs hblobs_le
      hbytes hbytes_le =>
      have hopen := decode_open_frame hwithin hwf hsize (by omega) got []
      have htake : got.take digest.size.toNat = got := List.take_of_length_le (by omega)
      rw [List.append_nil, List.append_nil, htake, if_neg (by omega), if_pos (by omega)] at hopen
      rw [hopen]
      rfl

/-- Push a whole stream and finish: the events with adjacent payloads joined, and
the two counters. -/
def readAll (reader : PackReader) (chunks : List Bytes) :
    Except PackError (List PackEvent × ℕ × ℕ) :=
  match reader.pushAll chunks with
  | (.error error, _) => .error error
  | (.ok events, reader') =>
      match reader'.finish with
      | .error error => .error error
      | .ok () => .ok (coalesce events, reader'.blobs, reader'.payloadBytes)

/-- How a stream can end, with what the plain reading of it says: a refused
chunk, an end inside a frame, or exactly the encoding of some frames within the
limits, reported in order. -/
inductive Outcome (chunks : List Bytes) (maxBlobBytes maxBlobs maxPayloadBytes : ℕ) :
    Except PackError (List PackEvent) × PackReader → Prop where
  | refused (error : PackError) (reader : PackReader)
      (hdecode : Pack.decode chunks.flatten maxBlobBytes maxBlobs maxPayloadBytes =
        .error error) :
      Outcome chunks maxBlobBytes maxBlobs maxPayloadBytes (.error error, reader)
  | unfinished (events : List PackEvent) (reader : PackReader) (error : PackError)
      (hfinish : reader.finish = .error error)
      (hdecode : Pack.decode chunks.flatten maxBlobBytes maxBlobs maxPayloadBytes =
        .error error) :
      Outcome chunks maxBlobBytes maxBlobs maxPayloadBytes (.ok events, reader)
  | finished (events : List PackEvent) (reader : PackReader) (frames : List Frame)
      (hfinish : reader.finish = .ok ())
      (hencoded : chunks.flatten = encodePack frames)
      (hwithin : Pack.Within maxBlobBytes maxBlobs maxPayloadBytes frames)
      (hevents : coalesce events = frames.flatMap frameEvents)
      (hblobs : reader.blobs = frames.length)
      (hbytes : reader.payloadBytes = declaredBytes frames) :
      Outcome chunks maxBlobBytes maxBlobs maxPayloadBytes (.ok events, reader)

theorem outcome_pushAll (maxBlobBytes maxBlobs maxPayloadBytes : ℕ) (chunks : List Bytes) :
    Outcome chunks maxBlobBytes maxBlobs maxPayloadBytes
      ((new maxBlobBytes maxBlobs maxPayloadBytes).pushAll chunks) := by
  have hstream := (reads_new maxBlobBytes maxBlobs maxPayloadBytes).pushAll chunks
  match hpush : (new maxBlobBytes maxBlobs maxPayloadBytes).pushAll chunks with
  | (.error error, reader) =>
      rw [hpush] at hstream
      have hdecode := hstream []
      rw [List.nil_append, List.append_nil] at hdecode
      exact .refused error reader hdecode
  | (.ok events, reader) =>
      rw [hpush] at hstream
      obtain ⟨hlimits, hpayloads, assembly, hassemble, hreads⟩ := hstream
      rw [List.nil_append] at hreads
      have hdecode : reader.decode chunks.flatten =
          Pack.decode chunks.flatten maxBlobBytes maxBlobs maxPayloadBytes :=
        hlimits.decode_eq chunks.flatten
      cases hfinish : reader.finish with
      | error error =>
          exact .unfinished events reader error hfinish
            (hdecode.symm.trans (hreads.finish_error hfinish))
      | ok =>
          obtain ⟨hclosed, hconsumed, hwithin, hblobs, hbytes⟩ := hreads.finish_ok hfinish
          rw [PackReader.Within, hlimits.maxBlobBytes, hlimits.maxBlobs,
            hlimits.maxPayloadBytes] at hwithin
          obtain ⟨later, hframes, hevents⟩ :=
            coalesce_of_assemble events ⟨[], none⟩ assembly hassemble hclosed hpayloads
          rw [List.nil_append] at hframes
          subst hframes
          exact .finished events reader assembly.frames hfinish hconsumed hwithin hevents hblobs
            hbytes

/-- The digests a reader has announced are ones the format can carry, within the
ceiling for one blob. -/
theorem Reads.announced {reader : PackReader} {assembly : Assembly} {consumed : Bytes}
    (h : Reads reader assembly consumed) :
    (∀ frame ∈ assembly.frames,
        frame.1.WellFormed ∧ frame.1.size.toNat ≤ reader.maxBlobBytes) ∧
      ∀ frame, assembly.current = some frame →
        frame.1.WellFormed ∧ frame.1.size.toNat ≤ reader.maxBlobBytes := by
  cases h with
  | magic => exact ⟨by simp, fun frame heq => by cases heq⟩
  | header frames hstate hbuffer hwithin =>
      refine ⟨fun frame hmem => ?_, fun frame heq => by cases heq⟩
      exact ⟨(hwithin.fits frame hmem).wellFormed, (hwithin.fits frame hmem).size_le⟩
  | payload frames digest got hstate hbuffer hwithin hwf hsize =>
      constructor
      · intro frame hmem
        exact ⟨(hwithin.fits frame hmem).wellFormed, (hwithin.fits frame hmem).size_le⟩
      · intro frame heq
        rw [← Option.some.inj heq]
        exact ⟨hwf, hsize⟩

/-- The frames completed so far are the first of the stream, and what any plain
reading of its continuation begins with. -/
theorem Reads.frames_prefix {reader : PackReader} {assembly : Assembly} {consumed : Bytes}
    (h : Reads reader assembly consumed) :
    (assembly.frames = [] ∨ encodePack assembly.frames <+: consumed) ∧
      ∀ later frames, reader.decode (consumed ++ later) = .ok frames →
        assembly.frames <+: frames := by
  have hdecode : ∀ (done frames : List Frame) (rest : Bytes), reader.Within done →
      reader.decode (encodePack done ++ rest) = .ok frames → done <+: frames := by
    intro done frames rest hwithin hok
    rw [PackReader.decode, decode_encodePack_append hwithin] at hok
    generalize decodeFrames _ _ _ _ _ rest = outcome at hok
    cases outcome with
    | error e => cases hok
    | ok more =>
        rw [← Except.ok.inj hok]
        exact List.prefix_append done more
  cases h with
  | magic => exact ⟨.inl rfl, fun _ _ _ => List.nil_prefix⟩
  | header frames hstate hbuffer hwithin =>
      refine ⟨.inr (List.prefix_append _ _), fun later frames' hok => ?_⟩
      rw [List.append_assoc] at hok
      exact hdecode frames frames' _ hwithin hok
  | payload frames digest got hstate hbuffer hwithin =>
      refine ⟨.inr (List.prefix_append _ _), fun later frames' hok => ?_⟩
      rw [List.append_assoc] at hok
      exact hdecode frames frames' _ hwithin hok

/-- The counters never exceed the bytes received, so 64-bit counters do not wrap
on a stream shorter than 2^64 bytes. -/
theorem Reads.counters_le {reader : PackReader} {assembly : Assembly} {consumed : Bytes}
    (h : Reads reader assembly consumed) :
    reader.blobs ≤ consumed.length ∧ reader.payloadBytes ≤ consumed.length := by
  cases h with
  | magic hstate hbuffer hblobs hbytes => omega
  | header frames hstate hbuffer hwithin hblobs hbytes =>
      have hlength := encodeFrames_length hwithin.fits
      simp only [encodePack, List.length_append, hlength, BLOB_PACK_HEADER_BYTES]
      omega
  | payload frames digest got hstate hbuffer hwithin hwf hsize hgot hremaining hblobs hblobs_le
      hbytes hbytes_le =>
      have hlength := encodeFrames_length hwithin.fits
      have hheader := frameHeader_length hwf
      simp only [encodePack, List.length_append, hlength, hheader, BLOB_PACK_HEADER_BYTES]
      omega

end PackReader

end MbxCache.Pack
