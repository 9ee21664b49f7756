/-
# The frames a chunk starts

Whatever a reader has been through, also a push that it refused: the events of a chunk
start frames only under digests in their documented form and within the limit of one
blob, and every frame that is started is counted against the declared number.
-/

import MbxCache.Pack.Chunking

namespace MbxCache.Pack

open Foundation

def PackEvent.isStarted : PackEvent → Bool
  | .started _ => true
  | _ => false

namespace PackReader

/-- What some events and the reader they leave have to do with the reader before. -/
structure Starts (reader : PackReader) (events : List PackEvent) (reader' : PackReader) : Prop where
  announced : ∀ digest, .started digest ∈ events →
    digest.WellFormed ∧ digest.size.toNat ≤ reader.maxBlobBytes
  counted : reader'.blobs = reader.blobs + events.countP PackEvent.isStarted
  bounded : reader.blobs ≤ reader.maxBlobs → reader'.blobs ≤ reader.maxBlobs
  limits : SameLimits reader reader'

variable {reader reader' reader'' : PackReader}

/-- Nothing is started while only the buffer, the state or the payload moves. -/
theorem starts_of_same {events : List PackEvent} (hblobs : reader'.blobs = reader.blobs)
    (hlimits : SameLimits reader reader')
    (hevents : ∀ event ∈ events, PackEvent.isStarted event = false) :
    Starts reader events reader' where
  announced digest hmem := absurd (hevents _ hmem) Bool.noConfusion
  counted := by
    rw [hblobs, List.countP_eq_zero.mpr fun event hmem => by simp [hevents event hmem]]
    rfl
  bounded hle := hblobs ▸ hle
  limits := hlimits

theorem Starts.append {events events' : List PackEvent} (h : Starts reader events reader')
    (h' : Starts reader' events' reader'') : Starts reader (events ++ events') reader'' where
  announced digest hmem := by
    rcases List.mem_append.mp hmem with hfirst | hsecond
    · exact h.announced digest hfirst
    · exact h.limits.maxBlobBytes ▸ h'.announced digest hsecond
  counted := by
    rw [h'.counted, h.counted, List.countP_append, Nat.add_assoc]
  bounded hle := by
    have hbounded := h'.bounded
    rw [h.limits.maxBlobs] at hbounded
    exact hbounded (h.bounded hle)
  limits := h.limits.trans h'.limits

/-- What a turn adds to the events it was given. -/
def Turn.Starts (reader : PackReader) (events : List PackEvent) : Turn → Prop
  | .again reader' _ events' => ∃ new, events' = events ++ new ∧ reader.Starts new reader'
  | .stop (.ok events') reader' => ∃ new, events' = events ++ new ∧ reader.Starts new reader'
  | .stop (.error _) _ => True

theorem startFrame_starts {digest : Digest} {rest : Bytes} {events : List PackEvent}
    (hformed : digest.WellFormed) (hsize : digest.size.toNat ≤ reader.maxBlobBytes) :
    (reader.startFrame digest rest events).Starts reader events := by
  unfold startFrame
  dsimp only
  split
  · trivial
  · rename_i hbounded
    have hstarts : ∀ state : State, ∀ new : List PackEvent,
        (∀ other, PackEvent.started other ∈ new → other = digest) →
        new.countP PackEvent.isStarted = 1 →
        Starts reader new { reader with state, buffer := [], remaining := digest.size.toNat, blobs := reader.blobs + 1 } := by
      intro state new honly hone
      apply Starts.mk
      · intro other hmem
        obtain rfl := honly other hmem
        exact ⟨hformed, hsize⟩
      · rw [hone]
      · intro _
        exact Nat.le_of_not_gt hbounded
      · exact ⟨rfl, rfl, rfl⟩
    split
    · refine ⟨[.started digest, .complete], rfl, hstarts .header _ ?_ rfl⟩
      intro other hmem
      simpa using hmem
    · refine ⟨[.started digest], rfl, hstarts .payload _ ?_ rfl⟩
      intro other hmem
      simpa using hmem

theorem fill_same (reader : PackReader) (rest : Bytes) (wanted : ℕ) :
    (reader.fill rest wanted).1.blobs = reader.blobs ∧
      SameLimits reader (reader.fill rest wanted).1 := by
  unfold fill
  split
  · exact ⟨rfl, rfl, rfl, rfl⟩
  · exact ⟨rfl, .refl reader⟩

theorem turn_starts (reader : PackReader) (rest : Bytes) (events : List PackEvent) :
    (reader.turn rest events).Starts reader events := by
  have hnone : ∀ reader' : PackReader, reader'.blobs = reader.blobs → SameLimits reader reader' →
      ∃ new, events = events ++ new ∧ reader.Starts new reader' := by
    intro reader' hblobs hlimits
    refine ⟨[], (List.append_nil events).symm, starts_of_same hblobs hlimits ?_⟩
    intro event hmem
    cases hmem
  unfold turn
  cases hstate : reader.state with
  | magic =>
      dsimp only
      obtain ⟨hblobs, hlimits⟩ := reader.fill_same rest BLOB_PACK_MAGIC.length
      split
      · exact hnone _ hblobs hlimits
      · split
        · trivial
        · exact hnone _ hblobs ⟨hlimits.1, hlimits.2, hlimits.3⟩
  | header =>
      dsimp only
      split
      · exact hnone _ rfl (.refl reader)
      · obtain ⟨hblobs, hlimits⟩ := reader.fill_same rest BLOB_PACK_HEADER_BYTES
        generalize reader.fill rest BLOB_PACK_HEADER_BYTES = filled at hblobs hlimits ⊢
        split
        · exact hnone _ hblobs hlimits
        · rename_i hlength
          split
          · trivial
          · rename_i digest hparse
            obtain ⟨_, hformed, hsize⟩ := frameHeader_of_parseHeader (not_not.mp hlength) hparse
            have hstarts : (filled.1.startFrame digest filled.2 events).Starts filled.1 events :=
              startFrame_starts hformed hsize
            have hfilled : reader.Starts [] filled.1 := by
              apply starts_of_same hblobs hlimits
              intro event hmem
              cases hmem
            cases hturn : filled.1.startFrame digest filled.2 events with
            | again reader' rest' events' =>
                rw [hturn] at hstarts
                obtain ⟨new, hevents, hnew⟩ := hstarts
                exact ⟨new, hevents, hfilled.append hnew⟩
            | stop result reader' =>
                cases result with
                | error e => trivial
                | ok events' =>
                    rw [hturn] at hstarts
                    obtain ⟨new, hevents, hnew⟩ := hstarts
                    exact ⟨new, hevents, hfilled.append hnew⟩
  | payload =>
      dsimp only
      split
      · exact hnone _ rfl (.refl reader)
      · split
        · trivial
        · split
          · exact ⟨_, rfl, starts_of_same rfl ⟨rfl, rfl, rfl⟩ (by simp [PackEvent.isStarted])⟩
          · exact ⟨_, rfl, starts_of_same rfl ⟨rfl, rfl, rfl⟩ (by simp [PackEvent.isStarted])⟩

theorem pushLoop_starts (reader : PackReader) (rest : Bytes) (events : List PackEvent)
    {events' : List PackEvent} (h : reader.pushLoop rest events = (.ok events', reader')) :
    ∃ new, events' = events ++ new ∧ reader.Starts new reader' := by
  have hturn := reader.turn_starts rest events
  fun_induction pushLoop reader rest events with
  | case1 reader rest events result stopped hstop =>
      obtain ⟨rfl, rfl⟩ := Prod.mk.inj h
      rw [hstop] at hturn
      exact hturn
  | case2 reader rest events again rest' events'' hagain ih =>
      rw [hagain] at hturn
      obtain ⟨new, rfl, hnew⟩ := hturn
      obtain ⟨more, rfl, hmore⟩ := ih h (again.turn_starts rest' (events ++ new))
      exact ⟨new ++ more, List.append_assoc .., hnew.append hmore⟩

/-- The events of a chunk that was not refused. -/
theorem starts_push {chunk : Bytes} {events : List PackEvent}
    (h : reader.push chunk = (.ok events, reader')) : reader.Starts events reader' := by
  obtain ⟨new, rfl, hnew⟩ := pushLoop_starts reader chunk [] h
  exact hnew

end PackReader

end MbxCache.Pack
