/-
# Telemetry of a pack's stream

Where the handler of a pack and the stream it answers with call the guard of the
download: when the guard is made, at the first poll, at each chunk, at each blob that
was sent, at each of the ways to fail, at the end, and when the download is abandoned
at any point. A download that ends completed has served every blob it saw and every
byte it announced.
-/

import MbxCache.Metrics
import MbxCache.Server.PackStream

namespace MbxCache.Server

open Foundation

/-! ## The calls of a stream -/

namespace PackStream

/-- A step of the stream with the call it makes on the guard. -/
inductive Metered : PackStream → Option GuardCall → PackStream → Prop where
  | read (s : PackStream) (reads : ReadAhead PackRead) (running : s.ended = false)
      (moved : ReadAhead.Step MAX_PACK_STORAGE_READS s.reads none reads) :
      Metered s none { s with reads }
  | opened (s : PackStream) (reads : ReadAhead PackRead) (running : s.ended = false)
      (idle : s.current = none) (header : Bytes) (digest : Digest)
      (answer : Except String (Option Blob)) (blob : Blob)
      (moved : ReadAhead.Step MAX_PACK_STORAGE_READS s.reads (some ((header, digest), answer))
        reads)
      (found : openEntry digest answer = .ok blob) :
      Metered s none { s with
        reads
        current := some { size := blob.size, streamed := 0, stream := blob.stream }
        body := s.body ++ [.ok header] }
  | refused (s : PackStream) (reads : ReadAhead PackRead) (running : s.ended = false)
      (idle : s.current = none) (header : Bytes) (digest : Digest)
      (answer : Except String (Option Blob)) (error : String)
      (moved : ReadAhead.Step MAX_PACK_STORAGE_READS s.reads (some ((header, digest), answer))
        reads)
      (failed : openEntry digest answer = .error error) :
      Metered s (some .error) { s with reads, body := s.body ++ [.error error], ended := true }
  | yielded (s : PackStream) (running : s.ended = false) (forwarding later : Forwarding)
      (chunk : Bytes) (busy : s.current = some forwarding)
      (item : forwarding.next = .yielded chunk later) :
      Metered s (some (.addServedBytes chunk.length))
        { s with current := some later, body := s.body ++ [.ok chunk] }
  | broken (s : PackStream) (running : s.ended = false) (forwarding : Forwarding) (error : String)
      (busy : s.current = some forwarding) (item : forwarding.next = .failed error) :
      Metered s (some .error) { s with body := s.body ++ [.error error], ended := true }
  | served (s : PackStream) (running : s.ended = false) (forwarding : Forwarding)
      (busy : s.current = some forwarding) (item : forwarding.next = .complete) :
      Metered s (some .blobServed) { s with current := none }
  | finished (s : PackStream) (running : s.ended = false) (idle : s.current = none)
      (all : s.reads.remaining = []) : Metered s (some .complete) { s with ended := true }

/-- The calls belong to the steps of the stream, one or none to each. -/
theorem metered_iff {s later : PackStream} : (∃ call, Metered s call later) ↔ Step s later := by
  constructor
  · rintro ⟨call, h⟩
    cases h with
    | read reads running moved => exact .read s reads running moved
    | opened reads running idle header digest answer blob moved found =>
        exact .opened s reads running idle header digest answer blob moved found
    | refused reads running idle header digest answer error moved failed =>
        exact .refused s reads running idle header digest answer error moved failed
    | yielded running forwarding next chunk busy item =>
        exact .yielded s running forwarding next chunk busy item
    | broken running forwarding error busy item =>
        exact .broken s running forwarding error busy item
    | served running forwarding busy item => exact .served s running forwarding busy item
    | finished running idle all => exact .finished s running idle all
  · intro h
    cases h with
    | read reads running moved => exact ⟨_, .read s reads running moved⟩
    | opened reads running idle header digest answer blob moved found =>
        exact ⟨_, .opened s reads running idle header digest answer blob moved found⟩
    | refused reads running idle header digest answer error moved failed =>
        exact ⟨_, .refused s reads running idle header digest answer error moved failed⟩
    | yielded running forwarding next chunk busy item =>
        exact ⟨_, .yielded s running forwarding next chunk busy item⟩
    | broken running forwarding error busy item =>
        exact ⟨_, .broken s running forwarding error busy item⟩
    | served running forwarding busy item =>
        exact ⟨_, .served s running forwarding busy item⟩
    | finished running idle all => exact ⟨_, .finished s running idle all⟩

/-! ### What is left to serve -/

def blobsLeft (s : PackStream) : ℕ :=
  (if s.current.isSome then 1 else 0) + s.reads.remaining.length

def bytesLeft (s : PackStream) : ℕ :=
  (s.current.elim 0 fun forwarding => forwarding.size - forwarding.streamed) +
    (s.reads.remaining.map (·.1.2.size.toNat)).sum

/-- No more of an object was streamed than it has. -/
def Within (s : PackStream) : Prop :=
  ∀ forwarding, s.current = some forwarding → forwarding.streamed ≤ forwarding.size

theorem Forwarding.next_yielded {forwarding later : Forwarding} {chunk : Bytes}
    (h : forwarding.next = .yielded chunk later) :
    later.size = forwarding.size ∧ later.streamed = forwarding.streamed + chunk.length ∧
      later.streamed ≤ later.size := by
  obtain ⟨size, streamed, stream⟩ := forwarding
  match stream with
  | [] =>
      rw [Forwarding.next] at h
      dsimp only at h
      split at h <;> cases h
  | .error error :: stream => cases h
  | .ok bytes :: stream =>
      rw [Forwarding.next] at h
      dsimp only at h
      split at h
      · cases h
      · split at h
        · cases h
        · rename_i hover
          cases h
          exact ⟨rfl, rfl, Nat.le_of_not_lt hover⟩

theorem Forwarding.next_complete {forwarding : Forwarding} (h : forwarding.next = .complete) :
    forwarding.streamed = forwarding.size := by
  obtain ⟨size, streamed, stream⟩ := forwarding
  match stream with
  | [] =>
      rw [Forwarding.next] at h
      dsimp only at h
      split at h
      · cases h
      · rename_i hsame
        exact not_not.mp hsame
  | .error error :: stream => cases h
  | .ok bytes :: stream =>
      rw [Forwarding.next] at h
      dsimp only at h
      split at h
      · cases h
      · split at h <;> cases h

/-- What a call reports as served, of blobs and of bytes. -/
def servedBlobs : Option GuardCall → ℕ
  | some .blobServed => 1
  | _ => 0

def servedBytes : Option GuardCall → ℕ
  | some (.addServedBytes bytes) => bytes
  | _ => 0

/-- A step that does not end the stream reports what it takes from what is left. -/
theorem Metered.left {s later : PackStream} {call : Option GuardCall} (h : Metered s call later)
    (hwithin : s.Within) (hrunning : later.ended = false) :
    later.Within ∧ servedBlobs call + later.blobsLeft = s.blobsLeft ∧
      servedBytes call + later.bytesLeft = s.bytesLeft := by
  cases h with
  | read reads running moved =>
      have hremaining : s.reads.remaining = reads.remaining := moved.remaining
      refine ⟨hwithin, ?_, ?_⟩
      · rw [blobsLeft, blobsLeft, hremaining]
        exact Nat.zero_add _
      · rw [bytesLeft, bytesLeft, hremaining]
        exact Nat.zero_add _
  | opened reads running idle header digest answer blob moved found =>
      have hremaining : s.reads.remaining = ((header, digest), answer) :: reads.remaining :=
        moved.remaining
      obtain ⟨_, hsize⟩ := openEntry_eq_ok.mp found
      refine ⟨fun forwarding hforwarding => ?_, ?_, ?_⟩
      · obtain rfl := Option.some.inj hforwarding
        exact Nat.zero_le _
      · rw [blobsLeft, blobsLeft, hremaining, idle, List.length_cons]
        simp [servedBlobs, Nat.add_comm]
      · rw [bytesLeft, bytesLeft, hremaining, idle, List.map_cons, List.sum_cons]
        simp [servedBytes, hsize]
  | refused reads running idle header digest answer error moved failed => cases hrunning
  | yielded running forwarding next chunk busy item =>
      obtain ⟨hsize, hstreamed, hle⟩ := Forwarding.next_yielded item
      refine ⟨fun other hother => ?_, ?_, ?_⟩
      · obtain rfl := Option.some.inj hother
        exact hle
      · rw [blobsLeft, blobsLeft, busy]
        exact Nat.zero_add _
      · rw [bytesLeft, bytesLeft, busy]
        show chunk.length + ((next.size - next.streamed) + (s.reads.remaining.map _).sum) =
          (forwarding.size - forwarding.streamed) + (s.reads.remaining.map _).sum
        rw [← Nat.add_assoc]
        apply congrArg (· + _)
        omega
  | broken running forwarding error busy item => cases hrunning
  | served running forwarding busy item =>
      have hall := Forwarding.next_complete item
      refine ⟨fun other hother => ?_, ?_, ?_⟩
      · cases hother
      · rw [blobsLeft, blobsLeft, busy]
        simp [servedBlobs]
      · rw [bytesLeft, bytesLeft, busy]
        simp [servedBytes, hall]
  | finished running idle all => cases hrunning

theorem Metered.running {s later : PackStream} {call : Option GuardCall}
    (h : Metered s call later) : s.ended = false := by
  cases h <;> assumption

theorem Metered.outcome {s later : PackStream} {call : Option GuardCall}
    (h : Metered s call later) (hrunning : later.ended = false) :
    ∀ asked, call = some asked → asked.outcome = none := by
  intro asked hasked
  cases h with
  | read | opened => cases hasked
  | refused | broken | finished => cases hrunning
  | yielded | served =>
      obtain rfl := Option.some.inj hasked
      rfl

/-- A step that ends the stream reports an error, or that nothing is left. -/
theorem Metered.ends {s later : PackStream} {call : Option GuardCall} (h : Metered s call later)
    (hended : later.ended = true) :
    call = some .error ∨ call = some .complete ∧ s.blobsLeft = 0 ∧ s.bytesLeft = 0 := by
  cases h with
  | read reads running moved => exact absurd (running.symm.trans hended) Bool.false_ne_true
  | opened reads running idle header digest answer blob moved found =>
      exact absurd (running.symm.trans hended) Bool.false_ne_true
  | refused => exact .inl rfl
  | yielded running forwarding next chunk busy item =>
      exact absurd (running.symm.trans hended) Bool.false_ne_true
  | broken => exact .inl rfl
  | served running forwarding busy item =>
      exact absurd (running.symm.trans hended) Bool.false_ne_true
  | finished running idle all =>
      right
      rw [blobsLeft, bytesLeft, idle, all]
      exact ⟨rfl, rfl, rfl⟩

end PackStream

/-! ## Downloads -/

/-- Where a download is once its guard has been made: the frames are listed, the
response is ready, its stream is polled, and nothing comes any more. -/
inductive Stage where
  | listing
  | ready (head : PackEntries)
  | streaming (head : PackEntries) (stream : PackStream)
  | closed (head : Option PackEntries)

structure Download where
  requested : List Digest
  visible : List Digest
  stage : Stage

/-- What the head of a download announced, if it has one. -/
def Stage.head : Stage → Option PackEntries
  | .listing => none
  | .ready head => some head
  | .streaming head _ => some head
  | .closed head => head

section

variable (crates : Crates) (maxBlobBytes : UInt64)

namespace Download

/-- One step of a download, with the call it makes on its guard. An early return of
the handler drops the guard like a client that goes away. -/
inductive Step : Download → Option GuardCall → Download → Prop where
  | listed (requested visible : List Digest) (head : PackEntries)
      (fits : packEntries crates visible = .ok head) :
      Step ⟨requested, visible, .listing⟩ none ⟨requested, visible, .ready head⟩
  | polled (requested visible : List Digest) (head : PackEntries) (reads : List PackRead)
      (entries : reads.map Prod.fst = head.entries) :
      Step ⟨requested, visible, .ready head⟩ (some .recordFirstByte)
        ⟨requested, visible, .streaming head (PackStream.new reads)⟩
  | streamed (requested visible : List Digest) (head : PackEntries) (stream later : PackStream)
      (call : Option GuardCall) (metered : PackStream.Metered stream call later) :
      Step ⟨requested, visible, .streaming head stream⟩ call
        ⟨requested, visible, .streaming head later⟩
  | dropped (requested visible : List Digest) (stage : Stage)
      (held : ∀ head, stage ≠ .closed head) :
      Step ⟨requested, visible, stage⟩ (some .drop) ⟨requested, visible, .closed stage.head⟩

end Download

/-- The shared counters and the downloads, each with what its guard has reported. -/
structure Downloads where
  metrics : Metrics
  downloads : List (StartedPack × Download)

namespace Downloads

/-- Without the handlers. -/
def telemetry (s : Downloads) : Telemetry where
  metrics := s.metrics
  packs := s.downloads.map Prod.fst

/-- The guard of a request that was accepted, for what the metadata answered. -/
def startPack (request : PackRequest) (visible : List Digest) (metrics : Metrics) :
    StartedPack × Metrics :=
  StartedPack.start request.requested.length request.totalBytes
    (request.requested.length - visible.length) metrics

/-- A step that may call the guard. -/
def report (pack : StartedPack) (metrics : Metrics) :
    Option GuardCall → StartedPack × Metrics
  | none => (pack, metrics)
  | some call => pack.call call metrics

/-- One step of one of the downloads, or a new one. -/
inductive Step : Downloads → Downloads → Prop where
  | admitted (metrics : Metrics) (downloads : List (StartedPack × Download))
      (digests : List Digest) (request : PackRequest) (ns : String) (view : MetadataView)
      (accepted : packRequest crates maxBlobBytes digests = .ok request) :
      Step ⟨metrics, downloads⟩
        ⟨(startPack request (view.perform (.visibleBlobs ns request.requested)).1 metrics).2,
          downloads ++
            [((startPack request (view.perform (.visibleBlobs ns request.requested)).1 metrics).1,
              ⟨request.requested, (view.perform (.visibleBlobs ns request.requested)).1,
                .listing⟩)]⟩
  | moved (metrics : Metrics) (before after : List (StartedPack × Download))
      (pack : StartedPack) (download later : Download) (call : Option GuardCall)
      (taken : Download.Step crates download call later) :
      Step ⟨metrics, before ++ (pack, download) :: after⟩
        ⟨(report pack metrics call).2, before ++ ((report pack metrics call).1, later) :: after⟩

/-- The states of all runs. -/
inductive Reachable : Downloads → Prop where
  | start : Reachable ⟨Metrics.new, []⟩
  | step {s t : Downloads} (prior : Reachable s) (taken : Step crates maxBlobBytes s t) :
      Reachable t

end Downloads

/-! ### What a download has reported -/

/-- Everything the download saw and announced was served. -/
structure Balanced (pack : StartedPack) (download : Download) : Prop where
  blobs : pack.added (.packBlobs .requested) =
    pack.added (.packBlobs .served) + pack.added (.packBlobs .missing)
  bytes : ∃ head, download.stage.head = some head ∧
    pack.added (.packBytes .served) = head.packPayloadBytes

/-- What is reported and what is left are together what was announced. -/
structure Reported (pack : StartedPack) (visible : List Digest) (head : PackEntries)
    (blobsLeft bytesLeft : ℕ) : Prop where
  fits : packEntries crates visible = .ok head
  held : pack.dropped = false
  running : pack.guard.finished = false
  blobs : pack.added (.packBlobs .served) + blobsLeft = visible.length
  bytes : pack.added (.packBytes .served) + bytesLeft = head.packPayloadBytes

/-- The invariant of one download. -/
structure Accounts (pack : StartedPack) (download : Download) : Prop where
  counted : pack.Counted
  requested : pack.added (.packBlobs .requested) = download.requested.length
  missing : pack.added (.packBlobs .missing) =
    download.requested.length - download.visible.length
  sublist : download.visible.length ≤ download.requested.length
  stage : match download.stage with
    | .listing => pack.dropped = false ∧ pack.guard.finished = false ∧
        pack.added (.packBlobs .served) = 0 ∧ pack.added (.packBytes .served) = 0
    | .ready head =>
        Reported crates pack download.visible head download.visible.length head.packPayloadBytes
    | .streaming head stream =>
        if stream.ended then
          pack.dropped = false ∧
            (pack.added (.packRequests .completed) = 1 → Balanced pack download)
        else stream.Within ∧
          Reported crates pack download.visible head stream.blobsLeft stream.bytesLeft
    | .closed _ => pack.added (.packRequests .completed) = 1 → Balanced pack download

end

section Accounting

variable {crates : Crates} {maxBlobBytes : UInt64} {pack : StartedPack} {download : Download}
  {metrics : Metrics}

theorem accounts_start {request : PackRequest} {visible : List Digest}
    (hle : visible.length ≤ request.requested.length) :
    Accounts crates (Downloads.startPack request visible metrics).1
      ⟨request.requested, visible, .listing⟩ where
  counted := StartedPack.counted_start _ _ _
  requested := by
    rw [Downloads.startPack, StartedPack.start_added]
    simp
  missing := by
    rw [Downloads.startPack, StartedPack.start_added]
    simp
  sublist := hle
  stage := by
    refine ⟨rfl, rfl, ?_, ?_⟩
    · rw [Downloads.startPack, StartedPack.start_added]
      rfl
    · rw [Downloads.startPack, StartedPack.start_added]
      rfl

/-- A guard that is called has not been dropped. -/
theorem Accounts.held (h : Accounts crates pack download) {call : Option GuardCall}
    {later : Download} (hstep : Download.Step crates download call later) :
    pack.dropped = false := by
  have hstreaming : ∀ stream head, download.stage = .streaming head stream →
      pack.dropped = false := by
    intro stream head hstage
    have haccounts := h.stage
    rw [hstage] at haccounts
    dsimp only at haccounts
    split at haccounts
    · exact haccounts.1
    · exact haccounts.2.held
  have hstage := h.stage
  cases hstep with
  | listed requested visible head fits => exact hstage.1
  | polled requested visible head reads entries => exact hstage.held
  | streamed requested visible head stream later call metered => exact hstreaming stream head rfl
  | dropped requested visible stage held =>
      cases stage with
      | listing => exact hstage.1
      | ready head => exact hstage.held
      | streaming head stream => exact hstreaming stream head rfl
      | closed head => exact absurd rfl (held head)

variable (pack metrics) in
/-- The counters of blobs and bytes that a step adds to are those of what was served. -/
theorem added_report (call : Option GuardCall) :
    (Downloads.report pack metrics call).1.added (.packBlobs .requested) =
        pack.added (.packBlobs .requested) ∧
      (Downloads.report pack metrics call).1.added (.packBlobs .missing) =
        pack.added (.packBlobs .missing) ∧
      (Downloads.report pack metrics call).1.added (.packBlobs .served) =
        pack.added (.packBlobs .served) + PackStream.servedBlobs call ∧
      (Downloads.report pack metrics call).1.added (.packBytes .served) =
        pack.added (.packBytes .served) + PackStream.servedBytes call := by
  cases call with
  | none => exact ⟨rfl, rfl, rfl, rfl⟩
  | some call =>
      rw [Downloads.report, StartedPack.call_added, StartedPack.call_added,
        StartedPack.call_added, StartedPack.call_added]
      cases call <;> simp [GuardCall.adds, PackStream.servedBlobs, PackStream.servedBytes]

theorem Accounts.report (h : Accounts crates pack download) (call : Option GuardCall) :
    (Downloads.report pack metrics call).1.Counted := by
  cases call with
  | none => exact h.counted
  | some call => exact h.counted.called call metrics

/-- What a step that asks for no outcome reports is taken from what is left. -/
theorem Reported.report {visible : List Digest} {head : PackEntries}
    {blobsLeft bytesLeft blobsLeft' bytesLeft' : ℕ}
    (h : Reported crates pack visible head blobsLeft bytesLeft) {call : Option GuardCall}
    (hblobs : PackStream.servedBlobs call + blobsLeft' = blobsLeft)
    (hbytes : PackStream.servedBytes call + bytesLeft' = bytesLeft)
    (hcall : ∀ asked, call = some asked → asked.outcome = none) :
    Reported crates (Downloads.report pack metrics call).1 visible head blobsLeft' bytesLeft' := by
  obtain ⟨_, _, hservedBlobs, hservedBytes⟩ := added_report pack metrics call
  constructor
  · exact h.fits
  · cases call with
    | none => exact h.held
    | some asked =>
        apply decide_eq_false
        rintro rfl
        exact absurd (hcall _ rfl) (by decide)
  · cases call with
    | none => exact h.running
    | some asked =>
        show (asked.perform pack.guard metrics).1.finished = false
        rw [(asked.perform_guard pack.guard metrics).1, h.running, hcall asked rfl]
        rfl
  · rw [hservedBlobs, Nat.add_assoc, hblobs, h.blobs]
  · rw [hservedBytes, Nat.add_assoc, hbytes, h.bytes]

/-- Nothing else counts as completed. -/
theorem completed_report (call : Option GuardCall) :
    (Downloads.report pack metrics call).1.added (.packRequests .completed) =
      pack.added (.packRequests .completed) +
        if call = some .complete ∧ pack.guard.finished = false then 1 else 0 := by
  cases call with
  | none => rfl
  | some call =>
      rw [Downloads.report, StartedPack.call_added]
      cases call <;> simp [GuardCall.adds, GuardCall.outcome]

theorem completed_of_running (hcounted : pack.Counted) (hrunning : pack.guard.finished = false) :
    pack.added (.packRequests .completed) = 0 := by
  have houtcomes := hcounted.outcomes
  rw [StartedPack.outcomes, hrunning] at houtcomes
  simp at houtcomes
  exact houtcomes.1.1

/-- A guard that was running is not counted as completed by another call. -/
theorem not_completed (hcounted : pack.Counted) (hrunning : pack.guard.finished = false)
    {call : Option GuardCall} (hcall : call ≠ some .complete) :
    (Downloads.report pack metrics call).1.added (.packRequests .completed) ≠ 1 := by
  rw [completed_report, completed_of_running hcounted hrunning, if_neg fun h => hcall h.1]
  exact Nat.zero_ne_one

theorem length_of_packEntries {visible : List Digest} {head : PackEntries}
    (h : packEntries crates visible = .ok head) : head.entries.length = visible.length ∧
      (head.entries.map (·.2.size.toNat)).sum = head.packPayloadBytes := by
  obtain ⟨added, hentries, hdigests, _, _, hpayload, _⟩ := packEntries_foldlM h
  rw [List.nil_append] at hentries
  constructor
  · rw [← hdigests, List.length_map, hentries]
  · rw [hpayload, ← hdigests, List.map_map, hentries, Nat.zero_add]
    rfl

/-- Before it is polled for more, everything is left. -/
theorem left_new {visible : List Digest} {head : PackEntries} {reads : List PackRead}
    (hfits : packEntries crates visible = .ok head)
    (hentries : reads.map Prod.fst = head.entries) :
    (PackStream.new reads).blobsLeft = visible.length ∧
      (PackStream.new reads).bytesLeft = head.packPayloadBytes := by
  obtain ⟨hlength, hsizes⟩ := length_of_packEntries hfits
  constructor
  · rw [PackStream.blobsLeft, ← hlength, ← hentries, List.length_map]
    exact Nat.zero_add _
  · rw [PackStream.bytesLeft, ← hsizes, ← hentries, List.map_map]
    exact Nat.zero_add _

/-- The three counters that a download is balanced by. -/
theorem Accounts.balanced (h : Accounts crates pack download) {call : Option GuardCall}
    {later : Download} {head : PackEntries} (hhead : later.stage.head = some head)
    (hblobs : pack.added (.packBlobs .served) + PackStream.servedBlobs call =
      download.visible.length)
    (hbytes : pack.added (.packBytes .served) + PackStream.servedBytes call =
      head.packPayloadBytes) : Balanced (Downloads.report pack metrics call).1 later := by
  obtain ⟨hrequested, hmissing, hservedBlobs, hservedBytes⟩ :=
    added_report pack metrics call
  have hsublist := h.sublist
  constructor
  · rw [hrequested, hmissing, hservedBlobs, hblobs, h.requested, h.missing]
    omega
  · exact ⟨head, hhead, hservedBytes.trans hbytes⟩

theorem Balanced.drop (h : Balanced pack download) {later : Download}
    (hhead : later.stage.head = download.stage.head) :
    Balanced (Downloads.report pack metrics (some .drop)).1 later := by
  obtain ⟨hrequested, hmissing, hservedBlobs, hservedBytes⟩ :=
    added_report pack metrics (some .drop)
  obtain ⟨head, hsome, hbytes⟩ := h.bytes
  constructor
  · rw [hrequested, hmissing, hservedBlobs, h.blobs]
    rfl
  · exact ⟨head, hhead.trans hsome, hservedBytes.trans hbytes⟩

/-- One step of a download keeps its account. -/
theorem Accounts.step (h : Accounts crates pack download) {call : Option GuardCall}
    {later : Download} (hstep : Download.Step crates download call later) :
    Accounts crates (Downloads.report pack metrics call).1 later := by
  obtain ⟨hrequested, hmissing, _, _⟩ := added_report pack metrics call
  have hsame : later.requested = download.requested ∧ later.visible = download.visible := by
    cases hstep <;> exact ⟨rfl, rfl⟩
  refine ⟨h.report call, ?_, ?_, ?_, ?_⟩
  · rw [hrequested, h.requested, hsame.1]
  · rw [hmissing, h.missing, hsame.1, hsame.2]
  · rw [hsame.1, hsame.2]
    exact h.sublist
  · have hstage := h.stage
    cases hstep with
    | listed requested visible head fits =>
        obtain ⟨hheld, hrunning, hblobs, hbytes⟩ := hstage
        refine ⟨fits, hheld, hrunning, ?_, ?_⟩
        · show pack.added _ + _ = _
          rw [hblobs, Nat.zero_add]
        · show pack.added _ + _ = _
          rw [hbytes, Nat.zero_add]
    | polled requested visible head reads entries =>
        have hreported : Reported crates pack visible head visible.length head.packPayloadBytes :=
          hstage
        obtain ⟨hblobs, hbytes⟩ := left_new hreported.fits entries
        refine ⟨fun forwarding hforwarding => ?_, hreported.report ?_ ?_ ?_⟩
        · cases hforwarding
        · exact (Nat.zero_add _).trans hblobs
        · exact (Nat.zero_add _).trans hbytes
        · intro asked hasked
          obtain rfl := Option.some.inj hasked
          rfl
    | streamed requested visible head stream later call metered =>
        dsimp only at hstage ⊢
        rw [if_neg (by simp [metered.running])] at hstage
        obtain ⟨hwithin, hreported⟩ := hstage
        cases hended : later.ended with
        | false =>
            obtain ⟨hwithin', hblobs, hbytes⟩ := metered.left hwithin hended
            exact ⟨hwithin', hreported.report hblobs hbytes (metered.outcome hended)⟩
        | true =>
            rcases metered.ends hended with rfl | ⟨rfl, hblobs, hbytes⟩
            · refine ⟨rfl, fun hcompleted => absurd hcompleted ?_⟩
              exact not_completed h.counted hreported.running (by simp)
            · refine ⟨rfl, fun _ => h.balanced rfl ?_ ?_⟩
              · have hserved := hreported.blobs
                rwa [hblobs] at hserved
              · have hserved := hreported.bytes
                rwa [hbytes] at hserved
    | dropped requested visible stage held =>
        intro hcompleted
        have hrunning : pack.guard.finished ≠ false := fun hrunning =>
          not_completed h.counted hrunning (by simp) hcompleted
        cases stage with
        | listing => exact absurd hstage.2.1 hrunning
        | ready head => exact absurd hstage.running hrunning
        | streaming head stream =>
            dsimp only at hstage
            split at hstage
            · rw [completed_report, if_neg (by simp)] at hcompleted
              have hbalanced := hstage.2 hcompleted
              exact hbalanced.drop rfl
            · exact absurd hstage.2.running hrunning
        | closed head => exact absurd rfl (held head)

/-! ### Every run -/

/-- The account of every download. -/
def Downloads.Accounted (crates : Crates) (s : Downloads) : Prop :=
  ∀ entry ∈ s.downloads, Accounts crates entry.1 entry.2

theorem visible_length_le {request : PackRequest} {ns : String} {view : MetadataView} :
    (view.perform (.visibleBlobs ns request.requested)).1.length ≤ request.requested.length :=
  List.length_filter_le _ _

theorem Downloads.Accounted.step {s t : Downloads} (h : s.Accounted crates)
    (hstep : Downloads.Step crates maxBlobBytes s t) : t.Accounted crates := by
  cases hstep with
  | admitted metrics downloads digests request ns view accepted =>
      intro entry hmem
      rcases List.mem_append.mp hmem with hold | hnew
      · exact h entry hold
      · rw [List.mem_singleton.mp hnew]
        exact accounts_start visible_length_le
  | moved metrics before after pack download later call taken =>
      intro entry hmem
      rcases List.mem_append.mp hmem with hbefore | hrest
      · exact h entry (by simp [hbefore])
      · rcases List.mem_cons.mp hrest with rfl | hafter
        · exact (h (pack, download) (by simp)).step taken
        · exact h entry (by simp [hafter])

/-- The handlers are among what may be done with guards. -/
theorem Downloads.Step.refines {s t : Downloads} (hstep : Downloads.Step crates maxBlobBytes s t)
    (h : s.Accounted crates) : t.telemetry = s.telemetry ∨ Telemetry.Step s.telemetry t.telemetry := by
  cases hstep with
  | admitted metrics downloads digests request ns view accepted =>
      right
      rw [Downloads.telemetry, Downloads.telemetry, List.map_append]
      exact .started metrics _ _ _ _
  | moved metrics before after pack download later call taken =>
      have hheld := (h (pack, download) (by simp)).held taken
      rw [Downloads.telemetry, Downloads.telemetry, List.map_append, List.map_append, List.map_cons, List.map_cons]
      cases call with
      | none => exact .inl rfl
      | some call => exact .inr (.called metrics _ _ pack call hheld)

theorem Downloads.Reachable.accounted {s : Downloads}
    (h : Downloads.Reachable crates maxBlobBytes s) :
    Telemetry.Reachable s.telemetry ∧ s.Accounted crates := by
  induction h with
  | start => exact ⟨.start, fun entry hmem => absurd hmem List.not_mem_nil⟩
  | step _ taken ih =>
      apply And.intro
      · rcases taken.refines ih.2 with hsame | hstep
        · rw [hsame]
          exact ih.1
        · exact ih.1.step hstep
      · exact ih.2.step taken

end Accounting

/-- Whatever is done with any number of guards, what was started is in flight or has
one outcome, and what the handlers do with theirs is an instance of it. There, a
download that ended completed served every blob but the missing ones, and the bytes
its head announced. -/
theorem pack_telemetry_conserves (crates : Crates) (maxBlobBytes : UInt64) :
    (∀ s, Telemetry.Reachable s → s.Conserves) ∧
    ∀ s, Downloads.Reachable crates maxBlobBytes s →
      s.telemetry.Conserves ∧
      ∀ entry ∈ s.downloads, entry.1.added (.packRequests .completed) = 1 →
        Balanced entry.1 entry.2 := by
  apply And.intro fun s h => h.conserves
  intro s h
  obtain ⟨hreach, haccounted⟩ := h.accounted
  apply And.intro hreach.conserves
  intro entry hmem hcompleted
  have haccounts := haccounted entry hmem
  have hstage := haccounts.stage
  have hfinished : entry.1.guard.finished ≠ false := by
    intro hrunning
    rw [completed_of_running haccounts.counted hrunning] at hcompleted
    cases hcompleted
  obtain ⟨pack, requested, visible, stage⟩ := entry
  cases stage with
  | listing => exact absurd hstage.2.1 hfinished
  | ready head => exact absurd hstage.running hfinished
  | streaming head stream =>
      dsimp only at hstage
      split at hstage
      · exact hstage.2 hcompleted
      · exact absurd hstage.2.running hfinished
  | closed head => exact hstage hcompleted

end MbxCache.Server
