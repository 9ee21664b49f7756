/-
# Reading what was written

A write that was acknowledged is there for every request that arrives afterwards,
whoever sends it and whatever runs beside it, for as long as nothing is swept: a
read is never told that it is missing, and what it gets is what was written. A
store may still fail a read, which then says so.
-/

import MbxCache.Foundation.Later
import MbxCache.Metadata.Commits
import MbxCache.Server.Batches
import MbxCache.Server.PackReceive
import MbxCache.Server.Runs

namespace MbxCache.Server

open Foundation Program Pack PackReader

section

variable {crates : Crates} {state : AppState} {ns : String}

/-- One call of a service that keeps its metadata in memory. -/
abbrev HeldAnswers (crates : Crates) :
    (op : StoreOp) → Held → op.Answer → Held → Prop :=
  Stores.Answers (MemoryMetadata.exec crates)

/-! ## What stands -/

/-- A call has its effect or none. -/
theorem later_of_answers {op : StoreOp} {stores later : Held} {answer : op.Answer}
    (h : HeldAnswers crates op stores answer later) :
    later = stores ∨
      later = (Stores.exec .whole (MemoryMetadata.exec crates) op stores).2 := by
  cases h with
  | answered chunking => cases op with
    | blobs op => cases op <;> exact .inr rfl
    | metadata op => exact .inr rfl
  | refused => exact .inl rfl
  | lost => exact .inr rfl
  | interrupted => exact .inl rfl

theorem stands_of_exec {fact : Held → Prop}
    (h : ∀ op stores, fact stores →
      fact (Stores.exec .whole (MemoryMetadata.exec crates) op stores).2) :
    Stands (HeldAnswers crates) fact := by
  intro op stores answer later hanswers hfact
  rcases later_of_answers hanswers with rfl | rfl
  · exact hfact
  · exact h op stores hfact

/-- A blob that can be seen, and its content. -/
structure Stored (ns : String) (digest : Digest) (content : Bytes) (stores : Held) : Prop where
  sees : Sees stores ns digest
  held : stores.blobs digest = some content

/-- Blobs are not taken back. -/
theorem blobs_subset_exec (op : MetadataOp) (metadata : MemoryMetadata) :
    metadata.blobs ⊆ (MemoryMetadata.exec crates op metadata).2.blobs := by
  cases op with
  | registerBlob ns digest stored => exact Finset.subset_insert _ _
  | commit ns action result =>
      show metadata.blobs ⊆ (metadata.commit crates ns action result).2.blobs
      unfold MemoryMetadata.commit
      cases crates.resultToVec result with
      | error error => exact Finset.Subset.refl _
      | ok encoded =>
          dsimp only
          cases metadata.entries (ns, action) <;> exact Finset.Subset.refl _
  | commitManifest ns key expectedEtag etag manifest =>
      have hframe := MemoryMetadata.commitManifest_frame metadata ns key expectedEtag etag manifest
      show metadata.blobs ⊆ (metadata.commitManifest ns key expectedEtag etag manifest).2.blobs
      rw [hframe.1]
  | visibleBlobs ns digests => exact Finset.Subset.refl _
  | blobVisible ns digest => exact Finset.Subset.refl _
  | touchBlobs ns digests => exact Finset.Subset.refl _
  | get ns action => exact Finset.Subset.refl _
  | getBatch ns actions => exact Finset.Subset.refl _
  | getManifest ns key => exact Finset.Subset.refl _

theorem stands_sees (ns : String) (digest : Digest) :
    Stands (HeldAnswers crates) fun stores => Sees stores ns digest := by
  apply stands_of_exec
  intro op stores hsees
  cases op with
  | metadata op => exact blobs_subset_exec op stores.metadata hsees
  | blobs op =>
      cases op with
      | get other => exact hsees
      | put other source =>
          show Sees (stores.putObject other source).2 ns digest
          rw [Sees, Stores.putObject_metadata]
          exact hsees

theorem stands_stored (ns : String) (digest : Digest) (content : Bytes) :
    Stands (HeldAnswers crates) (Stored ns digest content) := by
  intro op stores answer later hanswers hstored
  apply Stored.mk (stands_sees ns digest op stores answer later hanswers hstored.sees)
  rcases later_of_answers hanswers with rfl | rfl
  · exact hstored.held
  · cases op with
    | metadata op => exact hstored.held
    | blobs op =>
        cases op with
        | get other => exact hstored.held
        | put other source => exact Stores.putObject_blobs_of_held hstored.held

/-- Results are not taken back and do not change. -/
theorem stands_entry (key : MetadataKey) (bytes : Bytes) :
    Stands (HeldAnswers crates) fun stores => stores.metadata.entries key = some bytes := by
  apply stands_of_exec
  intro op stores hentry
  cases op with
  | blobs op =>
      cases op with
      | get other => exact hentry
      | put other source =>
          show (stores.putObject other source).2.metadata.entries key = some bytes
          rw [Stores.putObject_metadata]
          exact hentry
  | metadata op =>
      cases op with
      | commit ns action result =>
          exact PostgresMetadata.entries_perform (.commit ns action result) stores.metadata hentry
      | commitManifest ns other expectedEtag etag manifest =>
          have hframe :=
            MemoryMetadata.commitManifest_frame stores.metadata ns other expectedEtag etag manifest
          show (stores.metadata.commitManifest ns other expectedEtag etag manifest).2.entries key = _
          rw [hframe.2]
          exact hentry
      | visibleBlobs ns digests => exact hentry
      | blobVisible ns digest => exact hentry
      | registerBlob ns digest stored => exact hentry
      | touchBlobs ns digests => exact hentry
      | get ns action => exact hentry
      | getBatch ns actions => exact hentry
      | getManifest ns other => exact hentry

/-- There is a manifest under a key. -/
def HasManifest (ns : String) (key : Digest) (stores : Held) : Prop :=
  (stores.metadata.manifests (ns, key)).isSome = true

theorem manifests_commit (metadata : MemoryMetadata) (ns : String) (action : Digest)
    (result : ActionResult) :
    (metadata.commit crates ns action result).2.manifests = metadata.manifests := by
  unfold MemoryMetadata.commit
  cases crates.resultToVec result with
  | error error => rfl
  | ok encoded =>
      dsimp only
      cases metadata.entries (ns, action) <;> rfl

/-- Manifests are replaced, never taken back. -/
theorem stands_manifest (ns : String) (key : Digest) :
    Stands (HeldAnswers crates) (HasManifest ns key) := by
  apply stands_of_exec
  intro op stores hmanifest
  cases op with
  | blobs op =>
      cases op with
      | get other => exact hmanifest
      | put other source =>
          show HasManifest ns key (stores.putObject other source).2
          rw [HasManifest, Stores.putObject_metadata]
          exact hmanifest
  | metadata op =>
      cases op with
      | commit ns' action result =>
          show ((stores.metadata.commit crates ns' action result).2.manifests (ns, key)).isSome =
            true
          rw [manifests_commit]
          exact hmanifest
      | commitManifest ns' other expectedEtag etag manifest =>
          show ((stores.metadata.commitManifest ns' other expectedEtag etag manifest).2.manifests
            (ns, key)).isSome = true
          simp only [MemoryMetadata.commitManifest]
          split
          · exact hmanifest
          · by_cases heq : (ns, key) = (ns', other)
            · simp [heq]
            · have hother : (stores.metadata.manifests (ns, key)).isSome = true := hmanifest
              simpa [heq] using hother
      | visibleBlobs ns' digests => exact hmanifest
      | blobVisible ns' digest => exact hmanifest
      | registerBlob ns' digest stored => exact hmanifest
      | touchBlobs ns' digests => exact hmanifest
      | get ns' action => exact hmanifest
      | getBatch ns' actions => exact hmanifest
      | getManifest ns' other => exact hmanifest

/-! ## Writes -/

/-- The blobs an upload publishes: the one its path names, or those of the frames in
its body. -/
def Publishes (state : AppState) : Request → String → Digest → Prop
  | .putBlob headers parts _, ns, digest =>
      namespaceHeader headers = some ns ∧ digest = digestOf parts
  | .putBlobPack headers body, ns, digest =>
      namespaceHeader headers = some ns ∧ ∃ declared frames content,
        packDeclaration state.maxBlobBytes headers = .ok declared ∧
        Pack.decode (contents body) state.maxBlobBytes.toNat declared.1 declared.2 = .ok frames ∧
        (digest, content) ∈ frames
  | _, _, _ => False

theorem attains_publishBlob (ns : String) (digest : Digest) (source : Bytes) :
    Attains (HeldAnswers crates) (fun stores => Sees stores ns digest) (fun _ => False)
      (publishBlob ns digest source) := by
  apply (attains_trivial (callBlobs (.put digest source))).bind
  intro outcome _
  have hregister : Attains (HeldAnswers crates) (fun stores => Sees stores ns digest)
      (fun _ => False) (callMetadata (.registerBlob ns digest outcome)) := by
    intro stores answer later hanswers
    cases answer with
    | error error => exact .inr fun _ h => by cases h
    | ok value =>
        left
        obtain ⟨_, rfl⟩ := (Stores.answers_metadata hanswers).2 value rfl
        exact sees_registerBlob stores ns digest outcome
  exact hregister.bind fun _ h => h.elim

theorem attains_putBlob {headers : HeaderMap} {parts : DigestParts} {body : ByteStream}
    (hns : namespaceHeader headers = some ns) :
    Attains (HeldAnswers crates) (fun stores => Sees stores ns (digestOf parts)) (fun _ => False)
      (putBlob crates state headers parts body) := by
  apply attains_lift
  intro ns' hauth
  obtain rfl : ns = ns' := Option.some.inj (hns.symm.trans (Authorizer.authorize_eq_ok hauth))
  apply attains_lift
  intro _ _
  apply attains_lift
  intro digest hdigest
  obtain ⟨rfl, _⟩ := (parseDigest_eq_ok _).mp hdigest
  apply attains_lift
  intro spool _
  exact (attains_publishBlob ns (digestOf parts) spool.bytes).bind fun _ h => h.elim

/-! ### Packs -/

/-- An upload that has read `consumed` and not yet stored the digest: its open frame
is the one the parser is in. -/
structure Lacks (digest : Digest) (assembly : Assembly) (upload : PackUpload crates) : Prop where
  current : ∀ open' got, assembly.current = some (open', got) →
    ∃ frame, upload.frame = some frame ∧ frame.digest = open'
  lacks : ∀ frame ∈ assembly.frames, frame.1 ≠ digest

theorem attains_handleEvent {digest : Digest} {assembly assembly' : Assembly}
    {upload : PackUpload crates} {event : PackEvent} (h : Lacks digest assembly upload)
    (htake : assembly.take event = some assembly') :
    Attains (HeldAnswers crates) (fun stores => Sees stores ns digest)
      (fun later => Lacks digest assembly' later ∧ later.reader = upload.reader)
      (upload.handleEvent ns event) := by
  obtain ⟨frames, current⟩ := assembly
  cases event with
  | started started =>
      cases current with
      | some frame => cases htake
      | none =>
          obtain rfl := Option.some.inj htake
          intro later hlater
          obtain rfl := Except.ok.inj hlater
          refine ⟨⟨?_, h.lacks⟩, rfl⟩
          intro open' got heq
          obtain ⟨rfl, rfl⟩ := Prod.mk.inj (Option.some.inj heq)
          exact ⟨_, rfl, rfl⟩
  | payload payload =>
      cases current with
      | none => cases htake
      | some opened =>
          obtain ⟨open', got⟩ := opened
          obtain rfl := Option.some.inj htake
          obtain ⟨frame, hframe, hdigest⟩ := h.current open' got rfl
          apply attains_lift
          intro frame' hframe'
          rw [hframe] at hframe'
          obtain rfl := Option.some.inj (okOr_eq_ok.mp hframe')
          apply attains_lift
          intro written hwritten later hlater
          obtain rfl := Except.ok.inj hlater
          obtain ⟨_, _, hwritten⟩ := bind_eq_ok.mp hwritten
          obtain rfl := Except.ok.inj hwritten
          refine ⟨⟨?_, h.lacks⟩, rfl⟩
          intro open'' got' heq
          obtain ⟨rfl, rfl⟩ := Prod.mk.inj (Option.some.inj heq)
          exact ⟨_, rfl, hdigest⟩
  | complete =>
      cases current with
      | none => cases htake
      | some finished =>
          obtain ⟨open', got⟩ := finished
          obtain rfl := Option.some.inj htake
          obtain ⟨frame, hframe, hdigest⟩ := h.current open' got rfl
          apply attains_lift
          intro frame' hframe'
          rw [hframe] at hframe'
          obtain rfl := Option.some.inj (okOr_eq_ok.mp hframe')
          have hstore : Attains (HeldAnswers crates) (fun stores => Sees stores ns digest)
              (fun _ => open' ≠ digest) (frame.store ns) := by
            apply attains_lift
            intro _ _
            by_cases heq : open' = digest
            · rw [hdigest, heq]
              exact (attains_publishBlob ns digest frame.spool.bytes).imp fun _ h => h.elim
            · exact (attains_trivial _).imp fun _ _ => heq
          apply hstore.bind
          intro outcome hne later hlater
          obtain rfl := Except.ok.inj hlater
          refine ⟨⟨?_, ?_⟩, PackUpload.count_reader _ _⟩
          · intro open'' got' heq
            cases heq
          · intro other hmem
            rcases List.mem_append.mp hmem with hold | hnew
            · exact h.lacks other hold
            · rw [List.mem_singleton.mp hnew]
              exact hne

theorem attains_handleEvents {digest : Digest} :
    ∀ {events : List PackEvent} {assembly assembly' : Assembly} {upload : PackUpload crates},
      Lacks digest assembly upload → assemble assembly events = some assembly' →
      Attains (HeldAnswers crates) (fun stores => Sees stores ns digest)
        (fun later => Lacks digest assembly' later ∧ later.reader = upload.reader)
        (events.foldlM (PackUpload.handleEvent ns) upload)
  | [], assembly, assembly', upload, h, hassemble => by
      obtain rfl := Option.some.inj hassemble
      intro later hlater
      obtain rfl := Except.ok.inj hlater
      exact ⟨h, rfl⟩
  | event :: events, assembly, assembly', upload, h, hassemble => by
      rw [assemble, List.foldlM_cons] at hassemble
      obtain ⟨middle, htake, hrest⟩ := Option.bind_eq_some_iff.mp hassemble
      rw [List.foldlM_cons]
      apply (attains_handleEvent h htake).bind
      rintro next ⟨hnext, hreader⟩
      rw [← hreader]
      exact attains_handleEvents hnext hrest

/-- The rest of a body that, with what was read of it, is the whole. -/
structure Midway (digest : Digest) (whole : Bytes) (limits : ℕ × ℕ × ℕ) (rest : ByteStream)
    (upload : PackUpload crates) : Prop where
  reads : ∃ assembly consumed, Reads upload.reader assembly consumed ∧
    Lacks digest assembly upload ∧ whole = consumed ++ contents rest
  limits : (upload.reader.maxBlobBytes, upload.reader.maxBlobs, upload.reader.maxPayloadBytes) =
    limits

theorem attains_handleChunk {digest : Digest} {whole : Bytes} {limits : ℕ × ℕ × ℕ}
    {chunk : Except String Bytes} {rest : ByteStream} {upload : PackUpload crates}
    (h : Midway digest whole limits (chunk :: rest) upload) :
    Attains (HeldAnswers crates) (fun stores => Sees stores ns digest)
      (Midway digest whole limits rest) (upload.handleChunk ns chunk) := by
  obtain ⟨⟨assembly, consumed, hreads, hlacks, hwhole⟩, hlimits⟩ := h
  apply attains_lift
  intro piece hpiece
  obtain rfl := mapError_eq_ok.mp hpiece
  have hpush := hreads.push piece
  match hresult : upload.reader.push piece with
  | (.error error, reader') => exact fun later hlater => by cases hlater
  | (.ok events, reader') =>
      rw [hresult] at hpush
      obtain ⟨hsame, _, assembly', hassemble, hreads'⟩ := hpush
      have hlacks' : Lacks digest assembly { upload with reader := reader' } :=
        ⟨hlacks.current, hlacks.lacks⟩
      apply (attains_handleEvents hlacks' hassemble).imp
      rintro later ⟨hlater, hreader⟩
      have hreader : later.reader = reader' := hreader
      refine ⟨⟨assembly', consumed ++ piece, hreader ▸ hreads', hlater, ?_⟩, ?_⟩
      · rw [hwhole, contents_ok, List.append_assoc]
      · rw [hreader, ← hlimits, hsame.maxBlobBytes, hsame.maxBlobs, hsame.maxPayloadBytes]

/-- A pack that is accepted has stored every frame of its body. -/
theorem attains_putBlobPack {headers : HeaderMap} {body : ByteStream} {digest : Digest}
    {content : Bytes} {declared : ℕ × ℕ} {frames : List Frame}
    (hns : namespaceHeader headers = some ns)
    (hdeclared : packDeclaration state.maxBlobBytes headers = .ok declared)
    (hdecode : Pack.decode (contents body) state.maxBlobBytes.toNat declared.1 declared.2 =
      .ok frames) (hmem : (digest, content) ∈ frames) :
    Attains (HeldAnswers crates) (fun stores => Sees stores ns digest) (fun _ => False)
      (putBlobPack crates state headers body) := by
  apply attains_lift
  intro ns' hauth
  obtain rfl : ns = ns' := Option.some.inj (hns.symm.trans (Authorizer.authorize_eq_ok hauth))
  apply attains_lift
  intro declared' hdeclared'
  obtain rfl : declared = declared' := Except.ok.inj (hdeclared.symm.trans hdeclared')
  have hstart : Midway digest (contents body)
      (state.maxBlobBytes.toNat, declared.1, declared.2) body
      ({ reader := PackReader.new state.maxBlobBytes.toNat declared.1 declared.2
         frame := none, created := 0, existing := 0 } : PackUpload crates) := by
    refine ⟨⟨⟨[], none⟩, [], PackReader.reads_new _ _ _, ⟨?_, ?_⟩, rfl⟩, rfl⟩
    · intro open' got heq
      cases heq
    · intro frame hmem
      cases hmem
  have hloop : Attains (HeldAnswers crates) (fun stores => Sees stores ns digest)
      (Midway digest (contents body) (state.maxBlobBytes.toNat, declared.1, declared.2) [])
      (body.foldlM (PackUpload.handleChunk ns)
        ({ reader := PackReader.new state.maxBlobBytes.toNat declared.1 declared.2
           frame := none, created := 0, existing := 0 } : PackUpload crates)) := by
    apply attains_foldlM (Midway digest (contents body) _)
    · exact fun chunk rest upload h => attains_handleChunk h
    · exact hstart
  apply hloop.bind
  rintro upload ⟨⟨assembly, consumed, hreads, hlacks, hwhole⟩, hlimits⟩
  apply attains_lift
  intro u hfinish
  exfalso
  obtain ⟨_, hconsumed, hwithin, _⟩ := hreads.finish_ok (mapError_eq_ok.mp hfinish)
  rw [contents_nil, List.append_nil] at hwhole
  have hsame : Pack.decode consumed upload.reader.maxBlobBytes upload.reader.maxBlobs
      upload.reader.maxPayloadBytes = .ok assembly.frames := by
    rw [hconsumed]
    exact decode_encodePack hwithin
  obtain ⟨hblob, hrest⟩ := Prod.mk.inj hlimits
  obtain ⟨hblobs, hpayload⟩ := Prod.mk.inj hrest
  rw [hblob, hblobs, hpayload, ← hwhole, hdecode] at hsame
  obtain rfl := Except.ok.inj hsame
  exact hlacks.lacks _ hmem rfl

/-! ### Results and manifests -/

/-- A result that is stored under an action, as bytes. -/
def HasResult (crates : Crates) (ns : String) (action : Digest) (result : ActionResult)
    (stores : Held) : Prop :=
  ∃ bytes, crates.resultToVec result = .ok bytes ∧
    stores.metadata.entries (ns, action) = some bytes

theorem stands_result (ns : String) (action : Digest) (result : ActionResult) :
    Stands (HeldAnswers crates) (HasResult crates ns action result) := by
  rintro op stores answer later hanswers ⟨bytes, hencoded, hentry⟩
  exact ⟨bytes, hencoded, stands_entry (ns, action) bytes op stores answer later hanswers hentry⟩

theorem get_of_entry {metadata : MemoryMetadata} {action : Digest} {result : ActionResult}
    {bytes : Bytes} (hentry : metadata.entries (ns, action) = some bytes)
    (hfrom : crates.resultFromSlice bytes = .ok result) :
    metadata.get crates ns action = .ok (some result) := by
  rw [MemoryMetadata.get, hentry]
  show (crates.resultFromSlice bytes).map some = _
  rw [hfrom]
  rfl

theorem HasResult.fromSlice (htrips : crates.RoundTrips) {action : Digest} {result : ActionResult}
    {stores : Held} (h : HasResult crates ns action result stores) :
    ∃ bytes, stores.metadata.entries (ns, action) = some bytes ∧
      crates.resultFromSlice bytes = .ok result := by
  obtain ⟨bytes, hencoded, hentry⟩ := h
  obtain ⟨_, hto, hfrom⟩ := htrips.result_slice result
  rw [hencoded] at hto
  obtain rfl := Except.ok.inj hto
  exact ⟨bytes, hentry, hfrom⟩

/-- A stored result is read back as it is. -/
theorem HasResult.get (htrips : crates.RoundTrips) {action : Digest} {result : ActionResult}
    {stores : Held} (h : HasResult crates ns action result stores) :
    stores.metadata.get crates ns action = .ok (some result) := by
  obtain ⟨bytes, hentry, hfrom⟩ := h.fromSlice htrips
  exact get_of_entry hentry hfrom

/-- A commit that is not refused leaves the result stored, its own or an equal one. -/
theorem hasResult_commit {metadata : MemoryMetadata} {action : Digest} {result : ActionResult}
    {outcome : CommitOutcome} (h : (metadata.commit crates ns action result).1 = .ok outcome)
    (hne : outcome ≠ .conflict) : ∃ bytes, crates.resultToVec result = .ok bytes ∧
      (metadata.commit crates ns action result).2.entries (ns, action) = some bytes := by
  obtain ⟨entry, hentry, hexplains⟩ := PostgresMetadata.explains_commit h
  cases outcome with
  | created => exact ⟨entry, (hexplains.created rfl).2, hentry⟩
  | alreadyExists => exact ⟨entry, hexplains.alreadyExists rfl, hentry⟩
  | conflict => exact absurd rfl hne

theorem attains_putActionResult {headers : HeaderMap} {parts : DigestParts}
    {result : ActionResult} (hns : namespaceHeader headers = some ns) :
    Attains (HeldAnswers crates) (HasResult crates ns (digestOf parts) result) (fun _ => False)
      (putActionResult crates state headers parts result) := by
  apply attains_lift
  intro ns' hauth
  obtain rfl : ns = ns' := Option.some.inj (hns.symm.trans (Authorizer.authorize_eq_ok hauth))
  apply attains_lift
  intro _ _
  apply attains_lift
  intro action haction
  obtain ⟨digest, hdigest, haction⟩ := bind_eq_ok.mp haction
  obtain ⟨_, _, haction⟩ := bind_eq_ok.mp haction
  obtain rfl := Except.ok.inj haction
  obtain ⟨rfl, _⟩ := (parseDigest_eq_ok _).mp hdigest
  apply attains_lift
  intro _ _
  apply (attains_trivial _).bind
  intro _ _
  have hcommit : Attains (HeldAnswers crates) (HasResult crates ns (digestOf parts) result)
      (fun outcome => outcome = .conflict)
      (callMetadata (.commit ns (digestOf parts) result)) := by
    intro stores answer later hanswers
    cases answer with
    | error error => exact .inr fun _ h => by cases h
    | ok outcome =>
        by_cases hconflict : outcome = .conflict
        · right
          intro _ h
          obtain rfl := Except.ok.inj h
          exact hconflict
        · left
          obtain ⟨hvalue, rfl⟩ := (Stores.answers_metadata hanswers).2 outcome rfl
          exact hasResult_commit hvalue hconflict
  apply hcommit.bind
  rintro _ rfl _ h
  cases h

theorem attains_putActionManifest {headers : HeaderMap} {parts : DigestParts} {body : ByteStream}
    (hns : namespaceHeader headers = some ns) :
    Attains (HeldAnswers crates) (HasManifest ns (digestOf parts)) (fun _ => False)
      (putActionManifest crates state headers parts body) := by
  apply attains_lift
  intro ns' hauth
  obtain rfl : ns = ns' := Option.some.inj (hns.symm.trans (Authorizer.authorize_eq_ok hauth))
  apply attains_lift
  rintro ⟨manifest, key, expectedEtag⟩ haccepted
  have hkey : key = digestOf parts := by
    obtain ⟨_, _, haccepted⟩ := bind_eq_ok.mp haccepted
    obtain ⟨_, _, haccepted⟩ := bind_eq_ok.mp haccepted
    obtain ⟨key', hkey', haccepted⟩ := bind_eq_ok.mp haccepted
    obtain ⟨_, _, haccepted⟩ := bind_eq_ok.mp haccepted
    obtain ⟨_, _, haccepted⟩ := bind_eq_ok.mp haccepted
    obtain ⟨_, hsame⟩ := Prod.mk.inj (Except.ok.inj haccepted)
    obtain ⟨rfl, _⟩ := Prod.mk.inj hsame
    obtain ⟨digest, hdigest, haction⟩ := bind_eq_ok.mp hkey'
    obtain ⟨_, _, haction⟩ := bind_eq_ok.mp haction
    obtain rfl := Except.ok.inj haction
    exact ((parseDigest_eq_ok _).mp hdigest).1
  subst hkey
  apply attains_lift
  intro etag _
  have hcommit : Attains (HeldAnswers crates) (HasManifest ns (digestOf parts))
      (fun outcome => outcome = .preconditionFailed)
      (callMetadata (.commitManifest ns (digestOf parts) expectedEtag etag manifest)) := by
    intro stores answer later hanswers
    cases answer with
    | error error => exact .inr fun _ h => by cases h
    | ok outcome =>
        by_cases hfailed : outcome = .preconditionFailed
        · right
          intro _ h
          obtain rfl := Except.ok.inj h
          exact hfailed
        · left
          obtain ⟨hvalue, rfl⟩ := (Stores.answers_metadata hanswers).2 outcome rfl
          have hwritten : (stores.metadata.commitManifest ns (digestOf parts) expectedEtag etag
              manifest).1 = outcome := Except.ok.inj hvalue
          show ((stores.metadata.commitManifest ns (digestOf parts) expectedEtag etag
            manifest).2.manifests (ns, digestOf parts)).isSome = true
          simp only [MemoryMetadata.commitManifest] at hwritten ⊢
          split at hwritten
          · exact absurd hwritten.symm hfailed
          · rename_i hmatched
            rw [if_neg hmatched]
            simp
  apply hcommit.bind
  rintro _ rfl _ h
  cases h

/-- An upload that succeeds has made its blobs visible. -/
theorem attains_handle {request : Request} {digest : Digest}
    (h : Publishes state request ns digest) :
    Attains (HeldAnswers crates) (fun stores => Sees stores ns digest) (fun _ => False)
      (handle crates state request) := by
  cases request with
  | putBlob headers parts body =>
      obtain ⟨hns, rfl⟩ := h
      exact (attains_putBlob hns).map
  | putBlobPack headers body =>
      obtain ⟨hns, declared, frames, content, hdeclared, hdecode, hmem⟩ := h
      exact (attains_putBlobPack hns hdeclared hdecode hmem).map
  | _ => exact h.elim

/-! ## Reads -/

/-- The error of a store. -/
def StoreFailed (e : ApiError) : Prop := e.status = 500

section Reads

variable {fact : Held → Prop} {errors : ApiError → Prop}

theorem under_callMetadata {op : MetadataOp} {good : op.Value → Prop}
    (hfailed : ∀ e, StoreFailed e → errors e)
    (h : ∀ stores value, fact stores →
      (MemoryMetadata.exec crates op stores.metadata).1 = .ok value → good value) :
    Under (HeldAnswers crates) fact (EndsWith errors good) (callMetadata op) := by
  intro stores answer later hfact hanswers
  cases answer with
  | error error => exact hfailed _ rfl
  | ok value => exact h stores value hfact ((Stores.answers_metadata hanswers).2 value rfl).1

theorem under_recordBlobAccess {digests : List Digest} :
    Under (HeldAnswers crates) fact (EndsWith errors fun _ => True)
      (recordBlobAccess ns digests) :=
  fun _ _ _ _ _ => trivial

/-- A response to `getBlob` whose body is the content or breaks off inside it. -/
structure Conveys (content : Bytes) (response : BlobResponse) : Prop where
  length : response.contentLength = content.length
  body : contents response.body <+: content
  whole : broken response.body = false → contents response.body = content

theorem under_getBlob {headers : HeaderMap} {parts : DigestParts} {content : Bytes}
    (hauth : state.auth.authorize crates headers .read = .ok ns)
    (hvalid : crates.digests.validate (digestOf parts) = true) :
    Under (HeldAnswers crates) (Stored ns (digestOf parts) content)
      (EndsWith StoreFailed (Conveys content)) (getBlob crates state headers parts) := by
  have hparse : parseDigest crates.digests parts = .ok (digestOf parts) :=
    (parseDigest_eq_ok _).mpr ⟨rfl, hvalid⟩
  apply under_lift hauth
  apply under_lift hparse
  have hvisible : Under (HeldAnswers crates) (Stored ns (digestOf parts) content)
      (EndsWith StoreFailed (· = true)) (callMetadata (.blobVisible ns (digestOf parts))) := by
    apply under_callMetadata fun _ h => h
    intro stores visible hstored hanswer
    obtain rfl := Except.ok.inj hanswer
    exact MemoryMetadata.blobVisible_eq_true.mpr hstored.sees
  apply under_bind hvisible
  rintro _ rfl
  apply under_bind under_recordBlobAccess
  intro _ _
  have hget : Under (HeldAnswers crates) (Stored ns (digestOf parts) content)
      (EndsWith StoreFailed fun found => ∃ blob, found = some blob ∧ Stores.Serves blob content)
      (callBlobs (.get (digestOf parts))) := by
    intro stores answer later hstored hanswers
    cases hanswers with
    | answered chunking =>
        show EndsWith _ _ (.ok ((stores.blobs (digestOf parts)).map (Stores.blobOf chunking)))
        rw [hstored.held]
        exact ⟨_, rfl, Stores.serves_blobOf chunking content⟩
    | refused => exact rfl
    | lost => exact rfl
    | interrupted _ _ content' chunks error held sent =>
        rw [hstored.held] at held
        obtain rfl := Option.some.inj held
        exact ⟨_, rfl, rfl, .inr ⟨chunks, error, rfl, sent⟩⟩
  apply under_bind hget
  rintro _ ⟨blob, rfl, hserves⟩
  exact ⟨hserves.size, hserves.prefix, hserves.whole⟩

theorem under_missingBlobs {headers : HeaderMap} {digests : List Digest} {digest : Digest}
    (hauth : state.auth.authorize crates headers .read = .ok ns)
    (hsees : ∀ stores, fact stores → Sees stores ns digest) :
    Under (HeldAnswers crates) fact
      (EndsWith (fun _ => True) fun missing : List Digest => digest ∉ missing)
      (missingBlobs crates state headers digests) := by
  apply under_lift hauth
  apply under_local fun _ _ => trivial
  intro _ _
  have hvisible : Under (HeldAnswers crates) fact
      (EndsWith (fun _ => True) fun visible : List Digest => digest ∈ digests → digest ∈ visible)
      (callMetadata (.visibleBlobs ns digests)) := by
    apply under_callMetadata fun _ _ => trivial
    intro stores visible hfact hanswer hmem
    obtain rfl := Except.ok.inj hanswer
    exact MemoryMetadata.mem_visibleBlobs.mpr ⟨hmem, hsees stores hfact⟩
  apply under_bind hvisible
  intro visible hmem hmissing
  obtain ⟨hin, hnot⟩ := List.mem_filter.mp hmissing
  have hvisible := hmem hin
  simp [hvisible] at hnot

/-- A pack that is sent to its end has a frame for each of its entries. -/
theorem under_streamEntries :
    ∀ (entries : List (Bytes × Digest)),
      (∀ entry ∈ entries, packBlobHeader crates entry.2 = .ok entry.1) →
      Under (HeldAnswers crates) fact
        (EndsWith (fun _ => True) fun sent : ByteStream => broken sent = false →
          ∃ frames : List Frame, frames.map (·.1) = entries.map (·.2) ∧
            FramesOf crates frames (contents sent))
        (streamEntries entries)
  | [], _ => fun _ => ⟨[], rfl, .nil⟩
  | (header, digest) :: entries, hheaders => by
      rw [streamEntries]
      have hread : Under (HeldAnswers crates) fact (EndsWith (fun _ => True) fun _ => True)
          (readObject digest) := fun _ _ _ _ _ => trivial
      apply under_bind hread
      intro answer _
      cases hopen : openEntry digest answer with
      | error error => exact fun hunbroken => by cases hunbroken
      | ok blob =>
          dsimp only
          by_cases hbroken : broken (.ok header :: forwardBlob blob.size 0 blob.stream) = true
          · rw [if_pos hbroken]
            intro hunbroken
            rw [hbroken] at hunbroken
            cases hunbroken
          · rw [if_neg hbroken]
            apply under_bind (under_streamEntries entries fun entry hmem =>
              hheaders entry (List.mem_cons_of_mem _ hmem))
            intro later hlater hunbroken
            rw [broken_append, Bool.or_eq_false_iff] at hunbroken
            obtain ⟨frames, hdigests, hframes⟩ := hlater hunbroken.2
            refine ⟨(digest, contents (forwardBlob blob.size 0 blob.stream)) :: frames, ?_, ?_⟩
            · rw [List.map_cons, List.map_cons, hdigests]
            · rw [contents_append, contents_ok]
              exact .cons (hheaders (header, digest) List.mem_cons_self) hframes

/-- A pack that is sent to its end and has a frame of the digest. -/
def PacksDigest (crates : Crates) (digest : Digest) (response : PackResponse) : Prop :=
  broken response.body = false → ∃ (frames : List Frame) (rest : Bytes),
    contents response.body = BLOB_PACK_MAGIC ++ rest ∧ FramesOf crates frames rest ∧
      digest ∈ frames.map (·.1)

theorem under_packBlobs {headers : HeaderMap} {digests : List Digest} {digest : Digest}
    (hauth : state.auth.authorize crates headers .read = .ok ns) (hmem : digest ∈ digests)
    (hsees : ∀ stores, fact stores → Sees stores ns digest) :
    Under (HeldAnswers crates) fact (EndsWith (fun _ => True) (PacksDigest crates digest))
      (packBlobs crates state headers digests) := by
  apply under_lift hauth
  apply under_local fun _ _ => trivial
  intro request hrequest
  obtain ⟨_, _, hrequest⟩ := bind_eq_ok.mp hrequest
  obtain ⟨hrequested, _⟩ := packRequest_foldlM digests hrequest
  have hvisible : Under (HeldAnswers crates) fact
      (EndsWith (fun _ => True) fun visible : List Digest => digest ∈ visible)
      (callMetadata (.visibleBlobs ns request.requested)) := by
    apply under_callMetadata fun _ _ => trivial
    intro stores visible hfact hanswer
    obtain rfl := Except.ok.inj hanswer
    apply MemoryMetadata.mem_visibleBlobs.mpr
    rw [hrequested, List.mem_eraseDups]
    exact ⟨hmem, hsees stores hfact⟩
  apply under_bind hvisible
  intro visible hin
  apply under_bind under_recordBlobAccess
  intro _ _
  apply under_local fun _ _ => trivial
  intro pack hpack
  obtain ⟨added, hentries, hdigests, hheaders, _⟩ := packEntries_foldlM hpack
  rw [List.nil_append] at hentries
  rw [hentries]
  apply under_bind (under_streamEntries added hheaders)
  intro sent hsent hunbroken
  obtain ⟨frames, hframes, hof⟩ := hsent hunbroken
  refine ⟨frames, contents sent, rfl, hof, ?_⟩
  rw [hframes, hdigests]
  exact hin

theorem parseActionDigest_digestOf {parts : DigestParts} {action : Digest}
    (h : parseActionDigest crates.digests parts = .ok action) : action = digestOf parts := by
  obtain ⟨digest, hdigest, haction⟩ := bind_eq_ok.mp h
  obtain ⟨_, _, haction⟩ := bind_eq_ok.mp haction
  obtain rfl := Except.ok.inj haction
  exact ((parseDigest_eq_ok _).mp hdigest).1

theorem under_getActionResult (htrips : crates.RoundTrips) {headers : HeaderMap}
    {parts : DigestParts} {result : ActionResult}
    (hauth : state.auth.authorize crates headers .read = .ok ns)
    (hparse : parseActionDigest crates.digests parts = .ok (digestOf parts)) :
    Under (HeldAnswers crates) (HasResult crates ns (digestOf parts) result)
      (EndsWith StoreFailed (· = result)) (getActionResult crates state headers parts) := by
  apply under_lift hauth
  apply under_lift hparse
  have hget : Under (HeldAnswers crates) (HasResult crates ns (digestOf parts) result)
      (EndsWith StoreFailed (· = some result)) (callMetadata (.get ns (digestOf parts))) := by
    apply under_callMetadata fun _ h => h
    intro stores found hresult hanswer
    exact Except.ok.inj (hanswer.symm.trans (hresult.get htrips))
  apply under_bind hget
  rintro _ rfl
  exact rfl

/-- The actions of a batch are those it asks about, and all of them are checked. -/
theorem requestedActions_spec {digests requested : List Digest}
    (h : requestedActions crates digests = .ok requested) :
    (∀ action, action ∈ requested ↔ action ∈ digests) ∧
      ∀ action ∈ digests, crates.digests.validate action = true ∧ action.algorithm = "blake3" := by
  obtain ⟨_, hlength, hloop⟩ := bind_eq_ok.mp h
  clear h hlength
  induction digests using List.reverseRecOn generalizing requested with
  | nil =>
      obtain rfl := Except.ok.inj hloop
      simp
  | append_singleton digests digest ih =>
      rw [List.foldlM_append] at hloop
      obtain ⟨middle, hmiddle, hlast⟩ := bind_eq_ok.mp hloop
      rw [List.foldlM_cons] at hlast
      obtain ⟨last, hadd, hdone⟩ := bind_eq_ok.mp hlast
      obtain rfl := Except.ok.inj hdone
      obtain ⟨checked, hchecked, hkept⟩ := bind_eq_ok.mp hadd
      obtain ⟨rfl, hvalid⟩ := validateActionDigest_eq_ok.mp hchecked
      obtain rfl := Except.ok.inj hkept
      obtain ⟨hsame, hchecked'⟩ := ih hmiddle
      apply And.intro
      · intro action
        by_cases hin : checked ∈ middle
        · have hasked : checked ∈ digests := (hsame checked).mp hin
          simp only [List.contains_iff_mem, hin, if_true, hsame, List.mem_append,
            List.mem_singleton]
          exact ⟨.inl, fun h => h.elim id fun heq => heq ▸ hasked⟩
        · simp [hin, hsame]
      · intro action hmem
        rcases List.mem_append.mp hmem with hold | hnew
        · exact hchecked' action hold
        · rw [List.mem_singleton.mp hnew]
          exact hvalid

theorem under_batchActionResults (htrips : crates.RoundTrips) {headers : HeaderMap}
    {digests : List Digest} {action : Digest} {result : ActionResult}
    (hauth : state.auth.authorize crates headers .read = .ok ns) (hmem : action ∈ digests) :
    Under (HeldAnswers crates) (HasResult crates ns action result)
      (EndsWith (fun _ => True) fun results : List ActionResult => result ∈ results)
      (batchActionResults crates state headers digests) := by
  apply under_lift hauth
  apply under_local fun _ _ => trivial
  intro requested hrequested
  have hin := ((requestedActions_spec hrequested).1 action).mpr hmem
  clear hrequested
  apply under_callMetadata fun _ _ => trivial
  intro stores results hresult hvalue
  have hanswer : stores.metadata.getBatch crates ns requested = .ok results := hvalue
  clear hvalue
  have hget := hresult.get htrips
  induction requested with
  | nil => cases hin
  | cons first requested ih =>
      rw [MemoryMetadata.getBatch] at hanswer
      obtain ⟨found, hfound, hanswer⟩ := bind_eq_ok.mp hanswer
      obtain ⟨later, hlater, hanswer⟩ := bind_eq_ok.mp hanswer
      obtain rfl := Except.ok.inj hanswer
      rcases List.mem_cons.mp hin with rfl | hrest
      · rw [hget] at hfound
        obtain rfl := Except.ok.inj hfound
        simp
      · exact List.mem_append_right _ (ih hrest later hlater)

theorem under_getActionManifest {headers : HeaderMap} {parts : DigestParts}
    (hauth : state.auth.authorize crates headers .read = .ok ns)
    (hparse : parseActionDigest crates.digests parts = .ok (digestOf parts)) :
    Under (HeldAnswers crates) (HasManifest ns (digestOf parts))
      (EndsWith StoreFailed fun _ => True) (getActionManifest crates state headers parts) := by
  apply under_lift hauth
  apply under_lift hparse
  have hget : Under (HeldAnswers crates) (HasManifest ns (digestOf parts))
      (EndsWith StoreFailed fun found : Option ManifestRecord => ∃ record, found = some record)
      (callMetadata (.getManifest ns (digestOf parts))) := by
    apply under_callMetadata fun _ h => h
    intro stores found hmanifest hanswer
    obtain rfl := Except.ok.inj hanswer
    obtain ⟨entry, hentry⟩ := Option.isSome_iff_exists.mp hmanifest
    exact ⟨_, congrArg (Option.map _) hentry⟩
  apply under_bind hget
  rintro _ ⟨record, rfl⟩
  have hlocal : Errs StoreFailed ((crates.canonicalJson record.manifest).mapError
      ApiError.internal) := errs_mapError fun _ => rfl
  show Under _ _ _ ((done ((crates.canonicalJson record.manifest).mapError ApiError.internal) :
    Handler Bytes) >>= _)
  apply under_local hlocal
  intro body _
  trivial

end Reads

/-! ## The runs -/

/-- How a request is answered that arrives once a blob is published. -/
def FindsBlob (crates : Crates) (digest : Digest) (content : Bytes) :
    Request → Except ApiError Reply → Prop
  | .getBlob _ parts, outcome => digestOf parts = digest →
      EndsWith StoreFailed (fun reply => ∃ response, reply = .blob response ∧
        Conveys content response) outcome
  | .missingBlobs _ _, outcome =>
      EndsWith (fun _ => True) (fun reply => ∃ missing, reply = .missing missing ∧
        digest ∉ missing) outcome
  | .packBlobs _ digests, outcome => digest ∈ digests →
      EndsWith (fun _ => True) (fun reply => ∃ response, reply = .pack response ∧
        PacksDigest crates digest response) outcome
  | _, _ => True

/-- How one is answered that arrives once a result is. -/
def FindsResult (action : Digest) (result : ActionResult) :
    Request → Except ApiError Reply → Prop
  | .getActionResult _ parts, outcome => digestOf parts = action →
      EndsWith StoreFailed (· = .result result) outcome
  | .batchActionResults _ digests, outcome => action ∈ digests →
      EndsWith (fun _ => True) (fun reply => ∃ results, reply = .results results ∧
        result ∈ results) outcome
  | _, _ => True

/-- How one is answered that arrives once a manifest is stored. -/
def FindsManifest (key : Digest) : Request → Except ApiError Reply → Prop
  | .getActionManifest _ parts, outcome => digestOf parts = key →
      EndsWith StoreFailed (fun reply => ∃ response, reply = .manifest response) outcome
  | _, _ => True

section Handlers

variable {fact : Held → Prop}

theorem under_handle_blob {digest : Digest} {content : Bytes}
    (hvalid : crates.digests.validate digest = true) (request : Request) :
    Under (HeldAnswers crates) (Stored ns digest content)
      (fun outcome => state.auth.authorize crates request.headers .read = .ok ns →
        FindsBlob crates digest content request outcome) (handle crates state request) := by
  by_cases hauth : state.auth.authorize crates request.headers .read = .ok ns
  · cases request with
    | getBlob headers parts =>
        by_cases hdigest : digestOf parts = digest
        · subst hdigest
          apply (under_map ((under_getBlob hauth hvalid).imp ?_)).imp
          · exact fun outcome h _ _ => h
          · intro outcome h
            cases outcome with
            | ok response => exact ⟨response, rfl, h⟩
            | error e => exact h
        · exact under_trivial (fun _ _ h => absurd h hdigest) _
    | missingBlobs headers digests =>
        apply (under_map ((under_missingBlobs hauth fun _ h => h.sees).imp ?_)).imp
        · exact fun outcome h _ => h
        · intro outcome h
          cases outcome with
          | ok missing => exact ⟨missing, rfl, h⟩
          | error e => trivial
    | packBlobs headers digests =>
        by_cases hmem : digest ∈ digests
        · apply (under_map ((under_packBlobs hauth hmem fun _ h => h.sees).imp ?_)).imp
          · exact fun outcome h _ _ => h
          · intro outcome h
            cases outcome with
            | ok response => exact ⟨response, rfl, h⟩
            | error e => trivial
        · exact under_trivial (fun _ _ h => absurd h hmem) _
    | _ => exact under_trivial (fun _ _ => trivial) _
  · exact under_trivial (fun _ h => absurd h hauth) _

theorem under_handle_result (htrips : crates.RoundTrips) {parts : DigestParts}
    {result : ActionResult}
    (hparse : parseActionDigest crates.digests parts = .ok (digestOf parts)) (request : Request) :
    Under (HeldAnswers crates) (HasResult crates ns (digestOf parts) result)
      (fun outcome => state.auth.authorize crates request.headers .read = .ok ns →
        FindsResult (digestOf parts) result request outcome) (handle crates state request) := by
  by_cases hauth : state.auth.authorize crates request.headers .read = .ok ns
  · cases request with
    | getActionResult headers parts' =>
        by_cases hdigest : digestOf parts' = digestOf parts
        · obtain rfl : parts' = parts := congrArg partsOf hdigest
          apply (under_map ((under_getActionResult htrips hauth hparse).imp ?_)).imp
          · exact fun outcome h _ _ => h
          · intro outcome h
            cases outcome with
            | ok found => exact congrArg Reply.result h
            | error e => exact h
        · exact under_trivial (fun _ _ h => absurd h hdigest) _
    | batchActionResults headers digests =>
        by_cases hmem : digestOf parts ∈ digests
        · apply (under_map ((under_batchActionResults htrips hauth hmem).imp ?_)).imp
          · exact fun outcome h _ _ => h
          · intro outcome h
            cases outcome with
            | ok results => exact ⟨results, rfl, h⟩
            | error e => trivial
        · exact under_trivial (fun _ _ h => absurd h hmem) _
    | _ => exact under_trivial (fun _ _ => trivial) _
  · exact under_trivial (fun _ h => absurd h hauth) _

theorem under_handle_manifest {parts : DigestParts}
    (hparse : parseActionDigest crates.digests parts = .ok (digestOf parts)) (request : Request) :
    Under (HeldAnswers crates) (HasManifest ns (digestOf parts))
      (fun outcome => state.auth.authorize crates request.headers .read = .ok ns →
        FindsManifest (digestOf parts) request outcome) (handle crates state request) := by
  by_cases hauth : state.auth.authorize crates request.headers .read = .ok ns
  · cases request with
    | getActionManifest headers parts' =>
        by_cases hdigest : digestOf parts' = digestOf parts
        · obtain rfl : parts' = parts := congrArg partsOf hdigest
          apply (under_map ((under_getActionManifest hauth hparse).imp ?_)).imp
          · exact fun outcome h _ _ => h
          · intro outcome h
            cases outcome with
            | ok response => exact ⟨response, rfl⟩
            | error e => exact h
        · exact under_trivial (fun _ _ h => absurd h hdigest) _
    | _ => exact under_trivial (fun _ _ => trivial) _
  · exact under_trivial (fun _ h => absurd h hauth) _

end Handlers

/-! ### What a success says of the request -/

/-- A frame that is read names a digest in its documented form. -/
theorem wellFormed_of_decodeFrames {maxBlobBytes maxBlobs maxPayloadBytes blobs payloadBytes : ℕ}
    {bytes : Bytes} : ∀ {frames : List Frame},
      decodeFrames maxBlobBytes maxBlobs maxPayloadBytes blobs payloadBytes bytes = .ok frames →
      ∀ frame ∈ frames, frame.1.WellFormed := by
  fun_induction decodeFrames maxBlobBytes maxBlobs maxPayloadBytes blobs payloadBytes bytes with
  | case1 =>
      intro frames h frame hmem
      obtain rfl := Except.ok.inj h
      cases hmem
  | case8 _ _ bytes _ hshort _ hparse _ _ _ _ _ later hlater =>
      rename_i ih
      intro frames h frame hmem
      obtain rfl := Except.ok.inj h
      have hlength : (bytes.take BLOB_PACK_HEADER_BYTES).length = BLOB_PACK_HEADER_BYTES := by
        rw [List.length_take]
        omega
      rcases List.mem_cons.mp hmem with rfl | hrest
      · exact (frameHeader_of_parseHeader hlength hparse).2.1
      · exact ih hlater frame hrest
  | _ => exact fun h => by cases h

theorem wellFormed_of_decode {bytes : Bytes} {maxBlobBytes maxBlobs maxPayloadBytes : ℕ}
    {frames : List Frame}
    (h : Pack.decode bytes maxBlobBytes maxBlobs maxPayloadBytes = .ok frames) {frame : Frame}
    (hmem : frame ∈ frames) : frame.1.WellFormed := by
  unfold Pack.decode at h
  split at h
  · cases h
  · split at h
    · cases h
    · exact wellFormed_of_decodeFrames h frame hmem

variable {pool later : Pool Held Request StoreOp StoreOp.Answer ApiError Reply}

/-- What every success needs holds of a request that succeeded. -/
theorem ReachablePool.of_success (hreach : ReachablePool crates state pool) {request : Request}
    {reply : Reply} (hmem : (request, done (.ok reply)) ∈ pool.threads) {needed : Prop}
    (h : Attains (HeldAnswers crates) (fun _ => False) (fun _ => needed)
      (handle crates state request)) : needed := by
  by_contra hnot
  exact Pool.Reachable.attains (fun _ _ _ _ _ h => h) h hreach hnot hmem

/-- A success past a local computation says what its value does. -/
theorem attains_checked {α β : Type} {fact : Held → Prop} {needed : Prop}
    {outcome : Except ApiError α} (f : α → Handler β) (h : ∀ a, outcome = .ok a → needed) :
    Attains (HeldAnswers crates) fact (fun _ => needed) ((done outcome : Handler α) >>= f) := by
  apply attains_lift
  intro a ha
  exact (attains_trivial (f a)).imp fun _ _ => h a ha

/-- The digest of an upload that succeeded is a valid one. -/
theorem validate_of_publishes (hrules : crates.digests.Documented)
    (hreach : ReachablePool crates state pool) {request : Request} {reply : Reply}
    (hmem : (request, done (.ok reply)) ∈ pool.threads) {digest : Digest}
    (h : Publishes state request ns digest) : crates.digests.validate digest = true := by
  cases request with
  | putBlob headers parts body =>
      obtain ⟨_, rfl⟩ := h
      apply hreach.of_success hmem
      apply Attains.map
      apply attains_lift
      intro _ _
      apply attains_lift
      intro _ _
      apply attains_checked
      intro digest hdigest
      obtain ⟨rfl, hvalid⟩ := (parseDigest_eq_ok _).mp hdigest
      exact hvalid
  | putBlobPack headers body =>
      obtain ⟨_, declared, frames, content, _, hdecode, hframe⟩ := h
      exact (hrules.validate_iff digest).mpr (wellFormed_of_decode hdecode hframe)
  | _ => exact h.elim

theorem parse_of_putActionResult (hreach : ReachablePool crates state pool) {headers : HeaderMap}
    {parts : DigestParts} {result : ActionResult} {reply : Reply}
    (hmem : (Request.putActionResult headers parts result, done (.ok reply)) ∈ pool.threads) :
    parseActionDigest crates.digests parts = .ok (digestOf parts) := by
  apply hreach.of_success hmem
  apply Attains.map
  apply attains_lift
  intro _ _
  apply attains_lift
  intro _ _
  exact attains_checked _ fun action haction => parseActionDigest_digestOf haction ▸ haction

theorem parse_of_putActionManifest (hreach : ReachablePool crates state pool)
    {headers : HeaderMap} {parts : DigestParts} {body : ByteStream} {reply : Reply}
    (hmem : (Request.putActionManifest headers parts body, done (.ok reply)) ∈ pool.threads) :
    parseActionDigest crates.digests parts = .ok (digestOf parts) := by
  apply hreach.of_success hmem
  apply Attains.map
  apply attains_lift
  intro _ _
  apply attains_checked
  intro accepted haccepted
  obtain ⟨_, _, haccepted⟩ := bind_eq_ok.mp haccepted
  obtain ⟨_, _, haccepted⟩ := bind_eq_ok.mp haccepted
  obtain ⟨key, hkey, _⟩ := bind_eq_ok.mp haccepted
  exact parseActionDigest_digestOf hkey ▸ hkey

/-! ### The result -/

end

end MbxCache.Server
