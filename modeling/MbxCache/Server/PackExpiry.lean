/-
# Packs of expired objects

Rows outlive objects for a while: a lifecycle rule takes the object first, and the
row waits for a sweep. A pack lists what has a row before it opens any object, so
it can be sent to its end exactly when no listed object has expired.
-/

import MbxCache.Metadata.Equivalence
import MbxCache.Server.Lifecycle
import MbxCache.Server.PackStream

namespace MbxCache.Server

open Foundation Program Pack

section

variable {crates : Crates} {chunking : Chunking}

/-! ## The frames of objects that are all there -/

/-- What storage streams for a read. -/
def objectRead (read : PackRead) : Bytes :=
  match read.2 with
  | .ok (some blob) => contents blob.stream
  | _ => []

/-- Where every object is as its digest says, the stream is their frames. -/
theorem framesOf_framesSent :
    ∀ {reads : List PackRead},
      (∀ read ∈ reads, packBlobHeader crates read.1.2 = .ok read.1.1) →
      (∀ read ∈ reads, Kept read) →
      FramesOf crates (reads.map fun read => (read.1.2, objectRead read))
        (contents (framesSent reads))
  | [], _, _ => .nil
  | ((header, digest), answer) :: reads, hheaders, hkept => by
      rw [List.forall_mem_cons] at hheaders hkept
      obtain ⟨blob, chunks, hanswer, hsize, hstream, hlength⟩ := hkept.1
      obtain rfl : answer = .ok (some blob) := hanswer
      have hopen : openEntry digest (.ok (some blob)) = .ok blob :=
        openEntry_eq_ok.mpr ⟨rfl, hsize⟩
      have hforward : forwardBlob blob.size 0 blob.stream = blob.stream := by
        rw [hstream, forwardBlob_map_ok]
        · rw [hsize]
          exact digest.size.toNat_lt
        · rw [hsize, ← hlength, Nat.zero_add]
      have hunbroken : broken (.ok header :: blob.stream) = false := by
        rw [broken_ok, hstream, broken_map_ok]
      rw [framesSent, hopen]
      dsimp only
      rw [hforward, andThen_of_unbroken _ _ hunbroken, contents_append, contents_ok]
      exact .cons hheaders.1 (framesOf_framesSent hheaders.2 hkept.2)

/-! ## Reachable states -/

namespace Retention

/-- Uploads are verified, and time does not go back. Objects may expire and sweeps
run whenever they do. -/
def Verified (crates : Crates) (s : Retention) : Event → Prop
  | .elapsed time => s.now ≤ time
  | .uploaded _ digest source => crates.Matches digest source
  | .expired _ | .swept _ => True

/-- What is stored has the length of its digest, and the tables stand for contents
of the store. -/
structure Intact (crates : Crates) (s : Retention) : Prop where
  sized : ∀ digest content, s.stores.blobs digest = some content →
    content.length = digest.size.toNat
  contents : ∃ view, PostgresMetadata.Holds crates s.stores.metadata view

theorem intact_empty : Intact crates empty where
  sized _ _ h := by cases h
  contents := ⟨_, PostgresMetadata.holds_empty⟩

/-- A registration is refused without effect or adds to the contents. -/
theorem Intact.apply {s : Retention} {event : Event} (hrules : crates.digests.Documented)
    (htrips : crates.RoundTrips) (h : s.Intact crates) (may : Verified crates s event) :
    (s.apply crates event).Intact crates := by
  obtain ⟨view, hholds⟩ := h.contents
  cases event with
  | elapsed time => exact ⟨h.sized, view, hholds⟩
  | uploaded ns digest source =>
      constructor
      · intro other content hcontent
        rw [show (s.apply crates (.uploaded ns digest source)).stores.blobs other = _ from
          blobs_upload other] at hcontent
        split at hcontent
        · next hnew =>
            rw [hnew.1, ← Option.some.inj hcontent]
            exact may.1
        · exact h.sized other content hcontent
      · let outcome := (s.stores.putObject digest source).1
        have hmetadata : (s.apply crates (.uploaded ns digest source)).stores.metadata =
            (PostgresMetadata.exec crates s.now (.registerBlob ns digest outcome)
              s.stores.metadata).2 :=
          congrArg Stores.metadata stores_upload
        rw [hmetadata]
        rcases PostgresMetadata.meetsSpec hrules htrips s.now (.registerBlob ns digest outcome)
            s.stores.metadata view hholds with ⟨error, hfailed⟩ | ⟨_, hlater⟩
        · rw [hfailed]
          exact ⟨view, hholds⟩
        · exact ⟨_, hlater⟩
  | expired kept =>
      refine ⟨fun digest content hcontent => ?_, view, hholds⟩
      by_cases hkept : kept digest = true
      · exact h.sized digest content ((blobs_expire_of_kept hkept).symm.trans hcontent)
      · cases (blobs_expire_of_not hkept).symm.trans hcontent
  | swept olderThanDays =>
      exact ⟨h.sized, (Database.sweep_shrinks _ s.now olderThanDays).holds hholds⟩

end Retention

/-! ## The pack -/

/-- The pack is sent to its end, and its frames are the requested objects that are
both visible and still stored, each once and in order. -/
structure Delivers (crates : Crates) (s : Retention) (ns : String) (digests : List Digest)
    (response : PackResponse) : Prop where
  unbroken : broken response.body = false
  frames : ∃ frames bytes, contents response.body = BLOB_PACK_MAGIC ++ bytes ∧
    FramesOf crates frames bytes ∧
    (frames.map Prod.fst = digests.eraseDups.filter fun digest =>
      (s.row ns digest).isSome && (s.stores.blobs digest).isSome) ∧
    ∀ frame ∈ frames, s.stores.blobs frame.1 = some frame.2

/-- The requested digests a namespace sees are those with a row. -/
theorem visibleDigests_eq_rows {s : Retention} {view : MetadataView}
    (hholds : PostgresMetadata.Holds crates s.stores.metadata view) (ns : String)
    (digests : List Digest) : visibleDigests view ns digests =
      digests.eraseDups.filter fun digest => (s.row ns digest).isSome := by
  apply List.filter_congr
  intro digest _
  rw [Bool.eq_iff_iff]
  simp only [decide_eq_true_eq]
  exact (hholds.visible ns digest).symm

/-- What `packBlobs` lists and sends: the requested digests with a row, and for each
what storage holds. -/
theorem exists_of_run_packBlobs {s : Retention} {state : AppState} {headers : HeaderMap}
    {digests : List Digest} {response : PackResponse} {later : Stores Database}
    (hrules : crates.digests.Documented) (htrips : crates.RoundTrips) (h : s.Intact crates)
    (hrun : run (Stores.exec chunking (PostgresMetadata.exec crates s.now))
      (packBlobs crates state headers digests) s.stores = (.ok response, later)) :
    ∃ ns reads, state.auth.authorize crates headers .read = .ok ns ∧
      response.body = .ok BLOB_PACK_MAGIC :: framesSent reads ∧
      (∀ read ∈ reads, packBlobHeader crates read.1.2 = .ok read.1.1 ∧
        read.2 = .ok ((s.stores.blobs read.1.2).map (Stores.blobOf chunking))) ∧
      reads.map (·.1.2) = digests.eraseDups.filter fun digest => (s.row ns digest).isSome := by
  rw [packBlobs_eq] at hrun
  obtain ⟨pack, seen, hhead, hrun⟩ := exists_of_run_bind_ok _ hrun
  obtain ⟨hblobs, ns, visible, hauth, hanswer, hlisted⟩ := exists_of_run_packHead hhead
  obtain ⟨view, hholds⟩ := h.contents
  obtain ⟨added, hentries, hdigests, hheaders, _⟩ := packEntries_foldlM hlisted
  rw [List.nil_append] at hentries
  have hrows : visible = digests.eraseDups.filter fun digest => (s.row ns digest).isSome := by
    rw [← visibleDigests_eq_rows hholds]
    exact visible_of_meetsSpec (PostgresMetadata.meetsSpec hrules htrips s.now) hholds hanswer
  rw [run_bind_ok _ (run_streamEntries_stores chunking _ seen pack.entries), hblobs] at hrun
  let reads : List PackRead := pack.entries.map fun entry =>
    (entry, .ok ((s.stores.blobs entry.2).map (Stores.blobOf chunking)))
  refine ⟨ns, reads, hauth, ?_, fun read hmem => ?_, ?_⟩
  · rw [← Except.ok.inj (Prod.mk.inj hrun).1]
  · obtain ⟨entry, hentry, rfl⟩ := List.mem_map.mp hmem
    exact ⟨hheaders entry (hentries ▸ hentry), rfl⟩
  · rw [← hrows, ← hdigests, ← hentries, List.map_map]
    rfl

/-- Whoever may read and asks for a list within the limits is answered. -/
theorem exists_run_packBlobs {s : Retention} {state : AppState} {headers : HeaderMap}
    {digests : List Digest} {ns : String} {request : PackRequest} {pack : PackEntries}
    (hrules : crates.digests.Documented) (h : s.Intact crates)
    (hauth : state.auth.authorize crates headers .read = .ok ns)
    (hrequest : packRequest crates state.maxBlobBytes digests = .ok request)
    (hns : textParameter ns = true)
    (hlisted : packEntries crates
      (digests.eraseDups.filter fun digest => (s.row ns digest).isSome) = .ok pack) :
    ∃ response later, run (Stores.exec chunking (PostgresMetadata.exec crates s.now))
      (packBlobs crates state headers digests) s.stores = (.ok response, later) := by
  obtain ⟨view, hholds⟩ := h.contents
  obtain ⟨_, _, hadded⟩ := bind_eq_ok.mp hrequest
  obtain ⟨hrequested, _, _, hvalid⟩ := packRequest_foldlM digests hadded
  have hanswer : (PostgresMetadata.exec crates s.now (.visibleBlobs ns request.requested)
      s.stores.metadata).1 =
        .ok (digests.eraseDups.filter fun digest => (s.row ns digest).isSome) := by
    rcases hholds.run_visibleBlobs s.now hrules ns request.requested with hmet | ⟨hnot, _⟩
    · rw [← visibleDigests_eq_rows hholds, visibleDigests, ← hrequested]
      exact congrArg Prod.fst hmet
    · apply absurd _ hnot
      refine ⟨hns, fun digest hmem => hvalid digest ?_⟩
      rwa [hrequested, List.mem_eraseDups] at hmem
  let exec := Stores.exec chunking (PostgresMetadata.exec crates s.now)
  have hvisible : run exec (callMetadata (.visibleBlobs ns request.requested)) s.stores =
      (.ok _, (exec (.metadata (.visibleBlobs ns request.requested)) s.stores).2) :=
    congrArg (·, _) (mapError_eq_ok.mpr hanswer)
  have htouched : ∀ (visible : List Digest) (stores : Stores Database),
      run exec (recordBlobAccess ns visible) stores =
        (.ok (), (exec (.metadata (.touchBlobs ns visible)) stores).2) := fun _ _ => rfl
  rw [packBlobs, hauth, hrequest]
  show ∃ response later, run exec (callMetadata (.visibleBlobs ns request.requested) >>= _)
    s.stores = (.ok response, later)
  rw [run_bind_ok _ hvisible, run_bind_ok _ (htouched _ _), hlisted]
  show ∃ response later, run exec (streamEntries pack.entries >>= _) _ = (.ok response, later)
  rw [run_bind_ok _ (run_streamEntries_stores chunking _ _ pack.entries)]
  exact ⟨_, _, rfl⟩

/-- A read of a listed object is kept exactly when the object is still there. -/
theorem Retention.Intact.kept_iff {s : Retention} (h : s.Intact crates) {read : PackRead}
    (hread : read.2 = .ok ((s.stores.blobs read.1.2).map (Stores.blobOf chunking))) :
    Kept read ↔ (s.stores.blobs read.1.2).isSome = true := by
  constructor
  · rintro ⟨blob, _, hanswer, _⟩
    rw [hread] at hanswer
    obtain ⟨content, hcontent, _⟩ := Option.map_eq_some_iff.mp (Except.ok.inj hanswer)
    rw [hcontent]
    rfl
  · intro hsome
    obtain ⟨content, hcontent⟩ := Option.isSome_iff_exists.mp hsome
    have hsized := h.sized read.1.2 content hcontent
    refine ⟨Stores.blobOf chunking content, chunking.chunks content, ?_, hsized, rfl, ?_⟩
    · rw [hread, hcontent]
      rfl
    · rw [chunking.flatten_chunks, hsized]

/-- In every reachable state: an accepted pack is sent to its end with exactly the
visible objects that are left if and only if every requested object with a row is
left. -/
theorem pack_delivers_iff (hrules : crates.digests.Documented) (htrips : crates.RoundTrips)
    {events : List Retention.Event} {s : Retention}
    (hrun : Retention.Run crates (Retention.Verified crates) Retention.empty events s)
    {state : AppState} {headers : HeaderMap} {digests : List Digest} {response : PackResponse}
    {later : Stores Database}
    (haccepted : run (Stores.exec chunking (PostgresMetadata.exec crates s.now))
      (packBlobs crates state headers digests) s.stores = (.ok response, later)) :
    ∃ ns, state.auth.authorize crates headers .read = .ok ns ∧
      (Delivers crates s ns digests response ↔
        ∀ digest ∈ digests, s.row ns digest ≠ none → s.stores.blobs digest ≠ none) := by
  have hintact : s.Intact crates := hrun.preserves Retention.intact_empty
    fun _ _ h may => h.apply hrules htrips may
  obtain ⟨ns, reads, hauth, hbody, hreads, hlisted⟩ :=
    exists_of_run_packBlobs hrules htrips hintact haccepted
  refine ⟨ns, hauth, ?_⟩
  have hread : ∀ digest, (∃ read ∈ reads, read.1.2 = digest) ↔
      digest ∈ digests ∧ s.row ns digest ≠ none := by
    intro digest
    rw [← List.mem_map, hlisted, List.mem_filter, List.mem_eraseDups, Option.isSome_iff_ne_none]
  have hunbroken : broken response.body = false ↔
      ∀ digest ∈ digests, s.row ns digest ≠ none → s.stores.blobs digest ≠ none := by
    rw [hbody, broken_ok, broken_framesSent]
    constructor
    · intro hkept digest hmem hrow
      obtain ⟨read, hin, rfl⟩ := (hread digest).mpr ⟨hmem, hrow⟩
      exact Option.isSome_iff_ne_none.mp ((hintact.kept_iff (hreads read hin).2).mp (hkept read hin))
    · intro hleft read hin
      obtain ⟨hmem, hrow⟩ := (hread read.1.2).mp ⟨read, hin, rfl⟩
      exact (hintact.kept_iff (hreads read hin).2).mpr
        (Option.isSome_iff_ne_none.mpr (hleft read.1.2 hmem hrow))
  constructor
  · exact fun h => hunbroken.mp h.unbroken
  · intro hleft
    have hkept : ∀ read ∈ reads, Kept read := by
      have hsent := hunbroken.mpr hleft
      rwa [hbody, broken_ok, broken_framesSent] at hsent
    refine ⟨hunbroken.mpr hleft, reads.map fun read => (read.1.2, objectRead read),
      contents (framesSent reads), ?_, ?_, ?_, fun frame hmem => ?_⟩
    · rw [hbody, contents_ok]
    · exact framesOf_framesSent (fun read hin => (hreads read hin).1) hkept
    · rw [List.map_map]
      refine hlisted.trans (List.filter_congr fun digest hmem => ?_)
      cases hrow : s.row ns digest with
      | none => rfl
      | some row =>
          have hstored := hleft digest (List.mem_eraseDups.mp hmem) (by simp [hrow])
          rw [Option.isSome_iff_ne_none.mpr hstored]
          rfl
    · obtain ⟨read, hin, rfl⟩ := List.mem_map.mp hmem
      obtain ⟨content, hcontent⟩ :=
        Option.isSome_iff_exists.mp ((hintact.kept_iff (hreads read hin).2).mp (hkept read hin))
      have hobject : objectRead read = content := by
        rw [objectRead, (hreads read hin).2, hcontent]
        exact (contents_map_ok _).trans (chunking.flatten_chunks content)
      rw [hobject]
      exact hcontent

end

/-! ### One expired object -/

/-- Two objects are uploaded, and one of them expires. -/
def twoUploads : List Retention.Event :=
  [.uploaded "acme/app" Sample.taskActionDigest Sample.taskActionText,
    .uploaded "acme/app" Sample.emptyDigest []]

def oneExpired : List Retention.Event :=
  twoUploads ++ [.expired (· ≠ Sample.taskActionDigest)]

def stateAfter (events : List Retention.Event) : Retention :=
  events.foldl (fun s event => s.apply Sample.crates event) Retention.empty

theorem run_twoUploads : Retention.Run Sample.crates (Retention.Verified Sample.crates)
    Retention.empty twoUploads (stateAfter twoUploads) := by
  have hfirst : Retention.Run Sample.crates (Retention.Verified Sample.crates)
      Retention.empty _ _ := Retention.Run.start.step
        (.uploaded "acme/app" Sample.taskActionDigest Sample.taskActionText)
        ⟨by decide +kernel, .blake3, by decide +kernel, by decide +kernel⟩
  exact hfirst.step (.uploaded "acme/app" Sample.emptyDigest [])
    ⟨by decide +kernel, .blake3, by decide +kernel, by decide +kernel⟩

theorem run_oneExpired : Retention.Run Sample.crates (Retention.Verified Sample.crates)
    Retention.empty oneExpired (stateAfter oneExpired) :=
  run_twoUploads.step (.expired (· ≠ Sample.taskActionDigest)) trivial

def asked : List Digest := [Sample.taskActionDigest, Sample.emptyDigest]

/-- The pack that is asked for in a state. -/
def askedPack (s : Retention) : Except ApiError PackResponse × Stores Database :=
  run (Stores.exec .whole (PostgresMetadata.exec Sample.crates s.now))
    (packBlobs Sample.crates Sample.state Sample.headers asked) s.stores

/-- It is answered wherever both objects have a row. -/
theorem exists_askedPack {s : Retention} (hintact : s.Intact Sample.crates)
    (hrows : (asked.eraseDups.filter fun digest => (s.row "acme/app" digest).isSome) = asked) :
    ∃ response later, askedPack s = (.ok response, later) := by
  have hrequest : (packRequest Sample.crates Sample.state.maxBlobBytes asked).isOk = true := by
    decide +kernel
  have hlisted : (packEntries Sample.crates asked).isOk = true := by decide +kernel
  obtain ⟨request, hrequest⟩ := exists_of_isOk hrequest
  obtain ⟨pack, hlisted⟩ := exists_of_isOk hlisted
  exact exists_run_packBlobs Sample.documented hintact (Sample.authorize .read) hrequest
    (by decide) (hrows.symm ▸ hlisted)

theorem intact_of_run {events : List Retention.Event} {s : Retention}
    (hrun : Retention.Run Sample.crates (Retention.Verified Sample.crates) Retention.empty
      events s) : s.Intact Sample.crates :=
  hrun.preserves Retention.intact_empty
    fun _ _ h may => h.apply Sample.documented Sample.roundTrips may

/-- While both are left, both are sent. -/
theorem pack_delivers_iff_sample : ∃ response later,
    askedPack (stateAfter twoUploads) = (.ok response, later) ∧
      Delivers Sample.crates (stateAfter twoUploads) "acme/app" asked response := by
  have hleft : asked.all (fun digest =>
      ((stateAfter twoUploads).stores.blobs digest).isSome) = true := by
    decide +kernel
  obtain ⟨response, later, hpack⟩ :=
    exists_askedPack (intact_of_run run_twoUploads) (by decide +kernel)
  obtain ⟨ns, hauth, hdelivers⟩ :=
    pack_delivers_iff Sample.documented Sample.roundTrips run_twoUploads hpack
  obtain rfl : "acme/app" = ns := Except.ok.inj ((Sample.authorize .read).symm.trans hauth)
  refine ⟨response, later, hpack, hdelivers.mpr fun digest hmem _ => ?_⟩
  exact Option.isSome_iff_ne_none.mp (List.all_eq_true.mp hleft digest hmem)

/-- The other object is left, and the pack breaks before it. -/
theorem expired_object_breaks_pack : ∃ response later,
    Retention.Run Sample.crates (Retention.Verified Sample.crates) Retention.empty oneExpired
        (stateAfter oneExpired) ∧
      askedPack (stateAfter oneExpired) = (.ok response, later) ∧
      ((stateAfter oneExpired).stores.blobs Sample.emptyDigest).isSome = true ∧
      contents response.body = BLOB_PACK_MAGIC ∧
      ¬Delivers Sample.crates (stateAfter oneExpired) "acme/app" asked response := by
  have hrows : (asked.eraseDups.filter fun digest =>
      ((stateAfter oneExpired).row "acme/app" digest).isSome) = asked := by
    decide +kernel
  obtain ⟨response, later, hpack⟩ := exists_askedPack (intact_of_run run_oneExpired) hrows
  obtain ⟨ns, reads, hauth, hbody, hreads, hlisted⟩ := exists_of_run_packBlobs Sample.documented
    Sample.roundTrips (intact_of_run run_oneExpired) hpack
  obtain rfl : "acme/app" = ns := Except.ok.inj ((Sample.authorize .read).symm.trans hauth)
  rw [hrows] at hlisted
  have hsent : framesSent reads = [.error "visible blob is missing from storage"] := by
    match reads, hlisted with
    | ((header, digest), answer) :: reads, hlisted =>
        obtain ⟨hdigest, _⟩ := List.cons.inj hlisted
        obtain rfl : digest = Sample.taskActionDigest := hdigest
        obtain ⟨_, hanswer⟩ := hreads _ List.mem_cons_self
        have hgone : (stateAfter oneExpired).stores.blobs Sample.taskActionDigest = none := by
          decide +kernel
        dsimp only at hanswer
        rw [hgone] at hanswer
        rw [hanswer]
        rfl
  rw [hsent] at hbody
  refine ⟨response, later, run_oneExpired, hpack, by decide +kernel, ?_, fun hdelivers => ?_⟩
  · rw [hbody]
    rfl
  · have hunbroken := hdelivers.unbroken
    rw [hbody] at hunbroken
    cases hunbroken

end MbxCache.Server
