/-
# What a request may cost

How many objects a request reads and writes and how many statements it sends depends on
the request alone, whatever the stores hold and however they answer: the reads of an
output tree end because no directory of it is read twice, those of a pack because only
digests that were asked for are visible, and an upload because its pack declares how
many blobs there are. Visibility probes are free here; there is one for each file of a
tree that is read.
-/

import MbxCache.Foundation.Monitor
import MbxCache.Pack.Starts
import MbxCache.Server.PackReceive
import MbxCache.Server.Runs

namespace MbxCache.Server

open Foundation Program Pack

/-! ## Prices -/

/-- What a call of each kind costs. -/
structure Prices where
  read : ℕ
  upload : ℕ
  query : ℕ
  write : ℕ

namespace Prices

def call (prices : Prices) : StoreOp → ℕ
  | .blobs (.get _) => prices.read
  | .blobs (.put _ _) => prices.upload
  | .metadata (.blobVisible _ _) => 0
  | .metadata (.visibleBlobs _ _) | .metadata (.get _ _) | .metadata (.getBatch _ _)
  | .metadata (.getManifest _ _) => prices.query
  | .metadata (.touchBlobs _ _) | .metadata (.registerBlob _ _ _) | .metadata (.commit _ _ _)
  | .metadata (.commitManifest _ _ _ _ _) => prices.write

/-- An object that is put and made visible. -/
def publish (prices : Prices) : ℕ := prices.upload + prices.write

/-- What a request may cost. A result has its descriptor, its metadata and its tree read
back. -/
def budget (prices : Prices) : Request → ℕ
  | .getBlob _ _ => prices.write + prices.read
  | .putBlob _ _ _ => prices.publish
  | .putBlobPack _ _ => MAX_BATCH_ITEMS * prices.publish
  | .missingBlobs _ _ => prices.query
  | .packBlobs _ digests =>
      prices.query + (prices.write + min digests.length MAX_BATCH_ITEMS * prices.read)
  | .getActionResult _ _ => prices.query
  | .batchActionResults _ _ => prices.query
  | .putActionResult _ _ _ =>
      prices.read + (prices.read + maxDirectories * prices.read) + prices.write
  | .getActionManifest _ _ => prices.query
  | .putActionManifest _ _ _ => prices.write

end Prices

/-- A store names no more visible digests than it was asked about. -/
def Possible : (op : StoreOp) → op.Answer → Prop
  | .metadata (.visibleBlobs _ digests), .ok visible => visible.length ≤ digests.length
  | _, _ => True

theorem possible_of_answers {crates : Crates} {op : StoreOp} {stores later : Held}
    {answer : op.Answer} (h : Stores.Answers (MemoryMetadata.exec crates) op stores answer later) :
    Possible op answer := by
  cases h with
  | answered chunking =>
      cases op with
      | blobs op => trivial
      | metadata op =>
          cases op with
          | visibleBlobs ns digests => exact List.length_filter_le _ _
          | _ => trivial
  | refused op stores error =>
      cases op with
      | blobs op => trivial
      | metadata op => cases op <;> trivial
  | lost op stores error =>
      cases op with
      | blobs op => trivial
      | metadata op => cases op <;> trivial
  | interrupted => trivial

/-! ## Output trees -/

/-- The object a call reads. -/
def StoreOp.fetched : StoreOp → Option Digest
  | .blobs (.get digest) => some digest
  | _ => none

/-- A call that asks whether one blob is visible. -/
def StoreOp.Probes : StoreOp → Prop
  | .metadata (.blobVisible _ _) => True
  | _ => False

/-- The monitor of the objects that have been read, beside probes. -/
abbrev Fetches : Finset Digest → StoreOp → Finset Digest → Prop :=
  Asks StoreOp.Probes StoreOp.fetched maxDirectories

section Tree

variable {crates : Crates} {ns : String} {may : (op : StoreOp) → op.Answer → Prop}
  {digest : Digest} {asked : Finset Digest}

theorem fetches_blobVisible :
    Watched may Fetches (fun _ later => later = asked) (callMetadata (.blobVisible ns digest))
      asked := by
  refine ⟨asked, (asks_of_none rfl).mpr ⟨trivial, rfl⟩, fun answer _ => ?_⟩
  exact watched_done fun _ _ => rfl

theorem fetches_requireBlob {label : String} :
    Watched may Fetches (fun _ later => later = asked) (requireBlob crates ns digest label)
      asked := by
  apply watched_lift
  intro _ _
  apply fetches_blobVisible.bind
  rintro visible _ rfl
  exact watched_done fun _ _ => rfl

theorem fetches_readDirectory (hnew : digest ∉ asked)
    (hlimit : (insert digest asked).card ≤ maxDirectories) :
    Watched may Fetches (fun _ later => later = insert digest asked)
      (readDirectory crates ns digest) asked := by
  apply watched_lift
  intro _ _
  have hread : Watched may Fetches (fun _ later => later = insert digest asked)
      (readVisibleObject ns digest "directory object is missing") asked := by
    apply fetches_blobVisible.bind
    intro visible later hlater
    rw [hlater]
    apply watched_lift
    intro _ _
    have hkey : StoreOp.fetched (.blobs (.get digest)) = some digest := rfl
    have hfetch : Fetches asked (.blobs (.get digest)) (insert digest asked) :=
      (asks_of_some hkey).mpr ⟨hnew, rfl, hlimit⟩
    refine ⟨insert digest asked, hfetch, fun answer _ => ?_⟩
    apply watched_lift
    intro found _
    apply watched_lift
    intro blob _
    exact watched_done fun _ _ => rfl
  apply hread.bind
  rintro bytes _ rfl
  apply watched_lift
  intro directory _
  have hfiles : Watched may Fetches (fun _ later => later = insert digest asked)
      (directory.files.forM fun file => requireBlob crates ns file.digest "file blob")
      (insert digest asked) := by
    apply watched_forM (fun later => later = insert digest asked) _ rfl
    rintro file _ rfl
    exact fetches_requireBlob
  apply hfiles.bind
  exact fun _ _ hlater => hlater

/-- The walk reads only directories that it has neither seen nor entered. -/
theorem fetches_visitTree (pending : List Visit) (visiting seen : Finset Digest)
    (hasked : asked ⊆ seen ∪ visiting) :
    Watched may Fetches (fun _ _ => True) (visitTree crates ns pending visiting seen) asked := by
  fun_induction visitTree crates ns pending visiting seen generalizing asked with
  | case1 => trivial
  | case2 visiting seen digest pending ih =>
      apply ih
      intro other hother
      rcases eq_or_ne other digest with rfl | hne
      · exact Finset.mem_union_left _ (Finset.mem_insert_self other seen)
      · rcases Finset.mem_union.mp (hasked hother) with hseen | hvisiting
        · exact Finset.mem_union_left _ (Finset.mem_insert_of_mem hseen)
        · exact Finset.mem_union_right _ (Finset.mem_erase.mpr ⟨hne, hvisiting⟩)
  | case3 visiting seen digest pending hseen ih => exact ih hasked
  | case4 => trivial
  | case5 => trivial
  | case6 visiting seen digest pending hseen hvisiting hbound ih =>
      have hnew : digest ∉ asked := by
        intro hin
        rcases Finset.mem_union.mp (hasked hin) with h | h
        · exact hseen h
        · exact hvisiting h
      have hmore : insert digest asked ⊆ seen ∪ insert digest visiting := by
        rw [Finset.union_insert]
        exact Finset.insert_subset_insert digest hasked
      have hlimit : (insert digest asked).card ≤ maxDirectories :=
        (Finset.card_le_card hmore).trans (card_union_enter hseen hvisiting hbound).2
      apply (fetches_readDirectory hnew hlimit).bind
      rintro directory _ rfl
      exact ih directory hmore

/-- Whatever objects refer to each other, no directory of a tree is read twice, and at
most so many are. -/
theorem fetches_validateTree (root : Digest) :
    Watched may Fetches (fun _ _ => True) (validateTree crates ns root) ∅ :=
  fetches_visitTree _ _ _ (Finset.empty_subset _)

theorem costs_validateTree (prices : Prices) (root : Digest) :
    Costs may prices.call (maxDirectories * prices.read) (validateTree crates ns root) := by
  apply (fetches_validateTree root).costs_asked
  · intro op hprobes
    cases op with
    | blobs op => exact hprobes.elim
    | metadata op =>
        cases op with
        | blobVisible ns digest => rfl
        | _ => exact hprobes.elim
  · intro op fetched hfetched
    cases op with
    | blobs op =>
        cases op with
        | get digest => exact Nat.le_refl _
        | put digest source => cases hfetched
    | metadata op => cases hfetched

end Tree

/-! ## Uploads -/

section Uploads

variable {crates : Crates} {prices : Prices} {ns : String}
  {may : (op : StoreOp) → op.Answer → Prop}

theorem pays_publishBlob {digest : Digest} {source : Bytes} {left : ℕ} :
    Watched may (Pays prices.call) (fun _ later => later = left) (publishBlob ns digest source)
      (prices.publish + left) := by
  refine ⟨left + prices.write, ?_, fun answer _ => ?_⟩
  · show left + prices.write + prices.upload = prices.upload + prices.write + left
    omega
  · apply watched_lift
    intro outcome _
    refine ⟨left, rfl, fun answer _ => ?_⟩
    apply watched_lift
    exact fun _ _ => rfl

/-- One for a frame that has been started and waits for its end. -/
def PackUpload.opened (upload : PackUpload crates) : ℕ := if upload.frame.isSome then 1 else 0

/-- What an upload may still cost while its reader is at this count: the open frame, the
frames that these events start and those that the declaration leaves. -/
structure Affords (prices : Prices) (declared : ℕ) (events : List PackEvent)
    (upload : PackUpload crates) (left : ℕ) : Prop where
  limit : upload.reader.maxBlobs = declared
  counted : upload.reader.blobs ≤ declared
  covered : (upload.opened + events.countP PackEvent.isStarted +
    (declared - upload.reader.blobs)) * prices.publish ≤ left

theorem pays_handleEvent {declared : ℕ} {event : PackEvent} {events : List PackEvent}
    {upload : PackUpload crates} {left : ℕ}
    (h : Affords prices declared (event :: events) upload left) :
    Watched may (Pays prices.call) (Affords prices declared events) (upload.handleEvent ns event)
      left := by
  obtain ⟨hdeclared, hcounted, hleft⟩ := h
  cases event with
  | started digest =>
      refine ⟨hdeclared, hcounted, le_trans (Nat.mul_le_mul_right _ ?_) hleft⟩
      rw [List.countP_cons_of_pos rfl]
      show 1 + events.countP PackEvent.isStarted + (declared - upload.reader.blobs) ≤ _
      omega
  | payload payload =>
      rw [List.countP_cons_of_neg Bool.false_ne_true] at hleft
      apply watched_lift
      intro frame hframe
      apply watched_lift
      intro written _
      refine ⟨hdeclared, hcounted, ?_⟩
      have hopened : upload.opened = 1 := by
        rw [PackUpload.opened, okOr_eq_ok.mp hframe]
        rfl
      rw [hopened] at hleft
      exact hleft
  | complete =>
      rw [List.countP_cons_of_neg Bool.false_ne_true] at hleft
      apply watched_lift
      intro frame hframe
      have hopened : upload.opened = 1 := by
        rw [PackUpload.opened, okOr_eq_ok.mp hframe]
        rfl
      rw [hopened, Nat.add_assoc, Nat.add_mul, Nat.one_mul] at hleft
      obtain ⟨spare, rfl⟩ := Nat.exists_eq_add_of_le ((Nat.le_add_right _ _).trans hleft)
      have hstore : Watched may (Pays prices.call) (fun _ later => later = spare) (frame.store ns)
          (prices.publish + spare) := by
        apply watched_lift
        exact fun _ _ => pays_publishBlob
      apply hstore.bind
      rintro outcome _ rfl
      refine ⟨?_, ?_, ?_⟩
      · rw [PackUpload.count_reader]
        exact hdeclared
      · rw [PackUpload.count_reader]
        exact hcounted
      · have hclosed : (({ upload with frame := none } : PackUpload crates).count outcome).opened = 0 := by
          rw [PackUpload.opened, PackUpload.count_frame]
          rfl
        rw [hclosed, PackUpload.count_reader, Nat.zero_add]
        exact Nat.le_of_add_le_add_left hleft

theorem pays_handleChunk {declared : ℕ} {upload : PackUpload crates} {left : ℕ}
    {chunk : Except String Bytes} (h : Affords prices declared [] upload left) :
    Watched may (Pays prices.call) (Affords prices declared []) (upload.handleChunk ns chunk)
      left := by
  apply watched_lift
  intro piece _
  obtain ⟨hdeclared, hcounted, hleft⟩ := h
  cases hpush : upload.reader.push piece with
  | mk result reader =>
      cases result with
      | error error => trivial
      | ok events =>
          have hstarts := PackReader.starts_push hpush
          have hbounded := hstarts.bounded
          rw [hdeclared] at hbounded
          apply watched_foldlM (Affords prices declared) fun _ _ _ _ hbefore =>
            pays_handleEvent hbefore
          refine ⟨?_, hbounded hcounted, ?_⟩
          · exact hstarts.limits.maxBlobs.trans hdeclared
          · refine le_trans (Nat.mul_le_mul_right _ ?_) hleft
            show upload.opened + events.countP PackEvent.isStarted + (declared - reader.blobs) ≤
              upload.opened + 0 + (declared - upload.reader.blobs)
            have hcount := hstarts.counted
            have hle := hbounded hcounted
            omega

theorem pays_receivePack {maxBlobBytes : UInt64} {declaredBlobs declaredBytes : ℕ}
    {body : ByteStream} :
    Watched may (Pays prices.call) (fun _ _ => True)
      (receivePack crates maxBlobBytes ns declaredBlobs declaredBytes body)
      (declaredBlobs * prices.publish) := by
  have hbody : Watched may (Pays prices.call) (Affords prices declaredBlobs [])
      (body.foldlM (PackUpload.handleChunk ns)
        { reader := PackReader.new maxBlobBytes.toNat declaredBlobs declaredBytes
          frame := none, created := 0, existing := 0 : PackUpload crates })
      (declaredBlobs * prices.publish) := by
    apply watched_foldlM (fun _ => Affords prices declaredBlobs []) fun _ _ _ _ hbefore =>
      pays_handleChunk hbefore
    refine ⟨rfl, Nat.zero_le _, ?_⟩
    show (0 + 0 + (declaredBlobs - 0)) * prices.publish ≤ _
    simp
  apply hbody.bind
  intro upload left _
  apply watched_lift
  intro _ _
  apply watched_lift
  exact fun _ _ => trivial

end Uploads

/-! ## Requests -/

section Requests

variable {crates : Crates} {state : AppState} {prices : Prices}
  {may : (op : StoreOp) → op.Answer → Prop}

theorem costs_callMetadata (op : MetadataOp) :
    Costs may prices.call (prices.call (.metadata op)) (callMetadata op) :=
  costs_call fun _ _ => costs_done 0 _

theorem costs_get (digest : Digest) :
    Costs may prices.call prices.read (callBlobs (.get digest)) :=
  costs_call fun _ _ => costs_done 0 _

theorem costs_blobVisible (ns : String) (digest : Digest) :
    Costs may prices.call 0 (callMetadata (.blobVisible ns digest)) :=
  costs_callMetadata (.blobVisible ns digest)

theorem costs_recordBlobAccess (ns : String) (digests : List Digest) :
    Costs may prices.call prices.write (recordBlobAccess ns digests) :=
  costs_call fun _ _ => costs_done 0 _

theorem costs_requireBlob (ns : String) (digest : Digest) (label : String) :
    Costs may prices.call 0 (requireBlob crates ns digest label) := by
  apply costs_lift
  intro _ _
  exact (costs_blobVisible ns digest).bind_free fun _ => costs_done 0 _

theorem costs_readCanonicalObject (ns : String) (digest : Digest) (label : String) :
    Costs may prices.call prices.read (readCanonicalObject crates ns digest label) := by
  apply costs_lift
  intro _ _
  apply costs_lift
  intro _ _
  have hread : Costs may prices.call prices.read
      (readVisibleObject ns digest s!"{label} blob is missing") := by
    apply (costs_blobVisible ns digest).free_bind
    intro visible
    apply costs_lift
    intro _ _
    apply (costs_get digest).bind_free
    intro found
    apply costs_lift
    exact fun _ _ => costs_done 0 _
  exact hread.bind_free fun _ => costs_done 0 _

theorem costs_validateClientMetadata (ns : String) (digest : Digest) (kind : ActionKind) :
    Costs may prices.call prices.read (validateClientMetadata crates ns digest kind) := by
  apply (costs_readCanonicalObject ns digest "client metadata").bind_free
  intro value
  apply costs_lift
  intro streams _
  cases streams with
  | none => exact costs_done 0 _
  | some pair =>
      exact (costs_requireBlob ns pair.1 _).bind_free fun _ => costs_requireBlob ns pair.2 _

theorem costs_whenPresent {budget : ℕ} {check : Digest → Handler Unit} (reference : Option Digest)
    (hcheck : ∀ digest, Costs may prices.call budget (check digest)) :
    Costs may prices.call budget (whenPresent reference check) := by
  cases reference with
  | none => exact costs_done budget _
  | some digest => exact hcheck digest

theorem costs_validateResult (ns : String) (action : Digest) (result : ActionResult) :
    Costs may prices.call (prices.read + (prices.read + maxDirectories * prices.read))
      (validateResult crates ns action result) := by
  have hdescriptor : Costs may prices.call prices.read
      (validateActionDescriptor crates ns action) :=
    (costs_readCanonicalObject ns action "action descriptor").bind_free fun _ => costs_done 0 _
  apply hdescriptor.bind
  intro kind
  apply costs_lift
  intro _ _
  apply (costs_whenPresent result.metadata fun metadata =>
    costs_validateClientMetadata ns metadata kind).bind
  intro _
  exact costs_whenPresent result.outputRoot fun root => costs_validateTree prices root

theorem costs_streamEntries (entries : List (Bytes × Digest)) :
    Costs may prices.call (entries.length * prices.read) (streamEntries entries) := by
  induction entries with
  | nil => exact costs_done _ _
  | cons entry entries ih =>
      have hread : Costs may prices.call prices.read (readObject entry.2) :=
        costs_call fun _ _ => costs_done 0 _
      rw [List.length_cons, Nat.succ_mul, Nat.add_comm]
      apply hread.bind
      intro answer
      cases openEntry entry.2 answer with
      | error error => exact costs_done _ _
      | ok blob =>
          dsimp only
          split
          · exact costs_done _ _
          · exact ih.bind_free fun _ => costs_done 0 _

/-- The digests that are sent are visible ones among those that were asked for. -/
theorem costs_packBlobs (headers : HeaderMap) (digests : List Digest) :
    Costs Possible prices.call (prices.budget (.packBlobs headers digests))
      (packBlobs crates state headers digests) := by
  apply costs_lift
  intro ns _
  apply costs_lift
  intro request hrequest
  obtain ⟨_, hlimit, hadded⟩ := bind_eq_ok.mp hrequest
  have hdigests : digests.length ≤ MAX_BATCH_ITEMS := by simpa using hlimit
  apply costs_call
  intro answer hanswer
  apply costs_lift
  intro visible hvisible
  obtain rfl := mapError_eq_ok.mp hvisible
  apply (costs_recordBlobAccess ns visible).bind
  intro _
  apply costs_lift
  intro pack hpack
  have hentries : pack.entries.length = visible.length := by
    obtain ⟨added, hentries, hadded, _⟩ := packEntries_foldlM hpack
    rw [hentries, List.nil_append, ← hadded, List.length_map]
  have hcount : pack.entries.length ≤ min digests.length MAX_BATCH_ITEMS := by
    rw [hentries, Nat.min_eq_left hdigests]
    refine le_trans hanswer ?_
    rw [(packRequest_foldlM digests hadded).1]
    exact length_eraseDups_le digests
  apply Costs.bind_free ((costs_streamEntries pack.entries).mono
    (Nat.mul_le_mul_right prices.read hcount))
  exact fun _ => costs_done 0 _

/-- No request costs more than its budget. -/
theorem costs_handle (request : Request) :
    Costs Possible prices.call (prices.budget request) (handle crates state request) := by
  cases request with
  | getBlob headers parts =>
      apply Costs.map
      apply costs_lift
      intro ns _
      apply costs_lift
      intro digest _
      apply (costs_blobVisible ns digest).free_bind
      intro visible
      apply costs_lift
      intro _ _
      apply (costs_recordBlobAccess ns [digest]).bind
      intro _
      apply (costs_get digest).bind_free
      intro found
      apply costs_lift
      exact fun _ _ => costs_done 0 _
  | putBlob headers parts body =>
      apply Costs.map
      apply costs_lift
      intro ns _
      apply costs_lift
      intro _ _
      apply costs_lift
      intro digest _
      apply costs_lift
      intro spool _
      have hpublish : Costs Possible prices.call (prices.publish + 0)
          (publishBlob ns digest spool.bytes) := pays_publishBlob.costs
      exact hpublish.bind_free fun _ => costs_done 0 _
  | putBlobPack headers body =>
      apply Costs.map
      apply costs_lift
      intro ns _
      apply costs_lift
      intro declared hdeclared
      exact pays_receivePack.costs.mono
        (Nat.mul_le_mul_right _ (packDeclaration_eq_ok.mp hdeclared).blobs_le)
  | missingBlobs headers digests =>
      apply Costs.map
      apply costs_lift
      intro ns _
      apply costs_lift
      intro _ _
      exact (costs_callMetadata (.visibleBlobs ns digests)).bind_free fun _ => costs_done 0 _
  | packBlobs headers digests => exact (costs_packBlobs headers digests).map
  | getActionResult headers parts =>
      apply Costs.map
      apply costs_lift
      intro ns _
      apply costs_lift
      intro action _
      exact (costs_callMetadata (.get ns action)).bind_free fun _ => costs_done 0 _
  | batchActionResults headers digests =>
      apply Costs.map
      apply costs_lift
      intro ns _
      apply costs_lift
      exact fun requested _ => costs_callMetadata (.getBatch ns requested)
  | putActionResult headers parts result =>
      apply Costs.map
      apply costs_lift
      intro ns _
      apply costs_lift
      intro _ _
      apply costs_lift
      intro action _
      apply costs_lift
      intro _ _
      apply (costs_validateResult ns action result).bind
      intro _
      exact (costs_callMetadata (.commit ns action result)).bind_free fun _ => costs_done 0 _
  | getActionManifest headers parts =>
      apply Costs.map
      apply costs_lift
      intro ns _
      apply costs_lift
      intro key _
      apply (costs_callMetadata (.getManifest ns key)).bind_free
      intro found
      apply costs_lift
      intro record _
      apply costs_lift
      exact fun _ _ => costs_done 0 _
  | putActionManifest headers parts body =>
      apply Costs.map
      apply costs_lift
      intro ns _
      apply costs_lift
      intro accepted _
      apply costs_lift
      intro etag _
      apply (costs_callMetadata
        (.commitManifest ns accepted.2.1 accepted.2.2 etag accepted.1)).bind_free
      intro outcome
      apply costs_lift
      exact fun _ _ => costs_done 0 _

/-- A request that is not authorized makes no call. -/
theorem issues_of_unauthorized {request : Request} {e : ApiError} {ops : List StoreOp}
    (hauth : state.auth.authorize crates request.headers request.access = .error e)
    (h : Issues may (handle crates state request) ops) : ops = [] := by
  have hstopped : ∃ outcome, handle crates state request = done outcome := by
    cases request with
    | _ =>
        refine ⟨.error e, ?_⟩
        dsimp only [Request.headers, Request.access] at hauth
        simp only [handle, getBlob, putBlob, putBlobPack, missingBlobs, packBlobs,
          getActionResult, batchActionResults, putActionResult, getActionManifest,
          putActionManifest, hauth]
        rfl
  obtain ⟨outcome, hdone⟩ := hstopped
  rw [hdone] at h
  cases h
  rfl

end Requests

/-! ## The runs -/

section Runs

variable {crates : Crates} {state : AppState}

/-- Whatever objects refer to each other and whatever the stores answer, no directory of
an output tree is read twice, and no more of them than the limit. -/
theorem directories_read_once {ns : String} {root : Digest}
    {may : (op : StoreOp) → op.Answer → Prop} {ops : List StoreOp}
    (hops : Issues may (validateTree crates ns root) ops) :
    (ops.filterMap StoreOp.fetched).Nodup ∧
      (ops.filterMap StoreOp.fetched).length ≤ maxDirectories :=
  (fetches_validateTree root).asks_once hops

/-- A root that is visible and read, and then turns out to be missing. -/
theorem directories_read_once_missing :
    ∃ ops, Issues (fun _ _ => True) (validateTree Sample.crates "acme/app" Sample.taskMetadataDigest)
        ops ∧ ops.filterMap StoreOp.fetched = [Sample.taskMetadataDigest] ∧
      (ops.filterMap StoreOp.fetched).Nodup := by
  have hops : Issues (fun _ _ => True)
      (validateTree Sample.crates "acme/app" Sample.taskMetadataDigest)
      [.metadata (.blobVisible "acme/app" Sample.taskMetadataDigest),
        .blobs (.get Sample.taskMetadataDigest)] := by
    have hsmall : decide (Sample.taskMetadataDigest.size > maxObjectBytes) = false := by
      decide +kernel
    rw [validateTree, visitTree, dif_neg (Finset.notMem_empty _), dif_neg (Finset.notMem_empty _),
      dif_neg (by simp [maxDirectories]), readDirectory, hsmall]
    exact @Issues.cons _ _ _ _ _ _ _ (.ok true) _ trivial
      (@Issues.cons _ _ _ _ _ _ _ (.ok none) _ trivial (.nil _))
  exact ⟨_, hops, rfl, (directories_read_once hops).1⟩

end Runs

end MbxCache.Server
