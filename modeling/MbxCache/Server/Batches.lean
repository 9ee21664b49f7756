/-
# Batched lookups

A batch answers what single lookups would, in every state the handlers can reach and
whichever store keeps the results. That every stored result names the action it is
stored under is an invariant of all runs: only one handler commits results, and it
checks the name before.
-/

import MbxCache.Foundation.Concurrent
import MbxCache.Server.Merging
import MbxCache.Server.Namespaces
import MbxCache.Server.Runs

namespace MbxCache.Server

open Foundation Pack Program

/-! ## What is committed names its action -/

/-- A result is committed under the action it names. -/
def StoreOp.NamesAction : StoreOp → Prop
  | .metadata (.commit _ action result) => result.action = action
  | _ => True

theorem StoreOp.Reads.namesAction {op : StoreOp} (h : op.Reads) : op.NamesAction := by
  cases op with
  | blobs op => trivial
  | metadata op =>
      cases op with
      | commit => cases h
      | _ => trivial

section Handlers

variable {crates : Crates} {state : AppState} {headers : HeaderMap} {parts : DigestParts}

/-- One call that commits no result, and what follows it. -/
theorem namesAction_call {α : Type} {op : StoreOp} (hop : op.NamesAction)
    {next : op.Answer → Handler α} (hnext : ∀ answer, Calls StoreOp.NamesAction (next answer)) :
    Calls StoreOp.NamesAction (.call op next : Handler α) :=
  ⟨hop, hnext⟩

theorem namesAction_callMetadata (op : MetadataOp) (hop : (StoreOp.metadata op).NamesAction) :
    Calls StoreOp.NamesAction (callMetadata op) :=
  ⟨hop, fun _ => trivial⟩

theorem namesAction_publishBlob {ns : String} {digest : Digest} {source : Bytes} :
    Calls StoreOp.NamesAction (publishBlob ns digest source) := by
  have hput : Calls StoreOp.NamesAction (callBlobs (.put digest source)) :=
    ⟨trivial, fun _ => trivial⟩
  apply hput.bind
  intro outcome
  apply (namesAction_callMetadata (.registerBlob ns digest outcome) trivial).bind
  exact fun _ => trivial

theorem namesAction_handleEvent {ns : String} (upload : PackUpload crates) (event : PackEvent) :
    Calls StoreOp.NamesAction (upload.handleEvent ns event) := by
  cases event with
  | started digest => trivial
  | payload payload =>
      apply Calls.lift
      intro frame _
      apply Calls.lift
      exact fun _ _ => trivial
  | complete =>
      apply Calls.lift
      intro finished _
      have hstore : Calls StoreOp.NamesAction (finished.store ns) := by
        apply Calls.lift
        exact fun _ _ => namesAction_publishBlob
      exact hstore.bind fun _ => trivial

theorem namesAction_putBlobPack {body : ByteStream} :
    Calls StoreOp.NamesAction (putBlobPack crates state headers body) := by
  apply Calls.lift
  intro ns _
  apply Calls.lift
  intro declaration _
  have hchunk : ∀ (upload : PackUpload crates) (chunk : Except String Bytes),
      Calls StoreOp.NamesAction (upload.handleChunk ns chunk) := by
    intro upload chunk
    apply Calls.lift
    intro piece _
    apply Calls.lift
    exact fun events _ => calls_foldlM namesAction_handleEvent events _
  apply (calls_foldlM hchunk body _).bind
  intro upload
  apply Calls.lift
  intro _ _
  apply Calls.lift
  exact fun _ _ => trivial

theorem namesAction_streamEntries (entries : List (Bytes × Digest)) :
    Calls StoreOp.NamesAction (streamEntries entries) := by
  induction entries with
  | nil => trivial
  | cons entry entries ih =>
      have hread : Calls StoreOp.NamesAction (readObject entry.2) := ⟨trivial, fun _ => trivial⟩
      apply hread.bind
      intro answer
      cases openEntry entry.2 answer with
      | error error => trivial
      | ok blob =>
          dsimp only
          split
          · trivial
          · exact ih.bind fun _ => trivial

theorem namesAction_packBlobs {digests : List Digest} :
    Calls StoreOp.NamesAction (packBlobs crates state headers digests) := by
  apply Calls.lift
  intro ns _
  apply Calls.lift
  intro request _
  apply (namesAction_callMetadata (.visibleBlobs ns request.requested) trivial).bind
  intro visible
  have haccess : Calls StoreOp.NamesAction (recordBlobAccess ns visible) :=
    ⟨trivial, fun _ => trivial⟩
  apply haccess.bind
  intro _
  apply Calls.lift
  intro pack _
  exact (namesAction_streamEntries pack.entries).bind fun _ => trivial

theorem namesAction_getBlob : Calls StoreOp.NamesAction (getBlob crates state headers parts) := by
  apply Calls.lift
  intro ns _
  apply Calls.lift
  intro digest _
  apply (namesAction_callMetadata (.blobVisible ns digest) trivial).bind
  intro visible
  apply Calls.lift
  intro _ _
  have haccess : Calls StoreOp.NamesAction (recordBlobAccess ns [digest]) :=
    ⟨trivial, fun _ => trivial⟩
  apply haccess.bind
  intro _
  have hget : Calls StoreOp.NamesAction (callBlobs (.get digest)) := ⟨trivial, fun _ => trivial⟩
  apply hget.bind
  intro found
  apply Calls.lift
  exact fun _ _ => trivial

theorem namesAction_putBlob {body : ByteStream} :
    Calls StoreOp.NamesAction (putBlob crates state headers parts body) := by
  apply Calls.lift
  intro ns _
  apply Calls.lift
  intro _ _
  apply Calls.lift
  intro digest _
  apply Calls.lift
  intro spool _
  exact namesAction_publishBlob.bind fun _ => trivial

/-- The one handler that commits results compares the names before. -/
theorem namesAction_putActionResult {result : ActionResult} :
    Calls StoreOp.NamesAction (putActionResult crates state headers parts result) := by
  apply Calls.lift
  intro ns _
  apply Calls.lift
  intro _ _
  apply Calls.lift
  intro action _
  apply Calls.lift
  intro _ hchecked
  have hnames : result.action = action := by
    have hrefused := rejectIf_eq_ok.mp hchecked
    rw [Bool.or_eq_false_iff] at hrefused
    simpa using hrefused.2
  apply (reads_validateResult.imp fun _ => StoreOp.Reads.namesAction).bind
  intro _
  apply (namesAction_callMetadata (.commit ns action result) hnames).bind
  exact fun _ => trivial

theorem namesAction_handle (request : Request) :
    Calls StoreOp.NamesAction (handle crates state request) := by
  cases request with
  | getBlob headers parts => exact namesAction_getBlob.map
  | putBlob headers parts body => exact namesAction_putBlob.map
  | putBlobPack headers body => exact namesAction_putBlobPack.map
  | missingBlobs headers digests =>
      apply Calls.map
      apply Calls.lift
      intro ns _
      apply Calls.lift
      intro _ _
      apply (namesAction_callMetadata (.visibleBlobs ns digests) trivial).bind
      exact fun _ => trivial
  | packBlobs headers digests => exact namesAction_packBlobs.map
  | getActionResult headers parts =>
      apply Calls.map
      apply Calls.lift
      intro ns _
      apply Calls.lift
      intro action _
      apply (namesAction_callMetadata (.get ns action) trivial).bind
      exact fun _ => trivial
  | batchActionResults headers digests =>
      apply Calls.map
      apply Calls.lift
      intro ns _
      apply Calls.lift
      intro requested _
      exact namesAction_callMetadata _ trivial
  | putActionResult headers parts result => exact namesAction_putActionResult.map
  | getActionManifest headers parts =>
      apply Calls.map
      apply Calls.lift
      intro ns _
      apply Calls.lift
      intro key _
      apply (namesAction_callMetadata (.getManifest ns key) trivial).bind
      intro found
      apply Calls.lift
      intro record _
      apply Calls.lift
      exact fun _ _ => trivial
  | putActionManifest headers parts body =>
      apply Calls.map
      apply Calls.lift
      intro ns _
      apply Calls.lift
      intro accepted _
      apply Calls.lift
      intro etag _
      apply (namesAction_callMetadata
        (.commitManifest ns accepted.2.1 accepted.2.2 etag accepted.1) trivial).bind
      intro outcome
      apply Calls.lift
      exact fun _ _ => trivial

end Handlers

/-! ## Every state the handlers reach -/

/-- Every stored result names the action it is stored under. -/
def Named (view : MetadataView) : Prop :=
  ∀ ns action result, view.result (ns, action) = some result → result.action = action

theorem Named.perform {view : MetadataView} {op : MetadataOp} (h : Named view)
    (hop : (StoreOp.metadata op).NamesAction) : Named (view.perform op).2 := by
  cases op with
  | commit ns action result =>
      have hnames : result.action = action := hop
      intro ns' action' result' hstored
      rw [MetadataView.perform] at hstored
      cases hheld : view.result (ns, action) with
      | some existing =>
          rw [MetadataView.commit_of_some hheld] at hstored
          exact h ns' action' result' hstored
      | none =>
          rw [MetadataView.commit_of_none hheld] at hstored
          dsimp only at hstored
          by_cases heq : (ns', action') = (ns, action)
          · rw [heq, Function.update_self] at hstored
            rw [← Option.some.inj hstored, hnames, (Prod.mk.inj heq).2]
          · rw [Function.update_of_ne heq] at hstored
            exact h ns' action' result' hstored
  | commitManifest ns key expectedEtag etag manifest =>
      intro ns' action' result' hstored
      rw [MetadataView.perform, MetadataView.commitManifest] at hstored
      split at hstored
      · exact h ns' action' result' hstored
      · exact h ns' action' result' hstored
  | _ => exact h

section States

variable {M : Type} {crates : Crates} {state : AppState} {holds : M → MetadataView → Prop}
  {exec : ℕ → (op : MetadataOp) → M → op.Answer × M}

/-- One call, made at any time. -/
def AnswersAtSomeTime (exec : ℕ → (op : MetadataOp) → M → op.Answer × M) (op : StoreOp)
    (stores : Stores M) (answer : op.Answer) (later : Stores M) : Prop :=
  ∃ now, Stores.Answers (exec now) op stores answer later

/-- The stores hold contents in which every result names its action. -/
def HoldsNamed (holds : M → MetadataView → Prop) (stores : Stores M) : Prop :=
  ∃ view, holds stores.metadata view ∧ Named view

theorem answers_named (hmeets : ∀ now, MeetsSpec (exec now) holds) {op : StoreOp}
    {stores later : Stores M} {answer : op.Answer} (hop : op.NamesAction)
    (h : AnswersAtSomeTime exec op stores answer later) (hnamed : HoldsNamed holds stores) :
    HoldsNamed holds later := by
  obtain ⟨now, hanswer⟩ := h
  obtain ⟨view, hview, hnamed⟩ := hnamed
  cases op with
  | blobs op =>
      cases op with
      | get digest =>
          rw [(Stores.answers_get hanswer).1]
          exact ⟨view, hview, hnamed⟩
      | put digest source =>
          apply Exists.intro view
          rcases (Stores.answers_put hanswer).1 with rfl | rfl
          · exact ⟨hview, hnamed⟩
          · rw [Stores.putObject_metadata]
            exact ⟨hview, hnamed⟩
  | metadata op =>
      rcases answers_meets (hmeets now) hview hanswer with ⟨_, _, hlater | hlater⟩ | ⟨_, hlater⟩
      · exact ⟨view, hlater, hnamed⟩
      · exact ⟨_, hlater, hnamed.perform hop⟩
      · exact ⟨_, hlater, hnamed.perform hop⟩

/-- The stores after any interleaving of any requests. -/
def ReachableStores (crates : Crates) (state : AppState)
    (exec : ℕ → (op : MetadataOp) → M → op.Answer × M) (empty : M) (stores : Stores M) : Prop :=
  ∃ pool : Pool (Stores M) Request StoreOp StoreOp.Answer ApiError Reply,
    Pool.Reachable (AnswersAtSomeTime exec) (handle crates state) ⟨fun _ => none, empty⟩ pool ∧
      pool.state = stores

theorem ReachableStores.named (hmeets : ∀ now, MeetsSpec (exec now) holds) {empty : M}
    (hempty : holds empty MetadataView.empty) {stores : Stores M}
    (h : ReachableStores crates state exec empty stores) : HoldsNamed holds stores := by
  obtain ⟨pool, hreach, rfl⟩ := h
  have hinit : HoldsNamed holds (⟨fun _ => none, empty⟩ : Stores M) :=
    ⟨MetadataView.empty, hempty, fun _ _ _ hstored => by cases hstored⟩
  exact hreach.inv_of_calls hinit namesAction_handle
    fun op s answer t hop hanswer => answers_named hmeets hop hanswer

/-! ## One request -/

/-- The store answers the calls a database can hold. -/
def AnswersStorable (crates : Crates) (exec : (op : MetadataOp) → M → op.Answer × M)
    (holds : M → MetadataView → Prop) : Prop :=
  ∀ op s view, holds s view → PostgresMetadata.Storable crates op → (exec op s).1 = .ok (view.perform op).1

/-- The result a single lookup answers with, when it does. -/
def singleLookup (crates : Crates) (state : AppState) (chunking : Chunking)
    (exec : (op : MetadataOp) → M → op.Answer × M) (headers : HeaderMap) (stores : Stores M)
    (action : Digest) : Option ActionResult :=
  (run (Stores.exec chunking exec) (getActionResult crates state headers (partsOf action))
    stores).1.toOption

/-- A batch answers with the results of the single lookups of what it was asked for,
one for each, and subtracting their number from that of the distinct digests gives
the misses. -/
structure AnswersBatch (crates : Crates) (state : AppState) (chunking : Chunking)
    (exec : (op : MetadataOp) → M → op.Answer × M) (headers : HeaderMap) (stores : Stores M)
    (digests requested : List Digest) (results : List ActionResult) : Prop where
  loop : requestedActions crates digests = .ok requested
  distinct : requested.Nodup
  same : ∀ action, action ∈ requested ↔ action ∈ digests
  answered : (run (Stores.exec chunking exec) (batchActionResults crates state headers digests)
    stores).1 = .ok results
  single : results = requested.filterMap
    (singleLookup crates state chunking exec headers stores)
  named : ∀ action ∈ digests, ∀ result,
    singleLookup crates state chunking exec headers stores action = some result →
      result.action = action
  unambiguous : (results.map ActionResult.action).Nodup
  missed : results.length ≤ requested.length

theorem textParameter_of_validNamespace {ns : String} (h : validNamespace ns = true) :
    textParameter ns = true := by
  have hnot : '\x00' ∉ ns.toList := by
    intro hmem
    obtain ⟨part, hpart, hin⟩ := mem_toList_iff.mpr ⟨hmem, by decide⟩
    have hallowed := ((validNamespace_iff.mp h).1 part hpart).alphabet '\x00' hin
    revert hallowed
    decide
  simpa [textParameter] using hnot

theorem validNamespace_of_authorize {headers : HeaderMap} {access : Access} {ns : String}
    (h : state.auth.authorize crates headers access = .ok ns) : validNamespace ns = true :=
  (Option.filter_eq_some_iff.mp (Authorizer.authorize_eq_ok h)).2

theorem validateActionDigest_eq_ok {rules : DigestRules} {action digest : Digest} :
    validateActionDigest rules action = .ok digest ↔
      digest = action ∧ rules.validate action = true ∧ action.algorithm = "blake3" := by
  rw [validateActionDigest, bind_eq_ok]
  simp only [bind_eq_ok, validateDigest_eq_ok, rejectIf_eq_ok, bne_eq_false_iff_eq]
  constructor
  · rintro ⟨_, hvalid, _, halgorithm, hdigest⟩
    exact ⟨(Except.ok.inj hdigest).symm, hvalid, halgorithm⟩
  · rintro ⟨rfl, hvalid, halgorithm⟩
    exact ⟨(), hvalid, (), halgorithm, rfl⟩

/-- The loop keeps the first of each digest. -/
theorem requestedActions_eq_ok {digests : List Digest}
    (hlength : digests.length ≤ MAX_BATCH_ITEMS)
    (hvalid : ∀ action ∈ digests, crates.digests.validate action = true)
    (hblake3 : ∀ action ∈ digests, action.algorithm = "blake3") :
    requestedActions crates digests = .ok digests.eraseDups := by
  have hbound : decide (digests.length > MAX_BATCH_ITEMS) = false :=
    decide_eq_false (Nat.not_lt_of_le hlength)
  rw [requestedActions, hbound]
  clear hbound hlength
  show (List.foldlM _ _ digests : Except ApiError _) = _
  induction digests using List.reverseRecOn with
  | nil => rfl
  | append_singleton digests action ih =>
      have hlast : validateActionDigest crates.digests action = .ok action :=
        validateActionDigest_eq_ok.mpr
          ⟨rfl, hvalid action (by simp), hblake3 action (by simp)⟩
      rw [List.foldlM_append, ih (fun other hmem => hvalid other (by simp [hmem]))
        fun other hmem => hblake3 other (by simp [hmem]), eraseDups_concat]
      apply bind_eq_ok.mpr
      apply Exists.intro digests.eraseDups
      apply And.intro rfl
      rw [List.foldlM_cons, hlast]
      show Except.ok (if digests.eraseDups.contains action then _ else _) = _
      by_cases hseen : action ∈ digests
      · rw [if_pos hseen, if_pos (by simpa using hseen)]
      · rw [if_neg hseen, if_neg (by simpa using hseen)]

section Request

variable {ask : (op : MetadataOp) → M → op.Answer × M} {stores : Stores M} {view : MetadataView}
  {chunking : Chunking} {headers : HeaderMap} {ns : String}

/-- A metadata call that is answered goes on with the right answer. -/
theorem run_callMetadata_bind {α : Type} {op : MetadataOp} {f : op.Value → Handler α}
    (h : (ask op stores.metadata).1 = .ok (view.perform op).1) :
    (run (Stores.exec chunking ask) (callMetadata op >>= f) stores).1 =
      (run (Stores.exec chunking ask) (f (view.perform op).1)
        (Stores.afterMetadata ask op stores)).1 := by
  have hcall : run (Stores.exec chunking ask) (callMetadata op) stores =
      (.ok (view.perform op).1, Stores.afterMetadata ask op stores) := by
    show ((ask op stores.metadata).1.mapError ApiError.internal, _) = _
    rw [h]
    rfl
  rw [run_bind_ok _ hcall]

variable (hanswers : AnswersStorable crates ask holds) (hview : holds stores.metadata view)
  (hauth : state.auth.authorize crates headers .read = .ok ns)
include hanswers hview hauth

theorem singleLookup_eq {action : Digest} (hvalid : crates.digests.validate action = true)
    (hblake3 : action.algorithm = "blake3") :
    singleLookup crates state chunking ask headers stores action = view.result (ns, action) := by
  have hparse : parseActionDigest crates.digests (partsOf action) = .ok action := by
    have hdigest : parseDigest crates.digests (partsOf action) = .ok action :=
      (parseDigest_eq_ok _).mpr ⟨rfl, hvalid⟩
    rw [parseActionDigest, hdigest]
    show (do
      rejectIf (action.algorithm != "blake3") _
      return action) = _
    rw [hblake3]
    rfl
  have hns := textParameter_of_validNamespace (validNamespace_of_authorize hauth)
  have hget := hanswers (.get ns action) stores.metadata view hview ⟨hns, hvalid⟩
  rw [singleLookup, getActionResult, hauth]
  show (run _ ((Program.done (parseActionDigest crates.digests (partsOf action)) : Handler _) >>=
    _) stores).1.toOption = _
  rw [hparse, ok_bind, run_callMetadata_bind hget]
  show (okOr (view.result (ns, action)) _).toOption = _
  cases view.result (ns, action) <;> rfl

/-- What a batch answers, in terms of the contents. -/
theorem run_batchActionResults {digests : List Digest}
    (hlength : digests.length ≤ MAX_BATCH_ITEMS)
    (hvalid : ∀ action ∈ digests, crates.digests.validate action = true)
    (hblake3 : ∀ action ∈ digests, action.algorithm = "blake3") :
    (run (Stores.exec chunking ask) (batchActionResults crates state headers digests) stores).1 =
      .ok (digests.eraseDups.filterMap fun action => view.result (ns, action)) := by
  have hns := textParameter_of_validNamespace (validNamespace_of_authorize hauth)
  have hrequested : ∀ action ∈ digests.eraseDups, crates.digests.validate action = true :=
    fun action hmem => hvalid action (List.mem_eraseDups.mp hmem)
  have hget := hanswers (.getBatch ns digests.eraseDups) stores.metadata view hview
    ⟨hns, hrequested⟩
  rw [batchActionResults, hauth]
  show (run _ ((Program.done (requestedActions crates digests) : Handler _) >>= _) stores).1 = _
  rw [requestedActions_eq_ok hlength hvalid hblake3, ok_bind]
  show ((ask _ stores.metadata).1.mapError ApiError.internal) = _
  rw [hget]
  rfl

omit hanswers hview hauth in
theorem nodup_eraseDups (digests : List Digest) : digests.eraseDups.Nodup := by
  induction digests using List.reverseRecOn with
  | nil => exact List.nodup_nil
  | append_singleton digests digest ih =>
      rw [eraseDups_concat]
      by_cases hseen : digest ∈ digests
      · rw [if_pos hseen]
        exact ih
      · rw [if_neg hseen]
        apply List.Nodup.append ih (List.nodup_singleton digest)
        intro other hold hnew
        rw [List.mem_singleton.mp hnew] at hold
        exact hseen (List.mem_eraseDups.mp hold)

omit hanswers hview hauth in
/-- Results that name their actions come in the order of the actions that have one. -/
theorem map_action_filterMap (hnamed : Named view) (ns : String) (actions : List Digest) :
    (actions.filterMap fun action => view.result (ns, action)).map ActionResult.action =
      actions.filter fun action => (view.result (ns, action)).isSome := by
  induction actions with
  | nil => rfl
  | cons action actions ih =>
      rw [List.filterMap_cons, List.filter_cons]
      cases hresult : view.result (ns, action) with
      | none => exact ih
      | some result =>
          show result.action :: List.map ActionResult.action _ = action :: _
          rw [ih, hnamed ns action result hresult]

/-- A batch over contents in which every result names its action. -/
theorem answersBatch (hnamed : Named view) {digests : List Digest}
    (hlength : digests.length ≤ MAX_BATCH_ITEMS)
    (hvalid : ∀ action ∈ digests, crates.digests.validate action = true)
    (hblake3 : ∀ action ∈ digests, action.algorithm = "blake3") :
    AnswersBatch crates state chunking ask headers stores digests digests.eraseDups
      (digests.eraseDups.filterMap fun action => view.result (ns, action)) where
  loop := requestedActions_eq_ok hlength hvalid hblake3
  distinct := nodup_eraseDups digests
  same action := List.mem_eraseDups
  answered := run_batchActionResults hanswers hview hauth hlength hvalid hblake3
  single := by
    apply List.filterMap_congr
    intro action hmem
    have hin := List.mem_eraseDups.mp hmem
    exact (singleLookup_eq hanswers hview hauth (hvalid action hin) (hblake3 action hin)).symm
  named action hin result hfound := by
    rw [singleLookup_eq hanswers hview hauth (hvalid action hin) (hblake3 action hin)] at hfound
    exact hnamed ns action result hfound
  unambiguous := by
    rw [map_action_filterMap hnamed]
    exact (nodup_eraseDups digests).filter _
  missed := List.length_filterMap_le _ _

end Request

end States

/-! ## Both stores -/

theorem memory_answersStorable {crates : Crates} (htrips : crates.RoundTrips) :
    AnswersStorable crates (MemoryMetadata.exec crates) (MemoryMetadata.Holds crates) :=
  fun op _ _ hview _ => (hview.exec htrips op).1

theorem postgres_answersStorable {crates : Crates} (hrules : crates.digests.Documented)
    (htrips : crates.RoundTrips) (now : ℕ) :
    AnswersStorable crates (PostgresMetadata.exec crates now) (PostgresMetadata.Holds crates) := by
  intro op db view hview hstorable
  rcases hview.exec now hrules htrips op with hfollows | ⟨hnot, _⟩
  · exact hfollows.1
  · exact absurd hstorable hnot

end MbxCache.Server
