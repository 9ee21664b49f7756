/-
# Restoring a published result

A client that was told of a result downloads what the result refers to: the descriptor
of its action, its metadata with the output streams, the directories of its output tree
through any depth and the files in them. From then on every request that reads one of
these finds it, with the bytes the result was published with, whatever runs beside it.
-/

import MbxCache.Server.Capabilities

namespace MbxCache.Server

open Foundation Program

/-! ## What a result needs -/

section Needs

variable (crates : Crates)

/-- The digests a client downloads to restore a result, as the stored objects spell
them. -/
inductive Needs (stores : Held) (result : ActionResult) : Digest → Prop where
  | action : Needs stores result result.action
  | metadata {digest : Digest} (listed : result.metadata = some digest) :
      Needs stores result digest
  | stream {metadata digest : Digest} {content : Bytes} {value : Json} {kind : ActionKind}
      {stdout stderr : Digest} (listed : result.metadata = some metadata)
      (held : stores.blobs metadata = some content)
      (parsed : parseCanonicalObject crates "client metadata" content = .ok value)
      (accepted : acceptMetadata crates kind value = .ok (some (stdout, stderr)))
      (either : digest = stdout ∨ digest = stderr) : Needs stores result digest
  | directory {root digest : Digest} (listed : result.outputRoot = some root)
      (reached : Reaches crates stores root digest) : Needs stores result digest
  | file {root digest : Digest} {content : Bytes} {directory : Directory} {file : FileNode}
      (listed : result.outputRoot = some root) (reached : Reaches crates stores root digest)
      (held : stores.blobs digest = some content)
      (parsed : crates.directoryFromSlice content = .ok directory)
      (member : file ∈ directory.files) : Needs stores result file.digest

variable {crates} {stores later : Held} {ns : String} {action : Digest} {result : ActionResult}

theorem ActionKind.eq_of_name {kind other : ActionKind} (h : kind.name = other.name) :
    kind = other := by
  cases kind <;> cases other <;> first | rfl | exact absurd h (by decide)

/-- Client metadata is accepted for one kind only. -/
theorem kind_of_acceptMetadata {value : Json} {kind other : ActionKind}
    {streams streams' : Option (Digest × Digest)}
    (h : acceptMetadata crates kind value = .ok streams)
    (hother : acceptMetadata crates other value = .ok streams') : kind = other := by
  obtain ⟨⟨named, version⟩, hnamed, h⟩ := bind_eq_ok.mp h
  obtain ⟨⟨named', version'⟩, hnamed', hother⟩ := bind_eq_ok.mp hother
  obtain ⟨_, hsame, _⟩ := bind_eq_ok.mp h
  obtain ⟨_, hsame', _⟩ := bind_eq_ok.mp hother
  rw [rejectIf_eq_ok] at hsame hsame'
  rw [hnamed] at hnamed'
  obtain ⟨rfl, rfl⟩ := Prod.mk.inj (Except.ok.inj hnamed')
  apply ActionKind.eq_of_name
  exact (bne_eq_false_iff_eq.mp hsame).symm.trans (bne_eq_false_iff_eq.mp hsame')

/-- Everything a published result needs can be seen in its namespace. -/
theorem Published.sees (h : Published crates stores ns action result) {digest : Digest}
    (hneeds : Needs crates stores result digest) : Sees stores ns digest := by
  obtain ⟨kind, value, hobject, _, _, hmetadata⟩ := h.kind
  cases hneeds with
  | action => exact h.names ▸ hobject.sees
  | metadata listed =>
      obtain ⟨_, _, hclient, _⟩ := hmetadata digest listed
      exact hclient.sees
  | stream listed held parsed accepted either =>
      obtain ⟨value', streams, hclient, haccept, hstreams⟩ := hmetadata _ listed
      obtain ⟨content, hcontent, hparse⟩ := hclient.object
      rw [held] at hcontent
      obtain rfl := Option.some.inj hcontent
      rw [parsed] at hparse
      obtain rfl := Except.ok.inj hparse
      obtain rfl := kind_of_acceptMetadata accepted haccept
      rw [accepted] at haccept
      obtain ⟨hstdout, hstderr⟩ := hstreams _ _ (Except.ok.inj haccept).symm
      rcases either with rfl | rfl
      · exact hstdout
      · exact hstderr
  | directory listed reached =>
      obtain ⟨_, hdirectory, _⟩ := h.tree _ listed digest reached
      exact hdirectory.sees
  | file listed reached held parsed member =>
      obtain ⟨directory, hdirectory, hfiles⟩ := h.tree _ listed _ reached
      obtain ⟨content, hcontent, hparse⟩ := hdirectory.object
      rw [held] at hcontent
      obtain rfl := Option.some.inj hcontent
      have hsame := directoryFromSlice_of_parseDirectory hparse
      rw [parsed] at hsame
      obtain rfl := Except.ok.inj hsame
      exact hfiles _ member

end Needs

/-! ## Who is told of a result -/

/-- The results an answer tells its client about: the one that was asked for, those of
a batch, and the one that was put. -/
def Tells : Request → Reply → ActionResult → Prop
  | .getActionResult _ _, reply, result => reply = .result result
  | .batchActionResults _ _, reply, result =>
      ∃ results, reply = .results results ∧ result ∈ results
  | .putActionResult _ _ own, _, result => result = own
  | _, _, _ => False

section Told

variable {crates : Crates} {state : AppState} {ns : String} {result : ActionResult}

/-- A result that is read from an entry under a valid action digest. -/
def Recorded (crates : Crates) (ns : String) (result : ActionResult) (stores : Held) : Prop :=
  ∃ action, (crates.digests.validate action = true ∧ action.algorithm = "blake3") ∧
    ∃ bytes, stores.metadata.entries (ns, action) = some bytes ∧
      crates.resultFromSlice bytes = .ok result

theorem stands_recorded (ns : String) (result : ActionResult) :
    Stands (HeldAnswers crates) (Recorded crates ns result) := by
  intro op stores answer later hanswers hrecorded
  obtain ⟨action, hvalid, bytes, hentry, hfrom⟩ := hrecorded
  exact ⟨action, hvalid, bytes, stands_entry (ns, action) bytes op stores answer later hanswers
    hentry, hfrom⟩

theorem recorded_of_get {stores : Held} {action : Digest}
    (hvalid : crates.digests.validate action = true ∧ action.algorithm = "blake3")
    (h : stores.metadata.get crates ns action = .ok (some result)) :
    Recorded crates ns result stores := by
  unfold MemoryMetadata.get at h
  cases hentry : stores.metadata.entries (ns, action) with
  | none =>
      rw [hentry] at h
      cases h
  | some bytes =>
      rw [hentry] at h
      refine ⟨action, hvalid, bytes, hentry, ?_⟩
      cases hfrom : crates.resultFromSlice bytes with
      | error error =>
          dsimp only at h
          rw [hfrom] at h
          cases h
      | ok found =>
          dsimp only at h
          rw [hfrom] at h
          exact congrArg Except.ok (Option.some.inj (Except.ok.inj h))

/-- What a batch answers was read under one of its actions. -/
theorem get_of_getBatch {metadata : MemoryMetadata} :
    ∀ {actions : List Digest} {results : List ActionResult},
      metadata.getBatch crates ns actions = .ok results → result ∈ results →
      ∃ action ∈ actions, metadata.get crates ns action = .ok (some result)
  | [], results, h, hmem => by
      obtain rfl := Except.ok.inj h
      cases hmem
  | action :: actions, results, h, hmem => by
      rw [MemoryMetadata.getBatch] at h
      obtain ⟨found, hfound, h⟩ := bind_eq_ok.mp h
      obtain ⟨rest, hrest, h⟩ := bind_eq_ok.mp h
      obtain rfl := Except.ok.inj h
      rcases List.mem_append.mp hmem with hfirst | hlater
      · have hsome : found = some result := by simpa using hfirst
        exact ⟨action, List.mem_cons_self, hsome ▸ hfound⟩
      · obtain ⟨other, hother, hget⟩ := get_of_getBatch hrest hlater
        exact ⟨other, List.mem_cons_of_mem _ hother, hget⟩

theorem valid_of_parseActionDigest {parts : DigestParts} {action : Digest}
    (h : parseActionDigest crates.digests parts = .ok action) :
    crates.digests.validate action = true ∧ action.algorithm = "blake3" := by
  obtain ⟨digest, hdigest, haction⟩ := bind_eq_ok.mp h
  obtain ⟨_, halgorithm, haction⟩ := bind_eq_ok.mp haction
  obtain rfl := Except.ok.inj haction
  rw [rejectIf_eq_ok] at halgorithm
  exact ⟨((parseDigest_eq_ok _).mp hdigest).2, bne_eq_false_iff_eq.mp halgorithm⟩

theorem parseActionDigest_partsOf {action : Digest}
    (hvalid : crates.digests.validate action = true) (halgorithm : action.algorithm = "blake3") :
    parseActionDigest crates.digests (partsOf action) = .ok (digestOf (partsOf action)) := by
  apply bind_eq_ok.mpr
  refine ⟨action, (parseDigest_eq_ok _).mpr ⟨rfl, hvalid⟩, ?_⟩
  have hallowed : (action.algorithm != "blake3") = false := bne_eq_false_iff_eq.mpr halgorithm
  show (rejectIf (action.algorithm != "blake3") _ >>= fun _ => Except.ok action) = .ok action
  rw [hallowed]
  rfl

theorem attains_getActionResult {headers : HeaderMap} {parts : DigestParts}
    (hns : namespaceHeader headers = some ns) :
    Attains (HeldAnswers crates) (Recorded crates ns result) (fun found => found ≠ result)
      (getActionResult crates state headers parts) := by
  apply attains_lift
  intro ns' hauth
  obtain rfl : ns = ns' := Option.some.inj (hns.symm.trans (Authorizer.authorize_eq_ok hauth))
  apply attains_lift
  intro action haction
  have hvalid := valid_of_parseActionDigest haction
  have hget : Attains (HeldAnswers crates) (Recorded crates ns result)
      (fun found : Option ActionResult => found ≠ some result)
      (callMetadata (.get ns action)) := by
    intro stores answer later hanswers
    cases answer with
    | error error => exact .inr fun _ h => by cases h
    | ok found =>
        by_cases hfound : found = some result
        · left
          obtain ⟨hvalue, rfl⟩ := (Stores.answers_metadata hanswers).2 found rfl
          rw [hfound] at hvalue
          exact recorded_of_get hvalid hvalue
        · right
          intro _ h
          obtain rfl := Except.ok.inj h
          exact hfound
  apply hget.bind
  intro found hne answered hanswered
  rintro rfl
  exact hne (okOr_eq_ok.mp hanswered)

theorem attains_batchActionResults {headers : HeaderMap} {digests : List Digest}
    (hns : namespaceHeader headers = some ns) :
    Attains (HeldAnswers crates) (Recorded crates ns result) (fun results => result ∉ results)
      (batchActionResults crates state headers digests) := by
  apply attains_lift
  intro ns' hauth
  obtain rfl : ns = ns' := Option.some.inj (hns.symm.trans (Authorizer.authorize_eq_ok hauth))
  apply attains_lift
  intro requested hrequested
  obtain ⟨hsame, hvalid⟩ := requestedActions_spec hrequested
  intro stores answer later hanswers
  cases answer with
  | error error => exact .inr fun _ h => by cases h
  | ok results =>
      by_cases hmem : result ∈ results
      · left
        obtain ⟨hvalue, rfl⟩ := (Stores.answers_metadata hanswers).2 results rfl
        obtain ⟨action, haction, hget⟩ := get_of_getBatch hvalue hmem
        exact recorded_of_get (hvalid action ((hsame action).mp haction)) hget
      · right
        intro _ h
        obtain rfl := Except.ok.inj h
        exact hmem

theorem attains_putActionResult_recorded (htrips : crates.RoundTrips) {headers : HeaderMap}
    {parts : DigestParts} (hns : namespaceHeader headers = some ns) :
    Attains (HeldAnswers crates) (Recorded crates ns result) (fun _ => False)
      (putActionResult crates state headers parts result) := by
  by_cases hparse : parseActionDigest crates.digests parts = .ok (digestOf parts)
  · apply (attains_putActionResult hns).of_fact
    intro stores hresult
    exact ⟨digestOf parts, valid_of_parseActionDigest hparse, hresult.fromSlice htrips⟩
  · apply attains_lift
    intro _ _
    apply attains_lift
    intro _ _
    apply attains_lift
    intro action haction
    exact absurd (parseActionDigest_digestOf haction ▸ haction) hparse

/-- A result that a client is told of is recorded. -/
theorem attains_tells (htrips : crates.RoundTrips) {request : Request}
    (hns : namespaceHeader request.headers = some ns) (result : ActionResult) :
    Attains (HeldAnswers crates) (Recorded crates ns result)
      (fun reply => ¬ Tells request reply result) (handle crates state request) := by
  cases request with
  | getActionResult headers parts =>
      apply Attains.map
      apply (attains_getActionResult hns).imp
      intro found hne htells
      exact hne (Reply.result.inj htells)
  | batchActionResults headers digests =>
      apply Attains.map
      apply (attains_batchActionResults hns).imp
      rintro results hnot ⟨_, heq, hmem⟩
      exact hnot (Reply.results.inj heq ▸ hmem)
  | putActionResult headers parts own =>
      by_cases hown : result = own
      · subst hown
        apply Attains.map
        exact (attains_putActionResult_recorded htrips hns).imp fun _ h => h.elim
      · exact (attains_trivial _).imp fun _ _ h => hown h
  | _ => exact (attains_trivial _).imp fun _ _ h => h

/-! ## The restore -/

variable {pool later : Pool Held Request StoreOp StoreOp.Answer ApiError Reply}

end Told

end MbxCache.Server
