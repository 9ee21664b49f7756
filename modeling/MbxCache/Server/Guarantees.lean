/-
# Each handler beside any others

Every handler is checked alone against arbitrary interference: between two of its
calls the stores may grow in any consistent way. Calls come first, then the reads
a result's references go through, then the walk over an output tree, then the
handlers that write.
-/

import MbxCache.Server.Invariant
import MbxCache.Server.Router

namespace MbxCache.Server

open Foundation Program Pack

section

variable {crates : Crates}

/-- The handler keeps the invariant with every call, and what it returns
satisfies `Q`, however its calls are interleaved with others. -/
abbrev Keeps (crates : Crates) {α : Type} (Q : α → Held → Prop) (stores : Held)
    (p : Handler α) : Prop :=
  p.Ensures (Stores.Answers (MemoryMetadata.exec crates)) (Consistent crates) (OnOk Q) stores

variable {stores later : Held} {ns : String} {digest : Digest}

/-! ## Calls -/

/-- A metadata call whose effect keeps the invariant; the condition on its answer
has to last. -/
theorem keeps_callMetadata {op : MetadataOp} {Q : op.Value → Held → Prop}
    (hkeeps : ∀ t, stores ≤ t → Consistent crates t →
      Consistent crates (Stores.afterMetadata (MemoryMetadata.exec crates) op t) ∧
        t ≤ Stores.afterMetadata (MemoryMetadata.exec crates) op t)
    (hvalue : ∀ t value, stores ≤ t → Consistent crates t →
      (MemoryMetadata.exec crates op t.metadata).1 = .ok value →
      ∀ u, Stores.afterMetadata (MemoryMetadata.exec crates) op t ≤ u → Q value u) :
    Keeps crates Q stores (callMetadata op) := by
  intro t hle hinv answer u hanswer
  obtain ⟨heffect, hok⟩ := Stores.answers_metadata hanswer
  obtain ⟨hinv', hle'⟩ := hkeeps t hle hinv
  have hafter : Consistent crates u ∧ t ≤ u := by
    rcases heffect with rfl | rfl
    · exact ⟨hinv, le_refl u⟩
    · exact ⟨hinv', hle'⟩
  refine ⟨hafter.1, hafter.2, fun v hv _ => ?_⟩
  cases answer with
  | error e => trivial
  | ok value =>
      obtain ⟨hvalue', rfl⟩ := hok value rfl
      exact hvalue t value hle hinv hvalue' v hv

/-- A metadata call that changes nothing. -/
theorem keeps_read {op : MetadataOp} {Q : op.Value → Held → Prop}
    (hread : ∀ metadata, (MemoryMetadata.exec crates op metadata).2 = metadata)
    (hvalue : ∀ (t : Held) value, Consistent crates t →
      (MemoryMetadata.exec crates op t.metadata).1 = .ok value → ∀ u, t ≤ u → Q value u) :
    Keeps crates Q stores (callMetadata op) := by
  have hsame : ∀ t : Held, Stores.afterMetadata (MemoryMetadata.exec crates) op t = t := by
    intro t
    rw [Stores.afterMetadata, hread]
  apply keeps_callMetadata
  · intro t _ hinv
    rw [hsame]
    exact ⟨hinv, le_refl t⟩
  · intro t value _ hinv hanswer u hu
    rw [hsame] at hu
    exact hvalue t value hinv hanswer u hu

theorem keeps_blobVisible :
    Keeps crates (fun visible t => visible = true → Sees t ns digest) stores
      (callMetadata (.blobVisible ns digest)) := by
  apply keeps_read (fun _ => rfl)
  intro t value _ hanswer u hle hvisible
  rw [← Except.ok.inj hanswer, MemoryMetadata.blobVisible_eq_true] at hvisible
  exact hle.2 hvisible

theorem keeps_visibleBlobs {digests : List Digest} :
    Keeps crates
      (fun (visible : List Digest) t => ∀ digest ∈ visible, digest ∈ digests ∧ Sees t ns digest)
      stores
      (callMetadata (.visibleBlobs ns digests)) := by
  apply keeps_read (fun _ => rfl)
  intro t value _ hanswer u hle digest hmem
  rw [← Except.ok.inj hanswer, MemoryMetadata.mem_visibleBlobs] at hmem
  exact ⟨hmem.1, hle.2 hmem.2⟩

theorem keeps_recordBlobAccess {digests : List Digest} :
    Keeps crates (fun _ _ => True) stores (recordBlobAccess ns digests) := by
  intro t hle hinv answer u hanswer
  have hsame : u = t := by
    rcases (Stores.answers_metadata hanswer).1 with h | h
    · exact h
    · exact h
  rw [hsame]
  exact ⟨hinv, le_refl t, fun v _ _ => trivial⟩

theorem keeps_get :
    Keeps crates
      (fun found t => ∀ blob, found = some blob →
        ∃ content, t.blobs digest = some content ∧ Stores.Serves blob content) stores
      (callBlobs (.get digest)) := by
  intro t hle hinv answer u hanswer
  obtain ⟨rfl, hserves⟩ := Stores.answers_get hanswer
  refine ⟨hinv, le_refl u, fun v hv _ => ?_⟩
  cases answer with
  | error e => trivial
  | ok found =>
      rintro blob rfl
      obtain ⟨content, hheld, hserve⟩ := hserves blob rfl
      exact ⟨content, hv.1 digest content hheld, hserve⟩

/-- Publishing a verified object makes it visible. The object is there before the
registration, so a request that stops in between leaves nothing dangling. -/
theorem keeps_publishBlob {source : Bytes} (hinv : Consistent crates stores)
    (hmatches : crates.Matches digest source) :
    Keeps crates (fun _ t => Sees t ns digest) stores (publishBlob ns digest source) := by
  have hput : Keeps crates (fun _ t => ∃ content, t.blobs digest = some content) stores
      (callBlobs (.put digest source)) := by
    intro t _ hinvt answer u hanswer
    obtain ⟨heffect, hok⟩ := Stores.answers_put hanswer
    obtain ⟨hinv', hle'⟩ := hinvt.put hmatches
    have hafter : Consistent crates u ∧ t ≤ u := by
      rcases heffect with rfl | rfl
      · exact ⟨hinvt, le_refl u⟩
      · exact ⟨hinv', hle'⟩
    refine ⟨hafter.1, hafter.2, fun v hv _ => ?_⟩
    cases answer with
    | error e => trivial
    | ok outcome =>
        obtain rfl := hok outcome rfl
        obtain ⟨content, hheld⟩ :=
          Option.isSome_iff_exists.mp (Stores.putObject_blobs_isSome t digest source)
        exact ⟨content, hv.1 digest content hheld⟩
  apply Ensures.bind_ok hinv hput
  intro outcome t _ hinvt hheld
  obtain ⟨content, hheld⟩ := hheld
  have hregister : Keeps crates (fun _ t => Sees t ns digest) t
      (callMetadata (.registerBlob ns digest outcome)) := by
    apply keeps_callMetadata
    · intro u hu hinvu
      exact hinvu.register (hu.1 digest content hheld) outcome
    · intro u _ _ _ _ v hv
      exact (sees_registerBlob u ns digest outcome).mono hv
  apply Ensures.bind_ok hinvt hregister
  intro _ u _ _ hsees v hv _
  exact hsees.mono hv

/-! ## Reading references -/

theorem keeps_requireBlob {label : String} (hinv : Consistent crates stores) :
    Keeps crates (fun _ t => Sees t ns digest) stores (requireBlob crates ns digest label) := by
  apply Ensures.lift_ok
  intro _ _
  apply Ensures.bind_ok hinv keeps_blobVisible
  intro visible t _ _ hsees u hu _
  cases visible with
  | false => trivial
  | true => exact (hsees rfl).mono hu

theorem keeps_readVisibleObject {missing : String} (hinv : Consistent crates stores) :
    Keeps crates (fun bytes t => Sees t ns digest ∧ t.blobs digest = some bytes) stores
      (readVisibleObject ns digest missing) := by
  apply Ensures.bind_ok hinv keeps_blobVisible
  intro visible t _ hinvt hsees
  apply Ensures.lift_ok
  intro _ hvisible
  apply Ensures.bind_ok hinvt keeps_get
  intro found u hu _ hserves
  apply Ensures.lift_ok
  intro blob hblob
  obtain ⟨content, hheld, hserve⟩ := hserves blob (okOr_eq_ok.mp hblob)
  have hvisible : visible = true := by simpa using hvisible
  intro v hv _
  cases hread : readStream blob.stream with
  | error e => trivial
  | ok bytes =>
      obtain rfl := hserve.readStream hread
      exact ⟨(hsees hvisible).mono (hu.trans hv), hv.1 digest bytes hheld⟩

theorem keeps_readCanonicalObject {label : String} (hinv : Consistent crates stores) :
    Keeps crates (fun value t => HoldsObject crates t ns digest label value) stores
      (readCanonicalObject crates ns digest label) := by
  apply Ensures.lift_ok
  intro _ hvalid
  apply Ensures.lift_ok
  intro _ hsmall
  have hvalid := validateDigest_eq_ok.mp hvalid
  have hsmall : digest.size ≤ maxObjectBytes := by simpa using hsmall
  apply Ensures.bind_ok hinv (keeps_readVisibleObject hinv)
  intro bytes t _ _ hread u hu _
  cases hparse : parseCanonicalObject crates label bytes with
  | error e => trivial
  | ok value =>
      have hobject : HoldsObject crates t ns digest label value :=
        ⟨hvalid, hsmall, hread.1, bytes, hread.2, hparse⟩
      exact hobject.mono hu

theorem keeps_readDirectory (hinv : Consistent crates stores) :
    Keeps crates
      (fun directory t => HoldsDirectory crates t ns digest directory ∧
        ∀ file ∈ directory.files, Sees t ns file.digest) stores
      (readDirectory crates ns digest) := by
  apply Ensures.lift_ok
  intro _ _
  apply Ensures.bind_ok hinv (keeps_readVisibleObject hinv)
  intro bytes t _ hinvt hread
  apply Ensures.lift_ok
  intro directory hparse
  have hfiles : Keeps crates (fun _ t => ∀ file ∈ directory.files, Sees t ns file.digest) t
      (directory.files.forM fun file => requireBlob crates ns file.digest "file blob") := by
    apply ensures_forM _ _ directory.files t hinvt
    · intro file s u hle hsees
      exact Sees.mono hsees hle
    · intro file s hinvs
      exact keeps_requireBlob hinvs
  apply Ensures.bind_ok hinvt hfiles
  intro _ u hu _ hfiles v hv _
  have hheld : HoldsDirectory crates t ns digest directory := ⟨hread.1, bytes, hread.2, hparse⟩
  exact ⟨hheld.mono (hu.trans hv), fun file hfile => (hfiles file hfile).mono hv⟩

/-! ## The walk over an output tree -/

/-- What the walk owes: every directory entered so far is readable with its
files, and every directory it lists is entered or still on the stack. -/
structure Walked (crates : Crates) (stores : Held) (ns : String) (root : Digest)
    (pending : List Visit) (visiting seen : Finset Digest) : Prop where
  rooted : root ∈ seen ∪ visiting ∨ Visit.enter root ∈ pending
  exits : ∀ digest, Visit.exit digest ∈ pending → digest ∈ seen ∪ visiting
  entered : ∀ digest ∈ seen ∪ visiting, ∃ directory,
    HoldsDirectory crates stores ns digest directory ∧
    (∀ file ∈ directory.files, Sees stores ns file.digest) ∧
    ∀ node ∈ directory.directories,
      node.digest ∈ seen ∪ visiting ∨ Visit.enter node.digest ∈ pending

namespace Walked

variable {root : Digest} {pending : List Visit} {visiting seen : Finset Digest}

theorem start : Walked crates stores ns root [.enter root] ∅ ∅ where
  rooted := .inr (List.mem_singleton.mpr rfl)
  exits := by simp
  entered := by simp

theorem mono (h : Walked crates stores ns root pending visiting seen) (hle : stores ≤ later) :
    Walked crates later ns root pending visiting seen where
  rooted := h.rooted
  exits := h.exits
  entered digest hmem := by
    obtain ⟨directory, hheld, hfiles, hnodes⟩ := h.entered digest hmem
    exact ⟨directory, hheld.mono hle, fun file hfile => (hfiles file hfile).mono hle, hnodes⟩

/-- A step that loses no entered directory and keeps every visit that is still to
be made keeps the walk. -/
theorem weaken {pending' : List Visit} {visiting' seen' : Finset Digest}
    (h : Walked crates stores ns root pending visiting seen)
    (hset : seen' ∪ visiting' = seen ∪ visiting)
    (henter : ∀ digest, Visit.enter digest ∈ pending →
      digest ∈ seen ∪ visiting ∨ Visit.enter digest ∈ pending')
    (hexit : ∀ digest, Visit.exit digest ∈ pending' → Visit.exit digest ∈ pending) :
    Walked crates stores ns root pending' visiting' seen' where
  rooted := by
    rw [hset]
    exact h.rooted.elim .inl (henter root)
  exits digest hmem := by
    rw [hset]
    exact h.exits digest (hexit digest hmem)
  entered := by
    rw [hset]
    intro digest hmem
    obtain ⟨directory, hheld, hfiles, hnodes⟩ := h.entered digest hmem
    exact ⟨directory, hheld, hfiles, fun node hnode =>
      (hnodes node hnode).elim .inl (henter node.digest)⟩

/-- A directory that was finished before is dropped. -/
theorem skip (h : Walked crates stores ns root (.enter digest :: pending) visiting seen)
    (hseen : digest ∈ seen) : Walked crates stores ns root pending visiting seen := by
  apply h.weaken rfl
  · intro other hmem
    rcases List.mem_cons.mp hmem with heq | hrest
    · injection heq with heq
      exact .inl (Finset.mem_union_left _ (heq ▸ hseen))
    · exact .inr hrest
  · exact fun other hmem => List.mem_cons_of_mem _ hmem

/-- Leaving a directory moves it from the path to the finished ones. -/
theorem leave (h : Walked crates stores ns root (.exit digest :: pending) visiting seen) :
    Walked crates stores ns root pending (visiting.erase digest) (insert digest seen) := by
  have hmem : digest ∈ seen ∪ visiting := h.exits digest (by simp)
  apply h.weaken
  · ext other
    by_cases heq : other = digest
    · subst heq
      simpa using hmem
    · simp [heq]
  · intro other hother
    exact .inr (by simpa using hother)
  · exact fun other hother => List.mem_cons_of_mem _ hother

/-- Entering a directory that was read puts it on the path and what it lists on
the stack. -/
theorem enter {directory : Directory}
    (h : Walked crates stores ns root (.enter digest :: pending) visiting seen)
    (hheld : HoldsDirectory crates stores ns digest directory)
    (hfiles : ∀ file ∈ directory.files, Sees stores ns file.digest) :
    Walked crates stores ns root (pushDirectory digest directory pending)
      (insert digest visiting) seen := by
  have hset : ∀ other, other ∈ seen ∪ insert digest visiting ↔
      other = digest ∨ other ∈ seen ∪ visiting := by
    intro other
    rw [Finset.union_insert, Finset.mem_insert]
  have hkept : ∀ other, Visit.enter other ∈ Visit.enter digest :: pending →
      other ∈ seen ∪ insert digest visiting ∨
        Visit.enter other ∈ pushDirectory digest directory pending := by
    intro other hother
    rcases List.mem_cons.mp hother with heq | hrest
    · injection heq with heq
      exact .inl ((hset other).mpr (.inl heq))
    · exact .inr (by simp [pushDirectory, hrest])
  refine ⟨?_, ?_, ?_⟩
  · exact h.rooted.elim (fun hmem => .inl ((hset root).mpr (.inr hmem))) (hkept root)
  · intro other hother
    rw [hset]
    simp only [pushDirectory, List.mem_append, List.mem_map, List.mem_cons,
      Visit.exit.injEq, reduceCtorEq, and_false, exists_false, false_or] at hother
    rcases hother with heq | hrest
    · exact .inl heq
    · exact .inr (h.exits other (List.mem_cons_of_mem _ hrest))
  · intro other hother
    rcases (hset other).mp hother with rfl | hold
    · refine ⟨directory, hheld, hfiles, fun node hnode => .inr ?_⟩
      apply List.mem_append_left
      exact List.mem_map.mpr ⟨node, List.mem_reverse.mpr hnode, rfl⟩
    · obtain ⟨directory', hheld', hfiles', hnodes⟩ := h.entered other hold
      refine ⟨directory', hheld', hfiles', fun node hnode => ?_⟩
      exact (hnodes node hnode).elim (fun hmem => .inl ((hset _).mpr (.inr hmem))) (hkept _)

/-- When nothing is pending, the entered directories are closed under their
entries and contain the root, so they are the whole tree. -/
theorem treeVisible (h : Walked crates stores ns root [] visiting seen) :
    TreeVisible crates stores ns root := by
  have hin : ∀ digest, Reaches crates stores root digest → digest ∈ seen ∪ visiting := by
    intro digest hreach
    induction hreach with
    | root => exact h.rooted.elim id (by simp)
    | child parent held parsed listed ih =>
        obtain ⟨directory, hheld, _, hnodes⟩ := h.entered _ ih
        obtain ⟨content, hcontent, hparse⟩ := hheld.object
        rw [held] at hcontent
        obtain rfl := Option.some.inj hcontent
        have hsame := directoryFromSlice_of_parseDirectory hparse
        rw [parsed] at hsame
        obtain rfl := Except.ok.inj hsame
        exact (hnodes _ listed).elim id (by simp)
  intro digest hreach
  obtain ⟨directory, hheld, hfiles, _⟩ := h.entered digest (hin digest hreach)
  exact ⟨directory, hheld, hfiles⟩

end Walked

/-- The walk keeps what it owes from turn to turn, and owes nothing when it
ends. -/
theorem keeps_visitTree {root : Digest} (pending : List Visit) (visiting seen : Finset Digest) :
    ∀ stores, Consistent crates stores →
      Walked crates stores ns root pending visiting seen →
      Keeps crates (fun _ t => TreeVisible crates t ns root) stores
        (visitTree crates ns pending visiting seen) := by
  induction pending, visiting, seen using visitTree.induct with
  | case1 visiting seen =>
      intro stores _ hwalked
      rw [visitTree]
      intro t hle _
      exact hwalked.treeVisible.mono hle
  | case2 visiting seen digest pending ih =>
      intro stores hinv hwalked
      rw [visitTree]
      exact ih stores hinv hwalked.leave
  | case3 visiting seen digest pending hseen ih =>
      intro stores hinv hwalked
      rw [visitTree, dif_pos hseen]
      exact ih stores hinv (hwalked.skip hseen)
  | case4 visiting seen digest pending hseen hvisiting =>
      intro stores _ _
      rw [visitTree, dif_neg hseen, dif_pos hvisiting]
      exact fun t _ _ => trivial
  | case5 visiting seen digest pending hseen hvisiting hbound =>
      intro stores _ _
      rw [visitTree, dif_neg hseen, dif_neg hvisiting, dif_pos hbound]
      exact fun t _ _ => trivial
  | case6 visiting seen digest pending hseen hvisiting hbound ih =>
      intro stores hinv hwalked
      rw [visitTree, dif_neg hseen, dif_neg hvisiting, dif_neg hbound]
      apply Ensures.bind_ok hinv (keeps_readDirectory hinv)
      intro directory t hle hinvt hread
      exact ih directory t hinvt ((hwalked.mono hle).enter hread.1 hread.2)

theorem keeps_validateTree {root : Digest} (hinv : Consistent crates stores) :
    Keeps crates (fun _ t => TreeVisible crates t ns root) stores
      (validateTree crates ns root) :=
  keeps_visitTree [.enter root] ∅ ∅ stores hinv .start

/-! ## Publishing a result -/

theorem keeps_validateActionDescriptor (hinv : Consistent crates stores) :
    Keeps crates
      (fun kind t => ∃ value, HoldsObject crates t ns digest "action descriptor" value ∧
        acceptDescriptor crates value = .ok kind) stores
      (validateActionDescriptor crates ns digest) := by
  apply Ensures.bind_ok hinv (keeps_readCanonicalObject hinv)
  intro value t _ _ hobject u hu _
  cases haccept : acceptDescriptor crates value with
  | error e => trivial
  | ok kind => exact ⟨value, hobject.mono hu, haccept⟩

theorem keeps_requireOutputBlobs {stdout stderr : Digest} {kind : String}
    (hinv : Consistent crates stores) :
    Keeps crates (fun _ t => Sees t ns stdout ∧ Sees t ns stderr) stores
      (requireOutputBlobs crates ns stdout stderr kind) := by
  apply Ensures.bind_ok hinv (keeps_requireBlob hinv)
  intro _ t _ hinvt hstdout
  apply (keeps_requireBlob hinvt).imp
  intro outcome u hu _ hstderr
  cases outcome with
  | error e => trivial
  | ok _ => exact ⟨hstdout.mono hu, hstderr⟩

theorem keeps_validateClientMetadata {kind : ActionKind} (hinv : Consistent crates stores) :
    Keeps crates (fun _ t => MetadataVisible crates t ns kind digest) stores
      (validateClientMetadata crates ns digest kind) := by
  apply Ensures.bind_ok hinv (keeps_readCanonicalObject hinv)
  intro value t _ hinvt hobject
  apply Ensures.lift_ok
  intro streams haccept
  cases streams with
  | none =>
      intro u hu _
      refine ⟨value, none, hobject.mono hu, haccept, fun stdout stderr heq => ?_⟩
      cases heq
  | some pair =>
      obtain ⟨stdout, stderr⟩ := pair
      apply (keeps_requireOutputBlobs hinvt).imp
      intro outcome u hu _ hsees
      cases outcome with
      | error e => trivial
      | ok _ =>
          refine ⟨value, _, hobject.mono hu, haccept, fun stdout' stderr' heq => ?_⟩
          obtain ⟨rfl, rfl⟩ := Prod.mk.inj (Option.some.inj heq)
          exact hsees

theorem keeps_whenPresent {reference : Option Digest} {check : Digest → Handler Unit}
    {Q : Digest → Held → Prop}
    (hcheck : ∀ digest, Keeps crates (fun _ t => Q digest t) stores (check digest)) :
    Keeps crates (fun _ t => ∀ digest, reference = some digest → Q digest t) stores
      (whenPresent reference check) := by
  cases reference with
  | none =>
      intro t _ _ digest heq
      cases heq
  | some digest =>
      apply (hcheck digest).imp
      intro outcome t _ _ hchecked
      cases outcome with
      | error e => trivial
      | ok _ =>
          intro other heq
          rwa [← Option.some.inj heq]

/-- Only a task may leave out its metadata or its output. -/
theorem required_of_shape {result : ActionResult} {kind : ActionKind} {u : Unit}
    (h : validateActionResultShape result kind = .ok u) (hkind : kind ≠ .task) :
    result.metadata.isSome = true ∧ result.outputRoot.isSome = true := by
  have hshape := rejectIf_eq_ok.mp h
  have hbne : (kind != .task) = true := by simpa using hkind
  rw [hbne, Bool.true_and, Bool.or_eq_false_iff, Option.isNone_eq_false_iff,
    Option.isNone_eq_false_iff] at hshape
  exact hshape

/-- Everything the checks establish, carried to the moment they end. -/
theorem keeps_validateResult {action : Digest} {result : ActionResult}
    (hinv : Consistent crates stores) (hnames : result.action = action)
    (hversion : result.version = 1) :
    Keeps crates (fun _ t => Published crates t ns action result) stores
      (validateResult crates ns action result) := by
  apply Ensures.bind_ok hinv (keeps_validateActionDescriptor hinv)
  intro kind t _ hinvt hdescriptor
  obtain ⟨value, hobject, haccept⟩ := hdescriptor
  apply Ensures.lift_ok
  intro _ hshape
  apply Ensures.bind_ok hinvt
    (keeps_whenPresent fun metadata => keeps_validateClientMetadata hinvt)
  intro _ u hu hinvu hvisible
  apply (keeps_whenPresent fun root => keeps_validateTree hinvu).imp
  intro outcome v hv _ htree
  cases outcome with
  | error e => trivial
  | ok _ =>
      refine ⟨hnames, hversion, ⟨kind, value, hobject.mono (hu.trans hv), haccept,
        required_of_shape hshape, ?_⟩, htree⟩
      exact fun metadata heq => (hvisible metadata heq).mono hv

/-- A commit is only made of a complete result. -/
theorem keeps_putActionResult {state : AppState} {headers : HeaderMap} {parts : DigestParts}
    {result : ActionResult} (hinv : Consistent crates stores) :
    Keeps crates (fun _ _ => True) stores
      (putActionResult crates state headers parts result) := by
  apply Ensures.lift_ok
  intro ns _
  apply Ensures.lift_ok
  intro _ _
  apply Ensures.lift_ok
  intro action _
  apply Ensures.lift_ok
  intro _ hmatch
  have hmatch := rejectIf_eq_ok.mp hmatch
  rw [Bool.or_eq_false_iff, bne_eq_false_iff_eq, bne_eq_false_iff_eq] at hmatch
  apply Ensures.bind_ok hinv (keeps_validateResult hinv hmatch.2 hmatch.1)
  intro _ t _ hinvt hpublished
  have hcommit : Keeps crates (fun _ _ => True) t (callMetadata (.commit ns action result)) := by
    apply keeps_callMetadata
    · intro u hu hinvu
      exact hinvu.commit (hpublished.mono hu)
    · intro _ _ _ _ _ _ _
      trivial
  apply Ensures.bind_ok hinvt hcommit
  intro outcome u _ _ _ v _ _
  cases commitStatus outcome <;> trivial

theorem keeps_putActionManifest {state : AppState} {headers : HeaderMap} {parts : DigestParts}
    {body : ByteStream} (hinv : Consistent crates stores) :
    Keeps crates (fun _ _ => True) stores
      (putActionManifest crates state headers parts body) := by
  apply Ensures.lift_ok
  intro ns _
  apply Ensures.lift_ok
  intro accepted _
  obtain ⟨manifest, key, expectedEtag⟩ := accepted
  apply Ensures.lift_ok
  intro etag _
  have hcommit : Keeps crates (fun _ _ => True) stores
      (callMetadata (.commitManifest ns key expectedEtag etag manifest)) := by
    apply keeps_callMetadata
    · intro u _ hinvu
      obtain ⟨hblobs, hentries⟩ := MemoryMetadata.commitManifest_frame u.metadata ns key
        expectedEtag etag manifest
      exact hinvu.frame hblobs hentries
    · intro _ _ _ _ _ _ _
      trivial
  apply Ensures.bind_ok hinv hcommit
  intro outcome t _ _ _
  apply Ensures.lift_ok
  intro status _ u _ _
  trivial

/-! ## Uploads -/

theorem keeps_putBlob {state : AppState} {headers : HeaderMap} {parts : DigestParts}
    {body : ByteStream} (hinv : Consistent crates stores) :
    Keeps crates (fun _ _ => True) stores (putBlob crates state headers parts body) := by
  apply Ensures.lift_ok
  intro ns _
  apply Ensures.lift_ok
  intro _ _
  apply Ensures.lift_ok
  intro digest _
  apply Ensures.lift_ok
  intro spool hreceive
  obtain ⟨pieces, _, hbytes, hmatches⟩ := receiveBlob_eq_ok hreceive
  rw [← hbytes] at hmatches
  apply Ensures.bind_ok hinv (keeps_publishBlob hinv hmatches)
  intro outcome t _ _ _ u _ _
  trivial

/-- The frame in progress tracks what was written to it. -/
def PackUpload.Tracked (upload : PackUpload crates) : Prop :=
  ∀ frame, upload.frame = some frame → ∃ content, frame.spool.Tracks frame.digest content

theorem PackUpload.tracked_none {upload : PackUpload crates} (h : upload.frame = none) :
    upload.Tracked := by
  intro frame hframe
  rw [h] at hframe
  cases hframe

theorem keeps_handleEvent {upload : PackUpload crates} {event : PackEvent}
    (hinv : Consistent crates stores) (htracked : upload.Tracked) :
    Keeps crates (fun upload' _ => upload'.Tracked) stores (upload.handleEvent ns event) := by
  cases event with
  | started digest =>
      intro t _ _ frame hframe
      obtain rfl := Option.some.inj hframe
      exact ⟨[], Spool.tracks_new digest⟩
  | payload payload =>
      apply Ensures.lift_ok
      intro frame hframe
      obtain ⟨content, htracks⟩ := htracked frame (okOr_eq_ok.mp hframe)
      apply Ensures.lift_ok
      intro frame' hwrite t _ _ other hother
      obtain rfl := Option.some.inj hother
      obtain ⟨algorithm, halgorithm, hwrite⟩ := bind_eq_ok.mp hwrite
      obtain rfl := Except.ok.inj hwrite
      exact ⟨_, htracks.write (mapError_eq_ok.mp halgorithm) payload⟩
  | complete =>
      apply Ensures.lift_ok
      intro frame hframe
      obtain ⟨content, htracks⟩ := htracked frame (okOr_eq_ok.mp hframe)
      have hstore : Keeps crates (fun _ _ => True) stores (frame.store ns) := by
        apply Ensures.lift_ok
        intro _ hverify
        have hmatches := htracks.verify_eq_ok.mp hverify
        rw [← htracks.bytes] at hmatches
        apply (keeps_publishBlob hinv hmatches).imp
        intro outcome _ _ _ _
        cases outcome <;> trivial
      apply Ensures.bind_ok hinv hstore
      intro outcome t _ _ _ u _ _
      cases outcome <;> exact PackUpload.tracked_none rfl

theorem keeps_handleChunk {upload : PackUpload crates} {chunk : Except String Bytes}
    (hinv : Consistent crates stores) (htracked : upload.Tracked) :
    Keeps crates (fun upload' _ => upload'.Tracked) stores (upload.handleChunk ns chunk) := by
  apply Ensures.lift_ok
  intro piece _
  apply Ensures.lift_ok
  intro events _
  apply ensures_foldlM fun (_ : List PackEvent) (upload' : PackUpload crates) (_ : Held) =>
    upload'.Tracked
  · exact fun _ _ _ _ _ h => h
  · intro event _ upload' s hinvs htracked'
    exact keeps_handleEvent hinvs htracked'
  · exact hinv
  · exact htracked

theorem keeps_putBlobPack {state : AppState} {headers : HeaderMap} {body : ByteStream}
    (hinv : Consistent crates stores) :
    Keeps crates (fun _ _ => True) stores (putBlobPack crates state headers body) := by
  apply Ensures.lift_ok
  intro ns _
  apply Ensures.lift_ok
  intro declared _
  have hreceive : Keeps crates (fun (upload : PackUpload crates) _ => upload.Tracked) stores
      (body.foldlM (PackUpload.handleChunk ns)
        { reader := PackReader.new state.maxBlobBytes.toNat declared.1 declared.2
          frame := none, created := 0, existing := 0 }) := by
    apply ensures_foldlM fun (_ : ByteStream) (upload : PackUpload crates) (_ : Held) =>
      upload.Tracked
    · exact fun _ _ _ _ _ h => h
    · intro chunk _ upload s hinvs htracked
      exact keeps_handleChunk hinvs htracked
    · exact hinv
    · exact PackUpload.tracked_none rfl
  apply Ensures.bind_ok hinv hreceive
  intro upload t _ _ _
  apply Ensures.lift_ok
  intro _ _
  apply Ensures.lift_ok
  intro _ _ u _ _
  trivial

/-! ## Downloads -/

theorem Stores.Serves.prefix {blob : Blob} {content : Bytes} (h : Stores.Serves blob content) :
    contents blob.stream <+: content := by
  rcases h.stream with ⟨chunks, hstream, hflatten⟩ | ⟨chunks, error, hstream, hprefix⟩
  · rw [hstream, contents_map_ok, hflatten]
  · rw [hstream, contents_append, contents_map_ok]
    simpa [contents] using hprefix

theorem Stores.Serves.whole {blob : Blob} {content : Bytes} (h : Stores.Serves blob content)
    (hunbroken : broken blob.stream = false) : contents blob.stream = content := by
  rcases h.stream with ⟨chunks, hstream, hflatten⟩ | ⟨chunks, error, hstream, _⟩
  · rw [hstream, contents_map_ok, hflatten]
  · rw [hstream] at hunbroken
    simp at hunbroken

/-- A response to `getBlob`: the body is the object the digest describes, or
breaks off inside it. -/
structure ServesDigest (crates : Crates) (digest : Digest) (response : BlobResponse) : Prop where
  length : response.contentLength = digest.size.toNat
  body : ∃ content, crates.Matches digest content ∧ contents response.body <+: content ∧
    (broken response.body = false → contents response.body = content)

theorem keeps_getBlob {state : AppState} {headers : HeaderMap} {parts : DigestParts}
    (hinv : Consistent crates stores) :
    Keeps crates (fun response _ => ServesDigest crates (digestOf parts) response) stores
      (getBlob crates state headers parts) := by
  apply Ensures.lift_ok
  intro ns _
  apply Ensures.lift_ok
  intro digest hdigest
  obtain ⟨rfl, _⟩ := (parseDigest_eq_ok _).mp hdigest
  apply Ensures.bind_ok hinv keeps_blobVisible
  intro visible t _ hinvt _
  apply Ensures.lift_ok
  intro _ _
  apply Ensures.bind_ok hinvt keeps_recordBlobAccess
  intro _ u _ hinvu _
  apply Ensures.bind_ok hinvu keeps_get
  intro found v _ _ hserves
  apply Ensures.lift_ok
  intro blob hblob w hw hinvw
  obtain ⟨content, hheld, hserve⟩ := hserves blob (okOr_eq_ok.mp hblob)
  have hmatches := hinvw.sound.integrity _ content (hw.1 _ content hheld)
  refine ⟨?_, content, hmatches, hserve.prefix, hserve.whole⟩
  exact hserve.size.trans hmatches.1

/-- A digest that was asked about and is not reported missing was checked, and
can be seen in the namespace of the request. -/
def NotMissing (crates : Crates) (state : AppState) (headers : HeaderMap)
    (digests missing : List Digest) (stores : Held) : Prop :=
  ∀ digest ∈ digests, digest ∉ missing → crates.digests.validate digest = true ∧
    ∃ ns, state.auth.authorize crates headers .read = .ok ns ∧ Sees stores ns digest

theorem validate_of_forM {digests : List Digest} {u : PUnit} :
    digests.forM (validateDigest crates.digests) = .ok u →
      ∀ digest ∈ digests, crates.digests.validate digest = true := by
  induction digests with
  | nil => simp
  | cons digest digests ih =>
      intro h
      obtain ⟨_, hfirst, hrest⟩ := bind_eq_ok.mp h
      have hvalid := validateDigest_eq_ok.mp hfirst
      intro other hmem
      rcases List.mem_cons.mp hmem with rfl | hmem
      · exact hvalid
      · exact ih hrest other hmem

theorem keeps_missingBlobs {state : AppState} {headers : HeaderMap} {digests : List Digest}
    (hinv : Consistent crates stores) :
    Keeps crates
      (fun (missing : List Digest) t => NotMissing crates state headers digests missing t) stores
      (missingBlobs crates state headers digests) := by
  apply Ensures.lift_ok
  intro ns hns
  apply Ensures.lift_ok
  intro _ hcheck
  obtain ⟨_, _, hvalid⟩ := bind_eq_ok.mp hcheck
  apply Ensures.bind_ok hinv keeps_visibleBlobs
  intro visible t _ _ hvisible u hu _ digest hmem hmissing
  have hseen : digest ∈ visible := by
    by_contra hnot
    apply hmissing
    exact List.mem_filter.mpr ⟨hmem, by simpa using hnot⟩
  exact ⟨validate_of_forM hvalid digest hmem, ns, hns, (hvisible digest hseen).2.mono hu⟩

/-- Every frame that is sent to its end carries the object of its digest. -/
theorem keeps_streamEntries :
    ∀ (entries : List (Bytes × Digest)) (stores : Held), Consistent crates stores →
      (∀ entry ∈ entries, packBlobHeader crates entry.2 = .ok entry.1) →
      Keeps crates
        (fun sent _ => broken sent = false → ∃ frames : List Frame,
          frames.map (·.1) = entries.map (·.2) ∧ FramesOf crates frames (contents sent) ∧
          ∀ frame ∈ frames, crates.Matches frame.1 frame.2) stores
        (streamEntries entries)
  | [], stores, _, _ => fun t _ _ _ => ⟨[], rfl, .nil, by simp⟩
  | (header, digest) :: entries, stores, hinv, hheaders => by
      rw [streamEntries]
      have hread : Keeps crates
          (fun answer t => ∀ blob, answer = .ok (some blob) →
            ∃ content, t.blobs digest = some content ∧ Stores.Serves blob content) stores
          (readObject digest) := by
        intro t _ hinvt answer u hanswer
        obtain ⟨rfl, hserves⟩ := Stores.answers_get hanswer
        refine ⟨hinvt, le_refl u, fun v hv _ blob hblob => ?_⟩
        obtain ⟨content, hheld, hserve⟩ := hserves blob hblob
        exact ⟨content, hv.1 digest content hheld, hserve⟩
      apply Ensures.bind_ok hinv hread
      intro answer t _ hinvt hserves
      cases hopen : openEntry digest answer with
      | error error => exact fun u _ _ hunbroken => by cases hunbroken
      | ok blob =>
          have hanswer := (openEntry_eq_ok.mp hopen).1
          obtain ⟨content, hheld, hserve⟩ := hserves blob hanswer
          have hmatches := hinvt.sound.integrity digest content hheld
          dsimp only
          by_cases hbroken : broken (.ok header :: forwardBlob blob.size 0 blob.stream) = true
          · rw [if_pos hbroken]
            intro u _ _ hunbroken
            rw [hbroken] at hunbroken
            cases hunbroken
          · rw [if_neg hbroken]
            have hheaders' : ∀ entry ∈ entries, packBlobHeader crates entry.2 = .ok entry.1 :=
              fun entry hmem => hheaders entry (by simp [hmem])
            apply Ensures.bind_ok hinvt (keeps_streamEntries entries t hinvt hheaders')
            intro later u _ _ hlater v _ _ hunbroken
            have hsent : broken (forwardBlob blob.size 0 blob.stream) = false := by
              simpa using hbroken
            obtain ⟨hsame, _⟩ := forwardBlob_unbroken hsent
            rw [hsame] at hsent hunbroken ⊢
            rw [broken_append, Bool.or_eq_false_iff] at hunbroken
            obtain ⟨frames, hdigests, hframes, hall⟩ := hlater hunbroken.2
            refine ⟨(digest, content) :: frames, by simp [hdigests], ?_, ?_⟩
            · rw [contents_append, contents_ok, hserve.whole hsent]
              exact .cons (hheaders (header, digest) (by simp)) hframes
            · intro frame hmem
              rcases List.mem_cons.mp hmem with rfl | hmem
              · exact hmatches
              · exact hall frame hmem

/-- A response to `packBlobs` that is sent to its end: the magic, and a frame with
the right bytes for digests the request named and the namespace can see. -/
def ServesPack (crates : Crates) (ns : String) (digests : List Digest) (stores : Held)
    (response : PackResponse) : Prop :=
  broken response.body = false → ∃ (frames : List Frame) (rest : Bytes),
    contents response.body = BLOB_PACK_MAGIC ++ rest ∧ FramesOf crates frames rest ∧
    ∀ frame ∈ frames, frame.1 ∈ digests ∧ Sees stores ns frame.1 ∧
      crates.Matches frame.1 frame.2

theorem keeps_packBlobs {state : AppState} {headers : HeaderMap} {digests : List Digest}
    (hinv : Consistent crates stores) :
    Keeps crates
      (fun response t => ∀ ns, namespaceHeader headers = some ns →
        ServesPack crates ns digests t response) stores
      (packBlobs crates state headers digests) := by
  apply Ensures.lift_ok
  intro ns hns
  apply Ensures.lift_ok
  intro request hrequest
  obtain ⟨_, _, hrequest⟩ := bind_eq_ok.mp hrequest
  obtain ⟨hrequested, _⟩ := packRequest_foldlM digests hrequest
  apply Ensures.bind_ok hinv keeps_visibleBlobs
  intro visible t _ hinvt hvisible
  apply Ensures.bind_ok hinvt keeps_recordBlobAccess
  intro _ u hu hinvu _
  apply Ensures.lift_ok
  intro pack hpack
  obtain ⟨added, hentries, hdigests, hheaders, _⟩ := packEntries_foldlM hpack
  rw [List.nil_append] at hentries
  rw [hentries]
  apply Ensures.bind_ok hinvu (keeps_streamEntries added u hinvu hheaders)
  intro sent v hv _ hsent w hw _ ns' hns' hunbroken
  have hsame : ns' = ns := by
    rw [Authorizer.authorize_eq_ok hns] at hns'
    exact (Option.some.inj hns').symm
  obtain ⟨frames, hframes, hof, hmatches⟩ := hsent hunbroken
  refine ⟨frames, contents sent, rfl, hof, fun frame hmem => ?_⟩
  have hdigest : frame.1 ∈ visible := by
    rw [← hdigests, ← hframes]
    exact List.mem_map_of_mem hmem
  obtain ⟨hin, hsees⟩ := hvisible frame.1 hdigest
  rw [hrequested, List.mem_eraseDups] at hin
  rw [hsame]
  exact ⟨hin, hsees.mono ((hu.trans hv).trans hw), hmatches frame hmem⟩

/-! ## All handlers -/

/-- A call that changes nothing and whose answer is not relied on. -/
theorem keeps_reading {op : MetadataOp}
    (hread : ∀ metadata, (MemoryMetadata.exec crates op metadata).2 = metadata) :
    Keeps crates (fun _ _ => True) stores (callMetadata op) := by
  apply keeps_read hread
  intro _ _ _ _ _ _
  trivial

theorem keeps_getActionResult {state : AppState} {headers : HeaderMap} {parts : DigestParts}
    (hinv : Consistent crates stores) :
    Keeps crates (fun _ _ => True) stores (getActionResult crates state headers parts) := by
  apply Ensures.lift_ok
  intro ns _
  apply Ensures.lift_ok
  intro action _
  apply Ensures.bind_ok hinv (keeps_reading fun _ => rfl)
  intro found t _ _ _ u _ _
  cases found <;> trivial

theorem keeps_batchActionResults {state : AppState} {headers : HeaderMap}
    {digests : List Digest} :
    Keeps crates (fun _ _ => True) stores (batchActionResults crates state headers digests) := by
  apply Ensures.lift_ok
  intro ns _
  apply Ensures.lift_ok
  intro requested _
  exact keeps_reading fun _ => rfl

theorem keeps_getActionManifest {state : AppState} {headers : HeaderMap} {parts : DigestParts}
    (hinv : Consistent crates stores) :
    Keeps crates (fun _ _ => True) stores (getActionManifest crates state headers parts) := by
  apply Ensures.lift_ok
  intro ns _
  apply Ensures.lift_ok
  intro key _
  apply Ensures.bind_ok hinv (keeps_reading fun _ => rfl)
  intro found t _ _ _
  apply Ensures.lift_ok
  intro record _
  apply Ensures.lift_ok
  intro body _ u _ _
  trivial

/-- What a reply promises about the stores at the time it is given and after. -/
def Promised (crates : Crates) (state : AppState) (request : Request) (reply : Reply)
    (stores : Held) : Prop :=
  match request, reply with
  | .getBlob _ parts, .blob response => ServesDigest crates (digestOf parts) response
  | .missingBlobs headers digests, .missing missing =>
      NotMissing crates state headers digests missing stores
  | .packBlobs headers digests, .pack response =>
      ∀ ns, namespaceHeader headers = some ns → ServesPack crates ns digests stores response
  | _, _ => True

/-- Every handler keeps the stores consistent and its promise, whatever runs
beside it. -/
theorem keeps_handle {state : AppState} (request : Request) (hinv : Consistent crates stores) :
    Keeps crates (Promised crates state request) stores (handle crates state request) := by
  cases request with
  | getBlob headers parts => exact (keeps_getBlob hinv).map_ok
  | putBlob headers parts body => exact (keeps_putBlob hinv).map_ok
  | putBlobPack headers body => exact (keeps_putBlobPack hinv).map_ok
  | missingBlobs headers digests =>
      apply Ensures.map_ok
      exact keeps_missingBlobs hinv
  | packBlobs headers digests => exact (keeps_packBlobs hinv).map_ok
  | getActionResult headers parts => exact (keeps_getActionResult hinv).map_ok
  | batchActionResults headers digests => exact keeps_batchActionResults.map_ok
  | putActionResult headers parts result => exact (keeps_putActionResult hinv).map_ok
  | getActionManifest headers parts => exact (keeps_getActionManifest hinv).map_ok
  | putActionManifest headers parts body => exact (keeps_putActionManifest hinv).map_ok

end

end MbxCache.Server
