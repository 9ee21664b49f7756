/-
# What a metadata store is for

The purpose of the interface, without any encoding: which blobs a namespace sees,
at most one immutable result an action, and at most one manifest a key, replaced
only by a write that names the entity tag it replaces.

Both stores are related to it. A store meets it when each call gives the answer
stated here, or fails and changes nothing.
-/

import Mathlib.Data.Set.Insert
import Mathlib.Logic.Function.Basic
import MbxCache.Foundation.Simulation
import MbxCache.Metadata.Memory

namespace MbxCache

open Foundation

/-- The contents of a metadata store. -/
structure MetadataView where
  visible : Set MetadataKey
  result : MetadataKey → Option ActionResult
  manifest : MetadataKey → Option ManifestRecord

namespace MetadataView

def empty : MetadataView where
  visible := ∅
  result _ := none
  manifest _ := none

/-- The write goes through exactly where the stored entity tag is the expected
one; a missing manifest has none. -/
def expects (view : MetadataView) (key : MetadataKey) (expectedEtag : Option String) : Prop :=
  (view.manifest key).map ManifestRecord.etag = expectedEtag

/-- Commit a result once. -/
def commit (view : MetadataView) (key : MetadataKey) (result : ActionResult) :
    CommitOutcome × MetadataView :=
  match view.result key with
  | none => (.created, { view with result := Function.update view.result key (some result) })
  | some existing => (if existing = result then .alreadyExists else .conflict, view)

open Classical in
/-- Replace the manifest a write expects to be there. -/
noncomputable def commitManifest (view : MetadataView) (key : MetadataKey)
    (expectedEtag : Option String) (record : ManifestRecord) :
    ManifestCommitOutcome × MetadataView :=
  if view.expects key expectedEtag then
    (if expectedEtag.isSome then .updated else .created,
      { view with manifest := Function.update view.manifest key (some record) })
  else (.preconditionFailed, view)

open Classical in
/-- The answer to a call, and the contents after it. -/
noncomputable def perform : (op : MetadataOp) → MetadataView → op.Value × MetadataView
  | .visibleBlobs ns digests, view =>
      (digests.filter fun digest => (ns, digest) ∈ view.visible, view)
  | .blobVisible ns digest, view => (decide ((ns, digest) ∈ view.visible), view)
  | .registerBlob ns digest _, view =>
      ((), { view with visible := insert (ns, digest) view.visible })
  | .touchBlobs _ _, view => ((), view)
  | .get ns action, view => (view.result (ns, action), view)
  | .getBatch ns actions, view => (actions.filterMap fun action => view.result (ns, action), view)
  | .commit ns action result, view => view.commit (ns, action) result
  | .getManifest ns key, view => (view.manifest (ns, key), view)
  | .commitManifest ns key expectedEtag etag manifest, view =>
      view.commitManifest (ns, key) expectedEtag { etag, manifest }

section

variable {view : MetadataView} {key : MetadataKey}

theorem commit_of_none {result : ActionResult} (h : view.result key = none) :
    view.commit key result =
      (.created, { view with result := Function.update view.result key (some result) }) := by
  rw [commit, h]

theorem commit_of_some {result existing : ActionResult} (h : view.result key = some existing) :
    view.commit key result =
      (if existing = result then .alreadyExists else .conflict, view) := by
  rw [commit, h]

theorem commitManifest_of_expects {expectedEtag : Option String} {record : ManifestRecord}
    (h : view.expects key expectedEtag) :
    view.commitManifest key expectedEtag record =
      (if expectedEtag.isSome then .updated else .created,
        { view with manifest := Function.update view.manifest key (some record) }) := by
  rw [commitManifest, if_pos h]

theorem commitManifest_of_not_expects {expectedEtag : Option String} {record : ManifestRecord}
    (h : ¬ view.expects key expectedEtag) :
    view.commitManifest key expectedEtag record = (.preconditionFailed, view) := by
  rw [commitManifest, if_neg h]

end

end MetadataView

/-- A store whose states stand for contents does what the contents do, or fails
without effect. -/
def MeetsSpec {S : Type} (exec : (op : MetadataOp) → S → op.Answer × S)
    (holds : S → MetadataView → Prop) : Prop :=
  ∀ op s view, holds s view →
    (∃ error, exec op s = (.error error, s)) ∨
      (exec op s).1 = .ok (view.perform op).1 ∧ holds (exec op s).2 (view.perform op).2

/-! ## The in-memory store -/

namespace MemoryMetadata

section

variable (crates : Crates)

/-- The contents of the in-memory store. Results are kept as the bytes they
serialize to. -/
structure Holds (store : MemoryMetadata) (view : MetadataView) : Prop where
  visible : ∀ key, key ∈ store.blobs ↔ key ∈ view.visible
  result : ∀ key, match store.entries key, view.result key with
    | none, none => True
    | some bytes, some result => crates.resultToVec result = .ok bytes
    | _, _ => False
  manifest : ∀ key, view.manifest key =
    (store.manifests key).map fun (etag, manifest) => { etag, manifest }

variable {crates}
variable {store : MemoryMetadata} {view : MetadataView}

theorem holds_empty : Holds crates empty MetadataView.empty where
  visible _ := by simp [empty, MetadataView.empty]
  result _ := trivial
  manifest _ := rfl

theorem Holds.entries_eq_none (h : Holds crates store view) {key : MetadataKey} :
    store.entries key = none ↔ view.result key = none := by
  have hkey := h.result key
  cases hentry : store.entries key <;> cases hresult : view.result key <;>
    simp [hentry, hresult] at hkey ⊢

theorem Holds.entries_eq_some (h : Holds crates store view) {key : MetadataKey}
    {result : ActionResult} (hresult : view.result key = some result) :
    ∃ bytes, store.entries key = some bytes ∧ crates.resultToVec result = .ok bytes := by
  have hkey := h.result key
  rw [hresult] at hkey
  cases hentry : store.entries key with
  | none => simp [hentry] at hkey
  | some bytes => exact ⟨bytes, rfl, by simpa [hentry] using hkey⟩

theorem Holds.get (htrips : crates.RoundTrips) (h : Holds crates store view) (ns : String)
    (action : Digest) : store.get crates ns action = .ok (view.result (ns, action)) := by
  unfold MemoryMetadata.get
  cases hresult : view.result (ns, action) with
  | none => rw [h.entries_eq_none.mpr hresult]
  | some result =>
      obtain ⟨bytes, hentry, hencoded⟩ := h.entries_eq_some hresult
      obtain ⟨bytes', hto, hfrom⟩ := htrips.result_slice result
      rw [hencoded] at hto
      obtain rfl := Except.ok.inj hto
      rw [hentry]
      dsimp only
      rw [hfrom]
      rfl

theorem Holds.getBatch (htrips : crates.RoundTrips) (h : Holds crates store view) (ns : String)
    (actions : List Digest) : store.getBatch crates ns actions =
      .ok (actions.filterMap fun action => view.result (ns, action)) := by
  induction actions with
  | nil => rfl
  | cons action actions ih =>
      rw [MemoryMetadata.getBatch, h.get htrips, ih]
      cases hresult : view.result (ns, action) with
      | none =>
          rw [List.filterMap_cons, hresult]
          rfl
      | some result =>
          rw [List.filterMap_cons, hresult]
          rfl

theorem Holds.commit (htrips : crates.RoundTrips) (h : Holds crates store view) (ns : String)
    (action : Digest) (result : ActionResult) :
    (store.commit crates ns action result).1 = .ok (view.commit (ns, action) result).1 ∧
      Holds crates (store.commit crates ns action result).2
        (view.commit (ns, action) result).2 := by
  obtain ⟨encoded, hencoded, hdecoded⟩ := htrips.result_slice result
  cases hresult : view.result (ns, action) with
  | none =>
      rw [MetadataView.commit_of_none hresult]
      simp only [MemoryMetadata.commit, hencoded, h.entries_eq_none.mpr hresult]
      refine ⟨trivial, h.visible, fun key => ?_, h.manifest⟩
      by_cases hkey : key = (ns, action)
      · subst hkey
        simpa using hencoded
      · simpa [hkey] using h.result key
  | some existing =>
      obtain ⟨bytes, hentry, hbytes⟩ := h.entries_eq_some hresult
      obtain ⟨bytes', hto, hfrom⟩ := htrips.result_slice existing
      rw [hbytes] at hto
      obtain rfl := Except.ok.inj hto
      have hsame : bytes = encoded ↔ existing = result := by
        constructor
        · rintro rfl
          rw [hfrom] at hdecoded
          exact Except.ok.inj hdecoded
        · rintro rfl
          rw [hbytes] at hencoded
          exact Except.ok.inj hencoded
      rw [MetadataView.commit_of_some hresult]
      simp only [MemoryMetadata.commit, hencoded, hentry]
      refine ⟨congrArg Except.ok ?_, h⟩
      by_cases heq : existing = result
      · rw [if_pos heq, if_pos (hsame.mpr heq)]
      · rw [if_neg heq, if_neg (mt hsame.mp heq)]

theorem Holds.matched (h : Holds crates store view) {key : MetadataKey}
    {expectedEtag : Option String} :
    manifestMatched (store.manifests key) expectedEtag = true ↔
      view.expects key expectedEtag := by
  rw [MetadataView.expects, h.manifest key]
  cases store.manifests key <;> cases expectedEtag <;> simp [manifestMatched]

theorem Holds.commitManifest (h : Holds crates store view) (ns : String) (key : Digest)
    (expectedEtag : Option String) (etag : String) (manifest : TaskActionManifest) :
    (store.commitManifest ns key expectedEtag etag manifest).1 =
        (view.commitManifest (ns, key) expectedEtag { etag, manifest }).1 ∧
      Holds crates (store.commitManifest ns key expectedEtag etag manifest).2
        (view.commitManifest (ns, key) expectedEtag { etag, manifest }).2 := by
  by_cases hexpects : view.expects (ns, key) expectedEtag
  · rw [MetadataView.commitManifest_of_expects hexpects]
    simp only [MemoryMetadata.commitManifest, h.matched.mpr hexpects, Bool.not_true,
      Bool.false_eq_true, if_false]
    refine ⟨?_, h.visible, h.result, fun other => ?_⟩
    · rw [MetadataView.expects, h.manifest] at hexpects
      rw [← hexpects]
      cases store.manifests (ns, key) <;> rfl
    · by_cases hkey : other = (ns, key)
      · subst hkey
        simp
      · simpa [hkey] using h.manifest other
  · have hfalse : manifestMatched (store.manifests (ns, key)) expectedEtag = false := by
      simpa using mt h.matched.mp hexpects
    rw [MetadataView.commitManifest_of_not_expects hexpects]
    simp only [MemoryMetadata.commitManifest, hfalse, Bool.not_false, if_true]
    exact ⟨trivial, h⟩

/-- The in-memory store never fails, and answers as its contents do. -/
theorem Holds.exec (htrips : crates.RoundTrips) (h : Holds crates store view)
    (op : MetadataOp) :
    (MemoryMetadata.exec crates op store).1 = .ok (view.perform op).1 ∧
      Holds crates (MemoryMetadata.exec crates op store).2 (view.perform op).2 := by
  cases op with
  | visibleBlobs ns digests =>
      refine ⟨?_, h⟩
      apply congrArg Except.ok
      apply List.filter_congr
      intro digest _
      rw [decide_eq_decide]
      exact h.visible (ns, digest)
  | blobVisible ns digest =>
      refine ⟨congrArg Except.ok ?_, h⟩
      rw [Bool.eq_iff_iff, blobVisible_eq_true, h.visible]
      simp [MetadataView.perform]
  | registerBlob ns digest stored =>
      refine ⟨rfl, fun key => ?_, h.result, h.manifest⟩
      simp [MemoryMetadata.exec, registerBlob, MetadataView.perform, h.visible]
  | touchBlobs ns digests => exact ⟨rfl, h⟩
  | get ns action => exact ⟨h.get htrips ns action, h⟩
  | getBatch ns actions => exact ⟨h.getBatch htrips ns actions, h⟩
  | commit ns action result => exact h.commit htrips ns action result
  | getManifest ns key =>
      refine ⟨congrArg Except.ok ?_, h⟩
      exact (h.manifest (ns, key)).symm
  | commitManifest ns key expectedEtag etag manifest =>
      obtain ⟨houtcome, hlater⟩ := h.commitManifest ns key expectedEtag etag manifest
      exact ⟨congrArg Except.ok houtcome, hlater⟩

theorem meetsSpec (htrips : crates.RoundTrips) :
    MeetsSpec (MemoryMetadata.exec crates) (Holds crates) :=
  fun op _ _ h => .inr (h.exec htrips op)

end

end MemoryMetadata

end MbxCache
