/-
# What the stores always satisfy

Two properties of the stores in any reachable state. `Sound`: an object is what
its digest says, and what a namespace can see exists. `Complete`: everything a
committed action result refers to can be seen in its namespace, through any depth
of its output tree.

Both are kept by each call a handler may make under the condition given here for
that call, and everything a handler learns on the way to such a condition lasts,
because the stores only grow.
-/

import MbxCache.Server.Results
import MbxCache.Server.Stores

namespace MbxCache.Server

open Foundation

/-- The stores of a server that keeps its metadata in memory. -/
abbrev Held := Stores MemoryMetadata

/-- A server that has just started. -/
def Held.empty : Held where
  blobs _ := none
  metadata := MemoryMetadata.empty

section

variable (crates : Crates)

/-! ## Objects and visibility -/

def Sees (stores : Held) (ns : String) (digest : Digest) : Prop :=
  (ns, digest) ∈ stores.metadata.blobs

/-- Integrity of the objects, and existence of the visible ones. -/
structure Sound (stores : Held) : Prop where
  integrity : ∀ digest content, stores.blobs digest = some content →
    crates.Matches digest content
  stored : ∀ ns digest, Sees stores ns digest → ∃ content, stores.blobs digest = some content

/-! ## References -/

/-- A visible object under a checked digest that parses as a canonical JSON
object. -/
structure HoldsObject (stores : Held) (ns : String) (digest : Digest) (label : String)
    (value : Json) : Prop where
  valid : crates.digests.validate digest = true
  small : digest.size ≤ maxObjectBytes
  sees : Sees stores ns digest
  object : ∃ content, stores.blobs digest = some content ∧
    parseCanonicalObject crates label content = .ok value

/-- A visible object that parses as a directory. -/
structure HoldsDirectory (stores : Held) (ns : String) (digest : Digest)
    (directory : Directory) : Prop where
  sees : Sees stores ns digest
  object : ∃ content, stores.blobs digest = some content ∧
    parseDirectory crates content = .ok directory

/-- The directories of the tree under a root, as the stored objects spell it. -/
inductive Reaches (stores : Held) (root : Digest) : Digest → Prop where
  | root : Reaches stores root root
  | child {digest : Digest} {content : Bytes} {directory : Directory} {node : DirectoryNode}
      (parent : Reaches stores root digest) (held : stores.blobs digest = some content)
      (parsed : crates.directoryFromSlice content = .ok directory)
      (listed : node ∈ directory.directories) : Reaches stores root node.digest

/-- Every directory of the tree can be read in the namespace, and every file in
it can be seen there. -/
def TreeVisible (stores : Held) (ns : String) (root : Digest) : Prop :=
  ∀ digest, Reaches crates stores root digest →
    ∃ directory, HoldsDirectory crates stores ns digest directory ∧
      ∀ file ∈ directory.files, Sees stores ns file.digest

/-- Metadata of the right kind whose output streams can be seen. Task metadata
has no streams. -/
def MetadataVisible (stores : Held) (ns : String) (kind : ActionKind) (digest : Digest) : Prop :=
  ∃ value streams, HoldsObject crates stores ns digest "client metadata" value ∧
    acceptMetadata crates kind value = .ok streams ∧
    ∀ stdout stderr, streams = some (stdout, stderr) →
      Sees stores ns stdout ∧ Sees stores ns stderr

/-- A result under its action whose references are all there. -/
structure Published (stores : Held) (ns : String) (action : Digest)
    (result : ActionResult) : Prop where
  names : result.action = action
  version : result.version = 1
  kind : ∃ kind value, HoldsObject crates stores ns action "action descriptor" value ∧
    acceptDescriptor crates value = .ok kind ∧
    (kind ≠ .task → result.metadata.isSome = true ∧ result.outputRoot.isSome = true) ∧
    ∀ metadata, result.metadata = some metadata →
      MetadataVisible crates stores ns kind metadata
  tree : ∀ root, result.outputRoot = some root → TreeVisible crates stores ns root

/-- Every committed result is complete. -/
def Complete (stores : Held) : Prop :=
  ∀ ns action bytes, stores.metadata.entries (ns, action) = some bytes →
    ∃ result, crates.resultToVec result = .ok bytes ∧ Published crates stores ns action result

structure Consistent (stores : Held) : Prop where
  sound : Sound crates stores
  complete : Complete crates stores

variable {crates}
variable {stores later : Held} {ns : String}

theorem consistent_empty : Consistent crates Held.empty where
  sound :=
    { integrity := by
        intro digest content h
        cases h
      stored := by
        intro ns digest h
        exact absurd h (Finset.notMem_empty _) }
  complete := by
    intro ns action bytes h
    cases h

/-! ## What is learned lasts -/

theorem Sees.mono {digest : Digest} (h : Sees stores ns digest) (hle : stores ≤ later) :
    Sees later ns digest :=
  hle.2 h

theorem HoldsObject.mono {digest : Digest} {label : String} {value : Json}
    (h : HoldsObject crates stores ns digest label value) (hle : stores ≤ later) :
    HoldsObject crates later ns digest label value := by
  obtain ⟨content, hheld, hparse⟩ := h.object
  exact ⟨h.valid, h.small, h.sees.mono hle, content, hle.1 digest content hheld, hparse⟩

theorem HoldsDirectory.mono {digest : Digest} {directory : Directory}
    (h : HoldsDirectory crates stores ns digest directory) (hle : stores ≤ later) :
    HoldsDirectory crates later ns digest directory := by
  obtain ⟨content, hheld, hparse⟩ := h.object
  exact ⟨h.sees.mono hle, content, hle.1 digest content hheld, hparse⟩

/-- A directory that passed its checks was parsed from its bytes. -/
theorem directoryFromSlice_of_parseDirectory {content : Bytes} {directory : Directory}
    (h : parseDirectory crates content = .ok directory) :
    crates.directoryFromSlice content = .ok directory := by
  obtain ⟨parsed, hparsed, h⟩ := bind_eq_ok.mp h
  obtain ⟨printed, _, h⟩ := bind_eq_ok.mp h
  obtain ⟨_, _, h⟩ := bind_eq_ok.mp h
  obtain ⟨_, _, h⟩ := bind_eq_ok.mp h
  obtain ⟨_, _, h⟩ := bind_eq_ok.mp h
  rw [← Except.ok.inj h]
  exact mapError_eq_ok.mp hparsed

/-- Under a visible tree nothing new appears later: every object of it is held
already, and objects do not change. -/
theorem Reaches.of_later {root digest : Digest} (htree : TreeVisible crates stores ns root)
    (hle : stores ≤ later) (h : Reaches crates later root digest) :
    Reaches crates stores root digest := by
  induction h with
  | root => exact .root
  | child parent held parsed listed ih =>
      obtain ⟨directory, hdirectory, _⟩ := htree _ ih
      obtain ⟨content, hcontent, _⟩ := hdirectory.object
      have hsame := hle.1 _ _ hcontent
      rw [held] at hsame
      rw [← Option.some.inj hsame] at hcontent
      exact .child ih hcontent parsed listed

theorem TreeVisible.mono {root : Digest} (h : TreeVisible crates stores ns root)
    (hle : stores ≤ later) : TreeVisible crates later ns root := by
  intro digest hreach
  obtain ⟨directory, hdirectory, hfiles⟩ := h digest (hreach.of_later h hle)
  exact ⟨directory, hdirectory.mono hle, fun file hfile => (hfiles file hfile).mono hle⟩

theorem MetadataVisible.mono {kind : ActionKind} {digest : Digest}
    (h : MetadataVisible crates stores ns kind digest) (hle : stores ≤ later) :
    MetadataVisible crates later ns kind digest := by
  obtain ⟨value, streams, hobject, haccept, hstreams⟩ := h
  refine ⟨value, streams, hobject.mono hle, haccept, fun stdout stderr heq => ?_⟩
  obtain ⟨hstdout, hstderr⟩ := hstreams stdout stderr heq
  exact ⟨hstdout.mono hle, hstderr.mono hle⟩

theorem Published.mono {action : Digest} {result : ActionResult}
    (h : Published crates stores ns action result) (hle : stores ≤ later) :
    Published crates later ns action result := by
  obtain ⟨kind, value, hobject, haccept, hshape, hmetadata⟩ := h.kind
  refine ⟨h.names, h.version, ⟨kind, value, hobject.mono hle, haccept, hshape, ?_⟩, ?_⟩
  · exact fun metadata heq => (hmetadata metadata heq).mono hle
  · exact fun root heq => (h.tree root heq).mono hle

/-- Completeness only looks at what a larger store still has. -/
theorem Complete.mono (h : Complete crates stores) (hle : stores ≤ later)
    (hentries : later.metadata.entries = stores.metadata.entries) : Complete crates later := by
  intro ns action bytes hbytes
  rw [hentries] at hbytes
  obtain ⟨result, hencoded, hpublished⟩ := h ns action bytes hbytes
  exact ⟨result, hencoded, hpublished.mono hle⟩

/-- What a reader gets is a published result, as the serializer reads back what it
wrote. -/
theorem Complete.get {action : Digest} {result : ActionResult} (h : Complete crates stores)
    (htrips : crates.RoundTrips)
    (hget : stores.metadata.get crates ns action = .ok (some result)) :
    Published crates stores ns action result := by
  unfold MemoryMetadata.get at hget
  cases hentry : stores.metadata.entries (ns, action) with
  | none =>
      rw [hentry] at hget
      cases hget
  | some bytes =>
      rw [hentry] at hget
      obtain ⟨published, hencoded, hpublished⟩ := h ns action bytes hentry
      obtain ⟨bytes', hto, hfrom⟩ := htrips.result_slice published
      rw [hencoded] at hto
      obtain rfl := Except.ok.inj hto
      dsimp only at hget
      rw [hfrom] at hget
      have hsame : published = result := Option.some.inj (Except.ok.inj hget)
      exact hsame ▸ hpublished

/-! ## What each call keeps -/

/-- A verified object may be put. -/
theorem Consistent.put {digest : Digest} {source : Bytes} (h : Consistent crates stores)
    (hmatches : crates.Matches digest source) :
    Consistent crates (stores.putObject digest source).2 ∧
      stores ≤ (stores.putObject digest source).2 := by
  have hle : stores ≤ (stores.putObject digest source).2 := by
    constructor
    · exact fun other content hheld => Stores.putObject_blobs_of_held hheld
    · rw [Stores.putObject_metadata]
  refine ⟨⟨⟨?_, ?_⟩, ?_⟩, hle⟩
  · intro other content hheld
    rcases Stores.putObject_blobs_eq_some hheld with hold | ⟨rfl, rfl⟩
    · exact h.sound.integrity other content hold
    · exact hmatches
  · intro ns other hsees
    rw [Sees, Stores.putObject_metadata] at hsees
    obtain ⟨content, hheld⟩ := h.sound.stored ns other hsees
    exact ⟨content, hle.1 other content hheld⟩
  · exact h.complete.mono hle (by rw [Stores.putObject_metadata])

/-- A digest whose object is held may be registered. -/
theorem Consistent.register {digest : Digest} {content : Bytes} (h : Consistent crates stores)
    (hheld : stores.blobs digest = some content) (outcome : PutOutcome) :
    Consistent crates
        { stores with metadata := stores.metadata.registerBlob ns digest outcome } ∧
      stores ≤ { stores with metadata := stores.metadata.registerBlob ns digest outcome } := by
  have hle : stores ≤
      { stores with metadata := stores.metadata.registerBlob ns digest outcome } :=
    ⟨fun _ _ h => h, Finset.subset_insert _ _⟩
  refine ⟨⟨⟨h.sound.integrity, ?_⟩, h.complete.mono hle rfl⟩, hle⟩
  intro ns' other hsees
  rcases Finset.mem_insert.mp hsees with heq | hold
  · obtain ⟨_, rfl⟩ := Prod.mk.inj heq
    exact ⟨content, hheld⟩
  · exact h.sound.stored ns' other hold

theorem sees_registerBlob (stores : Held) (ns : String) (digest : Digest)
    (outcome : PutOutcome) :
    Sees { stores with metadata := stores.metadata.registerBlob ns digest outcome } ns digest :=
  Finset.mem_insert_self _ _

/-- A metadata call that touches neither visibility nor results may be made. -/
theorem Consistent.frame {metadata : MemoryMetadata} (h : Consistent crates stores)
    (hblobs : metadata.blobs = stores.metadata.blobs)
    (hentries : metadata.entries = stores.metadata.entries) :
    Consistent crates { stores with metadata } ∧ stores ≤ { stores with metadata } := by
  have hle : stores ≤ { stores with metadata } :=
    ⟨fun _ _ h => h, by rw [hblobs]⟩
  refine ⟨⟨⟨h.sound.integrity, ?_⟩, h.complete.mono hle hentries⟩, hle⟩
  intro ns digest hsees
  rw [Sees, hblobs] at hsees
  exact h.sound.stored ns digest hsees

/-- A complete result may be committed. -/
theorem Consistent.commit {action : Digest} {result : ActionResult}
    (h : Consistent crates stores) (hpublished : Published crates stores ns action result) :
    Consistent crates
        { stores with metadata := (stores.metadata.commit crates ns action result).2 } ∧
      stores ≤ { stores with metadata := (stores.metadata.commit crates ns action result).2 } := by
  unfold MemoryMetadata.commit
  cases hencode : crates.resultToVec result with
  | error e => exact ⟨h, le_refl stores⟩
  | ok encoded =>
      cases hentry : stores.metadata.entries (ns, action) with
      | some existing => exact ⟨h, le_refl stores⟩
      | none =>
          have hle : stores ≤ { stores with
              metadata := { stores.metadata with
                entries := Function.update stores.metadata.entries (ns, action)
                  (some encoded) } } :=
            ⟨fun _ _ h => h, Finset.Subset.refl _⟩
          refine ⟨⟨⟨h.sound.integrity, h.sound.stored⟩, ?_⟩, hle⟩
          intro ns' other bytes hbytes
          by_cases heq : (ns', other) = (ns, action)
          · obtain ⟨rfl, rfl⟩ := Prod.mk.inj heq
            have hsame : encoded = bytes := by simpa using hbytes
            exact ⟨result, hsame ▸ hencode, hpublished.mono hle⟩
          · have hold : stores.metadata.entries (ns', other) = some bytes := by
              simpa [heq] using hbytes
            obtain ⟨result', hencoded, hpublished'⟩ := h.complete ns' other bytes hold
            exact ⟨result', hencoded, hpublished'.mono hle⟩

end

end MbxCache.Server
