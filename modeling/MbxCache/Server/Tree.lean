/-
# What the walk over an output tree decides

While the stores stay as they are, validating a tree is a search of the graph that
the stored directories spell. It ends, and it accepts a root exactly when every
directory under it can be read and is in order, none of them is under itself, and
they are not too many. That a directory is listed more than once does not matter.
-/

import MbxCache.Foundation.DepthFirst
import MbxCache.Server.Alone

namespace MbxCache.Server

open Foundation Program Relation

section

variable (crates : Crates) (stores : Held) (ns : String)

/-! ## Trees -/

/-- A stored directory lists another. -/
def Lists (parent child : Digest) : Prop :=
  ∃ content directory, stores.blobs parent = some content ∧
    crates.directoryFromSlice content = .ok directory ∧
    ∃ node ∈ directory.directories, node.digest = child

/-- A directory that is in order by itself. -/
structure ValidDirectory (digest : Digest) : Prop where
  small : digest.size ≤ 16 * 1024 * 1024
  sees : Sees stores ns digest
  object : ∃ content directory, stores.blobs digest = some content ∧
    crates.directoryFromSlice content = .ok directory ∧
    crates.directoryToVec directory = .ok content ∧ directory.version = 1 ∧
    validateDirectoryEntries directory = .ok () ∧
    ∀ file ∈ directory.files, crates.digests.validate file.digest = true ∧
      Sees stores ns file.digest

/-- The directories under a root are a valid tree. -/
structure ValidTree (root : Digest) : Prop where
  directories : ∀ digest, Reaches crates stores root digest →
    ValidDirectory crates stores ns digest
  acyclic : ∀ digest, Reaches crates stores root digest →
    ¬ TransGen (Lists crates stores) digest digest
  bounded : {digest | Reaches crates stores root digest}.encard ≤ 100000

variable {crates stores ns}
variable {root digest : Digest}

theorem reaches_iff :
    Reaches crates stores root digest ↔ ReflTransGen (Lists crates stores) root digest := by
  constructor
  · intro h
    induction h with
    | root => exact .refl
    | child parent held parsed listed ih => exact ih.tail ⟨_, _, held, parsed, _, listed, rfl⟩
  · intro h
    induction h with
    | refl => exact .root
    | tail _ hlists ih =>
        obtain ⟨content, directory, hheld, hparsed, node, hnode, rfl⟩ := hlists
        exact .child ih hheld hparsed hnode

theorem validTree_iff : ValidTree crates stores ns root ↔
    DepthFirst.Orderly (Lists crates stores) (ValidDirectory crates stores ns) maxDirectories
      root := by
  have hset : {digest | Reaches crates stores root digest} =
      {digest | ReflTransGen (Lists crates stores) root digest} := by
    ext digest
    exact reaches_iff
  constructor
  · intro h
    constructor
    · exact fun digest hreach => h.directories digest (reaches_iff.mpr hreach)
    · exact fun digest hreach => h.acyclic digest (reaches_iff.mpr hreach)
    · exact hset ▸ h.bounded
  · intro h
    constructor
    · exact fun digest hreach => h.good digest (reaches_iff.mp hreach)
    · exact fun digest hreach => h.acyclic digest (reaches_iff.mp hreach)
    · exact hset ▸ h.bounded

/-- A directory lists what its object says. -/
theorem lists_iff {content : Bytes} {directory : Directory}
    (hheld : stores.blobs digest = some content)
    (hparsed : crates.directoryFromSlice content = .ok directory) (child : Digest) :
    Lists crates stores digest child ↔
      child ∈ directory.directories.reverse.map DirectoryNode.digest := by
  rw [List.map_reverse, List.mem_reverse, List.mem_map]
  constructor
  · rintro ⟨content', directory', hheld', hparsed', hlisted⟩
    rw [hheld] at hheld'
    obtain rfl := Option.some.inj hheld'
    rw [hparsed] at hparsed'
    obtain rfl := Except.ok.inj hparsed'
    exact hlisted
  · exact fun hlisted => ⟨content, directory, hheld, hparsed, hlisted⟩

/-! ## One directory -/

variable {chunking : Chunking}

theorem parseDirectory_eq_ok {bytes : Bytes} {directory : Directory} :
    parseDirectory crates bytes = .ok directory ↔
      crates.directoryFromSlice bytes = .ok directory ∧
        crates.directoryToVec directory = .ok bytes ∧ directory.version = 1 ∧
        validateDirectoryEntries directory = .ok () := by
  constructor
  · intro h
    obtain ⟨parsed, hparsed, h⟩ := bind_eq_ok.mp h
    obtain ⟨printed, hprinted, h⟩ := bind_eq_ok.mp h
    obtain ⟨_, hsame, h⟩ := bind_eq_ok.mp h
    obtain ⟨_, hversion, h⟩ := bind_eq_ok.mp h
    obtain ⟨_, hentries, h⟩ := bind_eq_ok.mp h
    obtain rfl := Except.ok.inj h
    obtain rfl : printed = bytes := by simpa using rejectIf_eq_ok.mp hsame
    exact ⟨mapError_eq_ok.mp hparsed, mapError_eq_ok.mp hprinted,
      by simpa using rejectIf_eq_ok.mp hversion, hentries⟩
  · rintro ⟨hparsed, hprinted, hversion, hentries⟩
    refine bind_eq_ok.mpr ⟨directory, mapError_eq_ok.mpr hparsed, ?_⟩
    refine bind_eq_ok.mpr ⟨bytes, mapError_eq_ok.mpr hprinted, ?_⟩
    refine bind_eq_ok.mpr ⟨(), rejectIf_eq_ok.mpr (by simp), ?_⟩
    refine bind_eq_ok.mpr ⟨(), rejectIf_eq_ok.mpr (by simp [hversion]), ?_⟩
    exact bind_eq_ok.mpr ⟨(), hentries, rfl⟩

variable (crates stores ns) in
/-- What requiring a blob comes to. -/
def blobHeld (digest : Digest) (label : String) : Except ApiError Unit := do
  validateDigest crates.digests digest
  rejectIf (!stores.metadata.blobVisible ns digest) (.unprocessable s!"{label} is missing")

variable (stores ns) in
/-- What reading a visible object comes to. -/
def objectHeld (digest : Digest) (missing : String) : Except ApiError Bytes := do
  rejectIf (!stores.metadata.blobVisible ns digest) (.unprocessable missing)
  okOr (stores.blobs digest) (.unprocessable missing)

variable (crates stores ns) in
/-- What reading a directory comes to. -/
def directoryHeld (digest : Digest) : Except ApiError Directory := do
  rejectIf (decide (digest.size > maxObjectBytes))
    (.unprocessable "directory object is too large")
  let bytes ← objectHeld stores ns digest "directory object is missing"
  let directory ← parseDirectory crates bytes
  directory.files.forM fun file => blobHeld crates stores ns file.digest "file blob"
  return directory

theorem run_requireBlob (digest : Digest) (label : String) :
    run (alone crates chunking) (requireBlob crates ns digest label) stores =
      (blobHeld crates stores ns digest label, stores) := by
  apply run_bind_same
  · exact run_done _ _ _
  · intro _
    rw [run_bind_ok _ (run_blobVisible ns digest stores)]
    rfl

theorem run_readVisibleObject_same (digest : Digest) (missing : String) :
    run (alone crates chunking) (readVisibleObject ns digest missing) stores =
      (objectHeld stores ns digest missing, stores) := by
  unfold readVisibleObject
  rw [run_bind_ok _ (run_blobVisible ns digest stores)]
  apply run_bind_same
  · exact run_done _ _ _
  · intro _
    rw [run_bind_ok _ (run_getObject digest stores)]
    cases stores.blobs digest with
    | none => rfl
    | some content =>
        simp only [Option.map_some, okOr, monadLift_eq, ok_bind, Stores.blobOf,
          readStream_map_ok, chunking.flatten_chunks, run_done]

theorem run_readDirectory (digest : Digest) :
    run (alone crates chunking) (readDirectory crates ns digest) stores =
      (directoryHeld crates stores ns digest, stores) := by
  apply run_bind_same
  · exact run_done _ _ _
  intro _
  apply run_bind_same
  · exact run_readVisibleObject_same digest _
  intro bytes
  apply run_bind_same
  · exact run_done _ _ _
  intro directory
  apply run_bind_same
  · exact run_forM_same _ (fun file : FileNode => run_requireBlob file.digest _) _
  · intro _
    exact run_done _ _ _

theorem blobHeld_eq_ok {label : String} :
    blobHeld crates stores ns digest label = .ok () ↔
      crates.digests.validate digest = true ∧ Sees stores ns digest := by
  rw [Sees, ← MemoryMetadata.blobVisible_eq_true]
  constructor
  · intro h
    obtain ⟨_, hvalid, hvisible⟩ := bind_eq_ok.mp h
    exact ⟨validateDigest_eq_ok.mp hvalid, by simpa using hvisible⟩
  · rintro ⟨hvalid, hvisible⟩
    exact bind_eq_ok.mpr ⟨(), validateDigest_eq_ok.mpr hvalid, by simp [hvisible]⟩

theorem objectHeld_eq_ok {missing : String} {content : Bytes} :
    objectHeld stores ns digest missing = .ok content ↔
      Sees stores ns digest ∧ stores.blobs digest = some content := by
  rw [Sees, ← MemoryMetadata.blobVisible_eq_true]
  constructor
  · intro h
    obtain ⟨_, hvisible, hheld⟩ := bind_eq_ok.mp h
    exact ⟨by simpa using hvisible, okOr_eq_ok.mp hheld⟩
  · rintro ⟨hvisible, hheld⟩
    exact bind_eq_ok.mpr ⟨(), by simp [hvisible], okOr_eq_ok.mpr hheld⟩

/-- A directory can be read exactly when it is in order. -/
theorem directoryHeld_eq_ok {directory : Directory} :
    directoryHeld crates stores ns digest = .ok directory ↔
      ValidDirectory crates stores ns digest ∧ ∃ content, stores.blobs digest = some content ∧
        crates.directoryFromSlice content = .ok directory := by
  constructor
  · intro h
    obtain ⟨_, hsmall, h⟩ := bind_eq_ok.mp h
    obtain ⟨content, hcontent, h⟩ := bind_eq_ok.mp h
    obtain ⟨parsed, hparse, h⟩ := bind_eq_ok.mp h
    obtain ⟨_, hfiles, h⟩ := bind_eq_ok.mp h
    obtain rfl := Except.ok.inj h
    obtain ⟨hsees, hheld⟩ := objectHeld_eq_ok.mp hcontent
    obtain ⟨hparsed, hprinted, hversion, hentries⟩ := parseDirectory_eq_ok.mp hparse
    have hsize : digest.size ≤ maxObjectBytes := by simpa using hsmall
    refine ⟨⟨hsize, hsees, content, parsed, hheld, hparsed, hprinted, hversion, hentries, ?_⟩,
      content, hheld, hparsed⟩
    exact fun file hfile => blobHeld_eq_ok.mp (forM_eq_ok.mp hfiles file hfile)
  · rintro ⟨⟨hsmall, hsees, content, parsed, hheld, hparsed, hprinted, hversion, hentries, hfiles⟩,
      content', hheld', hparsed'⟩
    rw [hheld] at hheld'
    obtain rfl := Option.some.inj hheld'
    rw [hparsed] at hparsed'
    obtain rfl := Except.ok.inj hparsed'
    have hsize : decide (digest.size > maxObjectBytes) = false :=
      decide_eq_false_iff_not.mpr (UInt64.not_lt.mpr hsmall)
    refine bind_eq_ok.mpr ⟨(), rejectIf_eq_ok.mpr hsize, ?_⟩
    refine bind_eq_ok.mpr ⟨content, objectHeld_eq_ok.mpr ⟨hsees, hheld⟩, ?_⟩
    refine bind_eq_ok.mpr ⟨parsed, ?_, ?_⟩
    · exact parseDirectory_eq_ok.mpr ⟨hparsed, hprinted, hversion, hentries⟩
    · refine bind_eq_ok.mpr ⟨(), forM_eq_ok.mpr fun file hfile => ?_, rfl⟩
      exact blobHeld_eq_ok.mpr (hfiles file hfile)

/-- An error that does not speak of a cycle. -/
def Acquits (e : ApiError) : Prop := e ≠ .unprocessable "directory graph contains a cycle"

instance : DecidablePred Acquits := fun e => inferInstanceAs (Decidable (e ≠ _))

theorem errs_blobHeld (digest : Digest) :
    Errs Acquits (blobHeld crates stores ns digest "file blob") := by
  apply Errs.bind
  · intro e h
    unfold validateDigest at h
    split at h
    · cases h
    · rw [← Except.error.inj h]
      decide
  · intro _
    apply errs_rejectIf
    decide

theorem errs_validateEntry (names : List String) (name : String) (mode : ℕ) :
    Errs Acquits (validateEntry names name mode) := by
  apply Errs.bind
  · apply errs_rejectIf
    decide
  intro _
  apply Errs.bind
  · apply errs_rejectIf
    decide
  · exact fun _ => errs_ok _

theorem errs_validateSymlink (names : List String) (node : SymlinkNode) :
    Errs Acquits (validateSymlink names node) := by
  apply (errs_validateEntry names node.name node.mode).bind
  intro _
  apply Errs.bind
  · apply errs_rejectIf
    decide
  · exact fun _ => errs_ok _

theorem errs_validateDirectoryEntries (directory : Directory) :
    Errs Acquits (validateDirectoryEntries directory) := by
  apply Errs.bind
  · exact errs_foldlM (fun names node => errs_validateEntry names _ _) _ _
  intro names
  apply Errs.bind
  · exact errs_foldlM (fun names node => errs_validateEntry names _ _) _ _
  intro names e h
  cases hfold : directory.symlinks.foldlM validateSymlink names with
  | ok names =>
      rw [hfold] at h
      cases h
  | error error =>
      rw [hfold] at h
      rw [← Except.error.inj h]
      exact errs_foldlM errs_validateSymlink _ _ error hfold

theorem errs_parseDirectory (bytes : Bytes) : Errs Acquits (parseDirectory crates bytes) := by
  apply Errs.bind
  · apply errs_mapError
    intro _
    decide
  intro directory
  apply Errs.bind
  · apply errs_mapError
    intro error h
    cases h
  intro printed
  apply Errs.bind
  · apply errs_rejectIf
    decide
  intro _
  apply Errs.bind
  · apply errs_rejectIf
    decide
  intro _
  exact (errs_validateDirectoryEntries directory).bind fun _ => errs_ok _

/-- Reading a directory never finds a cycle. -/
theorem errs_directoryHeld (digest : Digest) :
    Errs Acquits (directoryHeld crates stores ns digest) := by
  apply Errs.bind
  · apply errs_rejectIf
    decide
  intro _
  apply Errs.bind
  · apply Errs.bind
    · apply errs_rejectIf
      decide
    · intro _
      apply errs_okOr
      decide
  intro bytes
  apply (errs_parseDirectory bytes).bind
  intro directory
  exact (errs_forM (fun file : FileNode => errs_blobHeld file.digest) _).bind fun _ => errs_ok _

/-! ## The walk -/

def Visit.visit : Visit → DepthFirst.Visit Digest
  | .enter digest => .enter digest
  | .exit digest => .exit digest

theorem map_pushDirectory (digest : Digest) (directory : Directory) (pending : List Visit) :
    (pushDirectory digest directory pending).map Visit.visit =
      DepthFirst.push digest (directory.directories.reverse.map DirectoryNode.digest)
        (pending.map Visit.visit) := by
  rw [pushDirectory, DepthFirst.push, List.map_append, List.map_cons, List.map_map, List.map_map]
  rfl

variable (crates stores ns root) in
/-- How a walk ends: with the verdict on the tree, and with a cycle only where there
is one. -/
structure Decides (ending : Except ApiError Unit × Held) : Prop where
  same : ending.2 = stores
  accepts : ending.1 = .ok () ↔ ValidTree crates stores ns root
  cycle : ending.1 = .error (.unprocessable "directory graph contains a cycle") →
    ∃ digest, Reaches crates stores root digest ∧ TransGen (Lists crates stores) digest digest

theorem decides_error {e : ApiError} (hinvalid : ¬ ValidTree crates stores ns root)
    (hcycle : ¬ Acquits e →
      ∃ digest, Reaches crates stores root digest ∧ TransGen (Lists crates stores) digest digest) :
    Decides crates stores ns root (.error e, stores) where
  same := rfl
  accepts := ⟨(fun h => by cases h), fun hvalid => absurd hvalid hinvalid⟩
  cycle h := hcycle fun hne => hne (Except.error.inj h)

/-- The walk is a search of the graph, turn by turn. -/
theorem decides_visitTree (pending : List Visit) (visiting seen : Finset Digest) :
    DepthFirst.Searching (Lists crates stores) (ValidDirectory crates stores ns) maxDirectories
      root (pending.map Visit.visit) visiting seen →
    Decides crates stores ns root
      (run (alone crates chunking) (visitTree crates ns pending visiting seen) stores) := by
  induction pending, visiting, seen using visitTree.induct with
  | case1 visiting seen =>
      intro h
      rw [visitTree]
      constructor
      case same => rfl
      case accepts => exact ⟨fun _ => validTree_iff.mpr h.orderly, fun _ => rfl⟩
      case cycle =>
        intro herror
        cases herror
  | case2 visiting seen digest pending ih =>
      intro h
      rw [visitTree]
      exact ih h.leave
  | case3 visiting seen digest pending hseen ih =>
      intro h
      rw [visitTree, dif_pos hseen]
      exact ih (h.skip hseen)
  | case4 visiting seen digest pending hseen hvisiting =>
      intro h
      rw [visitTree, dif_neg hseen, dif_pos hvisiting]
      have hreach := reaches_iff.mpr h.reaches
      apply decides_error
      · exact fun hvalid => hvalid.acyclic digest hreach (h.cycle hvisiting)
      · exact fun _ => ⟨digest, hreach, h.cycle hvisiting⟩
  | case5 visiting seen digest pending hseen hvisiting hbound =>
      intro h
      rw [visitTree, dif_neg hseen, dif_neg hvisiting, dif_pos hbound]
      apply decides_error
      · intro hvalid
        exact absurd (h.overflow hseen hbound) (not_lt.mpr (validTree_iff.mp hvalid).bounded)
      · exact fun hcycle => absurd (by decide) hcycle
  | case6 visiting seen digest pending hseen hvisiting hbound ih =>
      intro h
      rw [visitTree, dif_neg hseen, dif_neg hvisiting, dif_neg hbound]
      cases hheld : directoryHeld crates stores ns digest with
      | error e =>
          rw [run_bind_error _ (hheld ▸ run_readDirectory digest)]
          apply decides_error
          · intro hvalid
            have hdirectory := hvalid.directories digest (reaches_iff.mpr h.reaches)
            obtain ⟨content, directory, hcontent, hparsed, _⟩ := hdirectory.object
            rw [directoryHeld_eq_ok.mpr ⟨hdirectory, content, hcontent, hparsed⟩] at hheld
            cases hheld
          · exact fun hcycle => absurd (errs_directoryHeld digest e hheld) hcycle
      | ok directory =>
          obtain ⟨hvalid, content, hcontent, hparsed⟩ := directoryHeld_eq_ok.mp hheld
          rw [run_bind_ok _ (hheld ▸ run_readDirectory digest)]
          apply ih directory
          rw [map_pushDirectory]
          exact h.enter hseen hvisiting (not_lt.mp hbound) hvalid (lists_iff hcontent hparsed)

/-- Validating a tree ends with the verdict on it, whatever the stored directories
look like, and leaves the stores as they are. -/
theorem validate_tree_decides (crates : Crates) (chunking : Chunking) (stores : Held)
    (ns : String) (root : Digest) :
    Decides crates stores ns root
      (run (alone crates chunking) (validateTree crates ns root) stores) := by
  apply decides_visitTree
  exact .start _ _ _ _

end

end MbxCache.Server
