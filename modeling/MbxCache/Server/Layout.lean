/-
# What an accepted output tree looks like restored

A directory is restored by what it lists, each under its name, and by the
directories in it. Under a root that validation accepted this is a finite layout
whose paths are safe and all different, and in which only directories have anything
below them: nothing is ever written through a link of the tree.
-/

import MbxCache.Foundation.Layout
import MbxCache.Sample
import MbxCache.Server.Tree

namespace MbxCache.Server

open Foundation Program Relation Layout

/-! ## Nodes -/

/-- What a directory can list. -/
inductive Node where
  | directory (node : DirectoryNode)
  | file (node : FileNode)
  | symlink (node : SymlinkNode)
  deriving DecidableEq, Repr

namespace Node

def name : Node → String
  | directory node => node.name
  | file node => node.name
  | symlink node => node.name

def mode : Node → ℕ
  | directory node => node.mode
  | file node => node.mode
  | symlink node => node.mode

def IsDirectory : Node → Prop
  | directory _ => True
  | file _ | symlink _ => False

end Node

def nodesOf (directory : Directory) : List Node :=
  directory.directories.map .directory ++ directory.files.map .file ++
    directory.symlinks.map .symlink

/-- A name that stays inside its directory. -/
structure SafeComponent (name : String) : Prop where
  nonempty : name ≠ ""
  notHere : name ≠ "."
  notAbove : name ≠ ".."
  noSlash : '/' ∉ name.toList
  noBackslash : '\\' ∉ name.toList
  noNul : '\x00' ∉ name.toList

/-- What is checked of each entry by itself. -/
structure Node.Safe (node : Node) : Prop where
  component : SafeComponent node.name
  mode : node.mode ≤ 0o7777
  target : ∀ link, node = .symlink link → link.target ≠ "" ∧ '\x00' ∉ link.target.toList

/-! ## Entries -/

theorem validateEntry_eq_ok {names later : List String} {name : String} {mode : ℕ}
    (h : validateEntry names name mode = .ok later) :
    (SafeComponent name ∧ mode ≤ 0o7777) ∧ name ∉ names ∧ later = name :: names := by
  obtain ⟨_, hsafe, h⟩ := bind_eq_ok.mp h
  obtain ⟨_, hfresh, h⟩ := bind_eq_ok.mp h
  have hchecks := rejectIf_eq_ok.mp hsafe
  simp only [Bool.or_eq_false_iff, decide_eq_false_iff_not, not_lt, gt_iff_lt] at hchecks
  obtain ⟨⟨⟨⟨⟨⟨hempty, hhere⟩, habove⟩, hslash⟩, hbackslash⟩, hnul⟩, hmode⟩ := hchecks
  refine ⟨⟨⟨?_, ?_, ?_, ?_, ?_, ?_⟩, hmode⟩, ?_, (Except.ok.inj h).symm⟩
  · simpa using hempty
  · simpa using hhere
  · simpa using habove
  · simpa using hslash
  · simpa using hbackslash
  · simpa using hnul
  · simpa using rejectIf_eq_ok.mp hfresh

/-- One list of entries, after the names seen before it. -/
theorem foldlM_names {τ : Type} {check : List String → τ → Except ApiError (List String)}
    {nodeOf : τ → Node}
    (hcheck : ∀ names item later, check names item = .ok later →
      (nodeOf item).Safe ∧ (nodeOf item).name ∉ names ∧ later = (nodeOf item).name :: names) :
    ∀ (items : List τ) {names later : List String}, items.foldlM check names = .ok later →
      names.Nodup →
      (∀ node ∈ items.map nodeOf, node.Safe) ∧ later.Nodup ∧
        later = ((items.map nodeOf).map Node.name).reverse ++ names
  | [], names, later, h, hnames => by
      obtain rfl := Except.ok.inj h
      exact ⟨fun node hmem => absurd hmem List.not_mem_nil, hnames, rfl⟩
  | item :: items, names, later, h, hnames => by
      rw [List.foldlM_cons] at h
      obtain ⟨next, hitem, hitems⟩ := bind_eq_ok.mp h
      obtain ⟨hsafe, hfresh, rfl⟩ := hcheck names item next hitem
      obtain ⟨hrest, hnodup, hlater⟩ :=
        foldlM_names hcheck items hitems (List.nodup_cons.mpr ⟨hfresh, hnames⟩)
      refine ⟨?_, hnodup, ?_⟩
      · rw [List.map_cons, List.forall_mem_cons]
        exact ⟨hsafe, hrest⟩
      · rw [hlater, List.map_cons, List.map_cons, List.reverse_cons, List.append_assoc]
        rfl

theorem safe_of_validateEntry {node : Node} {names later : List String}
    (hlink : ∀ link, node = .symlink link → link.target ≠ "" ∧ '\x00' ∉ link.target.toList)
    (h : validateEntry names node.name node.mode = .ok later) :
    node.Safe ∧ node.name ∉ names ∧ later = node.name :: names := by
  obtain ⟨⟨hcomponent, hmode⟩, hfresh, hlater⟩ := validateEntry_eq_ok h
  exact ⟨⟨hcomponent, hmode, hlink⟩, hfresh, hlater⟩

theorem safe_of_validateDirectory (names : List String) (node : DirectoryNode)
    (later : List String) (h : validateEntry names node.name node.mode = .ok later) :
    (Node.directory node).Safe ∧ (Node.directory node).name ∉ names ∧
      later = (Node.directory node).name :: names :=
  safe_of_validateEntry (fun _ heq => by cases heq)
    (h : validateEntry names (Node.directory node).name _ = _)

theorem safe_of_validateFile (names : List String) (node : FileNode) (later : List String)
    (h : validateEntry names node.name node.mode = .ok later) :
    (Node.file node).Safe ∧ (Node.file node).name ∉ names ∧
      later = (Node.file node).name :: names :=
  safe_of_validateEntry (fun _ heq => by cases heq)
    (h : validateEntry names (Node.file node).name _ = _)

theorem safe_of_validateSymlink (names : List String) (link : SymlinkNode) (later : List String)
    (h : validateSymlink names link = .ok later) :
    (Node.symlink link).Safe ∧ link.name ∉ names ∧ later = link.name :: names := by
  obtain ⟨next, hentry, h⟩ := bind_eq_ok.mp h
  obtain ⟨_, htarget, h⟩ := bind_eq_ok.mp h
  obtain rfl := Except.ok.inj h
  have hchecks := rejectIf_eq_ok.mp htarget
  rw [Bool.or_eq_false_iff] at hchecks
  refine safe_of_validateEntry ?_ (hentry : validateEntry names (Node.symlink link).name _ = _)
  intro other hother
  obtain rfl := Node.symlink.inj hother
  exact ⟨by simpa using hchecks.1, by simpa using hchecks.2⟩

/-- The entries of a directory are safe by themselves and have different names. -/
theorem nodes_of_validateDirectoryEntries {directory : Directory}
    (h : validateDirectoryEntries directory = .ok ()) :
    (∀ node ∈ nodesOf directory, node.Safe) ∧ ((nodesOf directory).map Node.name).Nodup := by
  obtain ⟨names, hdirectories, h⟩ := bind_eq_ok.mp h
  obtain ⟨names', hfiles, h⟩ := bind_eq_ok.mp h
  have hlinks : ∃ last, directory.symlinks.foldlM validateSymlink names' = .ok last := by
    cases hfold : directory.symlinks.foldlM validateSymlink names' with
    | ok last => exact ⟨last, rfl⟩
    | error e =>
        rw [hfold] at h
        cases h
  obtain ⟨last, hlinks⟩ := hlinks
  obtain ⟨hsafe, hnodup, rfl⟩ := foldlM_names safe_of_validateDirectory
    directory.directories hdirectories List.nodup_nil
  obtain ⟨hsafe', hnodup, rfl⟩ := foldlM_names safe_of_validateFile
    directory.files hfiles hnodup
  obtain ⟨hsafe'', hnodup, rfl⟩ := foldlM_names safe_of_validateSymlink
    directory.symlinks hlinks hnodup
  constructor
  · intro node hmem
    rcases List.mem_append.mp hmem with hmem | hmem
    · exact (List.mem_append.mp hmem).elim (hsafe node) (hsafe' node)
    · exact hsafe'' node hmem
  · rw [← List.nodup_reverse, nodesOf, List.map_append, List.map_append, List.reverse_append,
      List.reverse_append]
    simpa using hnodup

/-! ## Layouts -/

section

variable (crates : Crates) (stores : Held)

/-- The directory under a digest, where there is one. -/
def directoryAt (digest : Digest) : Option Directory :=
  (stores.blobs digest).bind fun content => (crates.directoryFromSlice content).toOption

/-- What one node is restored to, where `nested` unfolds the directories. -/
def partOf (nested : Digest → Option (List (List String × Node))) :
    Node → Option (List (List String × Node))
  | .directory node => (nested node.digest).map fun entries =>
      ([node.name], .directory node) :: entries.map (under node.name)
  | .file node => some [([node.name], .file node)]
  | .symlink node => some [([node.name], .symlink node)]

/-- What the tree under a root is restored to, if it is at most that deep. -/
def unfoldTree : ℕ → Digest → Option (List (List String × Node))
  | 0, _ => none
  | depth + 1, digest => do
      let directory ← directoryAt crates stores digest
      let parts ← (nodesOf directory).mapM (partOf (unfoldTree depth))
      return parts.flatten

/-- A layout that can be restored. -/
structure SafeLayout (entries : List (List String × Node)) : Prop where
  components : ∀ entry ∈ entries, ∀ component ∈ entry.1, SafeComponent component
  nodes : ∀ entry ∈ entries, entry.2.Safe
  unambiguous : Unambiguous Node.IsDirectory entries

end

variable {crates : Crates} {stores : Held} {ns : String} {root digest : Digest}
  {chunking : Chunking}

/-- What a safe node is restored to has its name, and is safe when what is nested in
it is. -/
structure SafePart (node : Node) (part : List (List String × Node)) : Prop where
  layout : SafeLayout part
  headed : Headed [node.name] part

theorem safePart_single {node : Node} (h : node.Safe) : SafePart node [([node.name], node)] := by
  constructor
  · constructor
    case components =>
      intro entry hentry component hcomponent
      rw [List.mem_singleton.mp hentry] at hcomponent
      exact List.mem_singleton.mp hcomponent ▸ h.component
    case nodes =>
      intro entry hentry
      exact List.mem_singleton.mp hentry ▸ h
    case unambiguous => exact unambiguous_single
  · exact headed_single

theorem safePart_hang {inner : DirectoryNode} {entries : List (List String × Node)}
    (h : (Node.directory inner).Safe) (hentries : SafeLayout entries) :
    SafePart (.directory inner)
      (([inner.name], .directory inner) :: entries.map (under inner.name)) := by
  constructor
  · constructor
    case components =>
      intro entry hentry component hcomponent
      rcases List.mem_cons.mp hentry with rfl | hentry
      · exact List.mem_singleton.mp hcomponent ▸ h.component
      · obtain ⟨below, hbelow, rfl⟩ := List.mem_map.mp hentry
        rcases List.mem_cons.mp hcomponent with rfl | hcomponent
        · exact h.component
        · exact hentries.components below hbelow component hcomponent
    case nodes =>
      intro entry hentry
      rcases List.mem_cons.mp hentry with rfl | hentry
      · exact h
      · obtain ⟨below, hbelow, rfl⟩ := List.mem_map.mp hentry
        exact hentries.nodes below hbelow
    case unambiguous => exact hentries.unambiguous.hang trivial
  · exact headed_hang

/-- Safe parts with different names make a safe layout. -/
theorem safeLayout_flatten {nodes : List Node} {parts : List (List (List String × Node))}
    (hnames : (nodes.map Node.name).Nodup) (hparts : List.Forall₂ SafePart nodes parts) :
    SafeLayout parts.flatten := by
  have hsafe : ∀ part ∈ parts, SafeLayout part := by
    clear hnames
    induction hparts with
    | nil => exact fun part hmem => absurd hmem List.not_mem_nil
    | cons hpart _ ih => exact List.forall_mem_cons.mpr ⟨hpart.layout, ih⟩
  constructor
  case components =>
    intro entry hentry
    obtain ⟨part, hpart, hmem⟩ := List.mem_flatten.mp hentry
    exact (hsafe part hpart).components entry hmem
  case nodes =>
    intro entry hentry
    obtain ⟨part, hpart, hmem⟩ := List.mem_flatten.mp hentry
    exact (hsafe part hpart).nodes entry hmem
  case unambiguous =>
    apply (unambiguous_flatten hnames _).1
    rw [List.forall₂_map_left_iff]
    exact hparts.imp fun node part hpart => ⟨hpart.layout.unambiguous, hpart.headed⟩

/-- A valid tree has one layout, whatever depth it is unfolded to, as long as that is
enough. -/
theorem exists_layout (htree : ValidTree crates stores ns root)
    (hacc : Acc (fun child parent => Lists crates stores parent child) digest) :
    Reaches crates stores root digest →
    ∃ depth entries, (∀ more, depth ≤ more → unfoldTree crates stores more digest = some entries) ∧
      SafeLayout entries := by
  induction hacc with
  | intro digest _ ih =>
      intro hreach
      obtain ⟨content, directory, hheld, hparsed, _, _, hentries, _⟩ :=
        (htree.directories digest hreach).object
      obtain ⟨hsafe, hnames⟩ := nodes_of_validateDirectoryEntries hentries
      have hdirectory : directoryAt crates stores digest = some directory := by
        rw [directoryAt, hheld, Option.bind_some, hparsed]
        rfl
      have hparts : ∀ node ∈ nodesOf directory, ∃ depth part,
          (∀ more, depth ≤ more → partOf (unfoldTree crates stores more) node = some part) ∧
            SafePart node part := by
        intro node hnode
        cases node with
        | directory inner =>
            have hlisted : inner ∈ directory.directories := by simpa [nodesOf] using hnode
            obtain ⟨depth, entries, hunfold, hlayout⟩ :=
              ih inner.digest ⟨content, directory, hheld, hparsed, inner, hlisted, rfl⟩
                (hreach.child hheld hparsed hlisted)
            refine ⟨depth, _, fun more hmore => ?_, safePart_hang (hsafe _ hnode) hlayout⟩
            rw [partOf, hunfold more hmore]
            rfl
        | file node => exact ⟨0, _, fun _ _ => rfl, safePart_single (hsafe _ hnode)⟩
        | symlink node => exact ⟨0, _, fun _ _ => rfl, safePart_single (hsafe _ hnode)⟩
      obtain ⟨depth, parts, hmapM, hall⟩ := exists_mapM hparts
      refine ⟨depth + 1, parts.flatten, ?_, safeLayout_flatten hnames hall⟩
      intro more hmore
      obtain ⟨more, rfl⟩ : ∃ below, more = below + 1 := ⟨more - 1, by omega⟩
      rw [unfoldTree, hdirectory, Option.bind_eq_bind, Option.bind_some,
        hmapM more (by omega)]
      rfl

/-- A tree that is accepted unfolds to one safe layout. -/
theorem accepted_tree_unfolds (crates : Crates) (chunking : Chunking) (stores : Held)
    (ns : String) (root : Digest)
    (h : (run (alone crates chunking) (validateTree crates ns root) stores).1 = .ok ()) :
    ∃ depth entries,
      (∀ more, depth ≤ more → unfoldTree crates stores more root = some entries) ∧
        SafeLayout entries := by
  have htree : ValidTree crates stores ns root := by
    have hwalk : Decides crates stores ns root
        (run (alone crates chunking) (visitTree crates ns [.enter root] ∅ ∅) stores) :=
      decides_visitTree [.enter root] ∅ ∅ (.start _ _ _ _)
    exact hwalk.accepts.mp h
  exact exists_layout htree (validTree_iff.mp htree).acc .root

/-! ### A directory in two places -/

open Sample in
/-- A directory that lists the empty one as `bin` and as `lib`, and a link. -/
def sharingDirectory : Directory where
  directories := [⟨directoryDigest, 0o755, "bin"⟩, ⟨directoryDigest, 0o755, "lib"⟩]
  files := []
  symlinks := [⟨0o777, "current", "bin"⟩]
  version := 1

open Sample in
def sharingJson : Json := .object
  [("directories", .array ([("bin", 0o755), ("lib", 0o755)].map fun named => .object
      [("digest", digestToValue directoryDigest), ("mode", number named.2),
        ("name", .string named.1)])),
    ("files", .array []),
    ("symlinks", .array [.object [("mode", number 0o777), ("name", .string "current"),
      ("target", .string "bin")]]),
    ("version", number 1)]

def sharingText : Bytes := Sample.utf8 (Sample.print sharingJson)

def sharingDigest : Digest :=
  ⟨"blake3", "6c6f1d6e4b50d71e6ba8c9966cdeb31b3388b7f74530949ccdd1204773e30cae", 382⟩

/-- The sample code, which also reads and writes the directory above. -/
def sharingCrates : Crates :=
  { Sample.crates with
    directoryFromSlice := fun bytes =>
      if bytes = sharingText then .ok sharingDirectory else Sample.crates.directoryFromSlice bytes
    directoryToVec := fun directory =>
      if directory = sharingDirectory then .ok sharingText
      else Sample.crates.directoryToVec directory }

def sharingStores : Held where
  blobs digest :=
    if digest = sharingDigest then some sharingText
    else if digest = Sample.directoryDigest then some Sample.directoryText
    else none
  metadata :=
    { MemoryMetadata.empty with
      blobs := {("acme/app", sharingDigest), ("acme/app", Sample.directoryDigest)} }

theorem toOption_eq_some {ε α : Type} {outcome : Except ε α} {a : α} :
    outcome.toOption = some a ↔ outcome = .ok a := by
  cases outcome <;> simp [Except.toOption]

theorem directoryHeld_sharing :
    directoryHeld sharingCrates sharingStores "acme/app" sharingDigest =
        .ok sharingDirectory ∧
      directoryHeld sharingCrates sharingStores "acme/app" Sample.directoryDigest =
        .ok Sample.directory := by
  rw [← toOption_eq_some, ← toOption_eq_some]
  decide +kernel

/-- One turn that enters a directory. -/
theorem run_visitTree_enter {pending : List Visit} {visiting seen : Finset Digest}
    {directory : Directory} (hseen : digest ∉ seen) (hvisiting : digest ∉ visiting)
    (hbound : ¬ seen.card + (insert digest visiting).card > maxDirectories)
    (hheld : directoryHeld crates stores ns digest = .ok directory) :
    run (alone crates chunking) (visitTree crates ns (.enter digest :: pending) visiting seen)
        stores =
      run (alone crates chunking)
        (visitTree crates ns (pushDirectory digest directory pending) (insert digest visiting) seen)
        stores := by
  rw [visitTree, dif_neg hseen, dif_neg hvisiting, dif_neg hbound,
    run_bind_ok _ (hheld ▸ run_readDirectory digest)]

theorem run_validateTree_sharing :
    run (alone sharingCrates .whole) (validateTree sharingCrates "acme/app" sharingDigest)
      sharingStores = (.ok (), sharingStores) := by
  obtain ⟨houter, hinner⟩ := directoryHeld_sharing
  rw [validateTree, run_visitTree_enter (by decide) (by decide) (by decide) houter]
  rw [show pushDirectory sharingDigest sharingDirectory [] =
    [.enter Sample.directoryDigest, .enter Sample.directoryDigest, .exit sharingDigest] from rfl]
  rw [run_visitTree_enter (by decide) (by decide) (by decide) hinner]
  rw [show pushDirectory Sample.directoryDigest Sample.directory
      [.enter Sample.directoryDigest, .exit sharingDigest] =
    [.exit Sample.directoryDigest, .enter Sample.directoryDigest, .exit sharingDigest] from rfl]
  rw [visitTree, visitTree, dif_pos (Finset.mem_insert_self _ _), visitTree, visitTree]
  rfl

/-- The shared directory is accepted and restored twice. -/
theorem accepted_tree_unfolds_sample :
    (unfoldTree sharingCrates sharingStores 2 sharingDigest).map (·.map Prod.fst) =
        some [["bin"], ["lib"], ["current"]] ∧
      ∃ depth entries, (∀ more, depth ≤ more →
        unfoldTree sharingCrates sharingStores more sharingDigest = some entries) ∧
          SafeLayout entries := by
  constructor
  · decide +kernel
  · apply accepted_tree_unfolds sharingCrates .whole sharingStores "acme/app" sharingDigest
    rw [run_validateTree_sharing]

end MbxCache.Server
