/-
# The filesystem store

Objects as files of a data directory, under a path that spells their digest. A put
copies into a staging file beside its destination and then moves that there, unless
something is there already. Any number of processes share the directory: every call
is a machine of its own, they move in any order, and one that stopped is never moved
again.

A call that is abandoned while it copies leaves the copy to a thread that goes on
with it, by name: it may still write to the staging file or make it anew.
-/

import MbxCache.Crates
import MbxCache.Foundation.Disk
import MbxCache.Foundation.Program
import MbxCache.Foundation.PutIfAbsent
import MbxCache.Metadata.Store

namespace MbxCache

open Foundation

/-- A path by its components. -/
abbrev DiskPath := List String

namespace FilesystemStore

/-- Where the object of a digest is kept. -/
def path (rules : DigestRules) (root : DiskPath) (digest : Digest) : Except String DiskPath := do
  rejectIf (!rules.validate digest) "invalid digest"
  let algorithm ← rules.algorithmKind digest
  return root ++ ["blobs", algorithm.asStr, String.ofList (digest.hash.toList.take 2), digest.hash,
    toString digest.size.toNat]

section

variable {rules : DigestRules} {root destination : DiskPath} {digest : Digest}

theorem path_eq_ok : path rules root digest = .ok destination ↔
    rules.validate digest = true ∧ ∃ algorithm, rules.algorithmKind digest = .ok algorithm ∧
      destination = root ++ ["blobs", algorithm.asStr, String.ofList (digest.hash.toList.take 2),
        digest.hash, toString digest.size.toNat] := by
  rw [path, bind_eq_ok]
  constructor
  · rintro ⟨u, hvalid, hpath⟩
    rw [rejectIf_eq_ok, Bool.not_eq_false'] at hvalid
    obtain ⟨algorithm, hkind, hpath⟩ := bind_eq_ok.mp hpath
    exact ⟨hvalid, algorithm, hkind, (Except.ok.inj hpath).symm⟩
  · rintro ⟨hvalid, algorithm, hkind, rfl⟩
    refine ⟨(), ?_, bind_eq_ok.mpr ⟨algorithm, hkind, rfl⟩⟩
    rw [rejectIf_eq_ok, hvalid]
    rfl

theorem path_length (h : path rules root digest = .ok destination) :
    destination.length = root.length + 5 := by
  obtain ⟨hvalid, algorithm, hkind, rfl⟩ := path_eq_ok.mp h
  exact List.length_append

theorem path_getLast? (h : path rules root digest = .ok destination) :
    destination.getLast? = some (toString digest.size.toNat) := by
  obtain ⟨hvalid, algorithm, hkind, rfl⟩ := path_eq_ok.mp h
  rw [List.getLast?_append]
  rfl

/-- Every digest the store accepts has a path, and no two have the same. -/
theorem exists_path (hrules : rules.Documented) (root : DiskPath) (h : rules.validate digest = true) :
    ∃ destination, path rules root digest = .ok destination := by
  obtain ⟨algorithm, halgorithm⟩ := ((hrules.validate_iff digest).mp h).algorithm
  have hkind := hrules.algorithmKind_asStr algorithm digest.hash digest.size
  rw [← halgorithm] at hkind
  exact ⟨_, path_eq_ok.mpr ⟨h, algorithm, hkind, rfl⟩⟩

theorem path_injective (hrules : rules.Documented) {digest' : Digest}
    (h : path rules root digest = .ok destination)
    (h' : path rules root digest' = .ok destination) : digest = digest' := by
  obtain ⟨hvalid, algorithm, hkind, rfl⟩ := path_eq_ok.mp h
  obtain ⟨hvalid', algorithm', hkind', heq⟩ := path_eq_ok.mp h'
  obtain ⟨kind, hname⟩ := ((hrules.validate_iff digest).mp hvalid).algorithm
  obtain ⟨kind', hname'⟩ := ((hrules.validate_iff digest').mp hvalid').algorithm
  obtain ⟨name, hash, size⟩ := digest
  obtain ⟨name', hash', size'⟩ := digest'
  obtain rfl : name = kind.asStr := hname
  obtain rfl : name' = kind'.asStr := hname'
  obtain rfl := Except.ok.inj ((hrules.algorithmKind_asStr kind hash size).symm.trans hkind)
  obtain rfl := Except.ok.inj ((hrules.algorithmKind_asStr kind' hash' size').symm.trans hkind')
  have hparts := List.append_cancel_left heq
  simp only [List.cons.injEq, and_true, true_and] at hparts
  obtain ⟨hkinds, -, rfl, hsizes⟩ := hparts
  obtain rfl := Algorithm.asStr_injective hkinds
  obtain rfl := UInt64.toNat_inj.mp (toString_injective hsizes)
  rfl

end

/-! ## Calls -/

inductive PutStage where
  | checking
  | creating
  | staging
  | copying (staged : DiskPath) (inode : ℕ)
  | persisting (staged : DiskPath) (inode : ℕ)
  | abandoned (staged : DiskPath) (inode : ℕ)
  | returned (answer : Except String PutOutcome)

inductive GetStage where
  | opening
  | opened (inode : ℕ)
  | reading (inode : ℕ) (size : ℕ) (seen : Bytes)
  | served (size : ℕ) (content : Bytes)
  | missing
  | failed (error : String)

def GetStage.finished : GetStage → Bool
  | .opening | .opened _ | .reading _ _ _ => false
  | .served _ _ | .missing | .failed _ => true

/-- The staging file of a call, as long as something may be done with it. -/
def PutStage.working : PutStage → Option (DiskPath × ℕ)
  | .copying staged inode | .persisting staged inode | .abandoned staged inode =>
      some (staged, inode)
  | _ => none

/-- The staging file of a call that has not been abandoned. -/
def PutStage.linked : PutStage → Option (DiskPath × ℕ)
  | .copying staged inode | .persisting staged inode => some (staged, inode)
  | _ => none

/-- One step of a put. Names of staging files are fresh, and never numbers. Removing
a staging file may fail. -/
inductive PutStep (destination : DiskPath) (source : Bytes) (busy : DiskPath → Prop)
    (disk : Disk DiskPath) : PutStage → Disk DiskPath → PutStage → Prop where
  | present (entry : Entry) (there : disk.entries destination = some entry) :
      PutStep destination source busy disk .checking disk (.returned (.ok .alreadyExists))
  | absent (vacant : disk.entries destination = none) :
      PutStep destination source busy disk .checking disk .creating
  | directory (parent : DiskPath) (above : parent <+: destination.dropLast)
      (vacant : disk.entries parent = none) :
      PutStep destination source busy disk .creating (disk.makeDirectory parent) .creating
  | ready (there : disk.entries destination.dropLast = some .directory) :
      PutStep destination source busy disk .creating disk .staging
  | staged (name : String) (vacant : disk.entries (destination.dropLast ++ [name]) = none)
      (fresh : ¬ busy (destination.dropLast ++ [name])) (notNumber : ∀ n : ℕ, name ≠ toString n) :
      PutStep destination source busy disk .staging
        (disk.createFile (destination.dropLast ++ [name]))
        (.copying (destination.dropLast ++ [name]) disk.allocated)
  | wrote (staged : DiskPath) (inode : ℕ) (content : Bytes) :
      PutStep destination source busy disk (.copying staged inode) (disk.write inode content)
        (.copying staged inode)
  | copied (staged : DiskPath) (inode : ℕ) (complete : disk.contents inode = source) :
      PutStep destination source busy disk (.copying staged inode) disk (.persisting staged inode)
  | persisted (staged : DiskPath) (inode : ℕ) (vacant : disk.entries destination = none) :
      PutStep destination source busy disk (.persisting staged inode)
        (disk.rename staged destination) (.returned (.ok .created))
  | occupied (staged : DiskPath) (inode : ℕ) (entry : Entry) (left : Disk DiskPath)
      (there : disk.entries destination = some entry)
      (dropped : left = disk ∨ left = disk.unlink staged) :
      PutStep destination source busy disk (.persisting staged inode) left
        (.returned (.ok .alreadyExists))
  | failed (stage : PutStage) (error : String) (early : stage.working = none)
      (running : ∀ answer, stage ≠ .returned answer) :
      PutStep destination source busy disk stage disk (.returned (.error error))
  | stopped (stage : PutStage) (staged : DiskPath) (inode : ℕ) (left : Disk DiskPath)
      (error : String) (held : stage.linked = some (staged, inode))
      (dropped : left = disk ∨ left = disk.unlink staged) :
      PutStep destination source busy disk stage left (.returned (.error error))
  | cancelled (staged : DiskPath) (inode : ℕ) :
      PutStep destination source busy disk (.copying staged inode) disk (.abandoned staged inode)
  | removed (staged : DiskPath) (inode : ℕ) :
      PutStep destination source busy disk (.abandoned staged inode) (disk.unlink staged)
        (.abandoned staged inode)
  | continued (staged : DiskPath) (inode : ℕ) (content : Bytes) :
      PutStep destination source busy disk (.abandoned staged inode) (disk.write inode content)
        (.abandoned staged inode)
  | reopened (staged : DiskPath) (inode : ℕ) (vacant : disk.entries staged = none) :
      PutStep destination source busy disk (.abandoned staged inode) (disk.createFile staged)
        (.abandoned staged disk.allocated)

/-- One step of a get. The file is opened once and read by its handle. -/
inductive GetStep (destination : DiskPath) (disk : Disk DiskPath) : GetStage → GetStage → Prop where
  | missing (vacant : disk.entries destination = none) :
      GetStep destination disk .opening .missing
  | failed (stage : GetStage) (error : String) (running : stage.finished = false) :
      GetStep destination disk stage (.failed error)
  | opened (inode : ℕ) (there : disk.entries destination = some (.file inode)) :
      GetStep destination disk .opening (.opened inode)
  | sized (inode : ℕ) :
      GetStep destination disk (.opened inode)
        (.reading inode (disk.contents inode).length [])
  | read (inode size count : ℕ) (seen : Bytes) :
      GetStep destination disk (.reading inode size seen)
        (.reading inode size (seen ++ ((disk.contents inode).drop seen.length).take count))
  | ended (inode size : ℕ) (seen : Bytes) (all : (disk.contents inode).drop seen.length = []) :
      GetStep destination disk (.reading inode size seen) (.served size seen)

structure PutCall where
  digest : Digest
  source : Bytes
  stage : PutStage

structure GetCall where
  digest : Digest
  stage : GetStage

/-! ## What one step does -/

/-- What a step short of the last one does to the disk and the staging file of its
call, if it has one. -/
inductive Stages (destination : DiskPath) (busy : DiskPath → Prop) (disk : Disk DiskPath)
    (own : Option (DiskPath × ℕ)) : Disk DiskPath → Option (DiskPath × ℕ) → Prop where
  | idle (kept : Option (DiskPath × ℕ)) (same : kept = own ∨ kept = none) :
      Stages destination busy disk own disk kept
  | directory (parent : DiskPath) (above : parent <+: destination.dropLast)
      (vacant : disk.entries parent = none) :
      Stages destination busy disk own (disk.makeDirectory parent) own
  | made (name : String) (vacant : disk.entries (destination.dropLast ++ [name]) = none)
      (fresh : ¬ busy (destination.dropLast ++ [name])) (notNumber : ∀ n : ℕ, name ≠ toString n) :
      Stages destination busy disk own (disk.createFile (destination.dropLast ++ [name]))
        (some (destination.dropLast ++ [name], disk.allocated))
  | remade (staged : DiskPath) (inode : ℕ) (mine : own = some (staged, inode))
      (vacant : disk.entries staged = none) :
      Stages destination busy disk own (disk.createFile staged) (some (staged, disk.allocated))
  | wrote (staged : DiskPath) (inode : ℕ) (content : Bytes) (mine : own = some (staged, inode)) :
      Stages destination busy disk own (disk.write inode content) own
  | unlinked (staged : DiskPath) (inode : ℕ) (kept : Option (DiskPath × ℕ))
      (mine : own = some (staged, inode)) (same : kept = own ∨ kept = none) :
      Stages destination busy disk own (disk.unlink staged) kept

theorem PutStage.working_of_linked {stage : PutStage} {held : DiskPath × ℕ}
    (h : stage.linked = some held) : stage.working = some held := by
  cases stage with
  | copying staged inode => exact h
  | persisting staged inode => exact h
  | checking => cases h
  | creating => cases h
  | staging => cases h
  | abandoned staged inode => cases h
  | returned answer => cases h

section

variable {destination : DiskPath} {source : Bytes} {busy : DiskPath → Prop}
  {disk disk' : Disk DiskPath} {stage stage' : PutStage} {own own' : Option (DiskPath × ℕ)}

/-- A staging file that is dropped may stay. -/
theorem Stages.dropped {left : Disk DiskPath} {staged : DiskPath} {inode : ℕ}
    (hown : own = some (staged, inode)) (h : left = disk ∨ left = disk.unlink staged) :
    Stages destination busy disk own left none := by
  cases h with
  | inl hleft => exact hleft ▸ .idle none (.inr rfl)
  | inr hleft => exact hleft ▸ .unlinked staged inode none hown (.inr rfl)

/-- One step moves the staging file to its vacant destination, or does something to
the staging file only. -/
theorem PutStep.created_or_stages (h : PutStep destination source busy disk stage disk' stage') :
    (∃ staged inode, stage = .persisting staged inode ∧ disk.entries destination = none ∧
      disk' = disk.rename staged destination ∧ stage' = .returned (.ok .created)) ∨
    (stage' ≠ .returned (.ok .created) ∧
      Stages destination busy disk stage.working disk' stage'.working) := by
  cases h with
  | persisted staged inode vacant => exact .inl ⟨staged, inode, rfl, vacant, rfl, rfl⟩
  | present entry there => exact .inr ⟨nofun, .idle _ (.inl rfl)⟩
  | absent vacant => exact .inr ⟨nofun, .idle _ (.inl rfl)⟩
  | directory parent above vacant => exact .inr ⟨nofun, .directory parent above vacant⟩
  | ready there => exact .inr ⟨nofun, .idle _ (.inl rfl)⟩
  | staged name vacant fresh notNumber => exact .inr ⟨nofun, .made name vacant fresh notNumber⟩
  | wrote staged inode content => exact .inr ⟨nofun, .wrote staged inode content rfl⟩
  | copied staged inode complete => exact .inr ⟨nofun, .idle _ (.inl rfl)⟩
  | occupied staged inode entry left there dropped => exact .inr ⟨nofun, .dropped rfl dropped⟩
  | failed stage error early running => exact .inr ⟨nofun, .idle _ (.inr rfl)⟩
  | stopped stage staged inode left error held dropped =>
      exact .inr ⟨nofun, .dropped (stage.working_of_linked held) dropped⟩
  | cancelled staged inode => exact .inr ⟨nofun, .idle _ (.inl rfl)⟩
  | removed staged inode => exact .inr ⟨nofun, .unlinked staged inode _ rfl (.inl rfl)⟩
  | continued staged inode content => exact .inr ⟨nofun, .wrote staged inode content rfl⟩
  | reopened staged inode vacant => exact .inr ⟨nofun, .remade staged inode rfl vacant⟩

/-- Vacant names and the own staging file. -/
def touched (disk : Disk DiskPath) (own : Option (DiskPath × ℕ)) : Set DiskPath :=
  { name | disk.entries name = none ∨ ∃ inode, own = some (name, inode) }

/-- The own file or a new one. -/
def written (disk : Disk DiskPath) (own : Option (DiskPath × ℕ)) : Set ℕ :=
  { inode | inode = disk.allocated ∨ ∃ staged, own = some (staged, inode) }

theorem Stages.frame (h : Stages destination busy disk own disk' own') :
    Disk.Frame (touched disk own) (written disk own) disk disk' := by
  cases h with
  | idle kept same => exact Disk.frame_refl
  | directory parent above vacant => exact Disk.frame_makeDirectory (.inl vacant)
  | made name vacant fresh notNumber => exact Disk.frame_createFile (.inl vacant) (.inl rfl)
  | remade staged inode mine vacant => exact Disk.frame_createFile (.inl vacant) (.inl rfl)
  | wrote staged inode content mine => exact Disk.frame_write (.inr ⟨staged, mine⟩)
  | unlinked staged inode kept mine same => exact Disk.frame_unlink (.inr ⟨inode, mine⟩)

theorem PutStep.frame (h : PutStep destination source busy disk stage disk' stage') :
    Disk.Frame (touched disk stage.working) (written disk stage.working) disk disk' := by
  obtain ⟨staged, inode, rfl, vacant, rfl, rfl⟩ | ⟨hstage, hstages⟩ := h.created_or_stages
  · exact Disk.frame_rename (.inr ⟨inode, rfl⟩) (.inl vacant)
  · exact hstages.frame

/-- A name that stands for a file did so before, or it is that of the new staging file. -/
theorem Stages.named (h : Stages destination busy disk own disk' own') {name : DiskPath}
    {inode : ℕ} (hname : disk'.entries name = some (.file inode)) :
    disk.entries name = some (.file inode) ∨
      inode = disk.allocated ∧ own' = some (name, inode) ∧ inode < disk'.allocated := by
  have hmade : ∀ staged, (disk.createFile staged).entries name = some (.file inode) →
      disk.entries name = some (.file inode) ∨
        inode = disk.allocated ∧ some (staged, disk.allocated) = some (name, inode) ∧
          inode < disk.allocated + 1 := by
    intro staged hstaged
    rw [Disk.createFile_entries] at hstaged
    split at hstaged
    case isTrue hsame =>
      cases hstaged
      exact .inr ⟨rfl, by rw [hsame], Nat.lt_succ_self _⟩
    case isFalse hother => exact .inl hstaged
  cases h with
  | idle kept same => exact .inl hname
  | directory parent above vacant =>
      rw [Disk.makeDirectory_entries] at hname
      split at hname
      · cases hname
      · exact .inl hname
  | made fresh vacant notBusy notNumber => exact hmade _ hname
  | remade staged held mine vacant => exact hmade staged hname
  | wrote staged held content mine => exact .inl hname
  | unlinked staged held kept mine same =>
      rw [Disk.unlink_entries] at hname
      split at hname
      · cases hname
      · exact .inl hname

/-- A name stands for a file as before, or for the new staging file, or it is the
destination of the staging file that was moved. -/
theorem PutStep.named (h : PutStep destination source busy disk stage disk' stage')
    {name : DiskPath} {inode : ℕ} (hname : disk'.entries name = some (.file inode)) :
    disk.entries name = some (.file inode) ∨
      (inode = disk.allocated ∧ stage'.working = some (name, inode) ∧ inode < disk'.allocated) ∨
      ∃ staged held, stage.working = some (staged, held) ∧
        disk.entries staged = some (.file inode) ∧ stage'.working = none := by
  obtain ⟨staged, held, rfl, vacant, rfl, rfl⟩ | ⟨-, hstages⟩ := h.created_or_stages
  · rw [Disk.rename_entries] at hname
    split at hname
    · cases hname
    · split at hname
      · exact .inr (.inr ⟨staged, held, rfl, hname, rfl⟩)
      · exact .inl hname
  · obtain hbefore | hnew := hstages.named hname
    · exact .inl hbefore
    · exact .inr (.inl hnew)

theorem PutStep.stages_of_working (h : PutStep destination source busy disk stage disk' stage')
    {held : DiskPath × ℕ} (hworking : stage'.working = some held) :
    Stages destination busy disk stage.working disk' stage'.working := by
  obtain ⟨staged, inode, -, -, -, rfl⟩ | ⟨-, hstages⟩ := h.created_or_stages
  · cases hworking
  · exact hstages

/-- The staging file of a call stays what it was, or it is new. -/
theorem Stages.owned (h : Stages destination busy disk own disk' own') {staged : DiskPath}
    {inode : ℕ} (hown : own' = some (staged, inode)) :
    own = some (staged, inode) ∨
      inode = disk.allocated ∧ inode < disk'.allocated ∧
        ((∃ held, own = some (staged, held)) ∨
          ¬ busy staged ∧ ∃ name, staged = destination.dropLast ++ [name] ∧
            ∀ n : ℕ, name ≠ toString n) := by
  have hkept : ∀ {kept : Option (DiskPath × ℕ)}, kept = own ∨ kept = none →
      kept = some (staged, inode) → own = some (staged, inode) := by
    intro kept hsame hmine
    cases hsame with
    | inl hsame => exact hsame ▸ hmine
    | inr hnone => cases hnone.symm.trans hmine
  cases h with
  | idle kept same => exact .inl (hkept same hown)
  | directory parent above vacant => exact .inl hown
  | made name vacant fresh notNumber =>
      cases hown
      exact .inr ⟨rfl, Nat.lt_succ_self _, .inr ⟨fresh, name, rfl, notNumber⟩⟩
  | remade staged held mine vacant =>
      cases hown
      exact .inr ⟨rfl, Nat.lt_succ_self _, .inl ⟨held, mine⟩⟩
  | wrote staged held content mine => exact .inl hown
  | unlinked staged held kept mine same => exact .inl (hkept same hown)

/-- No destination is made, moved or removed on the way. -/
theorem Stages.destination_entries {rules : DigestRules} {root : DiskPath} {digest : Digest}
    {other : DiskPath} (h : Stages destination busy disk own disk' own')
    (hdestination : ∃ digest', path rules root digest' = .ok destination)
    (hother : path rules root digest = .ok other)
    (hown : ∀ staged inode, own = some (staged, inode) → staged ≠ other) :
    disk'.entries other = disk.entries other := by
  obtain ⟨digest', hdestination⟩ := hdestination
  cases h with
  | idle kept same => rfl
  | directory parent above vacant =>
      rw [Disk.makeDirectory_entries, if_neg]
      intro hsame
      have hlength := above.length_le
      rw [← hsame, List.length_dropLast, path_length hother, path_length hdestination] at hlength
      omega
  | made name vacant fresh notNumber =>
      rw [Disk.createFile_entries, if_neg]
      intro hsame
      have hlast := path_getLast? hother
      rw [hsame, List.getLast?_concat] at hlast
      exact notNumber _ (Option.some.inj hlast)
  | remade staged inode mine vacant =>
      rw [Disk.createFile_entries, if_neg (hown staged inode mine).symm]
  | wrote staged inode content mine => rfl
  | unlinked staged inode kept mine same =>
      rw [Disk.unlink_entries, if_neg (hown staged inode mine).symm]

/-- The staging file of a call keeps its name until it is moved or dropped. -/
theorem PutStep.linked (h : PutStep destination source busy disk stage disk' stage')
    (hlinked : ∀ staged inode, stage.linked = some (staged, inode) →
      disk.entries staged = some (.file inode)) {staged : DiskPath} {inode : ℕ}
    (hstage : stage'.linked = some (staged, inode)) :
    disk'.entries staged = some (.file inode) := by
  cases h with
  | staged name vacant fresh notNumber =>
      cases hstage
      rw [Disk.createFile_entries, if_pos rfl]
  | wrote held other content => exact hlinked staged inode hstage
  | copied held other complete => exact hlinked staged inode hstage
  | present entry there => cases hstage
  | absent vacant => cases hstage
  | directory parent above vacant => cases hstage
  | ready there => cases hstage
  | persisted held other vacant => cases hstage
  | occupied held other entry left there dropped => cases hstage
  | failed stage error early running => cases hstage
  | stopped stage held other left error mine dropped => cases hstage
  | cancelled held other => cases hstage
  | removed held other => cases hstage
  | continued held other content => cases hstage
  | reopened held other vacant => cases hstage

/-- Only a complete copy is moved. -/
theorem PutStep.complete {staged : DiskPath} {inode : ℕ}
    (h : PutStep destination source busy disk stage disk' (.persisting staged inode)) :
    disk' = disk ∧ disk.contents inode = source := by
  cases h with
  | copied staged inode complete => exact ⟨rfl, complete⟩

/-- A put that returns without an error leaves something at the destination. -/
theorem PutStep.answered {outcome : PutOutcome}
    (h : PutStep destination source busy disk stage disk' (.returned (.ok outcome)))
    (hlinked : ∀ staged inode, stage.linked = some (staged, inode) →
      disk.entries staged = some (.file inode) ∧ staged ≠ destination) :
    disk'.entries destination ≠ none := by
  cases h with
  | present entry there =>
      rw [there]
      exact Option.some_ne_none entry
  | persisted staged inode vacant =>
      obtain ⟨hentry, hother⟩ := hlinked staged inode rfl
      rw [Disk.rename_entries, if_neg hother.symm, if_pos rfl, hentry]
      exact Option.some_ne_none _
  | occupied staged inode entry left there dropped =>
      obtain rfl | rfl := dropped
      · rw [there]
        exact Option.some_ne_none entry
      · rw [Disk.unlink_entries, if_neg (hlinked staged inode rfl).2.symm, there]
        exact Option.some_ne_none entry

/-- A call that returned makes no more steps. -/
theorem PutStep.running (h : PutStep destination source busy disk stage disk' stage')
    (answer : Except String PutOutcome) : stage ≠ .returned answer := by
  cases h with
  | failed stage error early running => exact running answer
  | stopped stage staged inode left error held dropped =>
      rintro rfl
      cases held
  | _ => nofun

end

/-! ## The system -/

/-- The disk and every call that was ever made on it. -/
structure Running where
  disk : Disk DiskPath
  puts : List PutCall
  gets : List GetCall

namespace Running

/-- The names of staging files something may still be done with. -/
def Busy (s : Running) (name : DiskPath) : Prop :=
  ∃ call ∈ s.puts, ∃ inode, call.stage.working = some (name, inode)

variable (rules : DigestRules) (root : DiskPath)

/-- A call arrives, or one of them takes a step. -/
inductive Step : Running → Running → Prop where
  | putCalled (s : Running) (digest : Digest) (source : Bytes) :
      Step s { s with puts := s.puts ++ [⟨digest, source, .checking⟩] }
  | getCalled (s : Running) (digest : Digest) :
      Step s { s with gets := s.gets ++ [⟨digest, .opening⟩] }
  | put (s : Running) (before after : List PutCall) (call : PutCall) (destination : DiskPath)
      (disk : Disk DiskPath) (stage : PutStage) (puts : s.puts = before ++ call :: after)
      (located : path rules root call.digest = .ok destination)
      (taken : PutStep destination call.source s.Busy s.disk call.stage disk stage) :
      Step s { s with disk, puts := before ++ { call with stage } :: after }
  | putRefused (s : Running) (before after : List PutCall) (call : PutCall) (error : String)
      (puts : s.puts = before ++ call :: after) (arrived : call.stage = .checking)
      (located : path rules root call.digest = .error error) :
      Step s { s with puts := before ++ { call with stage := .returned (.error error) } :: after }
  | get (s : Running) (before after : List GetCall) (call : GetCall) (destination : DiskPath)
      (stage : GetStage) (gets : s.gets = before ++ call :: after)
      (located : path rules root call.digest = .ok destination)
      (taken : GetStep destination s.disk call.stage stage) :
      Step s { s with gets := before ++ { call with stage } :: after }
  | getRefused (s : Running) (before after : List GetCall) (call : GetCall) (error : String)
      (gets : s.gets = before ++ call :: after) (arrived : call.stage = .opening)
      (located : path rules root call.digest = .error error) :
      Step s { s with gets := before ++ { call with stage := .failed error } :: after }

/-- A data directory that no object has been stored in. -/
structure Fresh (disk : Disk DiskPath) : Prop where
  allocated : disk.Allocated
  vacant : ∀ digest destination, path rules root digest = .ok destination →
    disk.entries destination = none

/-- The states of all runs in such a directory. -/
inductive Reachable : Running → Prop where
  | start (disk : Disk DiskPath) (fresh : Fresh rules root disk) : Reachable ⟨disk, [], []⟩
  | step {s t : Running} (prior : Reachable s) (taken : Step rules root s t) : Reachable t

end Running

end FilesystemStore

end MbxCache
