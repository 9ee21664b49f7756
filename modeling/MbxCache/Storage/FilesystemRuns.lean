/-
# The filesystem store over whole runs

Whoever moves a staging file to a vacant destination has created the object there.
Until then the file has one name, which is no destination and nobody else's; and
afterwards nobody has it open to write. So what a destination holds is complete from
the beginning and stays, for any number of callers in any order.
-/

import MbxCache.Sample
import MbxCache.Storage.Filesystem

namespace MbxCache.FilesystemStore

open Foundation

/-- The name of the staging file of a call. -/
def PutCall.staged (call : PutCall) : Option DiskPath :=
  call.stage.working.map Prod.fst

/-- The digest of a call that answered that it created the object. -/
def PutCall.created (call : PutCall) : Option Digest :=
  match call.stage with
  | .returned (.ok .created) => some call.digest
  | _ => none

theorem PutCall.created_eq_some {call : PutCall} {digest : Digest} :
    call.created = some digest ↔ call.stage = .returned (.ok .created) ∧ call.digest = digest := by
  unfold PutCall.created
  split
  case h_1 hstage =>
    rw [hstage, Option.some.injEq]
    exact (and_iff_right rfl).symm
  case h_2 hstage =>
    constructor
    · nofun
    · intro h
      exact absurd h.1 hstage

theorem PutCall.staged_eq_some {call : PutCall} {staged : DiskPath} :
    call.staged = some staged ↔ ∃ inode, call.stage.working = some (staged, inode) := by
  rw [PutCall.staged, Option.map_eq_some_iff]
  constructor
  · rintro ⟨⟨name, inode⟩, hworking, rfl⟩
    exact ⟨inode, hworking⟩
  · rintro ⟨inode, hworking⟩
    exact ⟨(staged, inode), hworking, rfl⟩

namespace Running

variable (rules : DigestRules) (root : DiskPath)

/-- The file that holds the object of a digest. -/
def Stored (disk : Disk DiskPath) (digest : Digest) (inode : ℕ) : Prop :=
  ∃ destination, path rules root digest = .ok destination ∧
    disk.entries destination = some (.file inode)

/-- What a staging file has to itself: its name is no destination, and the file has
no other name. -/
structure Owns (disk : Disk DiskPath) (staged : DiskPath) (inode : ℕ) : Prop where
  allocated : inode < disk.allocated
  apart : ∀ digest destination, path rules root digest = .ok destination → staged ≠ destination
  only : ∀ name, disk.entries name = some (.file inode) → name = staged

/-- What a get has read so far is what the object begins with. -/
def Holds (disk : Disk DiskPath) (call : GetCall) : Prop :=
  match call.stage with
  | .opened inode => Stored rules root disk call.digest inode
  | .reading inode size seen => Stored rules root disk call.digest inode ∧
      size = (disk.contents inode).length ∧ seen <+: disk.contents inode
  | .served size content => ∃ inode, Stored rules root disk call.digest inode ∧
      size = (disk.contents inode).length ∧ content = disk.contents inode
  | _ => True

/-- The invariant of all runs. -/
structure Consistent (s : Running) : Prop where
  allocated : s.disk.Allocated
  distinct : (s.puts.filterMap PutCall.staged).Nodup
  working : ∀ call ∈ s.puts, ∀ staged inode, call.stage.working = some (staged, inode) →
    Owns rules root s.disk staged inode
  linked : ∀ call ∈ s.puts, ∀ staged inode, call.stage.linked = some (staged, inode) →
    s.disk.entries staged = some (.file inode)
  complete : ∀ call ∈ s.puts, ∀ staged inode, call.stage = .persisting staged inode →
    s.disk.contents inode = call.source
  objects : ∀ digest destination entry, path rules root digest = .ok destination →
    s.disk.entries destination = some entry → ∃ inode, entry = .file inode ∧
      ∃ call ∈ s.puts, call.digest = digest ∧ call.stage = .returned (.ok .created) ∧
        s.disk.contents inode = call.source
  answered : ∀ call ∈ s.puts, ∀ outcome, call.stage = .returned (.ok outcome) →
    ∃ destination, path rules root call.digest = .ok destination ∧
      s.disk.entries destination ≠ none
  once : (s.puts.filterMap PutCall.created).Nodup
  gets : ∀ call ∈ s.gets, Holds rules root s.disk call

variable {rules root}

section

variable {s : Running} {before after : List PutCall} {call : PutCall} {destination : DiskPath}
  {disk : Disk DiskPath} {stage : PutStage} (h : Consistent rules root s)
  (hputs : s.puts = before ++ call :: after)
  (hstep : PutStep destination call.source s.Busy s.disk call.stage disk stage)

/-! ## A put takes a step -/

omit h in
include hputs in
theorem mem_puts {other : PutCall} (hother : other ∈ before ++ after) : other ∈ s.puts := by
  rw [hputs]
  exact List.perm_middle.mem_iff.mpr (List.mem_cons_of_mem call hother)

omit h in
include hputs in
theorem mem_moving : call ∈ s.puts := by
  rw [hputs]
  exact List.mem_append_right before List.mem_cons_self

include h hputs

theorem Consistent.owns {staged : DiskPath} {inode : ℕ}
    (hworking : call.stage.working = some (staged, inode)) : Owns rules root s.disk staged inode :=
  h.working call (mem_moving hputs) staged inode hworking

/-- The staging files of others have other names. -/
theorem Consistent.staged_ne {other : PutCall} (hother : other ∈ before ++ after)
    {staged staged' : DiskPath} {inode inode' : ℕ}
    (hworking : call.stage.working = some (staged, inode))
    (hworking' : other.stage.working = some (staged', inode')) : staged' ≠ staged := by
  have hdistinct := h.distinct
  rw [hputs] at hdistinct
  exact ne_of_nodup hdistinct hother (PutCall.staged_eq_some.mpr ⟨inode, hworking⟩)
    (PutCall.staged_eq_some.mpr ⟨inode', hworking'⟩)

include hstep

/-- What is at a destination stays there. -/
theorem Consistent.keeps_entry {digest : Digest} {other : DiskPath} {entry : Entry}
    (hother : path rules root digest = .ok other) (hentry : s.disk.entries other = some entry) :
    disk.entries other = some entry := by
  rw [hstep.frame.entries, hentry]
  rintro (hvacant | ⟨inode, hown⟩)
  · rw [hvacant] at hentry
    cases hentry
  · exact (h.owns hputs hown).apart digest other hother rfl

/-- A file with a name that is not the staging file of the call is not written. -/
theorem Consistent.keeps_file {name : DiskPath} {inode : ℕ}
    (hname : s.disk.entries name = some (.file inode))
    (hother : ∀ staged held, call.stage.working = some (staged, held) → name ≠ staged) :
    disk.contents inode = s.disk.contents inode := by
  apply hstep.frame.contents
  rintro (hnew | ⟨staged, hown⟩)
  · have hlt := h.allocated name inode hname
    rw [hnew] at hlt
    exact Nat.lt_irrefl _ hlt
  · exact hother staged inode hown ((h.owns hputs hown).only name hname)

theorem Consistent.keeps_stored {digest : Digest} {inode : ℕ}
    (hstored : Stored rules root s.disk digest inode) :
    Stored rules root disk digest inode ∧ disk.contents inode = s.disk.contents inode := by
  obtain ⟨other, hother, hentry⟩ := hstored
  refine ⟨⟨other, hother, h.keeps_entry hputs hstep hother hentry⟩, ?_⟩
  apply h.keeps_file hputs hstep hentry
  intro staged held hworking
  exact ((h.owns hputs hworking).apart digest other hother).symm

omit hputs in
theorem Consistent.put_allocated : disk.Allocated := by
  intro name inode hname
  have hgrows := hstep.frame.grows
  obtain hbefore | ⟨-, -, hnew⟩ | ⟨staged, held, -, hbefore, -⟩ := hstep.named hname
  · exact (h.allocated name inode hbefore).trans_le hgrows
  · exact hnew
  · exact (h.allocated staged inode hbefore).trans_le hgrows

/-- The others keep their staging files to themselves. -/
theorem Consistent.others_own {other : PutCall} (hother : other ∈ before ++ after)
    {staged : DiskPath} {inode : ℕ} (hworking : other.stage.working = some (staged, inode)) :
    Owns rules root disk staged inode := by
  have howns := h.working other (mem_puts hputs hother) staged inode hworking
  refine ⟨howns.allocated.trans_le hstep.frame.grows, howns.apart, fun name hname => ?_⟩
  obtain hbefore | ⟨hnew, -, -⟩ | ⟨moved, held, hmoved, hbefore, -⟩ := hstep.named hname
  · exact howns.only name hbefore
  · exact absurd (hnew ▸ howns.allocated) (Nat.lt_irrefl _)
  · exact absurd (howns.only moved hbefore).symm (h.staged_ne hputs hother hmoved hworking)

/-- So does the call itself. -/
theorem Consistent.put_owns {staged : DiskPath} {inode : ℕ} (hworking : stage.working = some (staged, inode)) :
    Owns rules root disk staged inode := by
  have hstages := hstep.stages_of_working hworking
  have hnamed : ∀ name, disk.entries name = some (.file inode) →
      s.disk.entries name = some (.file inode) ∨ name = staged := by
    intro name hname
    obtain hbefore | ⟨-, hnew, -⟩ := hstages.named hname
    · exact .inl hbefore
    · exact .inr (Prod.mk.inj (Option.some.inj (hnew.symm.trans hworking))).1
  obtain hbefore | ⟨rfl, hlt, hfresh⟩ := hstages.owned hworking
  · have howns := h.owns hputs hbefore
    refine ⟨howns.allocated.trans_le hstep.frame.grows, howns.apart, fun name hname => ?_⟩
    obtain hearlier | hsame := hnamed name hname
    · exact howns.only name hearlier
    · exact hsame
  · refine ⟨hlt, fun digest' other hother => ?_, fun name hname => ?_⟩
    · obtain ⟨held, hheld⟩ | ⟨-, name, rfl, hnumber⟩ := hfresh
      · exact (h.owns hputs hheld).apart digest' other hother
      · intro hsame
        have hlast := path_getLast? hother
        rw [← hsame, List.getLast?_concat] at hlast
        exact hnumber _ (Option.some.inj hlast)
    · obtain hearlier | hsame := hnamed name hname
      · exact absurd (h.allocated name _ hearlier) (Nat.lt_irrefl _)
      · exact hsame

theorem Consistent.put_distinct :
    ((before ++ { call with stage } :: after).filterMap PutCall.staged).Nodup := by
  have hdistinct := h.distinct
  rw [hputs] at hdistinct
  apply nodup_moved hdistinct
  intro staged hnew
  obtain ⟨inode, hworking⟩ := PutCall.staged_eq_some.mp hnew
  have hstages := hstep.stages_of_working hworking
  obtain hbefore | ⟨-, -, ⟨held, hheld⟩ | ⟨hbusy, -⟩⟩ := hstages.owned hworking
  · exact .inl (PutCall.staged_eq_some.mpr ⟨inode, hbefore⟩)
  · exact .inl (PutCall.staged_eq_some.mpr ⟨held, hheld⟩)
  · apply Or.inr
    intro hmem
    obtain ⟨other, hother, hstaged⟩ := List.mem_filterMap.mp hmem
    rw [← hputs] at hother
    exact hbusy ⟨other, hother, PutCall.staged_eq_some.mp hstaged⟩

/-- The others keep the names of their staging files, and what is in them. -/
theorem Consistent.others_linked {other : PutCall} (hother : other ∈ before ++ after)
    {staged : DiskPath} {inode : ℕ} (hlinked : other.stage.linked = some (staged, inode)) :
    disk.entries staged = some (.file inode) ∧
      disk.contents inode = s.disk.contents inode := by
  have hworking := other.stage.working_of_linked hlinked
  have hbefore := h.linked other (mem_puts hputs hother) staged inode hlinked
  refine ⟨?_, h.keeps_file hputs hstep hbefore fun mine held hmine =>
    h.staged_ne hputs hother hmine hworking⟩
  rw [hstep.frame.entries, hbefore]
  rintro (hvacant | ⟨held, hmine⟩)
  · rw [hvacant] at hbefore
    cases hbefore
  · exact h.staged_ne hputs hother hmine hworking rfl

theorem Consistent.put_linked {staged : DiskPath} {inode : ℕ}
    (hlinked : stage.linked = some (staged, inode)) :
    disk.entries staged = some (.file inode) := by
  apply hstep.linked _ hlinked
  intro held mine hmine
  exact h.linked call (mem_moving hputs) held mine hmine

/-- The object that a put created holds its source. -/
theorem Consistent.put_objects (hrules : rules.Documented)
    (hlocated : path rules root call.digest = .ok destination) {digest : Digest}
    {other : DiskPath} {entry : Entry} (hother : path rules root digest = .ok other)
    (hentry : disk.entries other = some entry) :
    ∃ inode, entry = .file inode ∧ ∃ put ∈ before ++ { call with stage } :: after,
      put.digest = digest ∧ put.stage = .returned (.ok .created) ∧
        disk.contents inode = put.source := by
  have hkept : s.disk.entries other = some entry → ∃ inode, entry = .file inode ∧
      ∃ put ∈ before ++ { call with stage } :: after, put.digest = digest ∧
        put.stage = .returned (.ok .created) ∧ disk.contents inode = put.source := by
    intro hbefore
    obtain ⟨inode, rfl, put, hput, hdigest, hcreated, hsource⟩ :=
      h.objects digest other entry hother hbefore
    refine ⟨inode, rfl, put, ?_, hdigest, hcreated, ?_⟩
    · rw [hputs] at hput
      apply List.perm_middle.mem_iff.mpr
      apply List.mem_cons_of_mem
      obtain rfl | hput := List.mem_cons.mp (List.perm_middle.mem_iff.mp hput)
      · exact absurd hcreated (hstep.running _)
      · exact hput
    · rw [(h.keeps_stored hputs hstep ⟨other, hother, hbefore⟩).2, hsource]
  obtain ⟨staged, held, hstage, vacant, rfl, rfl⟩ | ⟨-, hstages⟩ := hstep.created_or_stages
  · have hworking : call.stage.working = some (staged, held) := by
      rw [hstage]
      rfl
    have hapart := (h.owns hputs hworking).apart digest other hother
    rw [Disk.rename_entries, if_neg hapart.symm] at hentry
    split at hentry
    case isTrue hsame =>
      have hlinked := h.linked call (mem_moving hputs) staged held (by rw [hstage]; rfl)
      rw [hlinked] at hentry
      refine ⟨held, (Option.some.inj hentry).symm, _,
        List.mem_append_right before List.mem_cons_self, ?_, rfl,
        h.complete call (mem_moving hputs) staged held hstage⟩
      rw [hsame] at hother
      exact path_injective hrules hlocated hother
    case isFalse hdifferent => exact hkept hentry
  · apply hkept
    rw [← hentry]
    symm
    apply hstages.destination_entries ⟨call.digest, hlocated⟩ hother
    intro staged inode hworking
    exact (h.owns hputs hworking).apart digest other hother

/-- A put that returns without an error leaves an object behind. -/
theorem Consistent.put_answered (hlocated : path rules root call.digest = .ok destination)
    {outcome : PutOutcome} (hanswer : stage = .returned (.ok outcome)) :
    disk.entries destination ≠ none := by
  rw [hanswer] at hstep
  apply hstep.answered
  intro staged inode hlinked
  exact ⟨h.linked call (mem_moving hputs) staged inode hlinked,
    (h.owns hputs (call.stage.working_of_linked hlinked)).apart _ _ hlocated⟩

/-- A put creates an object only if no other did. -/
theorem Consistent.put_once (hlocated : path rules root call.digest = .ok destination) :
    ((before ++ { call with stage } :: after).filterMap PutCall.created).Nodup := by
  have honce := h.once
  rw [hputs] at honce
  apply nodup_moved honce
  intro digest hnew
  obtain ⟨hcreated, rfl⟩ := PutCall.created_eq_some.mp hnew
  obtain ⟨staged, inode, -, vacant, -, -⟩ | ⟨hnot, -⟩ := hstep.created_or_stages
  · apply Or.inr
    intro hmem
    obtain ⟨other, hother, hearlier⟩ := List.mem_filterMap.mp hmem
    rw [← hputs] at hother
    obtain ⟨hstage, hdigest⟩ := PutCall.created_eq_some.mp hearlier
    obtain ⟨place, hplace, hthere⟩ := h.answered other hother .created hstage
    rw [hdigest, hlocated] at hplace
    exact hthere (Except.ok.inj hplace ▸ vacant)
  · exact absurd hcreated hnot

/-- The gets do not notice. -/
theorem Consistent.put_gets {get : GetCall} (hget : get ∈ s.gets) : Holds rules root disk get := by
  have hholds := h.gets get hget
  unfold Holds at hholds ⊢
  split
  case h_1 inode hstage =>
    rw [hstage] at hholds
    exact (h.keeps_stored hputs hstep hholds).1
  case h_2 inode size seen hstage =>
    rw [hstage] at hholds
    obtain ⟨hstored, hsize, hseen⟩ := hholds
    obtain ⟨hstored', hcontents⟩ := h.keeps_stored hputs hstep hstored
    rw [hcontents]
    exact ⟨hstored', hsize, hseen⟩
  case h_3 size content hstage =>
    rw [hstage] at hholds
    obtain ⟨inode, hstored, hsize, hcontent⟩ := hholds
    obtain ⟨hstored', hcontents⟩ := h.keeps_stored hputs hstep hstored
    refine ⟨inode, hstored', ?_⟩
    rw [hcontents]
    exact ⟨hsize, hcontent⟩
  case h_4 => exact trivial

/-- The step lemma for a put. -/
theorem Consistent.put (hrules : rules.Documented)
    (hlocated : path rules root call.digest = .ok destination) :
    Consistent rules root
      { s with disk, puts := before ++ { call with stage } :: after } where
  allocated := h.put_allocated hstep
  distinct := h.put_distinct hputs hstep
  working := by
    apply forall_mem_moved
    · intro other hother staged inode hworking
      exact h.others_own hputs hstep hother hworking
    · intro staged inode hworking
      exact h.put_owns hputs hstep hworking
  linked := by
    apply forall_mem_moved
    · intro other hother staged inode hlinked
      exact (h.others_linked hputs hstep hother hlinked).1
    · intro staged inode hlinked
      exact h.put_linked hputs hstep hlinked
  complete := by
    apply forall_mem_moved
    · intro other hother staged inode hpersisting
      have hlinked : other.stage.linked = some (staged, inode) := by
        rw [hpersisting]
        rfl
      have hsource := h.complete other (mem_puts hputs hother) staged inode hpersisting
      exact (h.others_linked hputs hstep hother hlinked).2.trans hsource
    · intro staged inode hpersisting
      obtain rfl : stage = .persisting staged inode := hpersisting
      obtain ⟨rfl, hsource⟩ := hstep.complete
      exact hsource
  objects _ _ _ hother hentry := h.put_objects hputs hstep hrules hlocated hother hentry
  answered := by
    apply forall_mem_moved
    · intro other hother outcome hanswer
      obtain ⟨place, hplace, hthere⟩ :=
        h.answered other (mem_puts hputs hother) outcome hanswer
      obtain ⟨entry, hentry⟩ := Option.ne_none_iff_exists'.mp hthere
      refine ⟨place, hplace, ?_⟩
      show disk.entries place ≠ none
      rw [h.keeps_entry hputs hstep hplace hentry]
      exact Option.some_ne_none entry
    · intro outcome hanswer
      exact ⟨destination, hlocated, h.put_answered hputs hstep hlocated hanswer⟩
  once := h.put_once hputs hstep hlocated
  gets _ hget := h.put_gets hputs hstep hget

end

/-! ## Runs -/

variable {s t : Running}

/-- A get sees no more than the object. -/
theorem Consistent.get (h : Consistent rules root s) {before after : List GetCall} {call : GetCall}
    {destination : DiskPath} {stage : GetStage} (hgets : s.gets = before ++ call :: after)
    (hlocated : path rules root call.digest = .ok destination)
    (hstep : GetStep destination s.disk call.stage stage) :
    Holds rules root s.disk { call with stage } := by
  have hholds : Holds rules root s.disk call := by
    apply h.gets
    rw [hgets]
    exact List.mem_append_right before List.mem_cons_self
  obtain ⟨digest, before'⟩ := call
  cases hstep with
  | missing vacant => exact trivial
  | failed stage error running => exact trivial
  | opened inode there => exact ⟨destination, hlocated, there⟩
  | sized inode => exact ⟨hholds, rfl, List.nil_prefix⟩
  | read inode size count seen =>
      obtain ⟨hstored, hsize, hseen⟩ := hholds
      refine ⟨hstored, hsize, ?_⟩
      obtain ⟨rest, hrest⟩ := hseen
      show seen ++ ((s.disk.contents inode).drop seen.length).take count <+: s.disk.contents inode
      rw [← hrest, List.drop_left, List.prefix_append_right_inj]
      exact List.take_prefix count rest
  | ended inode size seen all =>
      obtain ⟨hstored, hsize, hseen⟩ := hholds
      refine ⟨inode, hstored, hsize, ?_⟩
      obtain ⟨rest, hrest⟩ := hseen
      rw [← hrest, List.drop_left] at all
      rw [← hrest, all, List.append_nil]

theorem Consistent.start {disk : Disk DiskPath} (h : Fresh rules root disk) :
    Consistent rules root ⟨disk, [], []⟩ where
  allocated := h.allocated
  distinct := List.nodup_nil
  working := nofun
  linked := nofun
  complete := nofun
  objects digest destination entry hpath hentry := by
    rw [h.vacant digest destination hpath] at hentry
    cases hentry
  answered := nofun
  once := List.nodup_nil
  gets := nofun

theorem Consistent.of_gets (h : Consistent rules root s) {gets : List GetCall}
    (hgets : ∀ call ∈ gets, Holds rules root s.disk call) :
    Consistent rules root { s with gets } :=
  ⟨h.allocated, h.distinct, h.working, h.linked, h.complete, h.objects, h.answered, h.once, hgets⟩

/-- The disk is as it was, and one more put is known that neither has a staging file
nor answered without an error. -/
theorem Consistent.of_puts (h : Consistent rules root s) {puts : List PutCall} (new : PutCall)
    (hworking : new.stage.working = none) (hanswer : ∀ outcome, new.stage ≠ .returned (.ok outcome))
    (hputs : ∀ call ∈ puts, call = new ∨ call ∈ s.puts)
    (hcreated : ∀ call ∈ s.puts, call.stage = .returned (.ok .created) → call ∈ puts)
    (hdistinct : (puts.filterMap PutCall.staged).Nodup)
    (honce : (puts.filterMap PutCall.created).Nodup) : Consistent rules root { s with puts } where
  allocated := h.allocated
  distinct := hdistinct
  working call hcall staged inode hheld := by
    obtain rfl | hcall := hputs call hcall
    · rw [hworking] at hheld
      cases hheld
    · exact h.working call hcall staged inode hheld
  linked call hcall staged inode hheld := by
    obtain rfl | hcall := hputs call hcall
    · rw [PutStage.working_of_linked hheld] at hworking
      cases hworking
    · exact h.linked call hcall staged inode hheld
  complete call hcall staged inode hheld := by
    obtain rfl | hcall := hputs call hcall
    · rw [hheld] at hworking
      cases hworking
    · exact h.complete call hcall staged inode hheld
  objects digest destination entry hpath hentry := by
    obtain ⟨inode, hfile, call, hcall, hdigest, hstage, hsource⟩ :=
      h.objects digest destination entry hpath hentry
    exact ⟨inode, hfile, call, hcreated call hcall hstage, hdigest, hstage, hsource⟩
  answered call hcall outcome hstage := by
    obtain rfl | hcall := hputs call hcall
    · exact absurd hstage (hanswer outcome)
    · exact h.answered call hcall outcome hstage
  once := honce
  gets := h.gets

/-- The step lemma. -/
theorem Consistent.step (hrules : rules.Documented) (h : Consistent rules root s)
    (hstep : Step rules root s t) : Consistent rules root t := by
  cases hstep with
  | put before after call destination disk stage puts located taken =>
      exact h.put puts taken hrules located
  | get before after call destination stage gets located taken =>
      apply h.of_gets
      apply forall_mem_moved
      · intro other hother
        apply h.gets
        rw [gets]
        exact List.perm_middle.mem_iff.mpr (List.mem_cons_of_mem call hother)
      · exact h.get gets located taken
  | getRefused before after call error gets arrived located =>
      apply h.of_gets
      apply forall_mem_moved
      · intro other hother
        apply h.gets
        rw [gets]
        exact List.perm_middle.mem_iff.mpr (List.mem_cons_of_mem call hother)
      · exact trivial
  | getCalled digest =>
      apply h.of_gets
      intro call hcall
      obtain hcall | hcall := List.mem_append.mp hcall
      · exact h.gets call hcall
      · rw [List.mem_singleton.mp hcall]
        exact trivial
  | putCalled digest source =>
      apply h.of_puts ⟨digest, source, .checking⟩ rfl nofun
      · intro call hcall
        exact (List.mem_append.mp hcall).symm.imp_left List.mem_singleton.mp
      · intro call hcall _
        exact List.mem_append_left _ hcall
      · rw [List.filterMap_append]
        exact (List.append_nil _).symm ▸ h.distinct
      · rw [List.filterMap_append]
        exact (List.append_nil _).symm ▸ h.once
  | putRefused before after call error puts arrived located =>
      have hdistinct := h.distinct
      have honce := h.once
      rw [puts] at hdistinct honce
      apply h.of_puts { call with stage := .returned (.error error) } rfl nofun
      · apply forall_mem_moved
        · intro other hother
          exact .inr (mem_puts puts hother)
        · exact .inl rfl
      · rw [puts]
        intro other hother hstage
        apply List.perm_middle.mem_iff.mpr
        obtain rfl | hother := List.mem_cons.mp (List.perm_middle.mem_iff.mp hother)
        · rw [arrived] at hstage
          cases hstage
        · exact List.mem_cons_of_mem _ hother
      · exact nodup_moved hdistinct nofun
      · exact nodup_moved honce nofun

/-- The run lemma. -/
theorem Reachable.consistent (hrules : rules.Documented) (h : Reachable rules root s) :
    Consistent rules root s := by
  induction h with
  | start disk fresh => exact Consistent.start fresh
  | step prior taken ih => exact ih.step hrules taken

/-! ## A map that is written once -/

/-- What the store holds for a digest: the bytes of the file its path leads to. -/
def object (rules : DigestRules) (root : DiskPath) (s : Running) (digest : Digest) :
    Option Bytes :=
  match path rules root digest with
  | .error _ => none
  | .ok destination =>
      match s.disk.entries destination with
      | some (.file inode) => some (s.disk.contents inode)
      | _ => none

theorem object_eq_some {digest : Digest} {content : Bytes} :
    object rules root s digest = some content ↔
      ∃ inode, Stored rules root s.disk digest inode ∧ s.disk.contents inode = content := by
  unfold object Stored
  constructor
  · intro h
    split at h
    · cases h
    · split at h
      case h_1 inode hentry => exact ⟨inode, ⟨_, ‹_›, hentry⟩, Option.some.inj h⟩
      case h_2 => cases h
  · rintro ⟨inode, ⟨destination, hpath, hentry⟩, rfl⟩
    simp only [hpath, hentry]

theorem Consistent.object_eq_none (h : Consistent rules root s) {digest : Digest}
    {destination : DiskPath} (hpath : path rules root digest = .ok destination) :
    object rules root s digest = none ↔ s.disk.entries destination = none := by
  unfold object
  simp only [hpath]
  constructor
  · intro hnone
    cases hentry : s.disk.entries destination with
    | none => rfl
    | some entry =>
        obtain ⟨inode, rfl, -⟩ := h.objects digest destination entry hpath hentry
        rw [hentry] at hnone
        cases hnone
  · intro hentry
    rw [hentry]

theorem object_congr {digest : Digest}
    (hentries : ∀ destination, path rules root digest = .ok destination →
      t.disk.entries destination = s.disk.entries destination)
    (hcontents : ∀ inode, Stored rules root s.disk digest inode →
      t.disk.contents inode = s.disk.contents inode) :
    object rules root t digest = object rules root s digest := by
  unfold object
  cases hpath : path rules root digest with
  | error error => rfl
  | ok destination =>
      dsimp only
      rw [hentries destination hpath]
      split
      case h_1 inode hentry => rw [hcontents inode ⟨destination, hpath, hentry⟩]
      case h_2 => rfl

/-- A put that creates its object: every other object is as before, and there was none
where this one is now. -/
def Creates (rules : DigestRules) (root : DiskPath) (s t : Running) : Prop :=
  ∃ before call after, s.puts = before ++ call :: after ∧
    t.puts = before ++ { call with stage := .returned (.ok .created) } :: after ∧
    object rules root s call.digest = none ∧
    object rules root t = Function.update (object rules root s) call.digest (some call.source)

/-- Every step creates one object or leaves all objects as they are. -/
theorem Consistent.object_step (hrules : rules.Documented) (h : Consistent rules root s)
    (hstep : Step rules root s t) :
    object rules root t = object rules root s ∨ Creates rules root s t := by
  cases hstep with
  | putCalled digest source => exact .inl rfl
  | getCalled digest => exact .inl rfl
  | putRefused before after call error puts arrived located => exact .inl rfl
  | get before after call destination stage gets located taken => exact .inl rfl
  | getRefused before after call error gets arrived located => exact .inl rfl
  | put before after call destination disk stage puts located taken =>
      have hkept : ∀ digest inode, Stored rules root s.disk digest inode →
          disk.contents inode = s.disk.contents inode := fun digest inode hstored =>
        (h.keeps_stored puts taken hstored).2
      obtain ⟨staged, inode, hstage, vacant, rfl, rfl⟩ | ⟨-, hstages⟩ := taken.created_or_stages
      · have hlinked : call.stage.linked = some (staged, inode) := by
          rw [hstage]
          rfl
        have howns := h.owns puts (call.stage.working_of_linked hlinked)
        apply Or.inr
        refine ⟨before, call, after, puts, rfl, (h.object_eq_none located).mpr vacant, ?_⟩
        funext digest
        by_cases hdigest : digest = call.digest
        · rw [hdigest, Function.update_self, object_eq_some]
          refine ⟨inode, ⟨destination, located, ?_⟩, h.complete call (mem_moving puts) _ _ hstage⟩
          have hapart := howns.apart call.digest destination located
          show (s.disk.rename staged destination).entries destination = some (.file inode)
          rw [Disk.rename_entries, if_neg hapart.symm, if_pos rfl]
          exact h.linked call (mem_moving puts) staged inode hlinked
        · rw [Function.update_of_ne hdigest]
          apply object_congr
          · intro other hother
            show (s.disk.rename staged destination).entries other = s.disk.entries other
            rw [Disk.rename_entries, if_neg (howns.apart digest other hother).symm, if_neg]
            rintro rfl
            exact hdigest (path_injective hrules hother located)
          · exact hkept digest
      · apply Or.inl
        funext digest
        apply object_congr
        · intro other hother
          apply hstages.destination_entries ⟨call.digest, located⟩ hother
          intro staged inode hworking
          exact (h.owns puts hworking).apart digest other hother
        · exact hkept digest

/-- So the objects of a run are a map that is written once at each digest. -/
theorem Consistent.putIfAbsent (hrules : rules.Documented) (h : Consistent rules root s)
    (hstep : Step rules root s t) :
    PutIfAbsent.Step (object rules root s) (object rules root t) := by
  obtain hsame | ⟨before, call, after, -, -, hvacant, hobject⟩ := h.object_step hrules hstep
  · rw [hsame]
    exact .idle
  · rw [hobject]
    exact .created call.digest call.source hvacant

theorem Consistent.object_of_run (hrules : rules.Documented) (h : Consistent rules root s)
    (hrun : Relation.ReflTransGen (Step rules root) s t) {digest : Digest} {content : Bytes}
    (hobject : object rules root s digest = some content) :
    object rules root t digest = some content :=
  PutIfAbsent.keeps_of_run (fun _ _ hprior htaken => hprior.step hrules htaken)
    (fun _ _ hprior htaken => hprior.putIfAbsent hrules htaken) h hrun hobject

/-- The object of a digest is the source of the put that created it. -/
theorem Consistent.exists_created (h : Consistent rules root s) {digest : Digest} {inode : ℕ}
    (hstored : Stored rules root s.disk digest inode) : ∃ put ∈ s.puts, put.digest = digest ∧
      put.stage = .returned (.ok .created) ∧ s.disk.contents inode = put.source := by
  obtain ⟨destination, hpath, hentry⟩ := hstored
  obtain ⟨held, hheld, hput⟩ := h.objects digest destination _ hpath hentry
  cases hheld
  exact hput

/-- What the store guarantees in every state of a run. -/
structure Guaranteed (rules : DigestRules) (root : DiskPath) (s : Running) : Prop where
  /-- What is at a destination is the whole source of one put of its digest that
  returned, and whatever happens it stays there. -/
  whole : ∀ digest destination, path rules root digest = .ok destination →
    s.disk.entries destination ≠ none → ∃ put ∈ s.puts, put.digest = digest ∧
      put.stage = .returned (.ok .created) ∧ object rules root s digest = some put.source ∧
        ∀ t, Relation.ReflTransGen (Step rules root) s t →
          object rules root t digest = some put.source
  /-- If one put of a digest created the object, every other one that returns without
  an error found it there. -/
  once : ∀ before call after, s.puts = before ++ call :: after →
    call.stage = .returned (.ok .created) → ∀ other ∈ before ++ after,
      other.digest = call.digest → ∀ outcome, other.stage = .returned (.ok outcome) →
        outcome = .alreadyExists
  /-- A put that returns without an error leaves an object behind. -/
  answered : ∀ call ∈ s.puts, ∀ outcome, call.stage = .returned (.ok outcome) →
    object rules root s call.digest ≠ none
  /-- No step changes an object but that of a put that creates its own. -/
  changed : ∀ t, Step rules root s t →
    object rules root t = object rules root s ∨ Creates rules root s t
  /-- What a get sees is what the source of a put that created the object begins
  with, and when it has come to the end, all of it. -/
  read : ∀ call ∈ s.gets, ∀ inode size seen, call.stage = .reading inode size seen →
    ∃ put ∈ s.puts, put.digest = call.digest ∧ put.stage = .returned (.ok .created) ∧
      size = put.source.length ∧ seen <+: put.source
  served : ∀ call ∈ s.gets, ∀ size content, call.stage = .served size content →
    ∃ put ∈ s.puts, put.digest = call.digest ∧ put.stage = .returned (.ok .created) ∧
      size = put.source.length ∧ content = put.source

theorem Consistent.guaranteed (hrules : rules.Documented) (h : Consistent rules root s) :
    Guaranteed rules root s where
  whole digest destination hpath hthere := by
    obtain ⟨entry, hentry⟩ := Option.ne_none_iff_exists'.mp hthere
    obtain ⟨inode, rfl, put, hput, hdigest, hcreated, hsource⟩ :=
      h.objects digest destination entry hpath hentry
    have hobject : object rules root s digest = some put.source :=
      object_eq_some.mpr ⟨inode, ⟨destination, hpath, hentry⟩, hsource⟩
    exact ⟨put, hput, hdigest, hcreated, hobject, fun t hrun =>
      h.object_of_run hrules hrun hobject⟩
  once before call after hputs hcreated other hother hdigest outcome hanswer := by
    cases outcome with
    | alreadyExists => rfl
    | created =>
        have honce := h.once
        rw [hputs] at honce
        exact absurd hdigest (ne_of_nodup honce hother
          (PutCall.created_eq_some.mpr ⟨hcreated, rfl⟩)
          (PutCall.created_eq_some.mpr ⟨hanswer, rfl⟩))
  answered call hcall outcome hanswer := by
    obtain ⟨destination, hpath, hthere⟩ := h.answered call hcall outcome hanswer
    intro hnone
    exact hthere ((h.object_eq_none hpath).mp hnone)
  changed t hstep := h.object_step hrules hstep
  read call hcall inode size seen hstage := by
    have hholds := h.gets call hcall
    rw [Holds, hstage] at hholds
    obtain ⟨hstored, hsize, hseen⟩ := hholds
    obtain ⟨put, hput, hdigest, hcreated, hsource⟩ := h.exists_created hstored
    rw [hsource] at hsize hseen
    exact ⟨put, hput, hdigest, hcreated, hsize, hseen⟩
  served call hcall size content hstage := by
    have hholds := h.gets call hcall
    rw [Holds, hstage] at hholds
    obtain ⟨inode, hstored, hsize, hcontent⟩ := hholds
    obtain ⟨put, hput, hdigest, hcreated, hsource⟩ := h.exists_created hstored
    rw [hsource] at hsize hcontent
    exact ⟨put, hput, hdigest, hcreated, hsize, hcontent⟩

/-- A put that runs alone, where its directory is there, creates the object. -/
theorem reachable_created {disk : Disk DiskPath} (hfresh : Fresh rules root disk) {digest : Digest}
    {destination : DiskPath} (hpath : path rules root digest = .ok destination)
    (hparent : disk.entries destination.dropLast = some .directory) {name : String}
    (hname : disk.entries (destination.dropLast ++ [name]) = none)
    (hnumber : ∀ n : ℕ, name ≠ toString n) (source : Bytes) :
    ∃ s, Reachable rules root s ∧ s.puts = [⟨digest, source, .returned (.ok .created)⟩] := by
  have hvacant := hfresh.vacant digest destination hpath
  have hcalled := (Reachable.start disk hfresh).step (.putCalled _ digest source)
  have habsent := hcalled.step
    (.put _ [] [] _ destination disk .creating rfl hpath (.absent hvacant))
  have hready := habsent.step (.put _ [] [] _ destination disk .staging rfl hpath (.ready hparent))
  have hbusy : ¬ Busy ⟨disk, [⟨digest, source, .staging⟩], []⟩ (destination.dropLast ++ [name]) := by
    rintro ⟨call, hcall, inode, hworking⟩
    rw [List.mem_singleton.mp hcall] at hworking
    cases hworking
  have hstaged := hready.step (.put _ [] [] _ destination _ _ rfl hpath
    (.staged name hname hbusy hnumber))
  have hwrote := hstaged.step (.put _ [] [] _ destination _ _ rfl hpath (.wrote _ _ source))
  have hcomplete : ∀ other : Disk DiskPath,
      (other.write disk.allocated source).contents disk.allocated = source := by
    intro other
    rw [Disk.write_contents, if_pos rfl]
  have hcopied := hwrote.step (.put _ [] [] _ destination _ _ rfl hpath
    (.copied _ _ (hcomplete _)))
  have hdestination : destination ≠ destination.dropLast ++ [name] := by
    intro hsame
    have hlast := path_getLast? hpath
    rw [hsame, List.getLast?_concat] at hlast
    exact hnumber _ (Option.some.inj hlast)
  have hstill : (disk.createFile (destination.dropLast ++ [name])).entries destination = none := by
    rw [Disk.createFile_entries, if_neg hdestination, hvacant]
  have hpersisted := hcopied.step (.put _ [] [] _ destination _ _ rfl hpath
    (.persisted _ _ hstill))
  exact ⟨_, hpersisted, rfl⟩

end Running

/-- The store is a map from digests to contents that is written once at each digest,
whatever the interleaving of its callers: different digests have different paths, and
the guarantees hold in every state of every run. -/
theorem put_if_absent (rules : DigestRules) (hrules : rules.Documented) (root : DiskPath) :
    (∀ digest digest', rules.validate digest = true → rules.validate digest' = true →
      digest ≠ digest' → ∃ destination destination', path rules root digest = .ok destination ∧
        path rules root digest' = .ok destination' ∧ destination ≠ destination') ∧
    ∀ s, Running.Reachable rules root s → Running.Guaranteed rules root s := by
  constructor
  · intro digest digest' hvalid hvalid' hdifferent
    obtain ⟨destination, hpath⟩ := exists_path hrules root hvalid
    obtain ⟨destination', hpath'⟩ := exists_path hrules root hvalid'
    refine ⟨destination, destination', hpath, hpath', ?_⟩
    rintro rfl
    exact hdifferent (path_injective hrules hpath hpath')
  · intro s hreach
    exact (hreach.consistent hrules).guaranteed hrules

/-- A data directory in which only one directory has been made. -/
def prepared (directory : DiskPath) : Disk DiskPath where
  entries name := if name = directory then some .directory else none
  contents _ := []
  allocated := 0

theorem fresh_prepared {rules : DigestRules} {root directory : DiskPath}
    (h : directory.length < root.length + 5) : Running.Fresh rules root (prepared directory) where
  allocated name inode hname := by
    dsimp only [prepared] at hname
    split at hname <;> cases hname
  vacant digest destination hpath := by
    have hlength := path_length hpath
    apply if_neg
    rintro rfl
    omega

theorem put_if_absent_created : ∃ s, Running.Reachable Sample.digestRules ["data"] s ∧
    Running.Guaranteed Sample.digestRules ["data"] s ∧
    Running.object Sample.digestRules ["data"] s Sample.directoryDigest =
      some Sample.directoryText := by
  have hvalid : Sample.digestRules.validate Sample.directoryDigest = true := by
    decide +kernel
  obtain ⟨destination, hpath⟩ := exists_path Sample.documented ["data"] hvalid
  have hlength := path_length hpath
  have hfresh : Running.Fresh Sample.digestRules ["data"] (prepared destination.dropLast) := by
    apply fresh_prepared
    rw [List.length_dropLast, hlength]
    decide
  have hname : (prepared destination.dropLast).entries (destination.dropLast ++ [".tmpA"]) = none :=
    if_neg (by simp)
  have hnumber : ∀ n : ℕ, ".tmpA" ≠ toString n := by
    intro n hn
    have hdot : '.' ∈ Nat.toDigits 10 n := by
      rw [← Nat.toList_repr]
      exact congrArg String.toList hn ▸ by decide
    exact absurd (Nat.isDigit_of_mem_toDigits (by decide) (by decide) hdot) (by decide)
  obtain ⟨s, hreach, hputs⟩ := Running.reachable_created hfresh hpath (if_pos rfl) hname hnumber
    Sample.directoryText
  have hguaranteed := (put_if_absent Sample.digestRules Sample.documented ["data"]).2 s hreach
  have hcreated := hguaranteed.answered _ (hputs ▸ List.mem_singleton_self _) .created rfl
  have hthere : s.disk.entries destination ≠ none := fun hnone =>
    hcreated (((hreach.consistent Sample.documented).object_eq_none hpath).mpr hnone)
  obtain ⟨put, hput, -, -, hobject, -⟩ := hguaranteed.whole _ destination hpath hthere
  rw [hputs] at hput
  rw [List.mem_singleton.mp hput] at hobject
  exact ⟨s, hreach, hguaranteed, hobject⟩

end MbxCache.FilesystemStore
