/-
# What an accepted descriptor contains

The checks on a descriptor are written for the records it is parsed into, field by
field. They are compared here with the document itself: no string or member name
at any depth of an accepted descriptor holds a NUL, and whatever in it reads as a
digest is one the service accepts. The bounds on the inputs are stated on the
records, since the document has them in the same order.
-/

import MbxCache.Foundation.Effects
import MbxCache.Schemas
import MbxCache.Server.Paths
import MbxCache.Server.Runs

namespace MbxCache.Server

open Foundation Model

/-- A text without NUL. -/
def NulFree (text : String) : Prop := '\x00' ∉ text.toList

theorem validString_iff {text : String} : validString text = true ↔ NulFree text := by
  simp [validString, NulFree]

section

variable (rules : DigestRules)

/-- A value whose own texts are without NUL, and which is an accepted digest if it
is one at all. -/
structure Vetted (value : Json) : Prop where
  texts : ∀ text ∈ value.ownTexts, NulFree text
  digest : ∀ digest, Digest.deserialize value = some digest → rules.validate digest = true

end

section

variable {rules : DigestRules}

/-! ## Values that are no digests -/

theorem members_of_digest {members : List (String × Json)} {digest : Digest}
    (h : Digest.deserialize (.object members) = some digest) :
    (∀ entry ∈ members, entry.1 ∈ digestFields) ∧
      ∃ n, ("size", .number n) ∈ members := by
  simp only [Digest.deserialize, Json.asObject, Option.bind_eq_bind, Option.bind_some,
    Option.bind_eq_some_iff] at h
  obtain ⟨slot, hslots, _, _, _, _, size, hsize, _⟩ := h
  refine ⟨mem_names_of_slots hslots, ?_⟩
  cases hslot : slot "size" with
  | present value =>
      rw [hslot] at hsize
      cases value with
      | number n => exact ⟨n, mem_members_of_slots hslots hslot⟩
      | null | bool _ | string _ | array _ | object _ => cases hsize
  | absent | short =>
      rw [hslot] at hsize
      cases hsize

theorem vetted_string {text : String} (h : validString text = true) :
    Vetted rules (.string text) where
  texts := by
    intro found hmem
    rw [List.mem_singleton.mp hmem]
    exact validString_iff.mp h
  digest := by
    intro digest h
    cases h

theorem vetted_number (n : JsonNumber) : Vetted rules (.number n) where
  texts := fun text hmem => absurd hmem List.not_mem_nil
  digest := by
    intro digest h
    cases h

theorem vetted_null : Vetted rules .null where
  texts := fun text hmem => absurd hmem List.not_mem_nil
  digest := by
    intro digest h
    cases h

theorem vetted_array (items : List Json) : Vetted rules (.array items) where
  texts := fun text hmem => absurd hmem List.not_mem_nil
  digest := by
    intro digest h
    cases h

/-- A map whose values are not numbers is no digest. -/
theorem vetted_map {α : Type} {read : Json → Option α} (hnumber : ∀ n, read (.number n) = none)
    (members : List (String × Json))
    (h : ∀ entry ∈ members, validString entry.1 = true ∧ ∃ a, read entry.2 = some a) :
    Vetted rules (.object members) where
  texts := by
    intro text hmem
    obtain ⟨entry, hentry, rfl⟩ := List.mem_map.mp hmem
    exact validString_iff.mp (h entry hentry).1
  digest := by
    intro digest hdigest
    obtain ⟨_, n, hsize⟩ := members_of_digest hdigest
    obtain ⟨_, a, hread⟩ := h _ hsize
    rw [hnumber] at hread
    cases hread

/-- A record with a field no digest has is no digest. -/
theorem vetted_record {names : List String} (hnames : validStrings names = true)
    {value : Json} {slot : String → Slot} (hslots : slots names value = some slot)
    {field : String} (hfield : field ∉ digestFields) {part : Json}
    (hpart : slot field = .present part) : Vetted rules value where
  texts := by
    intro text hmem
    cases value with
    | object members =>
        obtain ⟨entry, hentry, rfl⟩ := List.mem_map.mp hmem
        have hname := mem_names_of_slots hslots entry hentry
        exact validString_iff.mp (List.all_eq_true.mp hnames entry.1 hname)
    | array items => exact absurd hmem List.not_mem_nil
    | null | bool _ | number _ | string _ => cases hslots
  digest := by
    intro digest hdigest
    cases value with
    | object members =>
        have hmem := mem_members_of_slots hslots hpart
        exact absurd ((members_of_digest hdigest).1 _ hmem) hfield
    | null | bool _ | number _ | string _ | array _ => cases hdigest

/-- A field that was read is there. -/
theorem present_of_required {α : Type} {read : Json → Option α} {slot : Slot} {a : α}
    (h : Read.required read slot = some a) : ∃ part, slot = .present part := by
  cases slot with
  | present part => exact ⟨part, rfl⟩
  | absent | short => cases h

/-- The document of a record is vetted when its fields are. -/
theorem everywhere_of_record {names : List String} (hdistinct : names.Nodup)
    (hnames : validStrings names = true) {value : Json} {slot : String → Slot}
    (hslots : slots names value = some slot) {α : Type} {read : Json → Option α}
    {field : String} {a : α} (hread : Read.required read (slot field) = some a)
    (hfield : field ∉ digestFields)
    (hfields : ∀ name ∈ names, (slot name).Everywhere (Vetted rules)) :
    value.Everywhere (Vetted rules) := by
  obtain ⟨part, hpart⟩ := present_of_required hread
  exact everywhere_of_slots hdistinct hslots (vetted_record hnames hslots hfield hpart) hfields

/-! ## Fields of each type -/

theorem inspects_string : Inspects Read.string (fun text => validString text = true) (Vetted rules) :=
  Inspects.string fun _ => vetted_string

theorem inspects_u8 : Inspects Read.u8 (fun _ => True) (Vetted rules) := Inspects.u8 vetted_number

theorem inspects_u64 : Inspects Read.u64 (fun _ => True) (Vetted rules) := Inspects.u64 vetted_number

theorem inspects_strings :
    Inspects (Read.list Read.string) (fun texts => validStrings texts = true) (Vetted rules) := by
  intro value texts hread hvalid
  exact inspects_string.list vetted_array value texts hread (List.all_eq_true.mp hvalid)

theorem inspects_map {α : Type} {read : Json → Option α} {valid : α → Prop}
    (h : Inspects read valid (Vetted rules)) (hnumber : ∀ n, read (.number n) = none) :
    Inspects (Read.map read) (fun found => ∀ entry ∈ found,
      validString entry.1 = true ∧ valid entry.2) (Vetted rules) :=
  h.map (fun name => validString name = true) (vetted_map hnumber)

theorem inspects_stringMap :
    Inspects (Read.map Read.string) (fun values => validStringMap values = true)
      (Vetted rules) := by
  intro value values hread hvalid
  apply inspects_map inspects_string (fun _ => rfl) value values hread
  intro entry hmem
  exact Bool.and_eq_true_iff.mp (List.all_eq_true.mp hvalid entry hmem)

theorem all_eq_true_iff {α : Type} {check : α → Bool} {found : Option α} :
    found.all check = true ↔ ∀ a ∈ found, check a = true := by
  cases found <;> simp

theorem inspects_optionalString :
    Inspects (Read.option Read.string) (fun found => validOptional validString found = true)
      (Vetted rules) := by
  intro value found hread hvalid
  apply inspects_string.option vetted_null value found hread
  exact all_eq_true_iff.mp hvalid

theorem inspects_optionalStringMap :
    Inspects (Read.map (Read.option Read.string))
      (fun values => ∀ entry ∈ values, (validString entry.1 && validOptional validString entry.2)
        = true) (Vetted rules) := by
  intro value values hread hvalid
  apply inspects_map inspects_optionalString (fun _ => rfl) value values hread
  intro entry hmem
  exact Bool.and_eq_true_iff.mp (hvalid entry hmem)

theorem validString_of_validName {text : String} (h : validName text = true) :
    validString text = true := (Bool.and_eq_true_iff.mp h).2

theorem entries_of_validOptionalStringMap {values : List (String × Option String)}
    (h : validOptionalStringMap values = true) :
    ∀ entry ∈ values, (validString entry.1 && validOptional validString entry.2) = true := by
  intro entry hmem
  have hentry := List.all_eq_true.mp h entry hmem
  simp only [Bool.and_eq_true] at hentry ⊢
  exact ⟨hentry.1.2, hentry.2⟩

theorem validOptional_validString {found : Option String}
    (h : validOptional validName found = true) : validOptional validString found = true := by
  apply all_eq_true_iff.mpr
  intro text hmem
  exact validString_of_validName (all_eq_true_iff.mp h text hmem)

/-! ## Digests -/

theorem validString_asStr (algorithm : Algorithm) : validString algorithm.asStr = true := by
  cases algorithm <;> decide

theorem validString_of_lowerHex {hash : String} (h : LowerHex hash) :
    validString hash = true := by
  apply validString_iff.mpr
  intro hmem
  exact absurd (h _ hmem) (by decide)

theorem inspects_digest (hrules : rules.Documented) :
    Inspects Digest.deserialize (fun digest => rules.validate digest = true) (Vetted rules) := by
  intro value digest hread hvalid
  have hformed := (hrules.validate_iff digest).mp hvalid
  have hfields := hread
  simp only [Digest.deserialize, Option.bind_eq_bind, Option.bind_eq_some_iff,
    Option.pure_def, Option.some.injEq] at hfields
  obtain ⟨members, hobject, slot, hslots, algorithm, halgorithm, hash, hhash, size, hsize, rfl⟩ :=
    hfields
  have hvalue : value = .object members := by
    cases value with
    | object found =>
        injection hobject with heq
        rw [heq]
    | null | bool _ | number _ | string _ | array _ => cases hobject
  subst hvalue
  obtain ⟨⟨known, hknown⟩, _, hlower⟩ := hformed
  have hself : Vetted rules (.object members) := {
    texts := by
      intro text hmem
      obtain ⟨entry, hentry, rfl⟩ := List.mem_map.mp hmem
      have hname := mem_names_of_slots hslots entry hentry
      have hnames : validStrings digestFields = true := by decide
      exact validString_iff.mp (List.all_eq_true.mp hnames entry.1 hname)
    digest := by
      intro other hother
      rw [hread] at hother
      injection hother with heq
      exact heq ▸ hvalid }
  apply everywhere_of_slots (by decide) hslots hself
  have halgorithmOk : validString algorithm = true := by
    rw [show algorithm = known.asStr from hknown]
    exact validString_asStr known
  have hhashOk : validString hash = true := validString_of_lowerHex hlower
  simp only [digestFields, List.forall_mem_cons, List.not_mem_nil, false_implies,
    implies_true, and_true]
  exact ⟨inspects_string.required halgorithm halgorithmOk,
    inspects_string.required hhash hhashOk, inspects_u64.required hsize trivial⟩

/-! ## Task actions -/

theorem inspects_taskPhase : Inspects TaskPhase.deserialize (fun _ => True) (Vetted rules) := by
  intro value phase hread _
  have hobject : ∀ name, validString name = true →
      (Json.object [(name, .null)]).Everywhere (Vetted rules) := by
    intro name hname
    apply Json.everywhere_of_children
    · apply @vetted_map rules Unit Read.unit (fun _ => rfl)
      intro entry hmem
      rw [List.mem_singleton.mp hmem]
      exact ⟨hname, (), rfl⟩
    · intro child hmem
      rw [List.mem_singleton.mp hmem]
      exact Json.everywhere_of_leaf vetted_null rfl
  have hstring : ∀ name, validString name = true →
      (Json.string name).Everywhere (Vetted rules) := by
    intro name hname
    exact Json.everywhere_of_leaf (vetted_string hname) rfl
  unfold TaskPhase.deserialize at hread
  split at hread
  · exact hstring "normal" (by decide)
  · exact hobject "normal" (by decide)
  · exact hstring "post" (by decide)
  · exact hobject "post" (by decide)
  · cases hread

theorem inspects_taskRunSingle :
    Inspects TaskRunSingle.deserialize (fun entry => (TaskRunEntry.single entry).validate = true)
      (Vetted rules) := by
  intro value entry hread hvalid
  simp only [TaskRunSingle.deserialize, Option.bind_eq_bind, Option.bind_eq_some_iff,
    Option.pure_def, Option.some.injEq] at hread
  obtain ⟨slot, hslots, task, htask, args, hargs, env, henv, rfl⟩ := hread
  simp only [TaskRunEntry.validate, Bool.and_eq_true] at hvalid
  apply everywhere_of_record (by decide) (by decide) hslots htask (by decide)
  simp only [taskRunSingleFields, List.forall_mem_cons, List.not_mem_nil, false_implies,
    implies_true, and_true]
  exact ⟨inspects_string.required htask hvalid.1.1, inspects_strings.defaulted hargs hvalid.1.2,
    inspects_stringMap.defaulted henv hvalid.2⟩

theorem inspects_taskRunGroup :
    Inspects TaskRunGroup.deserialize (fun entry => (TaskRunEntry.group entry).validate = true)
      (Vetted rules) := by
  intro value entry hread hvalid
  simp only [TaskRunGroup.deserialize, Option.bind_eq_bind, Option.bind_eq_some_iff,
    Option.pure_def, Option.some.injEq] at hread
  obtain ⟨slot, hslots, tasks, htasks, rfl⟩ := hread
  apply everywhere_of_record (by decide) (by decide) hslots htasks (by decide)
  simp only [taskRunGroupFields, List.forall_mem_cons, List.not_mem_nil, false_implies,
    implies_true, and_true]
  exact inspects_strings.required htasks hvalid

/-- Whichever form reads the value, its own check covers it. -/
theorem inspects_taskRunEntry :
    Inspects TaskRunEntry.deserialize (fun entry => entry.validate = true) (Vetted rules) := by
  intro value entry hread hvalid
  simp only [TaskRunEntry.deserialize, Option.or_eq_some_iff, Option.map_eq_some_iff] at hread
  rcases hread with ⟨text, hread, rfl⟩ | ⟨_, ⟨single, hread, rfl⟩ | ⟨_, group, hread, rfl⟩⟩
  · exact inspects_string value text hread hvalid
  · exact inspects_taskRunSingle value single hread hvalid
  · exact inspects_taskRunGroup value group hread hvalid

theorem inspects_taskCommandInput :
    Inspects TaskCommandInput.deserialize (fun input => input.validate = true)
      (Vetted rules) := by
  intro value input hread hvalid
  simp only [TaskCommandInput.deserialize, Option.bind_eq_bind, Option.bind_eq_some_iff,
    Option.pure_def, Option.some.injEq] at hread
  obtain ⟨slot, hslots, command, hcommand, stdoutHash, hstdout, stderrHash, hstderr, rfl⟩ := hread
  simp only [TaskCommandInput.validate, Bool.and_eq_true] at hvalid
  apply everywhere_of_record (by decide) (by decide) hslots hcommand (by decide)
  simp only [taskCommandInputFields, List.forall_mem_cons, List.not_mem_nil, false_implies,
    implies_true, and_true]
  exact ⟨inspects_string.required hcommand hvalid.1.1, inspects_string.required hstdout hvalid.1.2,
    inspects_string.required hstderr hvalid.2⟩

theorem inspects_taskAction :
    Inspects TaskAction.deserialize (fun action => action.validate = true) (Vetted rules) := by
  intro value action hread hvalid
  obtain ⟨slot, hslots, hread⟩ := exists_of_bind_eq_some hread
  obtain ⟨version, hversion, hread⟩ := exists_of_bind_eq_some hread
  obtain ⟨kind, hkind, hread⟩ := exists_of_bind_eq_some hread
  obtain ⟨task, htask, hread⟩ := exists_of_bind_eq_some hread
  obtain ⟨phase, hphase, hread⟩ := exists_of_bind_eq_some hread
  obtain ⟨run, hrun, hread⟩ := exists_of_bind_eq_some hread
  obtain ⟨args, hargs, hread⟩ := exists_of_bind_eq_some hread
  obtain ⟨shell, hshell, hread⟩ := exists_of_bind_eq_some hread
  obtain ⟨outputs, houtputs, hread⟩ := exists_of_bind_eq_some hread
  obtain ⟨root, hroot, hread⟩ := exists_of_bind_eq_some hread
  obtain ⟨sourceHash, hsource, hread⟩ := exists_of_bind_eq_some hread
  obtain ⟨dependencyKeys, hkeys, hread⟩ := exists_of_bind_eq_some hread
  obtain ⟨environment, henvironment, hread⟩ := exists_of_bind_eq_some hread
  obtain ⟨commandInputs, hinputs, hread⟩ := exists_of_bind_eq_some hread
  obtain ⟨vars, hvars, hread⟩ := exists_of_bind_eq_some hread
  obtain ⟨tools, htools, hread⟩ := exists_of_bind_eq_some hread
  obtain ⟨os, hos, hread⟩ := exists_of_bind_eq_some hread
  obtain ⟨arch, harch, hread⟩ := exists_of_bind_eq_some hread
  injection hread with hread
  subst hread
  simp only [TaskAction.validate, Bool.and_eq_true] at hvalid
  obtain ⟨⟨⟨⟨⟨⟨⟨⟨⟨⟨⟨⟨⟨⟨⟨⟨_, hkindOk⟩, htaskOk⟩, _⟩, hrunOk⟩, hargsOk⟩, hshellOk⟩,
    houtputsOk⟩, hrootOk⟩, hsourceOk⟩, hkeysOk⟩, henvironmentOk⟩, hinputsOk⟩, hvarsOk⟩,
    htoolsOk⟩, hosOk⟩, harchOk⟩ := hvalid
  have hkindText : validString kind = true := by
    rw [beq_iff_eq.mp hkindOk]
    decide
  apply everywhere_of_record (by decide) (by decide) hslots htask (by decide)
  simp only [taskActionMembers, List.forall_mem_cons, List.not_mem_nil, false_implies,
    implies_true, and_true]
  exact ⟨inspects_u8.required hversion trivial,
    inspects_string.required hkind hkindText,
    inspects_string.required htask htaskOk,
    inspects_taskPhase.required hphase trivial,
    (inspects_taskRunEntry.list vetted_array).required hrun (List.all_eq_true.mp hrunOk),
    inspects_strings.required hargs hargsOk,
    inspects_string.optional vetted_null hshell (all_eq_true_iff.mp hshellOk),
    inspects_strings.required houtputs houtputsOk,
    inspects_string.required hroot hrootOk,
    inspects_string.required hsource hsourceOk,
    inspects_strings.defaulted hkeys hkeysOk,
    inspects_optionalStringMap.required henvironment (List.all_eq_true.mp henvironmentOk),
    (inspects_taskCommandInput.list vetted_array).defaulted hinputs (List.all_eq_true.mp hinputsOk),
    inspects_stringMap.required hvars hvarsOk,
    inspects_strings.required htools htoolsOk,
    inspects_string.required hos hosOk,
    inspects_string.required harch harchOk⟩

/-! ## Compiler actions -/

theorem inspects_rustcCompiler :
    Inspects RustcCompiler.deserialize (fun compiler => compiler.validate = true)
      (Vetted rules) := by
  intro value compiler hread hvalid
  obtain ⟨slot, hslots, hread⟩ := exists_of_bind_eq_some hread
  obtain ⟨toolchain, htoolchain, hread⟩ := exists_of_bind_eq_some hread
  obtain ⟨rustcVersion, hversion, hread⟩ := exists_of_bind_eq_some hread
  obtain ⟨host, hhost, hread⟩ := exists_of_bind_eq_some hread
  injection hread with hread
  subst hread
  have hname := List.all_eq_true.mp hvalid
  apply everywhere_of_record (by decide) (by decide) hslots htoolchain (by decide)
  simp only [rustcCompilerFields, List.forall_mem_cons, List.not_mem_nil, false_implies,
    implies_true, and_true]
  exact ⟨inspects_string.required htoolchain (validString_of_validName (hname _ (by simp))),
    inspects_string.required hversion (validString_of_validName (hname _ (by simp))),
    inspects_string.required hhost (validString_of_validName (hname _ (by simp)))⟩

theorem validString_of_validNormalizedPath {path : String}
    (h : validNormalizedPath path = true) : validString path = true := by
  obtain ⟨name, suffix, hpath, hbrace⟩ := exists_cut_of_validNormalizedPath h
  obtain ⟨hname, hsuffix⟩ := (validNormalizedPath_of_cut hpath hbrace).mp h
  have hnameOk : '\x00' ∉ name := by
    intro hmem
    have halphabet := hname.alphabet '\x00' (by rwa [String.toList_ofList])
    exact absurd halphabet (by decide)
  have hsuffixOk : '\x00' ∉ suffix := by
    rcases hsuffix with rfl | ⟨rest, rfl, hplain⟩
    · exact List.not_mem_nil
    · simp only [plainPath, String.toList_ofList, Bool.and_eq_true, Bool.not_eq_true',
        List.contains_eq_mem, decide_eq_false_iff_not] at hplain
      simpa using hplain.1.2
  apply validString_iff.mpr
  rw [NulFree, hpath]
  simp [hnameOk, hsuffixOk]

theorem inspects_rustcInput (hrules : rules.Documented) :
    Inspects RustcInput.deserialize (fun input => input.validate rules = true)
      (Vetted rules) := by
  intro value input hread hvalid
  obtain ⟨slot, hslots, hread⟩ := exists_of_bind_eq_some hread
  obtain ⟨path, hpath, hread⟩ := exists_of_bind_eq_some hread
  obtain ⟨digest, hdigest, hread⟩ := exists_of_bind_eq_some hread
  injection hread with hread
  subst hread
  obtain ⟨hpathOk, hdigestOk⟩ := Bool.and_eq_true_iff.mp hvalid
  apply everywhere_of_record (by decide) (by decide) hslots hpath (by decide)
  simp only [rustcInputFields, List.forall_mem_cons, List.not_mem_nil, false_implies,
    implies_true, and_true]
  exact ⟨inspects_string.required hpath (validString_of_validNormalizedPath hpathOk),
    (inspects_digest hrules).required hdigest hdigestOk⟩

/-- A name that is checked for NUL is checked as a text. -/
theorem inspects_crtObjects (hrules : rules.Documented) :
    Inspects (Read.map Digest.deserialize) (fun objects => ∀ entry ∈ objects,
      (validName entry.1 && rules.validate entry.2) = true) (Vetted rules) := by
  intro value objects hread hvalid
  apply inspects_map (inspects_digest hrules) (fun _ => rfl) value objects hread
  intro entry hmem
  obtain ⟨hname, hdigest⟩ := Bool.and_eq_true_iff.mp (hvalid entry hmem)
  exact ⟨validString_of_validName hname, hdigest⟩

theorem inspects_rustcLinkerIdentity (hrules : rules.Documented) :
    Inspects RustcLinkerIdentity.deserialize (fun linker => linker.validate rules = true)
      (Vetted rules) := by
  intro value linker hread hvalid
  obtain ⟨slot, hslots, hread⟩ := exists_of_bind_eq_some hread
  obtain ⟨driver, hdriver, hread⟩ := exists_of_bind_eq_some hread
  obtain ⟨driverVersion, hdriverVersion, hread⟩ := exists_of_bind_eq_some hread
  obtain ⟨linkerVersion, hlinkerVersion, hread⟩ := exists_of_bind_eq_some hread
  obtain ⟨crtObjects, hobjects, hread⟩ := exists_of_bind_eq_some hread
  obtain ⟨sdk, hsdk, hread⟩ := exists_of_bind_eq_some hread
  obtain ⟨deploymentTarget, htarget, hread⟩ := exists_of_bind_eq_some hread
  injection hread with hread
  subst hread
  simp only [RustcLinkerIdentity.validate, Bool.and_eq_true] at hvalid
  obtain ⟨⟨⟨hnames, hobjectsOk⟩, hsdkOk⟩, htargetOk⟩ := hvalid
  have hname := List.all_eq_true.mp hnames
  apply everywhere_of_record (by decide) (by decide) hslots hdriver (by decide)
  simp only [rustcLinkerIdentityFields, List.forall_mem_cons, List.not_mem_nil, false_implies,
    implies_true, and_true]
  exact ⟨inspects_string.required hdriver (validString_of_validName (hname _ (by simp))),
    inspects_string.required hdriverVersion (validString_of_validName (hname _ (by simp))),
    inspects_string.required hlinkerVersion (validString_of_validName (hname _ (by simp))),
    (inspects_crtObjects hrules).defaulted hobjects (List.all_eq_true.mp hobjectsOk),
    inspects_optionalString.defaulted hsdk (validOptional_validString hsdkOk),
    inspects_optionalString.defaulted htarget (validOptional_validString htargetOk)⟩

theorem all_of_allDistinct {α : Type} {check : α → Bool} {path : α → String}
    {seen : List String} {items : List α} (h : allDistinct check path seen items = true) :
    (∀ item ∈ items, check item = true) ∧ (items.map path).Nodup ∧
      ∀ item ∈ items, path item ∉ seen := by
  induction items generalizing seen with
  | nil => exact ⟨fun _ hmem => absurd hmem List.not_mem_nil, List.nodup_nil,
      fun _ hmem => absurd hmem List.not_mem_nil⟩
  | cons item items ih =>
      simp only [allDistinct, Bool.and_eq_true, Bool.not_eq_true', List.contains_eq_mem,
        decide_eq_false_iff_not] at h
      obtain ⟨⟨hcheck, hnew⟩, hrest⟩ := h
      obtain ⟨hchecks, hnodup, hnews⟩ := ih hrest
      refine ⟨List.forall_mem_cons.mpr ⟨hcheck, hchecks⟩, ?_, List.forall_mem_cons.mpr ⟨hnew, ?_⟩⟩
      · rw [List.map_cons, List.nodup_cons]
        refine ⟨?_, hnodup⟩
        intro hmem
        obtain ⟨other, hother, heq⟩ := List.mem_map.mp hmem
        exact hnews other hother (heq ▸ List.mem_cons_self)
      · intro other hother hseen
        exact hnews other hother (List.mem_cons_of_mem _ hseen)

theorem inspects_rustcAction (hrules : rules.Documented) :
    Inspects RustcAction.deserialize (fun action => action.validate rules = true)
      (Vetted rules) := by
  intro value action hread hvalid
  obtain ⟨slot, hslots, hread⟩ := exists_of_bind_eq_some hread
  obtain ⟨version, hversion, hread⟩ := exists_of_bind_eq_some hread
  obtain ⟨kind, hkind, hread⟩ := exists_of_bind_eq_some hread
  obtain ⟨adapterVersion, hadapter, hread⟩ := exists_of_bind_eq_some hread
  obtain ⟨compiler, hcompiler, hread⟩ := exists_of_bind_eq_some hread
  obtain ⟨arguments, harguments, hread⟩ := exists_of_bind_eq_some hread
  obtain ⟨environment, henvironment, hread⟩ := exists_of_bind_eq_some hread
  obtain ⟨inputs, hinputs, hread⟩ := exists_of_bind_eq_some hread
  obtain ⟨linker, hlinker, hread⟩ := exists_of_bind_eq_some hread
  injection hread with hread
  subst hread
  simp only [RustcAction.validate, Bool.and_eq_true] at hvalid
  obtain ⟨⟨⟨⟨⟨⟨⟨⟨_, hkindOk⟩, _⟩, hcompilerOk⟩, hargumentsOk⟩, henvironmentOk⟩, _⟩, hinputsOk⟩,
    hlinkerOk⟩ := hvalid
  have hkindText : validString kind = true := by
    rw [beq_iff_eq.mp hkindOk]
    decide
  apply everywhere_of_record (by decide) (by decide) hslots hcompiler (by decide)
  simp only [rustcActionFields, List.forall_mem_cons, List.not_mem_nil, false_implies,
    implies_true, and_true]
  exact ⟨inspects_u8.required hversion trivial,
    inspects_string.required hkind hkindText,
    inspects_u8.required hadapter trivial,
    inspects_rustcCompiler.required hcompiler hcompilerOk,
    inspects_strings.required harguments hargumentsOk,
    inspects_optionalStringMap.required henvironment
      (entries_of_validOptionalStringMap henvironmentOk),
    ((inspects_rustcInput hrules).list vetted_array).required hinputs
      (all_of_allDistinct hinputsOk).1,
    ((inspects_rustcLinkerIdentity hrules).option vetted_null).defaulted hlinker
      (all_eq_true_iff.mp hlinkerOk)⟩

theorem inspects_ccCompiler :
    Inspects CcCompiler.deserialize (fun compiler => compiler.validate = true) (Vetted rules) := by
  intro value compiler hread hvalid
  obtain ⟨slot, hslots, hread⟩ := exists_of_bind_eq_some hread
  obtain ⟨assembler, hassembler, hread⟩ := exists_of_bind_eq_some hread
  obtain ⟨family, hfamily, hread⟩ := exists_of_bind_eq_some hread
  obtain ⟨target, htarget, hread⟩ := exists_of_bind_eq_some hread
  obtain ⟨versionText, hversion, hread⟩ := exists_of_bind_eq_some hread
  injection hread with hread
  subst hread
  obtain ⟨hassemblerOk, hnames⟩ := Bool.and_eq_true_iff.mp hvalid
  have hname := List.all_eq_true.mp hnames
  apply everywhere_of_record (by decide) (by decide) hslots hassembler (by decide)
  simp only [ccCompilerFields, List.forall_mem_cons, List.not_mem_nil, false_implies,
    implies_true, and_true]
  exact ⟨inspects_string.required hassembler hassemblerOk,
    inspects_string.required hfamily (validString_of_validName (hname _ (by simp))),
    inspects_string.required htarget (validString_of_validName (hname _ (by simp))),
    inspects_string.required hversion (validString_of_validName (hname _ (by simp)))⟩

theorem inspects_ccInput (hrules : rules.Documented) :
    Inspects CcInput.deserialize (fun input => input.validate rules = true) (Vetted rules) := by
  intro value input hread hvalid
  obtain ⟨slot, hslots, hread⟩ := exists_of_bind_eq_some hread
  obtain ⟨digest, hdigest, hread⟩ := exists_of_bind_eq_some hread
  obtain ⟨path, hpath, hread⟩ := exists_of_bind_eq_some hread
  injection hread with hread
  subst hread
  simp only [CcInput.validate, Bool.and_eq_true] at hvalid
  obtain ⟨⟨_, hpathOk⟩, hdigestOk⟩ := hvalid
  apply everywhere_of_record (by decide) (by decide) hslots hpath (by decide)
  simp only [ccInputFields, List.forall_mem_cons, List.not_mem_nil, false_implies,
    implies_true, and_true]
  exact ⟨(inspects_digest hrules).required hdigest hdigestOk,
    inspects_string.required hpath hpathOk⟩

theorem inspects_ccAction (hrules : rules.Documented) :
    Inspects CcAction.deserialize (fun action => action.validate rules = true) (Vetted rules) := by
  intro value action hread hvalid
  obtain ⟨slot, hslots, hread⟩ := exists_of_bind_eq_some hread
  obtain ⟨version, hversion, hread⟩ := exists_of_bind_eq_some hread
  obtain ⟨kind, hkind, hread⟩ := exists_of_bind_eq_some hread
  obtain ⟨adapterVersion, hadapter, hread⟩ := exists_of_bind_eq_some hread
  obtain ⟨assemblyInputModel, hmodel, hread⟩ := exists_of_bind_eq_some hread
  obtain ⟨compiler, hcompiler, hread⟩ := exists_of_bind_eq_some hread
  obtain ⟨arguments, harguments, hread⟩ := exists_of_bind_eq_some hread
  obtain ⟨environment, henvironment, hread⟩ := exists_of_bind_eq_some hread
  obtain ⟨inputs, hinputs, hread⟩ := exists_of_bind_eq_some hread
  injection hread with hread
  subst hread
  simp only [CcAction.validate, Bool.and_eq_true] at hvalid
  obtain ⟨⟨⟨⟨⟨⟨⟨⟨_, hkindOk⟩, _⟩, _⟩, hcompilerOk⟩, hargumentsOk⟩, henvironmentOk⟩, _⟩,
    hinputsOk⟩ := hvalid
  have hkindText : validString kind = true := by
    rw [beq_iff_eq.mp hkindOk]
    decide
  apply everywhere_of_record (by decide) (by decide) hslots hcompiler (by decide)
  simp only [ccActionFields, List.forall_mem_cons, List.not_mem_nil, false_implies,
    implies_true, and_true]
  exact ⟨inspects_u8.required hversion trivial,
    inspects_string.required hkind hkindText,
    inspects_u8.required hadapter trivial,
    (inspects_u8.option vetted_null).defaulted hmodel (fun _ _ => trivial),
    inspects_ccCompiler.required hcompiler hcompilerOk,
    inspects_strings.required harguments hargumentsOk,
    inspects_optionalStringMap.required henvironment
      (entries_of_validOptionalStringMap henvironmentOk),
    ((inspects_ccInput hrules).list vetted_array).required hinputs
      (all_of_allDistinct hinputsOk).1⟩

/-! ## Build scripts -/

theorem inspects_inputKind (numbered : Bool) :
    Inspects (InputKind.deserialize numbered) (fun _ => True) (Vetted rules) := by
  intro value kind hread _
  have hstring : ∀ name, validString name = true →
      (Json.string name).Everywhere (Vetted rules) := by
    intro name hname
    exact Json.everywhere_of_leaf (vetted_string hname) rfl
  unfold InputKind.deserialize at hread
  split at hread
  · exact hstring "missing" (by decide)
  · exact hstring "file" (by decide)
  · exact hstring "directory" (by decide)
  · exact hstring "symlink" (by decide)
  · exact Json.everywhere_of_leaf (vetted_number _) rfl
  · cases hread

theorem everywhere_of_reading {numbered : Bool} {value : Json} {kind : InputKind}
    {slot : String → Slot} (h : BuildScriptInput.Reading numbered value kind slot)
    (hfields : ∀ name ∈ (inputFields kind).tail, (slot name).Everywhere (Vetted rules)) :
    value.Everywhere (Vetted rules) := by
  have hdistinct : (inputFields kind).Nodup := by
    cases kind <;> decide
  have hnames : validStrings (inputFields kind) = true := by
    cases kind <;> decide
  have hcons : inputFields kind = "kind" :: (inputFields kind).tail := by
    cases kind <;> rfl
  apply everywhere_of_record hdistinct hnames h.slots h.kind (by decide)
  rw [hcons]
  exact List.forall_mem_cons.mpr ⟨(inspects_inputKind numbered).required h.kind trivial, hfields⟩

/-- An input is covered from any depth its chain has been followed to; the induction
is on what was read. -/
theorem everywhere_of_buildScriptInput (hrules : rules.Documented) {input : BuildScriptInput}
    {numbered : Bool} {value : Json} {depth : ℕ}
    (hread : BuildScriptInput.deserialize numbered value = some input)
    (hvalid : input.validate rules depth = true) : value.Everywhere (Vetted rules) := by
  induction input generalizing numbered value depth with
  | missing =>
      obtain ⟨kind, slot, hreading, hcase⟩ := BuildScriptInput.deserialize_cases hread
      simp only [reduceCtorEq, and_false, exists_false, or_false, and_true] at hcase
      subst hcase
      apply everywhere_of_reading hreading
      exact fun name hmem => absurd hmem List.not_mem_nil
  | file digest =>
      obtain ⟨kind, slot, hreading, hcase⟩ := BuildScriptInput.deserialize_cases hread
      simp only [reduceCtorEq, and_false, exists_false, or_false, false_or,
        BuildScriptInput.file.injEq] at hcase
      obtain ⟨_, rfl, hdigest, rfl⟩ := hcase
      apply everywhere_of_reading hreading
      intro name hmem
      rw [show name = "digest" from List.mem_singleton.mp hmem]
      exact (inspects_digest hrules).required hdigest (Bool.and_eq_true_iff.mp hvalid).2
  | directory digest =>
      obtain ⟨kind, slot, hreading, hcase⟩ := BuildScriptInput.deserialize_cases hread
      simp only [reduceCtorEq, and_false, exists_false, or_false, false_or,
        BuildScriptInput.directory.injEq] at hcase
      obtain ⟨_, rfl, hdigest, rfl⟩ := hcase
      apply everywhere_of_reading hreading
      intro name hmem
      rw [show name = "digest" from List.mem_singleton.mp hmem]
      exact (inspects_digest hrules).required hdigest (Bool.and_eq_true_iff.mp hvalid).2
  | symlink target referent ih =>
      obtain ⟨kind, slot, hreading, hcase⟩ := BuildScriptInput.deserialize_cases hread
      simp only [reduceCtorEq, and_false, exists_false, false_or,
        BuildScriptInput.symlink.injEq] at hcase
      obtain ⟨_, document, _, rfl, hslot, htarget, hreferent, rfl, rfl⟩ := hcase
      simp only [BuildScriptInput.validate, Bool.and_eq_true] at hvalid
      obtain ⟨_, htargetOk, hreferentOk⟩ := hvalid
      apply everywhere_of_reading hreading
      show ∀ name ∈ ["target", "referent"], (slot name).Everywhere (Vetted rules)
      simp only [List.forall_mem_cons, List.not_mem_nil, false_implies, implies_true, and_true]
      apply And.intro (inspects_string.required htarget htargetOk)
      rw [hslot]
      exact ih hreferent hreferentOk

theorem inspects_buildScriptInput (hrules : rules.Documented) :
    Inspects (BuildScriptInput.deserialize false) (fun input => input.validate rules 0 = true)
      (Vetted rules) :=
  fun _ _ hread hvalid => everywhere_of_buildScriptInput hrules hread hvalid

/-- A number is no input, so a map of inputs is no digest. -/
theorem buildScriptInput_number (n : JsonNumber) :
    BuildScriptInput.deserialize false (.number n) = none := by
  rw [BuildScriptInput.deserialize]
  rfl

theorem inspects_buildScriptAction (hrules : rules.Documented) :
    Inspects BuildScriptAction.deserialize (fun action => action.validate rules = true)
      (Vetted rules) := by
  intro value action hread hvalid
  obtain ⟨slot, hslots, hread⟩ := exists_of_bind_eq_some hread
  obtain ⟨version, hversion, hread⟩ := exists_of_bind_eq_some hread
  obtain ⟨kind, hkind, hread⟩ := exists_of_bind_eq_some hread
  obtain ⟨binaryAction, hbinary, hread⟩ := exists_of_bind_eq_some hread
  obtain ⟨cargoEnvironment, hcargo, hread⟩ := exists_of_bind_eq_some hread
  obtain ⟨environment, henvironment, hread⟩ := exists_of_bind_eq_some hread
  obtain ⟨inputs, hinputs, hread⟩ := exists_of_bind_eq_some hread
  obtain ⟨outDir, hout, hread⟩ := exists_of_bind_eq_some hread
  injection hread with hread
  subst hread
  simp only [BuildScriptAction.validate, Bool.and_eq_true] at hvalid
  obtain ⟨⟨⟨⟨⟨⟨_, hkindOk⟩, hbinaryOk⟩, hcargoOk⟩, henvironmentOk⟩, hinputsOk⟩, houtOk⟩ := hvalid
  have hkindText : validString kind = true := by
    rw [beq_iff_eq.mp hkindOk]
    decide
  have hentries : ∀ entry ∈ inputs,
      validString entry.1 = true ∧ entry.2.validate rules 0 = true := by
    intro entry hmem
    have hentry := List.all_eq_true.mp hinputsOk entry hmem
    simp only [Bool.and_eq_true] at hentry
    exact ⟨hentry.1.1, hentry.2⟩
  apply everywhere_of_record (by decide) (by decide) hslots hkind (by decide)
  simp only [buildScriptActionFields, List.forall_mem_cons, List.not_mem_nil, false_implies,
    implies_true, and_true]
  exact ⟨inspects_u8.required hversion trivial,
    inspects_string.required hkind hkindText,
    (inspects_digest hrules).required hbinary hbinaryOk,
    inspects_optionalStringMap.required hcargo (entries_of_validOptionalStringMap hcargoOk),
    inspects_optionalStringMap.required henvironment
      (entries_of_validOptionalStringMap henvironmentOk),
    (inspects_map (inspects_buildScriptInput hrules) buildScriptInput_number).required hinputs
      hentries,
    inspects_string.optional vetted_null hout (all_eq_true_iff.mp houtOk)⟩

/-- The number of symlinks that are followed to the end of the chain. -/
def referents : BuildScriptInput → ℕ
  | .symlink _ referent => referents referent + 1
  | _ => 0

theorem referents_le {input : BuildScriptInput} {depth : ℕ}
    (h : input.validate rules depth = true) : depth + referents input ≤ 64 := by
  induction input generalizing depth with
  | missing => simpa [BuildScriptInput.validate, referents] using h
  | file digest | directory digest =>
      simp only [BuildScriptInput.validate, Bool.and_eq_true, decide_eq_true_eq] at h
      exact h.1
  | symlink target referent ih =>
      simp only [BuildScriptInput.validate, Bool.and_eq_true] at h
      have hrest := ih h.2.2
      rw [referents]
      omega

end

/-! ## Accepted descriptors -/

section

variable (crates : Crates)

/-- The serializer reads the four schemas as they are declared. -/
structure DerivedDeserializers : Prop where
  task : ∀ value action, crates.taskAction value = .ok action →
    TaskAction.deserialize value = some action
  rustc : ∀ value action, crates.rustcAction value = .ok action →
    RustcAction.deserialize value = some action
  cc : ∀ value action, crates.ccAction value = .ok action →
    CcAction.deserialize value = some action
  buildScript : ∀ value action, crates.buildScriptAction value = .ok action →
    BuildScriptAction.deserialize value = some action

/-- The bounds on the inputs of an action of some kind. -/
def InputsBounded (value : Json) : ActionKind → Prop
  | .task => True
  | .rustc => ∃ action, crates.rustcAction value = .ok action ∧ action.inputs ≠ [] ∧
      (action.inputs.map RustcInput.path).Nodup
  | .cc => ∃ action, crates.ccAction value = .ok action ∧ action.inputs ≠ [] ∧
      (action.inputs.map CcInput.path).Nodup
  | .buildScript => ∃ action, crates.buildScriptAction value = .ok action ∧
      ∀ entry ∈ action.inputs, referents entry.2 ≤ 64

variable {crates}

theorem parseRecord_eq_ok {α : Type} {what : String} {parse : Json → Except String α}
    {validate : α → Bool} {value : Json} {record : α} :
    parseRecord what parse validate value = .ok record ↔
      parse value = .ok record ∧ validate record = true := by
  simp only [parseRecord, bind_eq_ok, mapError_eq_ok, rejectIf_eq_ok, Bool.not_eq_false']
  constructor
  · rintro ⟨found, hparse, _, hvalid, heq⟩
    cases heq
    exact ⟨hparse, hvalid⟩
  · rintro ⟨hparse, hvalid⟩
    exact ⟨record, hparse, (), hvalid, rfl⟩

/-- The end of each validator: its record was read and is valid. -/
theorem exists_of_validator {α : Type} {what : String} {parse : Json → Except String α}
    {validate : α → Bool} {value : Json} {kind kind' : ActionKind}
    (h : (do discard <| parseRecord what parse validate value; return kind') = .ok kind) :
    ∃ record, parse value = .ok record ∧ validate record = true ∧ kind = kind' := by
  obtain ⟨_, hrecord, hkind⟩ := bind_eq_ok.mp h
  cases hkind
  cases hparsed : parseRecord what parse validate value with
  | error e =>
      rw [hparsed] at hrecord
      cases hrecord
  | ok record =>
      obtain ⟨hparse, hvalid⟩ := parseRecord_eq_ok.mp hparsed
      exact ⟨record, hparse, hvalid, rfl⟩

theorem validated_rustc (hrules : crates.digests.Documented)
    (hderived : DerivedDeserializers crates) {value : Json} {action : RustcAction}
    (hparse : crates.rustcAction value = .ok action)
    (hvalid : action.validate crates.digests = true) :
    value.Everywhere (Vetted crates.digests) ∧ InputsBounded crates value .rustc := by
  have heverywhere := inspects_rustcAction hrules value action (hderived.rustc _ _ hparse) hvalid
  simp only [RustcAction.validate, Bool.and_eq_true, Bool.not_eq_true',
    List.isEmpty_eq_false_iff] at hvalid
  obtain ⟨⟨⟨_, hnonempty⟩, hinputs⟩, _⟩ := hvalid
  exact ⟨heverywhere, action, hparse, hnonempty, (all_of_allDistinct hinputs).2.1⟩

theorem validated_cc (hrules : crates.digests.Documented)
    (hderived : DerivedDeserializers crates) {value : Json} {action : CcAction}
    (hparse : crates.ccAction value = .ok action)
    (hvalid : action.validate crates.digests = true) :
    value.Everywhere (Vetted crates.digests) ∧ InputsBounded crates value .cc := by
  have heverywhere := inspects_ccAction hrules value action (hderived.cc _ _ hparse) hvalid
  simp only [CcAction.validate, Bool.and_eq_true, Bool.not_eq_true',
    List.isEmpty_eq_false_iff] at hvalid
  obtain ⟨⟨_, hnonempty⟩, hinputs⟩ := hvalid
  exact ⟨heverywhere, action, hparse, hnonempty, (all_of_allDistinct hinputs).2.1⟩

theorem validated_buildScript (hrules : crates.digests.Documented)
    (hderived : DerivedDeserializers crates) {value : Json} {action : BuildScriptAction}
    (hparse : crates.buildScriptAction value = .ok action)
    (hvalid : action.validate crates.digests = true) :
    value.Everywhere (Vetted crates.digests) ∧ InputsBounded crates value .buildScript := by
  have heverywhere :=
    inspects_buildScriptAction hrules value action (hderived.buildScript _ _ hparse) hvalid
  simp only [BuildScriptAction.validate, Bool.and_eq_true] at hvalid
  obtain ⟨⟨_, hinputs⟩, _⟩ := hvalid
  refine ⟨heverywhere, action, hparse, fun entry hmem => ?_⟩
  have hentry := List.all_eq_true.mp hinputs entry hmem
  simp only [Bool.and_eq_true] at hentry
  have hbound := referents_le hentry.2
  omega

/-- Each kind is accepted by its own validator only. -/
theorem vetted_of_acceptDescriptor (hrules : crates.digests.Documented)
    (hderived : DerivedDeserializers crates) {value : Json} {kind : ActionKind}
    (h : acceptDescriptor crates value = .ok kind) :
    value.Everywhere (Vetted crates.digests) ∧ InputsBounded crates value kind := by
  obtain ⟨⟨name, version⟩, _, h⟩ := bind_eq_ok.mp h
  dsimp only at h
  split at h
  · obtain ⟨_, _, h⟩ := bind_eq_ok.mp h
    obtain ⟨action, hparse, hvalid, rfl⟩ := exists_of_validator h
    exact validated_buildScript hrules hderived hparse hvalid
  · obtain ⟨_, _, h⟩ := bind_eq_ok.mp h
    obtain ⟨action, hparse, hvalid, rfl⟩ := exists_of_validator h
    exact validated_cc hrules hderived hparse hvalid
  · obtain ⟨_, _, h⟩ := bind_eq_ok.mp h
    dsimp only at h
    split at h
    next => cases h
    next =>
      obtain ⟨action, hparse, hvalid, rfl⟩ := exists_of_validator h
      exact ⟨inspects_taskAction value action (hderived.task _ _ hparse) hvalid, trivial⟩
  · obtain ⟨_, _, h⟩ := bind_eq_ok.mp h
    obtain ⟨action, hparse, hvalid, rfl⟩ := exists_of_validator h
    exact validated_rustc hrules hderived hparse hvalid
  · cases h

end

/-- The lawful instance, with the schemas read as they are declared. -/
def declaredCrates : Crates :=
  { Sample.crates with
    taskAction := fun value => Sample.found (TaskAction.deserialize value)
    rustcAction := fun value => Sample.found (RustcAction.deserialize value)
    ccAction := fun value => Sample.found (CcAction.deserialize value)
    buildScriptAction := fun value => Sample.found (BuildScriptAction.deserialize value) }

theorem found_eq_ok {α : Type} {read : Option α} {a : α} (h : Sample.found read = .ok a) :
    read = some a := by
  cases read with
  | some b =>
      cases h
      rfl
  | none => cases h

theorem derivedDeserializers_declared : DerivedDeserializers declaredCrates where
  task _ _ := found_eq_ok
  rustc _ _ := found_eq_ok
  cc _ _ := found_eq_ok
  buildScript _ _ := found_eq_ok

end MbxCache.Server
