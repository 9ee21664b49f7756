/-
# Relative paths

A task names its roots, and a compiler action its inputs, by relative paths. Two
checks keep them relative: one for the bare path, one for a path behind a
placeholder in braces. Which strings they accept is stated by components, and what
an accepted path means by following its components from a directory.
-/

import MbxCache.Server.Layout
import MbxCache.Server.Namespaces

namespace MbxCache.Server

open Foundation

/-! ## Following a path -/

/-- A directory is the list of names that lead to it from the root of all; going up
from there stays there. -/
def resolveComponent (location : List String) (component : String) : List String :=
  if component = "" ∨ component = "." then location
  else if component = ".." then location.dropLast
  else location ++ [component]

def resolve (base : List String) (parts : List String) : List String :=
  parts.foldl resolveComponent base

/-- On the way to the end of the path the base is never left, and every component
leads one level down. -/
structure Contained (base parts : List String) : Prop where
  inside : ∀ visited, visited <+: parts → base <+: resolve base visited
  depth : (resolve base parts).length = base.length + parts.length

theorem resolveComponent_safe {component : String} (h : SafeComponent component)
    (location : List String) : resolveComponent location component = location ++ [component] := by
  rw [resolveComponent, if_neg, if_neg h.notAbove]
  rintro (hempty | hhere)
  · exact h.nonempty hempty
  · exact h.notHere hhere

/-- Safe components are appended one by one. -/
theorem resolve_safe {parts : List String} (h : ∀ part ∈ parts, SafeComponent part)
    (base : List String) : resolve base parts = base ++ parts := by
  induction parts generalizing base with
  | nil => exact (List.append_nil base).symm
  | cons part parts ih =>
      have hpart := h part List.mem_cons_self
      have hparts := fun other hmem => h other (List.mem_cons_of_mem part hmem)
      show resolve (resolveComponent base part) parts = base ++ part :: parts
      rw [ih hparts, resolveComponent_safe hpart, List.append_assoc]
      rfl

theorem contained_safe {parts : List String} (h : ∀ part ∈ parts, SafeComponent part)
    (base : List String) : Contained base parts where
  inside visited hvisited := by
    rw [resolve_safe fun part hmem => h part (hvisited.subset hmem)]
    exact List.prefix_append base visited
  depth := by
    rw [resolve_safe h, List.length_append]

/-- The base and the place a safe path leads to determine its components. -/
theorem parts_eq_of_resolve {parts parts' base : List String}
    (h : ∀ part ∈ parts, SafeComponent part) (h' : ∀ part ∈ parts', SafeComponent part)
    (heq : resolve base parts = resolve base parts') : parts = parts' := by
  rw [resolve_safe h, resolve_safe h'] at heq
  exact List.append_cancel_left heq

/-! ## Joined components -/

theorem safeComponent_iff {component : String} :
    SafeComponent component ↔ Model.plainComponent component.toList = true ∧
      '/' ∉ component.toList ∧ '\\' ∉ component.toList ∧ '\x00' ∉ component.toList := by
  rw [plainComponent_iff]
  constructor
  · intro h
    exact ⟨⟨h.nonempty, h.notHere, h.notAbove⟩, h.noSlash, h.noBackslash, h.noNul⟩
  · rintro ⟨⟨hempty, hhere, habove⟩, hslash, hbackslash, hnul⟩
    exact ⟨hempty, hhere, habove, hslash, hbackslash, hnul⟩

/-- The common part of both checks. -/
def plainPath (path : String) : Bool :=
  !path.toList.contains '\\' && !path.toList.contains '\x00' &&
    (path.toList.splitOn '/').all Model.plainComponent

/-- Such a path is joined from safe components, and they are the ones it is cut into. -/
theorem plainPath_iff {path : String} :
    plainPath path = true ↔ ∀ part ∈ components path, SafeComponent part := by
  have hplain : (path.toList.splitOn '/').all Model.plainComponent = true ↔
      ∀ part ∈ components path, Model.plainComponent part.toList = true := by
    rw [← map_toList_components, List.all_map, List.all_eq_true]
    rfl
  have hother : ∀ c, c ≠ '/' → (c ∉ path.toList ↔ ∀ part ∈ components path, c ∉ part.toList) := by
    intro c hc
    have hmem := @mem_toList_iff path c
    constructor
    · intro hnot part hpart hin
      exact hnot (hmem.mp ⟨part, hpart, hin⟩).1
    · intro hparts hin
      obtain ⟨part, hpart, hin⟩ := hmem.mpr ⟨hin, hc⟩
      exact hparts part hpart hin
  rw [plainPath, Bool.and_eq_true, Bool.and_eq_true, hplain]
  simp only [Bool.not_eq_true', List.contains_eq_mem, decide_eq_false_iff_not]
  rw [hother '\\' (by decide), hother '\x00' (by decide)]
  constructor
  · rintro ⟨⟨hbackslash, hnul⟩, hparts⟩ part hpart
    exact safeComponent_iff.mpr ⟨hparts part hpart, slash_notMem_component hpart,
      hbackslash part hpart, hnul part hpart⟩
  · intro h
    refine ⟨⟨fun part hpart => (h part hpart).noBackslash, fun part hpart => (h part hpart).noNul⟩,
      fun part hpart => ?_⟩
    exact (safeComponent_iff.mp (h part hpart)).1

theorem plainPath_iff_joined {path : String} :
    plainPath path = true ↔ ∃ parts, parts ≠ [] ∧ (∀ part ∈ parts, SafeComponent part) ∧
      path = "/".intercalate parts := by
  rw [plainPath_iff]
  constructor
  · intro h
    refine ⟨components path, components_ne_nil path, h, ?_⟩
    exact (components_eq_iff (components_ne_nil path) fun part hpart => (h part hpart).noSlash).mp rfl
  · rintro ⟨parts, hne, hsafe, hpath⟩
    rw [(components_eq_iff hne fun part hpart => (hsafe part hpart).noSlash).mpr hpath]
    exact hsafe

/-! ## Task roots -/

/-- The checks for an empty path and a leading slash are implied by the one on the
components. -/
theorem validateTaskRoot_iff {root : String} :
    validateTaskRoot root = .ok () ↔ plainPath root = true := by
  have hnonempty : plainPath root = true → root.isEmpty = false := by
    intro h
    cases hroot : root.isEmpty with
    | false => rfl
    | true =>
        obtain rfl := String.isEmpty_iff.mp hroot
        exact absurd h (by decide)
  have hrelative : plainPath root = true → (root.toList.head? == some '/') = false := by
    intro h
    rw [beq_eq_false_iff_ne]
    intro hhead
    obtain ⟨rest, hrest⟩ := List.head?_eq_some_iff.mp hhead
    have hempty : "" ∈ components root := by
      rw [components, hrest, List.splitOn_cons_eq_if_modifyHead, if_pos (by rfl)]
      exact List.mem_cons_self
    exact (plainPath_iff.mp h "" hempty).nonempty rfl
  rw [validateTaskRoot, rejectIf_eq_ok]
  constructor
  · intro h
    simp only [Bool.or_eq_false_iff, Bool.not_eq_false'] at h
    obtain ⟨⟨⟨_, hbackslash⟩, hnul⟩, hparts⟩ := h
    rw [plainPath, hbackslash, hnul, hparts]
    rfl
  · intro h
    have hchecks := h
    simp only [plainPath, Bool.and_eq_true, Bool.not_eq_true'] at hchecks
    rw [hnonempty h, hrelative h, hchecks.1.1, hchecks.1.2, hchecks.2]
    rfl

/-! ## Paths behind a placeholder -/

/-- A word over letters, digits and underscores. -/
structure PlaceholderName (name : String) : Prop where
  nonempty : name ≠ ""
  alphabet : ∀ c ∈ name.toList, c.isAlphanum = true ∨ c = '_'

/-- The placeholder, alone or with components behind it. -/
def normalizedPath (name : String) (parts : List String) : String :=
  "$\x7b" ++ name ++ "\x7d" ++ if parts = [] then "" else "/" ++ "/".intercalate parts

/-- The name in braces and the components behind it, as the check cuts a path. -/
def cutPlaceholder (path : String) : Option (String × List String) :=
  match path.toList with
  | '$' :: '{' :: rest =>
      (Model.splitOnce '\x7d' rest).map fun (name, suffix) =>
        (String.ofList name,
          match suffix with
          | [] => []
          | _ :: suffix => components (String.ofList suffix))
  | _ => none

theorem splitOnce_eq_some {separator : Char} {items before after : List Char} :
    Model.splitOnce separator items = some (before, after) ↔
      items = before ++ separator :: after ∧ separator ∉ before := by
  induction items generalizing before with
  | nil => simp [Model.splitOnce]
  | cons c items ih =>
      rw [Model.splitOnce]
      by_cases hc : c = separator
      · subst hc
        rw [if_pos rfl]
        constructor
        · intro h
          obtain ⟨rfl, rfl⟩ := Prod.mk.inj (Option.some.inj h)
          exact ⟨rfl, List.not_mem_nil⟩
        · rintro ⟨heq, hnot⟩
          cases before with
          | nil => rw [(List.cons.inj heq).2]
          | cons first before =>
              obtain ⟨rfl, _⟩ := List.cons.inj heq
              exact absurd List.mem_cons_self hnot
      · rw [if_neg hc, Option.map_eq_some_iff]
        constructor
        · rintro ⟨⟨before', after'⟩, hsplit, heq⟩
          obtain ⟨rfl, rfl⟩ := Prod.mk.inj heq
          obtain ⟨rfl, hnot⟩ := ih.mp hsplit
          refine ⟨rfl, ?_⟩
          rw [List.mem_cons, not_or]
          exact ⟨Ne.symm hc, hnot⟩
        · rintro ⟨heq, hnot⟩
          cases before with
          | nil => exact absurd (List.cons.inj heq).1 hc
          | cons first before =>
              obtain ⟨rfl, rfl⟩ := List.cons.inj heq
              rw [List.mem_cons, not_or] at hnot
              exact ⟨(before, after), ih.mpr ⟨rfl, hnot.2⟩, rfl⟩

/-- What stands behind the closing brace. -/
def suffixOf (parts : List String) : List Char :=
  if parts = [] then [] else '/' :: ("/".intercalate parts).toList

theorem toList_normalizedPath (name : String) (parts : List String) :
    (normalizedPath name parts).toList = '$' :: '{' :: (name.toList ++ '\x7d' :: suffixOf parts) := by
  rw [normalizedPath, suffixOf]
  by_cases hparts : parts = []
  · rw [if_pos hparts, if_pos hparts]
    simp
  · rw [if_neg hparts, if_neg hparts]
    simp

theorem PlaceholderName.noBrace {name : String} (h : PlaceholderName name) :
    '\x7d' ∉ name.toList := by
  intro hmem
  rcases h.alphabet _ hmem with hbrace | hbrace
  · exact absurd hbrace (by decide)
  · exact absurd hbrace (by decide)

theorem components_joined {parts : List String} (hne : parts ≠ [])
    (h : ∀ part ∈ parts, SafeComponent part) : components ("/".intercalate parts) = parts :=
  (components_eq_iff hne fun part hpart => (h part hpart).noSlash).mpr rfl

/-- Cutting undoes the joining. -/
theorem cutPlaceholder_normalizedPath {name : String} {parts : List String}
    (hname : PlaceholderName name) (hparts : ∀ part ∈ parts, SafeComponent part) :
    cutPlaceholder (normalizedPath name parts) = some (name, parts) := by
  have hsplit : Model.splitOnce '\x7d' (name.toList ++ '\x7d' :: suffixOf parts) =
      some (name.toList, suffixOf parts) :=
    splitOnce_eq_some.mpr ⟨rfl, hname.noBrace⟩
  rw [cutPlaceholder, toList_normalizedPath]
  show (Model.splitOnce '\x7d' (name.toList ++ '\x7d' :: suffixOf parts)).map _ = _
  rw [hsplit, Option.map_some]
  dsimp only
  rw [String.ofList_toList]
  by_cases hnone : parts = []
  · rw [suffixOf, if_pos hnone, hnone]
  · rw [suffixOf, if_neg hnone]
    dsimp only
    rw [String.ofList_toList, components_joined hnone hparts]

/-- The check for an empty suffix is implied by the one on the components. -/
theorem validSuffix_iff (suffix : List Char) :
    (!suffix.isEmpty && !suffix.contains '\\' && !suffix.contains '\x00' &&
      (suffix.splitOn '/').all Model.plainComponent) = true ↔
        plainPath (String.ofList suffix) = true := by
  rw [plainPath, String.toList_ofList]
  cases suffix with
  | nil => decide
  | cons first rest => rw [List.isEmpty_cons, Bool.not_false, Bool.true_and]

/-- The check cuts the path, looks at the name, and at the rest as at a bare path. -/
theorem validNormalizedPath_of_cut {name suffix : List Char} {path : String}
    (hpath : path.toList = '$' :: '{' :: (name ++ '\x7d' :: suffix)) (hname : '\x7d' ∉ name) :
    Model.validNormalizedPath path = true ↔ PlaceholderName (String.ofList name) ∧
      (suffix = [] ∨ ∃ rest, suffix = '/' :: rest ∧ plainPath (String.ofList rest) = true) := by
  have hsplit : Model.splitOnce '\x7d' (name ++ '\x7d' :: suffix) = some (name, suffix) :=
    splitOnce_eq_some.mpr ⟨rfl, hname⟩
  have hword : (name.isEmpty || !name.all fun c => c.isAlphanum || c == '_') = false ↔
      PlaceholderName (String.ofList name) := by
    rw [Bool.or_eq_false_iff, Bool.not_eq_false', List.all_eq_true, List.isEmpty_eq_false_iff]
    constructor
    · rintro ⟨hempty, hall⟩
      refine ⟨?_, fun c hc => ?_⟩
      · rw [ne_eq, ← String.toList_inj, String.toList_ofList]
        exact hempty
      · rw [String.toList_ofList] at hc
        simpa using hall c hc
    · intro h
      constructor
      · rintro rfl
        exact h.nonempty rfl
      · intro c hc
        have halphabet := h.alphabet c (by rwa [String.toList_ofList])
        simpa using halphabet
  rw [Model.validNormalizedPath, hpath]
  have hcut : ∀ rest, '$' :: '{' :: (name ++ '\x7d' :: suffix) = '$' :: '{' :: rest →
      Model.splitOnce '\x7d' rest = some (name, suffix) := by
    intro rest hrest
    rw [← (List.cons.inj (List.cons.inj hrest).2).2, hsplit]
  split
  case h_2 hother => exact absurd rfl (hother _)
  rw [hcut _ ‹_›]
  dsimp only
  cases hchecked : (name.isEmpty || !name.all fun c => c.isAlphanum || c == '_') with
  | true =>
      rw [if_pos rfl, ← hword, hchecked]
      simp
  | false =>
      rw [if_neg Bool.false_ne_true, ← hword, hchecked]
      simp only [true_and]
      cases suffix with
      | nil => simp
      | cons first rest =>
          by_cases hfirst : first = '/'
          · subst hfirst
            have hfollowing := validSuffix_iff rest
            simpa using hfollowing
          · have hnone : ¬ ∃ other, first :: rest = '/' :: other ∧
                plainPath (String.ofList other) = true := by
              rintro ⟨other, heq, _⟩
              exact hfirst (List.cons.inj heq).1
            split
            · contradiction
            · rename_i heq
              exact absurd (List.cons.inj heq).1 hfirst
            · simpa using hnone

theorem exists_cut_of_validNormalizedPath {path : String}
    (h : Model.validNormalizedPath path = true) :
    ∃ name suffix, path.toList = '$' :: '{' :: (name ++ '\x7d' :: suffix) ∧ '\x7d' ∉ name := by
  rw [Model.validNormalizedPath] at h
  split at h
  · rename_i rest hpath
    cases hsplit : Model.splitOnce '\x7d' rest with
    | none =>
        rw [hsplit] at h
        contradiction
    | some cut =>
        obtain ⟨name, suffix⟩ := cut
        obtain ⟨rfl, hbrace⟩ := splitOnce_eq_some.mp hsplit
        exact ⟨name, suffix, hpath, hbrace⟩
  · contradiction

theorem eq_normalizedPath {name suffix : List Char} {path : String} {parts : List String}
    (hpath : path.toList = '$' :: '{' :: (name ++ '\x7d' :: suffix))
    (hsuffix : suffix = suffixOf parts) : path = normalizedPath (String.ofList name) parts := by
  apply String.toList_inj.mp
  rw [hpath, toList_normalizedPath, String.toList_ofList, hsuffix]

/-- Accepted are the placeholders with safe components joined behind them, or none. -/
theorem validNormalizedPath_iff {path : String} :
    Model.validNormalizedPath path = true ↔ ∃ name parts, PlaceholderName name ∧
      (∀ part ∈ parts, SafeComponent part) ∧ path = normalizedPath name parts := by
  constructor
  · intro h
    obtain ⟨name, suffix, hpath, hbrace⟩ := exists_cut_of_validNormalizedPath h
    obtain ⟨hname, hnone | ⟨rest, hrest, hplain⟩⟩ :=
      (validNormalizedPath_of_cut hpath hbrace).mp h
    · have hparts : suffix = suffixOf [] := hnone
      exact ⟨String.ofList name, [], hname, fun _ hpart => absurd hpart List.not_mem_nil,
        eq_normalizedPath hpath hparts⟩
    · obtain ⟨parts, hne, hsafe, hjoined⟩ := plainPath_iff_joined.mp hplain
      have hparts : suffix = suffixOf parts := by
        rw [suffixOf, if_neg hne, hrest, ← hjoined, String.toList_ofList]
      exact ⟨String.ofList name, parts, hname, hsafe, eq_normalizedPath hpath hparts⟩
  · rintro ⟨name, parts, hname, hsafe, rfl⟩
    have hcut := validNormalizedPath_of_cut (toList_normalizedPath name parts) hname.noBrace
    rw [hcut, String.ofList_toList]
    apply And.intro hname
    by_cases hnone : parts = []
    · left
      rw [suffixOf, if_pos hnone]
    · right
      apply Exists.intro ("/".intercalate parts).toList
      rw [suffixOf, if_neg hnone, String.ofList_toList]
      exact ⟨rfl, plainPath_iff_joined.mpr ⟨parts, hnone, hsafe, rfl⟩⟩

/-- An accepted path is what its placeholder and its components are joined to. -/
theorem cutPlaceholder_of_validNormalizedPath {path : String}
    (h : Model.validNormalizedPath path = true) :
    ∃ name parts, cutPlaceholder path = some (name, parts) ∧
      (∀ part ∈ parts, SafeComponent part) ∧ path = normalizedPath name parts := by
  obtain ⟨name, parts, hname, hsafe, rfl⟩ := validNormalizedPath_iff.mp h
  exact ⟨name, parts, cutPlaceholder_normalizedPath hname hsafe, hsafe, rfl⟩

/-- What the two checks let through. The accepted strings are the joined safe
components, and the same behind a placeholder; followed from any directory they stay
below it and end one level down for each component; and two of them that lead to the
same place are the same string. -/
theorem relative_paths_contained :
    (∀ root, validateTaskRoot root = .ok () ↔
      ∃ parts, parts ≠ [] ∧ (∀ part ∈ parts, SafeComponent part) ∧
        root = "/".intercalate parts) ∧
    (∀ path, Model.validNormalizedPath path = true ↔
      ∃ name parts, PlaceholderName name ∧ (∀ part ∈ parts, SafeComponent part) ∧
        path = normalizedPath name parts) ∧
    (∀ root, validateTaskRoot root = .ok () → ∀ base, Contained base (components root)) ∧
    (∀ path, Model.validNormalizedPath path = true →
      ∃ name parts, cutPlaceholder path = some (name, parts) ∧ ∀ base, Contained base parts) ∧
    (∀ root root' base, validateTaskRoot root = .ok () → validateTaskRoot root' = .ok () →
      root ≠ root' → resolve base (components root) ≠ resolve base (components root')) ∧
    ∀ path path' name parts parts' base, Model.validNormalizedPath path = true →
      Model.validNormalizedPath path' = true → cutPlaceholder path = some (name, parts) →
      cutPlaceholder path' = some (name, parts') → path ≠ path' →
      resolve base parts ≠ resolve base parts' := by
  have hroots : ∀ root, validateTaskRoot root = .ok () →
      ∀ part ∈ components root, SafeComponent part := fun root h =>
    plainPath_iff.mp (validateTaskRoot_iff.mp h)
  refine ⟨fun root => validateTaskRoot_iff.trans plainPath_iff_joined,
    fun path => validNormalizedPath_iff, fun root h => contained_safe (hroots root h),
    fun path h => ?_, fun root root' base h h' hne heq => ?_,
    fun path path' name parts parts' base h h' hcut hcut' hne heq => ?_⟩
  · obtain ⟨name, parts, hcut, hsafe, _⟩ := cutPlaceholder_of_validNormalizedPath h
    exact ⟨name, parts, hcut, contained_safe hsafe⟩
  · apply hne
    have hparts := parts_eq_of_resolve (hroots root h) (hroots root' h') heq
    exact components_injective hparts
  · apply hne
    obtain ⟨_, _, hcutPath, hsafe, hpath⟩ := cutPlaceholder_of_validNormalizedPath h
    obtain ⟨_, _, hcutPath', hsafe', hpath'⟩ := cutPlaceholder_of_validNormalizedPath h'
    obtain ⟨rfl, rfl⟩ := Prod.mk.inj (Option.some.inj (hcut.symm.trans hcutPath))
    obtain ⟨rfl, rfl⟩ := Prod.mk.inj (Option.some.inj (hcut'.symm.trans hcutPath'))
    rw [hpath, hpath', parts_eq_of_resolve hsafe hsafe' heq]

end MbxCache.Server
