/-
# Namespaces and their patterns

A namespace is a path of plain components. The authorization code looks at it
character by character; here its checks are related to the components: which
strings are namespaces, and which of them a pattern reaches.
-/

import MbxCache.Foundation.Components
import MbxCache.Server.Auth

namespace MbxCache.Server

open Foundation

/-- The components between the slashes. -/
def components (path : String) : List String :=
  (path.toList.splitOn '/').map String.ofList

/-- One component of a namespace: a name over a small alphabet that stays in its
directory. -/
structure NamespaceComponent (component : String) : Prop where
  nonempty : component ≠ ""
  not_dot : component ≠ "."
  not_dot_dot : component ≠ ".."
  alphabet : ∀ c ∈ component.toList, c.isAlphanum = true ∨ c = '-' ∨ c = '_' ∨ c = '.'

/-! ## Components -/

theorem map_toList_components (path : String) :
    (components path).map String.toList = path.toList.splitOn '/' := by
  rw [components, List.map_map]
  simp [Function.comp_def]

theorem components_ne_nil (path : String) : components path ≠ [] := by
  simp [components]

theorem components_injective : Function.Injective components := by
  intro first second h
  have hsplit := congrArg (List.map String.toList) h
  rw [map_toList_components, map_toList_components] at hsplit
  exact String.toList_injective (splitOn_injective hsplit)

/-- A path is its components joined, as long as none of them holds a slash. -/
theorem components_eq_iff {path : String} {parts : List String} (hne : parts ≠ [])
    (hmem : ∀ part ∈ parts, '/' ∉ part.toList) :
    components path = parts ↔ path = "/".intercalate parts := by
  have hlists : path.toList.splitOn '/' = parts.map String.toList ↔
      path.toList = ['/'].intercalate (parts.map String.toList) :=
    splitOn_eq_iff (by simpa using hne) (by simpa using hmem)
  have hmap : components path = parts ↔ path.toList.splitOn '/' = parts.map String.toList := by
    rw [← map_toList_components]
    exact (List.map_injective_iff.mpr fun _ _ => String.toList_injective).eq_iff.symm
  rw [hmap, hlists, ← String.toList_inj, String.toList_intercalate]
  rfl

theorem slash_notMem_component {path part : String} (h : part ∈ components path) :
    '/' ∉ part.toList := by
  have hpart : part.toList ∈ path.toList.splitOn '/' := by
    rw [← map_toList_components]
    exact List.mem_map_of_mem h
  exact separator_notMem_of_mem_splitOn hpart

/-- A path reaches into another behind a slash where the other has more components. -/
theorem extends_components {pre path : String} :
    Extends (components pre) (components path) ↔ ∃ rest, path.toList = pre.toList ++ '/' :: rest := by
  rw [← extends_splitOn, ← map_toList_components, ← map_toList_components]
  constructor
  · rintro ⟨more, hmore, heq⟩
    exact ⟨more.map String.toList, by simpa using hmore, by rw [heq, List.map_append]⟩
  · rintro ⟨more, hmore, heq⟩
    refine ⟨more.map String.ofList, by simpa using hmore, ?_⟩
    apply List.map_injective_iff.mpr fun _ _ => String.toList_injective
    rw [heq, List.map_append, List.map_map]
    simp [Function.comp_def]

/-! ## Valid namespaces -/

theorem plainComponent_iff {component : String} :
    Model.plainComponent component.toList = true ↔
      component ≠ "" ∧ component ≠ "." ∧ component ≠ ".." := by
  simp only [Model.plainComponent, Bool.and_eq_true, bne_iff_ne, ne_eq, Bool.not_eq_eq_eq_not,
    Bool.not_true, List.isEmpty_eq_false_iff, and_assoc, ← String.toList_inj]
  rfl

/-- A character of a namespace is a slash or belongs to a component. -/
theorem mem_toList_iff {path : String} {c : Char} :
    (∃ part ∈ components path, c ∈ part.toList) ↔ c ∈ path.toList ∧ c ≠ '/' := by
  rw [← mem_component_iff, ← map_toList_components]
  simp

theorem validNamespace_iff {value : String} :
    validNamespace value = true ↔
      (∀ part ∈ components value, NamespaceComponent part) ∧ value.utf8ByteSize ≤ 255 := by
  have hplain : (value.toList.splitOn '/').all Model.plainComponent = true ↔
      ∀ part ∈ components value, part ≠ "" ∧ part ≠ "." ∧ part ≠ ".." := by
    rw [← map_toList_components, List.all_map, List.all_eq_true]
    simp only [Function.comp_apply, plainComponent_iff]
  rw [validNamespace, Bool.and_eq_true, Bool.and_eq_true, Bool.and_eq_true, hplain]
  constructor
  · rintro ⟨⟨⟨_, hsize⟩, halphabet⟩, hparts⟩
    refine ⟨fun part hmem => ?_, of_decide_eq_true hsize⟩
    obtain ⟨hempty, hdot, hdotdot⟩ := hparts part hmem
    refine ⟨hempty, hdot, hdotdot, fun c hc => ?_⟩
    obtain ⟨hvalue, hslash⟩ := mem_toList_iff.mp ⟨part, hmem, hc⟩
    have hallowed := List.all_eq_true.mp halphabet c hvalue
    simpa [hslash, or_assoc] using hallowed
  · rintro ⟨hparts, hsize⟩
    refine ⟨⟨⟨?_, decide_eq_true hsize⟩, ?_⟩, fun part hmem => ?_⟩
    · have hne : value ≠ "" := by
        rintro rfl
        exact (hparts "" (by decide)).nonempty rfl
      simpa using hne
    · rw [List.all_eq_true]
      intro c hc
      by_cases hslash : c = '/'
      · simp [hslash]
      · obtain ⟨part, hmem, hpart⟩ := mem_toList_iff.mpr ⟨hc, hslash⟩
        have hallowed := (hparts part hmem).alphabet c hpart
        simpa [hslash, or_assoc] using hallowed
    · exact ⟨(hparts part hmem).nonempty, (hparts part hmem).not_dot, (hparts part hmem).not_dot_dot⟩

/-! ## Patterns -/

theorem stripSuffix_eq_some {suffix value pre : List Char} :
    stripSuffix suffix value = some pre ↔ value = pre ++ suffix := by
  unfold stripSuffix
  constructor
  · intro h
    split at h
    · rename_i hsuffix
      obtain ⟨front, rfl⟩ := List.isSuffixOf_iff_suffix.mp hsuffix
      rw [← Option.some.inj h]
      simp
    · cases h
  · rintro rfl
    have hsuffix : suffix.isSuffixOf (pre ++ suffix) = true :=
      List.isSuffixOf_iff_suffix.mpr (List.suffix_append pre suffix)
    rw [if_pos hsuffix]
    simp

/-- A prefix with a character right behind it. -/
theorem prefix_and_next_iff {pre text : List Char} {c : Char} :
    (pre.isPrefixOf text && text[pre.length]? == some c) = true ↔
      ∃ rest, text = pre ++ c :: rest := by
  rw [Bool.and_eq_true, List.isPrefixOf_iff_prefix, beq_iff_eq]
  constructor
  · rintro ⟨⟨rest, rfl⟩, hnext⟩
    rw [List.getElem?_append_right le_rfl, Nat.sub_self] at hnext
    obtain ⟨later, rfl⟩ := List.head?_eq_some_iff.mp (List.head?_eq_getElem?.trans hnext)
    exact ⟨later, rfl⟩
  · rintro ⟨rest, rfl⟩
    simp

/-- A pattern is everything, one name, or what lies below a path. -/
theorem matchesNamespace_iff {pattern ns : String} :
    matchesNamespace pattern ns = true ↔ pattern = "*" ∨ pattern = ns ∨
      ∃ pre, pattern = pre ++ "/*" ∧ Extends (components pre) (components ns) := by
  rw [matchesNamespace, Bool.or_eq_true, Bool.or_eq_true, beq_iff_eq, beq_iff_eq, or_assoc]
  cases hstrip : stripSuffix ['/', '*'] pattern.toList with
  | none =>
      have hnot : ∀ pre, pattern ≠ pre ++ "/*" := by
        rintro pre rfl
        have hstrip' := stripSuffix_eq_some.mpr (String.toList_append (s := pre) (t := "/*"))
        exact absurd (hstrip.symm.trans hstrip') (by simp)
      simp [hnot]
  | some front =>
      have hpattern : ∀ pre, pattern = pre ++ "/*" ↔ front = pre.toList := by
        intro pre
        rw [← String.toList_inj, stripSuffix_eq_some.mp hstrip, String.toList_append]
        exact List.append_left_inj _
      simp only [prefix_and_next_iff, hpattern, extends_components]
      have hbelow : (∃ rest, ns.toList = front ++ '/' :: rest) ↔
          ∃ pre : String, front = pre.toList ∧ ∃ rest, ns.toList = pre.toList ++ '/' :: rest := by
        constructor
        · rintro ⟨rest, hrest⟩
          exact ⟨String.ofList front, by simp, rest, by simpa using hrest⟩
        · rintro ⟨pre, rfl, rest, hrest⟩
          exact ⟨rest, hrest⟩
      rw [hbelow]

/-- No namespace has the form of a prefix pattern. -/
theorem ne_of_validNamespace {ns pre : String} (h : validNamespace ns = true) :
    pre ++ "/*" ≠ ns := by
  rintro rfl
  have hstar : '*' ∈ (pre ++ "/*").toList ∧ '*' ≠ '/' := by
    rw [String.toList_append]
    exact ⟨List.mem_append_right _ (by decide), by decide⟩
  obtain ⟨part, hmem, hpart⟩ := mem_toList_iff.mpr hstar
  have hallowed := ((validNamespace_iff.mp h).1 part hmem).alphabet '*' hpart
  revert hallowed
  decide

/-- A prefix pattern reaches what has more components, and nothing else. -/
theorem matchesNamespace_prefix {ns pre : String} (h : validNamespace ns = true) :
    matchesNamespace (pre ++ "/*") ns = true ↔ Extends (components pre) (components ns) := by
  rw [matchesNamespace_iff]
  have hstar : pre ++ "/*" ≠ "*" := by
    intro heq
    have hlength := congrArg (fun text : String => text.toList.length) heq
    simp at hlength
  constructor
  · rintro (heq | heq | ⟨other, heq, hextends⟩)
    · exact absurd heq hstar
    · exact absurd heq (ne_of_validNamespace h)
    · have hsame : pre = other := by
        rw [← String.toList_inj, String.toList_append, String.toList_append] at heq
        exact String.toList_injective (List.append_cancel_right heq)
      exact hsame ▸ hextends
  · exact fun hextends => .inr (.inr ⟨pre, rfl, hextends⟩)

/-- Namespaces are the joins of their components, and patterns follow the
components: a prefix reaches neither itself nor a sibling spelled like it. -/
theorem patterns_follow_components :
    (∀ ns pattern, validNamespace ns = true →
      (matchesNamespace pattern ns = true ↔ pattern = "*" ∨ pattern = ns ∨
        ∃ pre, pattern = pre ++ "/*" ∧ Extends (components pre) (components ns))) ∧
    (∀ value, validNamespace value = true ↔ ∃ parts : List String, parts ≠ [] ∧
      (∀ part ∈ parts, NamespaceComponent part) ∧ value = "/".intercalate parts ∧
        value.utf8ByteSize ≤ 255) ∧
    (∀ first second, validNamespace first = true → validNamespace second = true →
      components first = components second → first = second) ∧
    ∀ ns pre, validNamespace ns = true →
      (matchesNamespace (pre ++ "/*") ns = true ↔ Extends (components pre) (components ns)) ∧
        matchesNamespace (ns ++ "/*") ns = false := by
  refine ⟨fun ns pattern _ => matchesNamespace_iff, fun value => ?_,
    fun first second _ _ h => components_injective h, fun ns pre hns => ⟨?_, ?_⟩⟩
  · have hslash : ∀ part, NamespaceComponent part → '/' ∉ part.toList := by
      intro part hpart hmem
      have hallowed := hpart.alphabet '/' hmem
      revert hallowed
      decide
    rw [validNamespace_iff]
    constructor
    · rintro ⟨hparts, hsize⟩
      have hne := components_ne_nil value
      exact ⟨components value, hne, hparts,
        (components_eq_iff hne fun part hmem => hslash part (hparts part hmem)).mp rfl, hsize⟩
    · rintro ⟨parts, hne, hparts, hvalue, hsize⟩
      have hcomponents := (components_eq_iff hne fun part hmem =>
        hslash part (hparts part hmem)).mpr hvalue
      rw [hcomponents]
      exact ⟨hparts, hsize⟩
  · exact matchesNamespace_prefix hns
  · rw [Bool.eq_false_iff, ne_eq, matchesNamespace_prefix hns]
    exact not_extends_self

end MbxCache.Server
