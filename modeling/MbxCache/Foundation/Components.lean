/-
# Separated lists

A list cut at a separator into its components. Cutting and joining are inverse to
each other, and cutting turns the extension of a list by a separator and more
into the extension of its components by at least one more.
-/

import Mathlib.Data.List.Basic

namespace MbxCache.Foundation

variable {α : Type} [DecidableEq α] {separator : α}

/-- The components hold everything but the separators. -/
theorem flatten_splitOn (items : List α) :
    (items.splitOn separator).flatten = items.filter fun item => item ≠ separator := by
  induction items with
  | nil => rfl
  | cons item items ih =>
      rw [List.splitOn_cons_eq_if_modifyHead]
      by_cases hitem : item = separator
      · rw [if_pos (by simpa using hitem), List.filter_cons_of_neg (by simpa using hitem)]
        exact ih
      · obtain ⟨first, rest, hsplit⟩ :=
          List.exists_cons_of_ne_nil (List.splitOn_ne_nil separator items)
        rw [if_neg (by simpa using hitem), List.filter_cons_of_pos (by simpa using hitem), ← ih,
          hsplit]
        rfl

theorem mem_component_iff {items : List α} {item : α} :
    (∃ component ∈ items.splitOn separator, item ∈ component) ↔
      item ∈ items ∧ item ≠ separator := by
  rw [← List.mem_flatten, flatten_splitOn, List.mem_filter, decide_eq_true_eq]

/-- No component holds the separator. -/
theorem separator_notMem_of_mem_splitOn {items component : List α}
    (h : component ∈ items.splitOn separator) : separator ∉ component := by
  intro hsep
  exact (mem_component_iff.mp ⟨component, h, hsep⟩).2 rfl

theorem splitOn_injective : Function.Injective (List.splitOn separator) := by
  intro first second h
  have hfirst : [separator].intercalate (first.splitOn separator) = first :=
    List.intercalate_splitOn separator
  rw [← hfirst, h, List.intercalate_splitOn]

/-- What is joined from proper components is cut into them again, and only that is. -/
theorem splitOn_eq_iff {items : List α} {components : List (List α)} (hne : components ≠ [])
    (hmem : ∀ component ∈ components, separator ∉ component) :
    items.splitOn separator = components ↔ items = [separator].intercalate components := by
  constructor
  · rintro rfl
    rw [List.intercalate_splitOn]
  · rintro rfl
    exact List.splitOn_intercalate separator hmem hne

/-- One list of components extends another by at least one. -/
def Extends {β : Type} (components extended : List β) : Prop :=
  ∃ more, more ≠ [] ∧ extended = components ++ more

theorem intercalate_append {β : Type} {separator : β} {first second : List (List β)}
    (hfirst : first ≠ []) (hsecond : second ≠ []) : [separator].intercalate (first ++ second) =
      [separator].intercalate first ++ separator :: [separator].intercalate second := by
  induction first with
  | nil => exact absurd rfl hfirst
  | cons item first ih =>
      cases first with
      | nil =>
          rw [List.singleton_append, List.intercalate_cons_of_ne_nil hsecond]
          simp
      | cons next first =>
          have hnext : next :: first ≠ [] := List.cons_ne_nil next first
          have hmore : next :: first ++ second ≠ [] := List.append_ne_nil_of_left_ne_nil hnext _
          rw [List.cons_append, List.intercalate_cons_of_ne_nil hmore, ih hnext,
            List.intercalate_cons_of_ne_nil hnext, List.append_assoc, List.append_assoc,
            List.append_assoc]

/-- To go on behind a separator is to have more components. -/
theorem extends_splitOn {items extended : List α} :
    Extends (items.splitOn separator) (extended.splitOn separator) ↔
      ∃ rest, extended = items ++ separator :: rest := by
  constructor
  · rintro ⟨more, hmore, heq⟩
    have hjoined := congrArg [separator].intercalate heq
    rw [List.intercalate_splitOn, intercalate_append (List.splitOn_ne_nil _ _) hmore,
      List.intercalate_splitOn] at hjoined
    exact ⟨_, hjoined⟩
  · rintro ⟨rest, rfl⟩
    exact ⟨rest.splitOn separator, List.splitOn_ne_nil _ _,
      List.splitOn_append_cons_self items rest⟩

theorem not_extends_self {β : Type} {components : List β} : ¬ Extends components components := by
  rintro ⟨more, hmore, heq⟩
  exact hmore (List.self_eq_append_right.mp heq)

end MbxCache.Foundation
