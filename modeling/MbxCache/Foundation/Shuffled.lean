/-
# Lists up to order

Two lists with related items in any order. What is asked of such a list by `any`,
by membership, or by a lookup under distinct keys does not depend on the order.
-/

import Mathlib.Data.List.Forall2
import Mathlib.Data.List.Nodup
import Mathlib.Data.List.Perm.Basic

namespace MbxCache.Foundation

variable {α β γ : Type} {R : α → β → Prop}

theorem exists_left_of_forall₂ {items : List α} {others : List β} (h : List.Forall₂ R items others) :
    ∀ other ∈ others, ∃ item ∈ items, R item other := by
  induction h with
  | nil => simp
  | @cons item other items others hfirst _ ih =>
      intro later hmem
      rcases List.mem_cons.mp hmem with rfl | hrest
      · exact ⟨item, by simp, hfirst⟩
      · obtain ⟨found, hfound, hrelated⟩ := ih later hrest
        exact ⟨found, List.mem_cons_of_mem _ hfound, hrelated⟩

/-- Items that each have a related one have a list of them. -/
theorem exists_forall₂ {items : List α} (h : ∀ item ∈ items, ∃ other, R item other) :
    ∃ others, List.Forall₂ R items others := by
  induction items with
  | nil => exact ⟨[], .nil⟩
  | cons item items ih =>
      obtain ⟨other, hother⟩ := h item (by simp)
      obtain ⟨others, hothers⟩ := ih fun later hmem => h later (List.mem_cons_of_mem _ hmem)
      exact ⟨other :: others, .cons hother hothers⟩

/-- Under distinct keys the item with a key is the one found. -/
theorem find?_eq_some_of_nodup [DecidableEq β] {key : α → β} {items : List α}
    (hnodup : (items.map key).Nodup) {item : α} (hmem : item ∈ items) :
    (items.find? fun other => key other == key item) = some item := by
  induction items with
  | nil => cases hmem
  | cons first items ih =>
      rw [List.map_cons, List.nodup_cons] at hnodup
      rcases List.mem_cons.mp hmem with rfl | hrest
      · simp
      · have hne : key first ≠ key item := fun heq =>
          hnodup.1 (heq ▸ List.mem_map_of_mem hrest)
        rw [List.find?_cons_of_neg (by simpa using hne)]
        exact ih hnodup.2 hrest

/-- A permutation, and then each item replaced by a related one. -/
def Shuffled (R : α → β → Prop) (items : List α) (shuffled : List β) : Prop :=
  ∃ permuted, items.Perm permuted ∧ List.Forall₂ R permuted shuffled

namespace Shuffled

variable {items : List α} {shuffled : List β}

theorem of_perm {R : α → α → Prop} (hrefl : ∀ item, R item item) {items permuted : List α}
    (h : items.Perm permuted) : Shuffled R items permuted :=
  ⟨permuted, h, List.forall₂_same.mpr fun item _ => hrefl item⟩

theorem exists_left (h : Shuffled R items shuffled) :
    ∀ other ∈ shuffled, ∃ item ∈ items, R item other := by
  obtain ⟨permuted, hperm, hforall⟩ := h
  intro other hmem
  obtain ⟨item, hitem, hrelated⟩ := exists_left_of_forall₂ hforall other hmem
  exact ⟨item, hperm.mem_iff.mpr hitem, hrelated⟩

theorem exists_right (h : Shuffled R items shuffled) :
    ∀ item ∈ items, ∃ other ∈ shuffled, R item other := by
  obtain ⟨permuted, hperm, hforall⟩ := h
  intro item hmem
  obtain ⟨other, hother, hrelated⟩ :=
    exists_left_of_forall₂ hforall.flip item (hperm.mem_iff.mp hmem)
  exact ⟨other, hother, hrelated⟩

/-- A value that related items share is taken by both lists alike. -/
theorem map_perm (h : Shuffled R items shuffled) {f : α → γ} {g : β → γ}
    (hsame : ∀ item other, R item other → f item = g other) :
    (items.map f).Perm (shuffled.map g) := by
  obtain ⟨permuted, hperm, hforall⟩ := h
  have hmap : List.Forall₂ (· = ·) (permuted.map f) (shuffled.map g) := by
    rw [List.forall₂_map_left_iff, List.forall₂_map_right_iff]
    exact hforall.imp hsame
  rw [List.forall₂_eq_eq_eq] at hmap
  exact hmap ▸ hperm.map f

/-- A question that related items answer alike is answered by both lists alike. -/
theorem any_eq (h : Shuffled R items shuffled) {p : α → Bool} {q : β → Bool}
    (hsame : ∀ item other, R item other → p item = q other) : items.any p = shuffled.any q := by
  rw [Bool.eq_iff_iff, List.any_eq_true, List.any_eq_true]
  constructor
  · rintro ⟨item, hmem, hp⟩
    obtain ⟨other, hother, hrelated⟩ := h.exists_right item hmem
    exact ⟨other, hother, hsame item other hrelated ▸ hp⟩
  · rintro ⟨other, hmem, hq⟩
    obtain ⟨item, hitem, hrelated⟩ := h.exists_left other hmem
    exact ⟨item, hitem, (hsame item other hrelated).symm ▸ hq⟩

theorem isEmpty_eq (h : Shuffled R items shuffled) : items.isEmpty = shuffled.isEmpty := by
  obtain ⟨permuted, hperm, hforall⟩ := h
  rw [Bool.eq_iff_iff, List.isEmpty_iff_length_eq_zero, List.isEmpty_iff_length_eq_zero,
    hperm.length_eq, hforall.length_eq]

end Shuffled

end MbxCache.Foundation
