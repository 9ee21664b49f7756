/-
# Values that are written once

Values under keys, where a key gets a value only if it has none, and the callers
that write them. What is there stays, and of all callers at most one has written it.
Callers are a list of which one member moves at a time.
-/

import Mathlib.Data.List.Nodup
import Mathlib.Logic.Function.Basic
import Mathlib.Logic.Relation

namespace MbxCache.Foundation

namespace PutIfAbsent

variable {Key Value : Type} [DecidableEq Key]

/-- One step: a key without a value gets one, or nothing happens. -/
inductive Step (held : Key → Option Value) : (Key → Option Value) → Prop where
  | idle : Step held held
  | created (key : Key) (value : Value) (vacant : held key = none) :
      Step held (Function.update held key (some value))

variable {held held' : Key → Option Value}

theorem Step.keeps (h : Step held held') {key : Key} {value : Value}
    (hkey : held key = some value) : held' key = some value := by
  cases h with
  | idle => exact hkey
  | created created other vacant =>
      rw [Function.update_of_ne, hkey]
      rintro rfl
      rw [vacant] at hkey
      cases hkey

/-- A run of another system whose steps are such steps keeps what is there. -/
theorem keeps_of_run {S : Type} {step : S → S → Prop} {inv : S → Prop}
    {held : S → Key → Option Value} (hinv : ∀ s t, inv s → step s t → inv t)
    (hstep : ∀ s t, inv s → step s t → Step (held s) (held t)) {s t : S} (h : inv s)
    (hrun : Relation.ReflTransGen step s t) {key : Key} {value : Value}
    (hkey : held s key = some value) : held t key = some value := by
  have hboth : inv t ∧ held t key = some value := by
    induction hrun with
    | refl => exact ⟨h, hkey⟩
    | tail hearlier hlast ih =>
        obtain ⟨hprior, hheld⟩ := ih
        exact ⟨hinv _ _ hprior hlast, (hstep _ _ hprior hlast).keeps hheld⟩
  exact hboth.2

end PutIfAbsent

/-! ## One of many moves -/

section

variable {α β : Type} {before after : List α} {old new : α} {f : α → Option β}

theorem forall_mem_moved {p : α → Prop} (hothers : ∀ a ∈ before ++ after, p a) (hnew : p new) :
    ∀ a ∈ before ++ new :: after, p a := by
  intro a ha
  obtain rfl | hother := List.mem_cons.mp (List.perm_middle.mem_iff.mp ha)
  · exact hnew
  · exact hothers a hother

theorem filterMap_moved : ((before ++ old :: after).filterMap f).Perm
    ((f old).toList ++ (before ++ after).filterMap f) := by
  have hmiddle : (before ++ old :: after).Perm (old :: (before ++ after)) := List.perm_middle
  have hperm := hmiddle.filterMap f
  cases hold : f old with
  | none =>
      rw [List.filterMap_cons_none hold] at hperm
      exact hperm
  | some b =>
      rw [List.filterMap_cons_some hold] at hperm
      exact hperm

/-- Marks stay distinct when the one that moved has its own as before or a new one. -/
theorem nodup_moved (h : ((before ++ old :: after).filterMap f).Nodup)
    (hnew : ∀ b, f new = some b → f old = some b ∨ b ∉ (before ++ old :: after).filterMap f) :
    ((before ++ new :: after).filterMap f).Nodup := by
  have hothers := filterMap_moved.nodup_iff.mp h
  rw [filterMap_moved.nodup_iff]
  cases hmark : f new with
  | none => exact hothers.of_append_right
  | some b =>
      apply List.nodup_cons.mpr
      refine ⟨fun hmem => ?_, hothers.of_append_right⟩
      cases hnew b hmark with
      | inl hold =>
          rw [hold] at hothers
          exact (List.nodup_cons.mp hothers).1 hmem
      | inr hfresh =>
          exact hfresh (filterMap_moved.mem_iff.mpr (List.mem_append_right _ hmem))

/-- The others have other marks. -/
theorem ne_of_nodup (h : ((before ++ old :: after).filterMap f).Nodup) {other : α}
    (hother : other ∈ before ++ after) {b b' : β} (hold : f old = some b)
    (hmark : f other = some b') : b' ≠ b := by
  rintro rfl
  have hothers := filterMap_moved.nodup_iff.mp h
  rw [hold] at hothers
  exact (List.nodup_cons.mp hothers).1 (List.mem_filterMap.mpr ⟨other, hother, hmark⟩)

theorem eq_of_nodup {items : List α} (h : (items.filterMap f).Nodup) {a a' : α} (ha : a ∈ items)
    (ha' : a' ∈ items) {b : β} (hmark : f a = some b) (hmark' : f a' = some b) : a' = a := by
  obtain ⟨before, after, rfl⟩ := List.append_of_mem ha
  obtain rfl | hother := List.mem_cons.mp (List.perm_middle.mem_iff.mp ha')
  · rfl
  · exact absurd rfl (ne_of_nodup h hother hmark hmark')

end

end MbxCache.Foundation
