/-
# Derived readers of JSON values

The readers that are derived from a record's declaration, put together from one
reader a field. A record is read from an object whose members are all fields, or
from an array of its fields in the order they are declared.

A check on what was read covers the document when nothing in the document is left
unread: every value at any depth then has the property the check stands for. Each
way of putting readers together keeps that, so a record's check is compared with
its fields one at a time.
-/

import Mathlib.Data.List.Basic
import Mathlib.Data.List.Nodup
import MbxCache.Foundation.Json

namespace MbxCache.Foundation

/-! ## Fields -/

/-- What a document holds for a field. An object may leave a field out; an array
may end before it. -/
inductive Slot where
  | present (value : Json)
  | absent
  | short

namespace Slot

def find (missing : Slot) (entries : List (String × Json)) (name : String) : Slot :=
  match entries.lookup name with
  | some value => present value
  | none => missing

def Everywhere (holds : Json → Prop) : Slot → Prop
  | present value => value.Everywhere holds
  | _ => True

end Slot

/-- The fields of a record in a document. A member that is no field, a field given
twice, and an element beyond the last field are refused. -/
def slots (names : List String) : Json → Option (String → Slot)
  | .object members =>
      if (∀ entry ∈ members, entry.1 ∈ names) ∧ (members.map Prod.fst).Nodup then
        some (Slot.find .absent members)
      else none
  | .array items =>
      if items.length ≤ names.length then some (Slot.find .short (names.zip items)) else none
  | _ => none

section Fields

variable {names : List String} {holds : Json → Prop}

theorem lookup_of_mem {entries : List (String × Json)} (hnodup : (entries.map Prod.fst).Nodup)
    {name : String} {value : Json} (hmem : (name, value) ∈ entries) :
    entries.lookup name = some value := by
  induction entries with
  | nil => exact absurd hmem List.not_mem_nil
  | cons entry entries ih =>
      rw [List.map_cons, List.nodup_cons] at hnodup
      cases List.mem_cons.mp hmem with
      | inl heq => rw [← heq, List.lookup_cons_self]
      | inr hrest =>
          have hdiffers : (name == entry.1) = false := by
            apply beq_eq_false_iff_ne.mpr
            intro heq
            exact hnodup.1 (heq ▸ List.mem_map_of_mem (f := Prod.fst) hrest)
          rw [List.lookup_cons, hdiffers]
          exact ih hnodup.2 hrest

theorem mem_of_lookup {entries : List (String × Json)} {name : String} {value : Json}
    (h : entries.lookup name = some value) : (name, value) ∈ entries := by
  obtain ⟨before, after, hentries, _⟩ := List.lookup_eq_some_iff.mp h
  simp [hentries]

theorem mem_of_find {missing : Slot} {entries : List (String × Json)} {name : String}
    {value : Json} (hmissing : ∀ value, missing ≠ .present value)
    (h : Slot.find missing entries name = .present value) : (name, value) ∈ entries := by
  rw [Slot.find] at h
  split at h
  next found hfound =>
      injection h with heq
      exact heq ▸ mem_of_lookup hfound
  next => exact absurd h (hmissing value)

/-- The slot of a name that has an entry holds that entry's value. -/
theorem everywhere_of_find {missing : Slot} {entries : List (String × Json)}
    (hnodup : (entries.map Prod.fst).Nodup) {entry : String × Json} (hmem : entry ∈ entries)
    (h : (Slot.find missing entries entry.1).Everywhere holds) :
    entry.2.Everywhere holds := by
  have hfound : entries.lookup entry.1 = some entry.2 := lookup_of_mem hnodup hmem
  rw [Slot.find, hfound] at h
  exact h

theorem exists_entry_of_mem_items {items : List Json} (hlength : items.length ≤ names.length)
    {item : Json} (hmem : item ∈ items) : ∃ name ∈ names, (name, item) ∈ names.zip items := by
  obtain ⟨i, hi, rfl⟩ := List.getElem_of_mem hmem
  have hname : i < names.length := by omega
  refine ⟨names[i], List.getElem_mem hname, ?_⟩
  have hzip : i < (names.zip items).length := by
    rw [List.length_zip]
    omega
  have heq : (names.zip items)[i] = (names[i], items[i]) := List.getElem_zip
  exact heq ▸ List.getElem_mem hzip

theorem nodup_zip (h : names.Nodup) (items : List Json) :
    ((names.zip items).map Prod.fst).Nodup := by
  induction names generalizing items with
  | nil => exact List.nodup_nil
  | cons name names ih =>
      cases items with
      | nil => exact List.nodup_nil
      | cons item items =>
          rw [List.nodup_cons] at h
          rw [List.zip_cons_cons, List.map_cons, List.nodup_cons]
          refine ⟨?_, ih h.2 items⟩
          intro hmem
          obtain ⟨entry, hentry, heq⟩ := List.mem_map.mp hmem
          have hname : entry.1 = name := heq
          exact h.1 (hname ▸ (List.of_mem_zip hentry).1)

/-- A field that is there is one of the document's own values. -/
theorem mem_children_of_slots {value part : Json} {slot : String → Slot} {name : String}
    (hslots : slots names value = some slot) (hslot : slot name = .present part) :
    part ∈ value.children := by
  cases value with
  | object members =>
      simp only [slots, Option.ite_none_right_eq_some, Option.some.injEq] at hslots
      obtain ⟨_, rfl⟩ := hslots
      have hmem := mem_of_find (fun _ => by simp) hslot
      exact List.mem_map_of_mem (f := Prod.snd) hmem
  | array items =>
      simp only [slots, Option.ite_none_right_eq_some, Option.some.injEq] at hslots
      obtain ⟨_, rfl⟩ := hslots
      have hmem := mem_of_find (fun _ => by simp) hslot
      exact (List.of_mem_zip hmem).2
  | null | bool _ | number _ | string _ => cases hslots

theorem mem_names_of_slots {members : List (String × Json)} {slot : String → Slot}
    (hslots : slots names (.object members) = some slot) :
    ∀ entry ∈ members, entry.1 ∈ names := by
  simp only [slots, Option.ite_none_right_eq_some] at hslots
  exact hslots.1.1

theorem mem_members_of_slots {members : List (String × Json)} {slot : String → Slot}
    (hslots : slots names (.object members) = some slot) {name : String} {part : Json}
    (hslot : slot name = .present part) : (name, part) ∈ members := by
  simp only [slots, Option.ite_none_right_eq_some, Option.some.injEq] at hslots
  obtain ⟨_, rfl⟩ := hslots
  exact mem_of_find (fun _ => by simp) hslot

/-- No value of a record's document is outside its fields. -/
theorem everywhere_of_slots (hdistinct : names.Nodup) {value : Json} {slot : String → Slot}
    (hslots : slots names value = some slot) (hself : holds value)
    (hfields : ∀ name ∈ names, (slot name).Everywhere holds) : value.Everywhere holds := by
  apply Json.everywhere_of_children hself
  intro child hmem
  cases value with
  | object members =>
      simp only [slots, Option.ite_none_right_eq_some, Option.some.injEq] at hslots
      obtain ⟨⟨hknown, hnodup⟩, rfl⟩ := hslots
      obtain ⟨entry, hentry, rfl⟩ := List.mem_map.mp hmem
      exact everywhere_of_find hnodup hentry (hfields entry.1 (hknown entry hentry))
  | array items =>
      simp only [slots, Option.ite_none_right_eq_some, Option.some.injEq] at hslots
      obtain ⟨hlength, rfl⟩ := hslots
      obtain ⟨name, hname, hentry⟩ := exists_entry_of_mem_items hlength hmem
      exact everywhere_of_find (nodup_zip hdistinct items) hentry (hfields name hname)
  | null | bool _ | number _ | string _ => cases hslots

end Fields

/-! ## Readers -/

namespace Read

variable {α : Type}

/-- A field that has to be there. -/
def required (read : Json → Option α) : Slot → Option α
  | .present value => read value
  | _ => none

/-- A field with a default, which an array may leave out at its end as well. -/
def defaulted (default : α) (read : Json → Option α) : Slot → Option α
  | .present value => read value
  | _ => some default

def option (read : Json → Option α) : Json → Option (Option α)
  | .null => some none
  | value => (read value).map some

/-- An optional field without a default: an object may leave it out, an array may
not. -/
def optional (read : Json → Option α) : Slot → Option (Option α)
  | .present value => option read value
  | .absent => some none
  | .short => none

/-- Nothing, written as null. -/
def unit : Json → Option Unit
  | .null => some ()
  | _ => none

def string : Json → Option String := Json.asString

/-- A number of eight bits. -/
def u8 : Json → Option ℕ
  | .number (.posInt value) => if value.toNat < 256 then some value.toNat else none
  | _ => none

def u64 : Json → Option UInt64 := Json.asU64

def list (read : Json → Option α) : Json → Option (List α)
  | .array items => items.mapM read
  | _ => none

def map (read : Json → Option α) : Json → Option (List (String × α))
  | .object members => members.mapM fun entry => (read entry.2).map (entry.1, ·)
  | _ => none

end Read

/-- A reader that goes through its fields has read the first and then the rest. -/
theorem exists_of_bind_eq_some {α β : Type} {x : Option α} {f : α → Option β} {b : β}
    (h : (x >>= f) = some b) : ∃ a, x = some a ∧ f a = some b :=
  Option.bind_eq_some_iff.mp h

theorem exists_of_mapM_eq_some {α β : Type} {f : α → Option β} {items : List α}
    {found : List β} (h : items.mapM f = some found) :
    ∀ item ∈ items, ∃ b ∈ found, f item = some b := by
  induction items generalizing found with
  | nil =>
      intro item hmem
      exact absurd hmem List.not_mem_nil
  | cons first rest ih =>
      intro item hmem
      simp only [List.mapM_cons, Option.bind_eq_bind, Option.bind_eq_some_iff,
        Option.pure_def, Option.some.injEq] at h
      obtain ⟨b, hfirst, bs, hrest, rfl⟩ := h
      cases List.mem_cons.mp hmem with
      | inl heq => exact ⟨b, List.mem_cons_self, heq ▸ hfirst⟩
      | inr hlater =>
          obtain ⟨c, hc, hitem⟩ := ih hrest item hlater
          exact ⟨c, List.mem_cons_of_mem b hc, hitem⟩

/-! ## Checks that leave nothing out -/

/-- Whatever the reader makes a valid record of has the property at every depth. -/
def Inspects {α : Type} (read : Json → Option α) (valid : α → Prop) (holds : Json → Prop) : Prop :=
  ∀ value a, read value = some a → valid a → value.Everywhere holds

namespace Inspects

variable {α : Type} {read : Json → Option α} {valid : α → Prop} {holds : Json → Prop}

theorem string {valid : String → Prop} (h : ∀ text, valid text → holds (.string text)) :
    Inspects Read.string valid holds := by
  intro value text hread hvalid
  cases value with
  | string found =>
      injection hread with heq
      exact Json.everywhere_of_leaf (h found (heq ▸ hvalid)) rfl
  | null | bool _ | number _ | array _ | object _ => cases hread

theorem u8 (h : ∀ n, holds (.number n)) : Inspects Read.u8 (fun _ => True) holds := by
  intro value n hread _
  cases value with
  | number found => exact Json.everywhere_of_leaf (h found) rfl
  | null | bool _ | string _ | array _ | object _ => cases hread

theorem u64 (h : ∀ n, holds (.number n)) : Inspects Read.u64 (fun _ => True) holds := by
  intro value n hread _
  cases value with
  | number found => exact Json.everywhere_of_leaf (h found) rfl
  | null | bool _ | string _ | array _ | object _ => cases hread

theorem option (h : Inspects read valid holds) (hnull : holds .null) :
    Inspects (Read.option read) (fun found => ∀ a ∈ found, valid a) holds := by
  intro value found hread hvalid
  by_cases hvalue : value = .null
  · subst hvalue
    exact Json.everywhere_of_leaf hnull rfl
  · have hsome : (read value).map some = some found := by
      cases value with
      | null => exact absurd rfl hvalue
      | bool _ | number _ | string _ | array _ | object _ => exact hread
    obtain ⟨a, ha, rfl⟩ := Option.map_eq_some_iff.mp hsome
    exact h value a ha (hvalid a rfl)

theorem list (h : Inspects read valid holds) (harray : ∀ items, holds (.array items)) :
    Inspects (Read.list read) (fun found => ∀ a ∈ found, valid a) holds := by
  intro value found hread hvalid
  cases value with
  | array items =>
      apply Json.everywhere_of_children (harray items)
      intro item hmem
      obtain ⟨a, hfound, hitem⟩ := exists_of_mapM_eq_some hread item hmem
      exact h item a hitem (hvalid a hfound)
  | null | bool _ | number _ | string _ | object _ => cases hread

/-- The names and the fact that the values were read may decide what the object
itself is. -/
theorem map (name : String → Prop) (h : Inspects read valid holds)
    (hobject : ∀ members : List (String × Json),
      (∀ entry ∈ members, name entry.1 ∧ ∃ a, read entry.2 = some a) → holds (.object members)) :
    Inspects (Read.map read) (fun found => ∀ entry ∈ found, name entry.1 ∧ valid entry.2)
      holds := by
  intro value found hread hvalid
  cases value with
  | object members =>
      have hentries : ∀ entry ∈ members, name entry.1 ∧
          ∃ a, read entry.2 = some a ∧ valid a := by
        intro entry hmem
        obtain ⟨pair, hfound, hentry⟩ := exists_of_mapM_eq_some hread entry hmem
        obtain ⟨a, ha, rfl⟩ := Option.map_eq_some_iff.mp hentry
        obtain ⟨hname, hvalue⟩ := hvalid _ hfound
        exact ⟨hname, a, ha, hvalue⟩
      apply Json.everywhere_of_children
      · apply hobject
        intro entry hmem
        obtain ⟨hname, a, ha, _⟩ := hentries entry hmem
        exact ⟨hname, a, ha⟩
      · intro child hmem
        obtain ⟨entry, hentry, rfl⟩ := List.mem_map.mp hmem
        obtain ⟨_, a, ha, hvalue⟩ := hentries entry hentry
        exact h entry.2 a ha hvalue
  | null | bool _ | number _ | string _ | array _ => cases hread

section Slot

variable {slot : Slot} {a : α}

theorem required (h : Inspects read valid holds) (hread : Read.required read slot = some a)
    (hvalid : valid a) : slot.Everywhere holds := by
  cases slot with
  | present value => exact h value a hread hvalid
  | absent | short => exact trivial

theorem defaulted {default : α} (h : Inspects read valid holds)
    (hread : Read.defaulted default read slot = some a) (hvalid : valid a) :
    slot.Everywhere holds := by
  cases slot with
  | present value => exact h value a hread hvalid
  | absent | short => exact trivial

theorem optional {found : Option α} (h : Inspects read valid holds) (hnull : holds .null)
    (hread : Read.optional read slot = some found) (hvalid : ∀ a ∈ found, valid a) :
    slot.Everywhere holds := by
  cases slot with
  | present value => exact h.option hnull value found hread hvalid
  | absent | short => exact trivial

end Slot

end Inspects

end MbxCache.Foundation
