/-
# The order of members

A document may list the members of its objects in any order; a canonical form picks
one, by a key of the names. Two keys give two canonical forms. Either is recovered
from the other, and they are the same document exactly when the one order is the
other in every object.
-/

import Mathlib.Data.List.Lex
import Mathlib.Data.List.Sort
import MbxCache.Foundation.Json

namespace MbxCache.Foundation.Json

/-- The names of an object's members, in their order. -/
def names : Json → List String
  | object members => members.map Prod.fst
  | _ => []

/-- No name is given twice. -/
def Distinct (value : Json) : Prop := value.names.Nodup

/-- Arrays and objects are nested at most this deep. -/
def NestedWithin : ℕ → Json → Prop
  | 0, value => (∀ items, value ≠ array items) ∧ ∀ members, value ≠ object members
  | depth + 1, value => ∀ child ∈ value.children, NestedWithin depth child

theorem NestedWithin.mono {depth : ℕ} {value : Json} (h : NestedWithin depth value) :
    NestedWithin (depth + 1) value := by
  induction depth generalizing value with
  | zero =>
      intro child hmem
      cases value with
      | array items => exact absurd rfl (h.1 items)
      | object members => exact absurd rfl (h.2 members)
      | null | bool _ | number _ | string _ => exact absurd hmem List.not_mem_nil
  | succ depth ih => exact fun child hmem => ih (h child hmem)

theorem NestedWithin.mono_le {depth bound : ℕ} {value : Json} (h : NestedWithin depth value)
    (hle : depth ≤ bound) : NestedWithin bound value := by
  induction hle with
  | refl => exact h
  | step _ ih => exact ih.mono

section Order

variable {K : Type} [LinearOrder K] (key : String → K)

/-- The members are listed by the key of their names. -/
def Ordered (value : Json) : Prop := value.names.Pairwise fun first second =>
  key first ≤ key second

instance (value : Json) : Decidable (value.Ordered key) :=
  inferInstanceAs (Decidable (List.Pairwise _ _))

/-- The comparison of two members. -/
def Before (first second : String × Json) : Prop := key first.1 ≤ key second.1

instance : DecidableRel (Before key) := fun first second =>
  inferInstanceAs (Decidable (key first.1 ≤ key second.1))

instance : Std.Total (Before key) where
  total first second := le_total (key first.1) (key second.1)

instance : IsTrans (String × Json) (Before key) where
  trans _ _ _ := le_trans

mutual

/-- The same document with the members of every object listed by the key. -/
def reorder : Json → Json
  | null => null
  | bool value => bool value
  | number value => number value
  | string value => string value
  | array items => array (reorderItems items)
  | object members => object ((reorderMembers members).insertionSort (Before key))

def reorderItems : List Json → List Json
  | [] => []
  | item :: items => reorder item :: reorderItems items

def reorderMembers : List (String × Json) → List (String × Json)
  | [] => []
  | (name, value) :: members => (name, reorder value) :: reorderMembers members

end

theorem reorderItems_eq (items : List Json) : reorderItems key items = items.map (reorder key) := by
  induction items with
  | nil => rfl
  | cons item items ih => rw [reorderItems, ih, List.map_cons]

theorem reorderMembers_eq (members : List (String × Json)) :
    reorderMembers key members = members.map (Prod.map id (reorder key)) := by
  induction members with
  | nil => rfl
  | cons member members ih =>
      rw [reorderMembers, ih, List.map_cons]
      rfl

theorem reorder_array (items : List Json) :
    reorder key (array items) = array (items.map (reorder key)) := by
  rw [reorder, reorderItems_eq]

theorem reorder_object (members : List (String × Json)) :
    reorder key (object members) =
      object ((members.map (Prod.map id (reorder key))).insertionSort (Before key)) := by
  rw [reorder, reorderMembers_eq]

/-- The members are the same up to their order. -/
theorem perm_members (members : List (String × Json)) :
    ((members.map (Prod.map id (reorder key))).insertionSort (Before key)).Perm
      (members.map (Prod.map id (reorder key))) :=
  List.perm_insertionSort _ _

theorem perm_names (value : Json) : (reorder key value).names.Perm value.names := by
  cases value with
  | object members =>
      rw [reorder_object]
      have hperm := (perm_members key members).map Prod.fst
      rw [List.map_map] at hperm
      exact hperm
  | null | bool _ | number _ | string _ | array _ => exact .refl _

theorem exists_of_mem_children {value child : Json} (h : child ∈ (reorder key value).children) :
    ∃ part ∈ value.children, child = reorder key part := by
  cases value with
  | array items =>
      rw [reorder_array] at h
      obtain ⟨part, hmem, rfl⟩ := List.mem_map.mp h
      exact ⟨part, hmem, rfl⟩
  | object members =>
      rw [reorder_object] at h
      obtain ⟨member, hmem, rfl⟩ := List.mem_map.mp h
      obtain ⟨part, hpart, rfl⟩ := List.mem_map.mp ((perm_members key members).mem_iff.mp hmem)
      exact ⟨part.2, List.mem_map_of_mem hpart, rfl⟩
  | null | bool _ | number _ | string _ => exact absurd h List.not_mem_nil

/-- What holds of each value after its members were listed anew holds at every depth. -/
theorem everywhere_reorder {holds holds' : Json → Prop}
    (step : ∀ value, holds value → holds' (reorder key value)) {value : Json}
    (h : value.Everywhere holds) : (reorder key value).Everywhere holds' := by
  induction value using children_induction with
  | step value ih =>
      apply everywhere_of_children (step value h.self)
      intro child hmem
      obtain ⟨part, hpart, rfl⟩ := exists_of_mem_children key hmem
      exact ih part hpart (h.child hpart)

theorem ordered_reorder (value : Json) : (reorder key value).Ordered key := by
  cases value with
  | object members =>
      rw [reorder_object]
      show List.Pairwise _ (List.map _ _)
      rw [List.pairwise_map]
      exact List.pairwise_insertionSort (Before key) _
  | null | bool _ | number _ | string _ | array _ => exact List.Pairwise.nil

theorem distinct_reorder {value : Json} (h : value.Distinct) : (reorder key value).Distinct :=
  (perm_names key value).nodup_iff.mpr h

theorem nestedWithin_reorder {depth : ℕ} {value : Json} (h : NestedWithin depth value) :
    NestedWithin depth (reorder key value) := by
  induction depth generalizing value with
  | zero =>
      cases value with
      | array items => exact absurd rfl (h.1 items)
      | object members => exact absurd rfl (h.2 members)
      | null | bool _ | number _ | string _ => exact h
  | succ depth ih =>
      intro child hmem
      obtain ⟨part, hpart, rfl⟩ := exists_of_mem_children key hmem
      exact ih (h part hpart)

theorem map_members_eq_self {f : Json → Json} {members : List (String × Json)}
    (h : ∀ member ∈ members, f member.2 = member.2) :
    members.map (Prod.map id f) = members := by
  have hmembers : members.map (Prod.map id f) = members.map id :=
    List.map_congr_left fun member hmem => Prod.ext rfl (h member hmem)
  rw [hmembers, List.map_id]

/-- A document is in canonical form when its members are in order at every depth. -/
theorem reorder_eq_self_iff {value : Json} :
    reorder key value = value ↔ value.Everywhere (Ordered key) := by
  constructor
  · intro h
    rw [← h]
    exact everywhere_reorder key (fun value _ => ordered_reorder key value)
      (fun _ _ => trivial : value.Everywhere fun _ => True)
  · intro h
    induction value using children_induction with
    | step value ih =>
        cases value with
        | array items =>
            have hitems : items.map (reorder key) = items.map id :=
              List.map_congr_left fun item hmem => ih item hmem (h.child hmem)
            rw [reorder_array, hitems, List.map_id]
        | object members =>
            have hmembers := map_members_eq_self (f := reorder key) fun member hmem =>
              have hchild := List.mem_map_of_mem hmem
              ih member.2 hchild (h.child hchild)
            rw [reorder_object, hmembers]
            congr 1
            exact (List.pairwise_map.mp h.self).insertionSort_eq
        | null | bool _ | number _ | string _ => rfl

end Order

section Recover

variable {K L : Type} [LinearOrder K] [LinearOrder L] {key : String → K} {other : String → L}

/-- The one canonical form is recovered from the other. -/
theorem reorder_reorder (hkey : Function.Injective key) {value : Json}
    (hordered : value.Everywhere (Ordered key)) (hdistinct : value.Everywhere Distinct) :
    reorder key (reorder other value) = value := by
  induction value using children_induction with
  | step value ih =>
      have hback : ∀ child ∈ value.children, reorder key (reorder other child) = child :=
        fun child hmem => ih child hmem (hordered.child hmem) (hdistinct.child hmem)
      cases value with
      | array items =>
          have hitems : items.map (reorder key ∘ reorder other) = items.map id :=
            List.map_congr_left fun item hmem => hback item hmem
          rw [reorder_array, reorder_array, List.map_map, hitems, List.map_id]
      | object members =>
          have hmembers :
              (members.map (Prod.map id (reorder other))).map (Prod.map id (reorder key)) =
                members := by
            rw [List.map_map]
            exact map_members_eq_self (f := reorder key ∘ reorder other)
              fun member hmem => hback member.2 (List.mem_map_of_mem hmem)
          rw [reorder_object, reorder_object]
          congr 1
          have hnames : (members.map Prod.fst).Pairwise fun first second =>
              key first ≤ key second := hordered.self
          have hsorted : members.Pairwise (Before key) := by
            rw [List.pairwise_map] at hnames
            exact hnames
          have hperm : ((((members.map (Prod.map id (reorder other))).insertionSort
              (Before other)).map (Prod.map id (reorder key))).insertionSort
                (Before key)).Perm members := by
            have hinner := (perm_members other members).map (Prod.map id (reorder key))
            rw [hmembers] at hinner
            exact (perm_members key _).trans hinner
          apply hperm.eq_of_pairwise _ (List.pairwise_insertionSort (Before key) _) hsorted
          intro first second hfirst hsecond hle hge
          have hname : first.1 = second.1 := hkey (le_antisymm hle hge)
          exact List.inj_on_of_nodup_map hdistinct.self (hperm.mem_iff.mp hfirst) hsecond hname
      | null | bool _ | number _ | string _ => rfl

end Recover

end MbxCache.Foundation.Json
