/-
# JSON values

A parsed JSON document. Numbers keep the three cases a parser without arbitrary
precision tells apart, and an object is the list of its members in the order in
which a sorted map iterates over them.
-/

import Mathlib.Data.Int.Notation
import Mathlib.Logic.Relation

namespace MbxCache.Foundation

/-- A number as parsed: a `u64`, a negative `i64`, or the bits of an `f64`. -/
inductive JsonNumber where
  | posInt (value : UInt64)
  | negInt (value : ℤ)
  | float (bits : UInt64)
  deriving DecidableEq, Repr

/-- Comparison by value within one kind. The two zeros of `f64` are equal, and a
document holds no NaN. -/
def JsonNumber.same : JsonNumber → JsonNumber → Bool
  | .posInt first, .posInt second => first == second
  | .negInt first, .negInt second => first == second
  | .float first, .float second =>
      first == second || (first <<< 1 == 0 && second <<< 1 == 0)
  | _, _ => false

inductive Json where
  | null
  | bool (value : Bool)
  | number (value : JsonNumber)
  | string (value : String)
  | array (items : List Json)
  | object (members : List (String × Json))

namespace Json

mutual

/-- Structural equality; the derived instance does not reach through the lists. -/
def decEq : (first second : Json) → Decidable (first = second)
  | null, null => isTrue rfl
  | bool a, bool b => decidable_of_iff (a = b) (by simp)
  | number a, number b => decidable_of_iff (a = b) (by simp)
  | string a, string b => decidable_of_iff (a = b) (by simp)
  | array a, array b =>
      match decEqItems a b with
      | isTrue h => isTrue (by rw [h])
      | isFalse h => isFalse (by simpa using h)
  | object a, object b =>
      match decEqMembers a b with
      | isTrue h => isTrue (by rw [h])
      | isFalse h => isFalse (by simpa using h)
  | null, bool _ | null, number _ | null, string _ | null, array _ | null, object _ =>
      isFalse (by simp)
  | bool _, null | bool _, number _ | bool _, string _ | bool _, array _ | bool _, object _ =>
      isFalse (by simp)
  | number _, null | number _, bool _ | number _, string _ | number _, array _
  | number _, object _ => isFalse (by simp)
  | string _, null | string _, bool _ | string _, number _ | string _, array _
  | string _, object _ => isFalse (by simp)
  | array _, null | array _, bool _ | array _, number _ | array _, string _
  | array _, object _ => isFalse (by simp)
  | object _, null | object _, bool _ | object _, number _ | object _, string _
  | object _, array _ => isFalse (by simp)

def decEqItems : (first second : List Json) → Decidable (first = second)
  | [], [] => isTrue rfl
  | [], _ :: _ | _ :: _, [] => isFalse (by simp)
  | a :: as, b :: bs =>
      match decEq a b, decEqItems as bs with
      | isTrue h, isTrue h' => isTrue (by rw [h, h'])
      | isFalse h, _ => isFalse (by simp [h])
      | _, isFalse h => isFalse (by simp [h])

def decEqMembers : (first second : List (String × Json)) → Decidable (first = second)
  | [], [] => isTrue rfl
  | [], _ :: _ | _ :: _, [] => isFalse (by simp)
  | (k, a) :: as, (l, b) :: bs =>
      match instDecidableEqString k l, decEq a b, decEqMembers as bs with
      | isTrue hk, isTrue h, isTrue h' => isTrue (by rw [hk, h, h'])
      | isFalse h, _, _ => isFalse (by simp [h])
      | _, isFalse h, _ => isFalse (by simp [h])
      | _, _, isFalse h => isFalse (by simp [h])

end

instance : DecidableEq Json := decEq

/-! ## Reading a value -/

/-- The members of an object, and nothing for any other value. -/
def asObject : Json → Option (List (String × Json))
  | object members => some members
  | _ => none

def asString : Json → Option String
  | string value => some value
  | _ => none

def asU64 : Json → Option UInt64
  | number (.posInt value) => some value
  | _ => none

/-! ## Values at any depth -/

/-- The values an array or an object is made of. -/
def children : Json → List Json
  | array items => items
  | object members => members.map Prod.snd
  | _ => []

/-- The texts of a value itself: a string, or the names of an object's members. -/
def ownTexts : Json → List String
  | string value => [value]
  | object members => members.map Prod.fst
  | _ => []

/-- A value within another, at any depth. -/
def Part (whole part : Json) : Prop :=
  Relation.ReflTransGen (fun outer inner => inner ∈ outer.children) whole part

def Everywhere (holds : Json → Prop) (value : Json) : Prop :=
  ∀ part, value.Part part → holds part

variable {holds : Json → Prop}

theorem everywhere_of_children {value : Json} (hself : holds value)
    (hchildren : ∀ child ∈ value.children, child.Everywhere holds) :
    value.Everywhere holds := by
  intro part hpart
  cases hpart.cases_head with
  | inl heq => exact heq ▸ hself
  | inr hstep =>
      obtain ⟨child, hmem, hrest⟩ := hstep
      exact hchildren child hmem part hrest

theorem everywhere_of_leaf {value : Json} (hself : holds value) (hleaf : value.children = []) :
    value.Everywhere holds := by
  apply everywhere_of_children hself
  intro child hmem
  rw [hleaf] at hmem
  exact absurd hmem List.not_mem_nil

theorem sizeOf_lt_of_mem_children {value child : Json} (h : child ∈ value.children) :
    sizeOf child < sizeOf value := by
  cases value with
  | array items =>
      have hlt := List.sizeOf_lt_of_mem (show child ∈ items from h)
      rw [Json.array.sizeOf_spec]
      omega
  | object members =>
      obtain ⟨⟨name, member⟩, hmem, rfl⟩ := List.mem_map.mp h
      have hlt := List.sizeOf_lt_of_mem hmem
      rw [Prod.mk.sizeOf_spec] at hlt
      rw [Json.object.sizeOf_spec]
      show sizeOf member < _
      omega
  | null | bool _ | number _ | string _ => exact absurd h List.not_mem_nil

/-- Induction from the values a value is made of. -/
theorem children_induction {motive : Json → Prop}
    (step : ∀ value, (∀ child ∈ value.children, motive child) → motive value) (value : Json) :
    motive value :=
  step value fun child hmem =>
    have _hlt := sizeOf_lt_of_mem_children hmem
    children_induction step child
termination_by sizeOf value

theorem Everywhere.self {value : Json} (h : value.Everywhere holds) : holds value :=
  h value .refl

theorem Everywhere.child {value child : Json} (h : value.Everywhere holds)
    (hmem : child ∈ value.children) : child.Everywhere holds :=
  fun part hpart => h part (.head hmem hpart)

end Json

/-- The value of the member with this name. -/
def lookupMember (members : List (String × Json)) (name : String) : Option Json :=
  members.lookup name

end MbxCache.Foundation
