/-
# Deletions that are not committed

A transaction does not see the rows it has deleted, while all others do until it
commits. The keys of these rows are what it has to remember: what it sees is the
table without them, and so is what it leaves behind.
-/

import Mathlib.Data.Finset.Card
import MbxCache.Foundation.Table

namespace MbxCache.Foundation

namespace Table

variable {K R : Type} {check : K → Prop} [DecidableEq K]

/-- A table without the rows under some keys. -/
def without (table : Table K R check) (keys : Finset K) : Table K R check :=
  (table.deleteWhere fun key _ => decide (key ∈ keys)).2

/-- The keys whose row is gone from another table. -/
def gone (table later : Table K R check) : Finset K :=
  ((table.rows.filter fun row => (later.find row.1).isNone).map Prod.fst).toFinset

variable {table later : Table K R check} {keys : Finset K} {key : K}

theorem find_without :
    (table.without keys).find key = if key ∈ keys then none else table.find key := by
  rw [without, find_deleteWhere]
  by_cases hmem : key ∈ keys
  · rw [if_pos hmem]
    cases table.find key <;> simp [hmem]
  · rw [if_neg hmem]
    cases table.find key <;> simp [hmem]

theorem find_without_eq_some {row : R} :
    (table.without keys).find key = some row ↔ key ∉ keys ∧ table.find key = some row := by
  rw [find_without]
  by_cases hmem : key ∈ keys <;> simp [hmem]

@[simp]
theorem without_empty : table.without ∅ = table := by
  rw [without, deleteWhere_of_forall_not]
  exact fun row _ => decide_eq_false (Finset.notMem_empty row.1)

theorem mem_gone :
    key ∈ table.gone later ↔ (table.find key).isSome = true ∧ later.find key = none := by
  simp only [gone, List.mem_toFinset, List.mem_map, List.mem_filter, Prod.exists,
    exists_and_right, exists_eq_right, Option.isNone_iff_eq_none, Option.isSome_iff_exists,
    find_eq_some]

/-- The keys of rows that are there are as many as the rows that go. -/
theorem card_add_length_without (h : ∀ key ∈ keys, (table.find key).isSome = true) :
    keys.card + (table.without keys).rows.length = table.rows.length := by
  have haffected := affected_deleteWhere table fun key _ => decide (key ∈ keys)
  have hcount : (table.deleteWhere fun key _ => decide (key ∈ keys)).1 = keys.card := by
    have hkeys : keys = ((table.rows.filter fun row => decide (row.1 ∈ keys)).map
        Prod.fst).toFinset := by
      ext key
      simp only [List.mem_toFinset, List.mem_map, List.mem_filter, decide_eq_true_eq, Prod.exists,
        exists_and_right, exists_eq_right]
      apply Iff.intro
      · intro hmem
        obtain ⟨row, hrow⟩ := Option.isSome_iff_exists.mp (h key hmem)
        exact ⟨⟨row, find_eq_some.mp hrow⟩, hmem⟩
      · exact fun hboth => hboth.2
    have hunique : ((table.rows.filter fun row => decide (row.1 ∈ keys)).map Prod.fst).Nodup :=
      table.unique.sublist (List.filter_sublist.map _)
    show table.rows.countP (fun row => decide (row.1 ∈ keys)) = keys.card
    conv_rhs => rw [hkeys]
    rw [List.toFinset_card_of_nodup hunique, List.length_map, List.countP_eq_length_filter]
  rw [← hcount]
  exact haffected

/-! ### Deletions -/

theorem mem_gone_deleteWhere (table : Table K R check) (condition : K → R → Bool) :
    key ∈ table.gone (table.deleteWhere condition).2 ↔ ∃ row, table.find key = some row ∧ condition key row = true := by
  rw [mem_gone, find_deleteWhere]
  cases table.find key with
  | none => simp
  | some row => by_cases hcondition : condition key row = true <;> simp [hcondition]

/-- What a deletion leaves is the table without the keys it took. -/
theorem deleteWhere_eq_without (table : Table K R check) (condition : K → R → Bool) :
    (table.deleteWhere condition).2 =
      table.without (table.gone (table.deleteWhere condition).2) := by
  have hrows : ∀ row ∈ table.rows, (!condition row.1 row.2) =
      !decide (row.1 ∈ table.gone (table.deleteWhere condition).2) := by
    intro row hrow
    have hfind := find_eq_some.mpr hrow
    apply congrArg
    rw [Bool.eq_iff_iff, decide_eq_true_eq, mem_gone_deleteWhere, hfind]
    simp
  have hfilter := List.filter_congr hrows
  unfold without
  unfold deleteWhere at hfilter ⊢
  dsimp only at hfilter ⊢
  congr

/-- It takes as many keys as it affects rows. -/
theorem card_gone_deleteWhere (table : Table K R check) (condition : K → R → Bool) :
    (table.gone (table.deleteWhere condition).2).card = (table.deleteWhere condition).1 := by
  have hlength : (table.gone (table.deleteWhere condition).2).card +
      (table.without (table.gone (table.deleteWhere condition).2)).rows.length =
        table.rows.length :=
    card_add_length_without fun key hmem => (mem_gone.mp hmem).1
  have haffected := affected_deleteWhere table condition
  rw [← deleteWhere_eq_without] at hlength
  omega

end Table

end MbxCache.Foundation
