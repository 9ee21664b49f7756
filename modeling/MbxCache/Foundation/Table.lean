/-
# Keyed tables

A relation with a primary key and a check on it, as a database keeps them: no two
rows agree on the key, and no row fails the check. The operations are the ones a
statement is made of, with the number of rows they affected. Each is described by
what it does to the row found under a key.
-/

import Mathlib.Data.List.Basic
import Mathlib.Data.List.Nodup

namespace MbxCache.Foundation

/-- Rows under a primary key that satisfies a check. -/
structure Table (K R : Type) (check : K → Prop) where
  rows : List (K × R)
  unique : (rows.map Prod.fst).Nodup
  checked : ∀ row ∈ rows, check row.1

namespace Table

variable {K R : Type} {check : K → Prop}

def empty : Table K R check where
  rows := []
  unique := List.nodup_nil
  checked := by simp

variable [DecidableEq K]

/-- The row under a key. -/
def find (table : Table K R check) (key : K) : Option R := table.rows.lookup key

/-- The rows a condition selects. -/
def select (table : Table K R check) (condition : K → R → Bool) : List (K × R) :=
  table.rows.filter fun row => condition row.1 row.2

@[simp]
theorem find_empty (key : K) : (empty : Table K R check).find key = none := rfl

theorem mem_rows_of_find {table : Table K R check} {key : K} {row : R}
    (h : table.find key = some row) : (key, row) ∈ table.rows := by
  obtain ⟨before, after, hrows, _⟩ := List.lookup_eq_some_iff.mp h
  simp [hrows]

private theorem lookup_of_mem {key : K} {row : R} :
    ∀ {rows : List (K × R)}, (rows.map Prod.fst).Nodup → (key, row) ∈ rows →
      rows.lookup key = some row
  | [], _, hmem => by cases hmem
  | (other, value) :: rows, hunique, hmem => by
      rw [List.map_cons, List.nodup_cons] at hunique
      rcases List.mem_cons.mp hmem with heq | hrest
      · obtain ⟨rfl, rfl⟩ := Prod.mk.inj heq
        simp
      · have hne : key ≠ other := by
          rintro rfl
          exact hunique.1 (List.mem_map.mpr ⟨(key, row), hrest, rfl⟩)
        have hdiffers : (key == other) = false := by simpa using hne
        rw [List.lookup_cons, hdiffers]
        exact lookup_of_mem hunique.2 hrest

/-- The primary key: a row that is there is the one found. -/
theorem find_eq_some {table : Table K R check} {key : K} {row : R} :
    table.find key = some row ↔ (key, row) ∈ table.rows :=
  ⟨mem_rows_of_find, lookup_of_mem table.unique⟩

theorem find_eq_none {table : Table K R check} {key : K} :
    table.find key = none ↔ ∀ row, (key, row) ∉ table.rows := by
  constructor
  · intro h row hmem
    rw [find_eq_some.mpr hmem] at h
    cases h
  · intro h
    cases hfind : table.find key with
    | none => rfl
    | some row => exact absurd (find_eq_some.mp hfind) (h row)

/-- A key that fails the check finds nothing. -/
theorem find_of_not_check {table : Table K R check} {key : K} (h : ¬ check key) :
    table.find key = none := by
  rw [find_eq_none]
  intro row hmem
  exact h (table.checked _ hmem)

private theorem filter_key (key : K) :
    ∀ {rows : List (K × R)}, (rows.map Prod.fst).Nodup →
      (rows.filter fun row => row.1 = key) = (rows.lookup key).toList.map (key, ·)
  | [], _ => rfl
  | (other, value) :: rows, hunique => by
      rw [List.map_cons, List.nodup_cons] at hunique
      have hrest := filter_key key hunique.2
      by_cases heq : key = other
      · subst heq
        have hnone : rows.lookup key = none := by
          rw [List.lookup_eq_none_iff]
          intro row hmem
          have hne : key ≠ row.1 := fun hkey =>
            hunique.1 (List.mem_map.mpr ⟨row, hmem, hkey.symm⟩)
          simpa using hne
        rw [hnone] at hrest
        rw [List.filter_cons_of_pos (by simp), hrest, List.lookup_cons, beq_self_eq_true]
        rfl
      · have hdiffers : (key == other) = false := by simpa using heq
        rw [List.filter_cons_of_neg (by simpa using fun h => heq h.symm), hrest,
          List.lookup_cons, hdiffers]

/-- A condition on the whole key selects the row under it. -/
theorem select_key (table : Table K R check) (key : K) :
    (table.select fun other _ => other = key) = (table.find key).toList.map (key, ·) :=
  filter_key key table.unique

/-! ## Insertion -/

/-- `INSERT … ON CONFLICT DO NOTHING`. -/
def insertNew (table : Table K R check) (key : K) (row : R) (hcheck : check key) :
    ℕ × Table K R check :=
  if hkey : table.find key = none then
    (1,
      { rows := table.rows ++ [(key, row)]
        unique := by
          rw [List.map_append, List.map_singleton]
          apply List.Nodup.append table.unique (List.nodup_singleton _)
          intro other hold hnew
          obtain rfl := List.mem_singleton.mp hnew
          obtain ⟨old, hmem, rfl⟩ := List.mem_map.mp hold
          exact find_eq_none.mp hkey old.2 hmem
        checked := by
          intro other hmem
          rcases List.mem_append.mp hmem with hold | hnew
          · exact table.checked other hold
          · rw [List.mem_singleton.mp hnew]
            exact hcheck })
  else (0, table)

section Insert

variable {table : Table K R check} {key : K} {row : R} {hcheck : check key}

theorem insertNew_of_none (h : table.find key = none) :
    (table.insertNew key row hcheck).1 = 1 ∧
      ∀ other, (table.insertNew key row hcheck).2.find other =
        if other = key then some row else table.find other := by
  rw [insertNew, dif_pos h]
  refine ⟨rfl, fun other => ?_⟩
  rw [find, List.lookup_append]
  by_cases heq : other = key
  · subst heq
    rw [if_pos rfl, show table.rows.lookup other = none from h]
    simp
  · have hdiffers : (other == key) = false := by simpa using heq
    rw [if_neg heq, List.lookup_cons, hdiffers]
    exact Option.or_none

theorem insertNew_of_some {old : R} (h : table.find key = some old) :
    table.insertNew key row hcheck = (0, table) := by
  rw [insertNew, dif_neg (by simp [h])]

/-- An insertion that affects no row changes nothing. -/
theorem insertNew_of_affected_zero (h : (table.insertNew key row hcheck).1 = 0) :
    (table.insertNew key row hcheck).2 = table := by
  cases hfind : table.find key with
  | none => exact absurd ((insertNew_of_none hfind).1.symm.trans h) Nat.one_ne_zero
  | some old => rw [insertNew_of_some hfind]

end Insert

/-! ## Update -/

/-- `UPDATE … WHERE`: rows keep their keys. -/
def updateWhere (table : Table K R check) (condition : K → R → Bool) (update : R → R) :
    ℕ × Table K R check where
  fst := table.rows.countP fun row => condition row.1 row.2
  snd :=
    { rows := table.rows.map fun row =>
        (row.1, if condition row.1 row.2 then update row.2 else row.2)
      unique := by
        rw [List.map_map]
        exact table.unique
      checked := by
        intro other hmem
        obtain ⟨old, hold, rfl⟩ := List.mem_map.mp hmem
        exact table.checked old hold }

theorem find_updateWhere (table : Table K R check) (condition : K → R → Bool) (update : R → R)
    (key : K) :
    (table.updateWhere condition update).2.find key =
      (table.find key).map fun row => if condition key row then update row else row := by
  cases hfind : table.find key with
  | none =>
      rw [find_eq_none] at hfind
      rw [Option.map_none, find_eq_none]
      intro row hmem
      obtain ⟨old, hold, heq⟩ := List.mem_map.mp hmem
      obtain ⟨rfl, _⟩ := Prod.mk.inj heq
      exact hfind old.2 hold
  | some row =>
      rw [Option.map_some, find_eq_some]
      exact List.mem_map.mpr ⟨(key, row), find_eq_some.mp hfind, rfl⟩

/-- A condition that fixes the key affects the row under it or nothing. -/
theorem affected_updateWhere (key : K) {table : Table K R check} {condition : K → R → Bool}
    {update : R → R} (hkey : ∀ other row, condition other row = true → other = key) :
    (table.updateWhere condition update).1 =
      if (table.find key).any (condition key) then 1 else 0 := by
  have hcount : (table.updateWhere condition update).1 =
      ((table.select fun other _ => other = key).countP fun row => condition row.1 row.2) := by
    rw [select, List.countP_filter]
    apply List.countP_congr
    intro row _
    simpa using hkey row.1 row.2
  rw [hcount, select_key]
  cases table.find key <;> simp [List.countP_singleton]

omit [DecidableEq K] in
/-- An update that affects no row changes nothing. -/
theorem updateWhere_of_affected_zero {table : Table K R check} {condition : K → R → Bool}
    {update : R → R} (h : (table.updateWhere condition update).1 = 0) :
    (table.updateWhere condition update).2 = table := by
  have hnone := List.countP_eq_zero.mp h
  have hrows : (table.rows.map fun row =>
      (row.1, if condition row.1 row.2 then update row.2 else row.2)) = table.rows := by
    conv_rhs => rw [← List.map_id table.rows]
    apply List.map_congr_left
    intro row hrow
    rw [if_neg (hnone row hrow)]
    rfl
  obtain ⟨rows, unique, checked⟩ := table
  exact Table.mk.injEq .. ▸ hrows

/-- `INSERT … ON CONFLICT (key) DO UPDATE`. -/
def upsert (table : Table K R check) (key : K) (row : R) (onConflict : R → R)
    (hcheck : check key) : Table K R check :=
  if table.find key = none then (table.insertNew key row hcheck).2
  else (table.updateWhere (fun other _ => other = key) onConflict).2

theorem find_upsert {table : Table K R check} {key : K} {row : R} {onConflict : R → R}
    {hcheck : check key} (other : K) :
    (table.upsert key row onConflict hcheck).find other =
      if other = key then some ((table.find key).elim row onConflict) else table.find other := by
  cases hfind : table.find key with
  | none =>
      rw [upsert, if_pos hfind]
      exact (insertNew_of_none hfind).2 other
  | some old =>
      rw [upsert, if_neg (by simp [hfind]), find_updateWhere]
      by_cases heq : other = key
      · subst heq
        simp [hfind]
      · rw [if_neg heq]
        cases table.find other <;> simp [heq]

/-! ## Deletion -/

/-- `DELETE … WHERE`. -/
def deleteWhere (table : Table K R check) (condition : K → R → Bool) : ℕ × Table K R check where
  fst := table.rows.countP fun row => condition row.1 row.2
  snd :=
    { rows := table.rows.filter fun row => !condition row.1 row.2
      unique := table.unique.sublist (List.filter_sublist.map _)
      checked := fun row hmem => table.checked row (List.mem_of_mem_filter hmem) }

theorem find_deleteWhere (table : Table K R check) (condition : K → R → Bool) (key : K) :
    (table.deleteWhere condition).2.find key =
      (table.find key).filter fun row => !condition key row := by
  cases hfind : table.find key with
  | none =>
      rw [find_eq_none] at hfind
      rw [Option.filter_none, find_eq_none]
      exact fun row hmem => hfind row (List.mem_of_mem_filter hmem)
  | some row =>
      rw [find_eq_some] at hfind
      by_cases hcondition : condition key row = true
      · rw [Option.filter_some, if_neg (by simpa using hcondition), find_eq_none]
        intro other hmem
        obtain ⟨hold, hkeep⟩ := List.mem_filter.mp hmem
        have hsame := find_eq_some.mpr hold
        rw [find_eq_some.mpr hfind] at hsame
        obtain rfl := Option.some.inj hsame
        simp [hcondition] at hkeep
      · rw [Option.filter_some, if_pos (by simpa using hcondition), find_eq_some]
        exact List.mem_filter.mpr ⟨hfind, by simpa using hcondition⟩

omit [DecidableEq K] in
/-- The rows that were affected are the ones that are gone. -/
theorem affected_deleteWhere (table : Table K R check) (condition : K → R → Bool) :
    (table.deleteWhere condition).1 + (table.deleteWhere condition).2.rows.length =
      table.rows.length := by
  show table.rows.countP _ + (table.rows.filter _).length = _
  rw [← List.countP_eq_length_filter]
  have hsplit : table.rows.length = _ :=
    List.length_eq_countP_add_countP fun row : K × R => condition row.1 row.2
  simpa using hsplit.symm

omit [DecidableEq K] in
/-- A deletion whose condition holds of no row changes nothing. -/
theorem deleteWhere_of_forall_not {table : Table K R check} {condition : K → R → Bool}
    (h : ∀ row ∈ table.rows, condition row.1 row.2 = false) :
    table.deleteWhere condition = (0, table) := by
  have hcount : table.rows.countP (fun row => condition row.1 row.2) = 0 := by
    rw [List.countP_eq_zero]
    intro row hrow
    rw [h row hrow]
    exact Bool.false_ne_true
  have hrows : (table.rows.filter fun row => !condition row.1 row.2) = table.rows := by
    rw [List.filter_eq_self]
    intro row hrow
    rw [h row hrow]
    rfl
  obtain ⟨rows, unique, checked⟩ := table
  exact Prod.ext hcount (Table.mk.injEq .. ▸ hrows)

end Table

end MbxCache.Foundation
