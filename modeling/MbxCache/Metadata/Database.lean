/-
# The database

The three tables of the migrations and the statements the service sends to them.
All three share one primary key, and their checks are part of what a table is.

Parameters are sent as `text` and `jsonb`, neither of which can hold a NUL
character; a statement with one fails before it does anything. Times are counted
from an arbitrary instant, and `now` is that of the statement's transaction.
-/

import Mathlib.Algebra.Order.Ring.Int
import MbxCache.Foundation.Json
import MbxCache.Foundation.Program
import MbxCache.Foundation.Table
import MbxCache.Protocol

namespace MbxCache

open Foundation

/-! ## Tables -/

/-- The primary key of every table; `size` is a `bigint`. -/
structure RowKey where
  ns : String
  algorithm : String
  hash : String
  size : ℤ
  deriving DecidableEq, Repr

/-- The checks on results and blobs. -/
def RowKey.Checked (key : RowKey) : Prop :=
  (key.algorithm = "blake3" ∨ key.algorithm = "sha256") ∧ 0 ≤ key.size

/-- The checks on manifests. -/
def RowKey.ManifestChecked (key : RowKey) : Prop :=
  key.algorithm = "blake3" ∧ 0 ≤ key.size

instance (key : RowKey) : Decidable key.Checked :=
  inferInstanceAs (Decidable (_ ∧ _))

instance (key : RowKey) : Decidable key.ManifestChecked :=
  inferInstanceAs (Decidable (_ ∧ _))

structure BlobRow where
  createdAt : ℕ
  lastAccessedAt : ℕ
  deriving DecidableEq, Repr

structure ManifestRow where
  etag : String
  manifest : Json
  updatedAt : ℕ
  deriving DecidableEq

structure Database where
  actionResults : Table RowKey Json RowKey.Checked
  namespaceBlobs : Table RowKey BlobRow RowKey.Checked
  actionManifests : Table RowKey ManifestRow RowKey.ManifestChecked

/-- The tables as the migrations create them. -/
def Database.empty : Database where
  actionResults := Table.empty
  namespaceBlobs := Table.empty
  actionManifests := Table.empty

/-! ## Statements -/

/-- One row of an unnested list of digests. -/
structure Columns where
  algorithm : String
  hash : String
  size : ℤ
  deriving DecidableEq, Repr

def Columns.at (columns : Columns) (ns : String) : RowKey where
  ns
  algorithm := columns.algorithm
  hash := columns.hash
  size := columns.size

inductive Statement where
  | selectVisible (ns : String) (requested : List Columns)
  | touchBlobs (ns : String) (requested : List Columns)
  | upsertBlob (key : RowKey) (created : Bool)
  | selectResult (key : RowKey)
  | selectResults (ns : String) (requested : List Columns)
  | insertResult (key : RowKey) (result : Json)
  | selectManifest (key : RowKey)
  | updateManifest (key : RowKey) (etag : String) (manifest : Json) (expectedEtag : String)
  | insertManifest (key : RowKey) (etag : String) (manifest : Json)

/-- Rows for a query, and for a write the number of rows it affected. -/
@[reducible]
def Statement.Value : Statement → Type
  | .selectVisible _ _ => List ℤ
  | .touchBlobs _ _ => ℕ
  | .upsertBlob _ _ => ℕ
  | .selectResult _ => Option Json
  | .selectResults _ _ => List (Option Json)
  | .insertResult _ _ => ℕ
  | .selectManifest _ => Option (String × Json)
  | .updateManifest _ _ _ _ => ℕ
  | .insertManifest _ _ _ => ℕ

abbrev Statement.Answer (statement : Statement) : Type := Except String statement.Value

/-! ### Parameters -/

def textParameter (text : String) : Bool := !text.toList.contains '\x00'

mutual

/-- A document none of whose strings and names holds a NUL character. -/
def jsonParameter : Json → Bool
  | .string text => textParameter text
  | .array items => jsonParameters items
  | .object members => memberParameters members
  | _ => true

def jsonParameters : List Json → Bool
  | [] => true
  | item :: items => jsonParameter item && jsonParameters items

def memberParameters : List (String × Json) → Bool
  | [] => true
  | (name, value) :: members =>
      textParameter name && jsonParameter value && memberParameters members

end

def Columns.accepted (columns : Columns) : Bool :=
  textParameter columns.algorithm && textParameter columns.hash

def RowKey.accepted (key : RowKey) : Bool :=
  textParameter key.ns && textParameter key.algorithm && textParameter key.hash

/-- Whether the parameters of a statement can be sent. -/
def Statement.accepted : Statement → Bool
  | .selectVisible ns requested | .touchBlobs ns requested | .selectResults ns requested =>
      textParameter ns && requested.all Columns.accepted
  | .upsertBlob key _ | .selectResult key | .selectManifest key => key.accepted
  | .insertResult key result => key.accepted && jsonParameter result
  | .updateManifest key etag manifest expectedEtag =>
      key.accepted && textParameter etag && jsonParameter manifest && textParameter expectedEtag
  | .insertManifest key etag manifest =>
      key.accepted && textParameter etag && jsonParameter manifest

/-! ### Execution -/

/-- `ACCESS_REFRESH_INTERVAL`, in seconds. -/
def accessRefreshInterval : ℕ := 3600

/-- A list of rows with their ordinality, from one. -/
def unnest {α : Type} (rows : List α) : List (α × ℕ) := rows.zipIdx 1

/-- A subquery in the place of a value. -/
def scalar {K R : Type} : List (K × R) → Except String (Option R)
  | [] => .ok none
  | [row] => .ok (some row.2)
  | _ => .error "more than one row returned by a subquery used as an expression"

namespace Database

/-- The rows of a joined table that belong to a requested row. -/
def joined (db : Database) (ns : String) (columns : Columns) : List (RowKey × BlobRow) :=
  db.namespaceBlobs.select fun key _ =>
    key.algorithm = columns.algorithm && key.hash = columns.hash && key.size = columns.size &&
      key.ns = ns

def selectVisible (db : Database) (ns : String) (requested : List Columns) : List ℤ :=
  let rows := (unnest requested).flatMap fun (columns, ordinality) =>
    (db.joined ns columns).map fun _ => (ordinality : ℤ)
  rows.mergeSort fun first second => first ≤ second

def selectResults (db : Database) (ns : String) (requested : List Columns) :
    Except String (List (Option Json)) := do
  let rows ← (unnest requested).mapM fun (columns, ordinality) => do
    let result ← scalar (db.actionResults.select fun key _ =>
      key.ns = ns && key.algorithm = columns.algorithm && key.hash = columns.hash &&
        key.size = columns.size)
    return (ordinality, result)
  return (rows.mergeSort fun first second => first.1 ≤ second.1).map Prod.snd

def touchBlobs (db : Database) (now : ℕ) (ns : String) (requested : List Columns) :
    ℕ × Database :=
  let written := db.namespaceBlobs.updateWhere
    (fun key row => requested.any (fun columns => key = columns.at ns) &&
      decide (row.lastAccessedAt + accessRefreshInterval < now))
    (fun row => { row with lastAccessedAt := now })
  (written.1, { db with namespaceBlobs := written.2 })

/-- The row of a blob follows the age of the object it names. -/
def upsertBlob (db : Database) (now : ℕ) (key : RowKey) (created : Bool)
    (hcheck : key.Checked) : Database :=
  { db with
    namespaceBlobs := db.namespaceBlobs.upsert key { createdAt := now, lastAccessedAt := now }
      (fun row =>
        { createdAt := if created then now else row.createdAt
          lastAccessedAt := now })
      hcheck }

def updateManifest (db : Database) (now : ℕ) (key : RowKey) (etag : String) (manifest : Json)
    (expectedEtag : String) : ℕ × Database :=
  let written := db.actionManifests.updateWhere
    (fun other row => other = key && row.etag = expectedEtag)
    (fun _ => { etag, manifest, updatedAt := now })
  (written.1, { db with actionManifests := written.2 })

def violated : String := "new row violates check constraint"

/-- What a statement does once its parameters have been sent. -/
def perform (now : ℕ) : (statement : Statement) → Database → statement.Answer × Database
  | .selectVisible ns requested, db => (.ok (db.selectVisible ns requested), db)
  | .touchBlobs ns requested, db =>
      (.ok (db.touchBlobs now ns requested).1, (db.touchBlobs now ns requested).2)
  | .upsertBlob key created, db =>
      if hcheck : key.Checked then (.ok 1, db.upsertBlob now key created hcheck)
      else (.error violated, db)
  | .selectResult key, db => (.ok (db.actionResults.find key), db)
  | .selectResults ns requested, db => (db.selectResults ns requested, db)
  | .insertResult key result, db =>
      if hcheck : key.Checked then
        (.ok (db.actionResults.insertNew key result hcheck).1,
          { db with actionResults := (db.actionResults.insertNew key result hcheck).2 })
      else (.error violated, db)
  | .selectManifest key, db =>
      (.ok ((db.actionManifests.find key).map fun row => (row.etag, row.manifest)), db)
  | .updateManifest key etag manifest expectedEtag, db =>
      (.ok (db.updateManifest now key etag manifest expectedEtag).1,
        (db.updateManifest now key etag manifest expectedEtag).2)
  | .insertManifest key etag manifest, db =>
      if hcheck : key.ManifestChecked then
        let row : ManifestRow := { etag, manifest, updatedAt := now }
        (.ok (db.actionManifests.insertNew key row hcheck).1,
          { db with actionManifests := (db.actionManifests.insertNew key row hcheck).2 })
      else (.error violated, db)

/-- Send a statement. -/
def execute (now : ℕ) (statement : Statement) (db : Database) : statement.Answer × Database :=
  if statement.accepted then db.perform now statement
  else (.error "unsupported NUL character in a parameter", db)

theorem execute_of_accepted {now : ℕ} {statement : Statement} {db : Database}
    (h : statement.accepted = true) : db.execute now statement = db.perform now statement := by
  rw [execute, if_pos h]

/-! ### What a statement does

A checked key is inserted or was there already. -/

section Writes

variable {db : Database} {now : ℕ}

theorem perform_insertResult_of_none {key : RowKey} {result : Json} (hcheck : key.Checked)
    (h : db.actionResults.find key = none) :
    db.perform now (.insertResult key result) =
      (.ok 1, { db with actionResults := (db.actionResults.insertNew key result hcheck).2 }) := by
  rw [perform, dif_pos hcheck, (Table.insertNew_of_none h).1]

theorem perform_insertResult_of_some {key : RowKey} {result value : Json} (hcheck : key.Checked)
    (h : db.actionResults.find key = some value) :
    db.perform now (.insertResult key result) = (.ok 0, db) := by
  rw [perform, dif_pos hcheck, Table.insertNew_of_some h]

theorem perform_insertManifest_of_none {key : RowKey} {etag : String} {manifest : Json}
    (hcheck : key.ManifestChecked) (h : db.actionManifests.find key = none) :
    db.perform now (.insertManifest key etag manifest) =
      (.ok 1, { db with
        actionManifests :=
          (db.actionManifests.insertNew key ⟨etag, manifest, now⟩ hcheck).2 }) := by
  rw [perform, dif_pos hcheck]
  dsimp only
  rw [(Table.insertNew_of_none h).1]

theorem perform_insertManifest_of_some {key : RowKey} {etag : String} {manifest : Json}
    {row : ManifestRow} (hcheck : key.ManifestChecked)
    (h : db.actionManifests.find key = some row) :
    db.perform now (.insertManifest key etag manifest) = (.ok 0, db) := by
  rw [perform, dif_pos hcheck]
  dsimp only
  rw [Table.insertNew_of_some h]

/-- A blob's row starts now, and starts again when the object did. -/
def restarted (now : ℕ) (created : Bool) (old : Option BlobRow) : BlobRow where
  createdAt := old.elim now fun row => if created then now else row.createdAt
  lastAccessedAt := now

theorem find_execute_upsertBlob (key other : RowKey) (created : Bool) :
    (db.execute now (.upsertBlob key created)).2.namespaceBlobs.find other =
      if other = key ∧ key.accepted = true ∧ key.Checked then
        some (restarted now created (db.namespaceBlobs.find key))
      else db.namespaceBlobs.find other := by
  have haccepts : (Statement.upsertBlob key created).accepted = key.accepted := rfl
  by_cases haccepted : key.accepted = true
  · rw [execute_of_accepted (haccepts ▸ haccepted), perform]
    by_cases hcheck : key.Checked
    · rw [dif_pos hcheck]
      dsimp only [upsertBlob]
      rw [Table.find_upsert]
      by_cases heq : other = key
      · rw [if_pos heq, if_pos ⟨heq, haccepted, hcheck⟩]
        cases db.namespaceBlobs.find key <;> rfl
      · rw [if_neg heq, if_neg fun h => heq h.1]
    · rw [dif_neg hcheck, if_neg fun h => hcheck h.2.2]
  · rw [execute, haccepts, if_neg haccepted, if_neg fun h => haccepted h.2.1]

theorem actionResults_execute_upsertBlob (key : RowKey) (created : Bool) :
    (db.execute now (.upsertBlob key created)).2.actionResults = db.actionResults := by
  unfold execute perform
  split
  · dsimp only
    split <;> rfl
  · rfl

/-- An update affects its row exactly where that has the expected entity tag. -/
theorem updateManifest_affected {key : RowKey} {etag : String} {manifest : Json}
    {expectedEtag : String} : (db.updateManifest now key etag manifest expectedEtag).1 =
      if (db.actionManifests.find key).any (·.etag = expectedEtag) then 1 else 0 := by
  rw [updateManifest, Table.affected_updateWhere key]
  · simp
  · intro other row h
    rw [Bool.and_eq_true, decide_eq_true_eq] at h
    exact h.1

theorem find_updateManifest (key other : RowKey) (etag : String) (manifest : Json)
    (expectedEtag : String) :
    (db.updateManifest now key etag manifest expectedEtag).2.actionManifests.find other =
      if other = key ∧ (db.actionManifests.find key).any (·.etag = expectedEtag) = true then
        some ⟨etag, manifest, now⟩
      else db.actionManifests.find other := by
  rw [updateManifest, Table.find_updateWhere]
  by_cases heq : other = key
  · subst heq
    cases hfind : db.actionManifests.find other with
    | none => simp
    | some row => by_cases hetag : row.etag = expectedEtag <;> simp [hetag]
  · simp [heq]

end Writes

/-! ### What a query finds -/

theorem joined_eq (db : Database) (ns : String) (columns : Columns) :
    db.joined ns columns =
      (db.namespaceBlobs.find (columns.at ns)).toList.map (columns.at ns, ·) := by
  rw [← Table.select_key, joined]
  congr
  funext key _
  rw [Bool.eq_iff_iff]
  obtain ⟨keyNs, algorithm, hash, size⟩ := key
  simp [Columns.at, and_comm, and_left_comm]

/-- Ordinalities ascend, so the order asked for is the order of the request. -/
theorem pairwise_unnest {α : Type} (rows : List α) :
    (unnest rows).Pairwise fun first second => first.2 ≤ second.2 := by
  have hordinals : ((unnest rows).map Prod.snd).Pairwise (· < ·) := by
    rw [unnest, List.zipIdx_map_snd]
    exact List.pairwise_lt_range'
  exact (List.pairwise_map.mp hordinals).imp fun h => Nat.le_of_lt h

/-- The ordinalities of the requested rows that have a blob. -/
theorem selectVisible_eq (db : Database) (ns : String) (requested : List Columns) :
    db.selectVisible ns requested =
      ((unnest requested).filter fun row =>
        (db.namespaceBlobs.find (row.1.at ns)).isSome).map fun row => (row.2 : ℤ) := by
  have hrows : ((unnest requested).flatMap fun (columns, ordinality) =>
      (db.joined ns columns).map fun _ => (ordinality : ℤ)) =
        ((unnest requested).filter fun row =>
          (db.namespaceBlobs.find (row.1.at ns)).isSome).map fun row => (row.2 : ℤ) := by
    induction unnest requested with
    | nil => rfl
    | cons row rows ih =>
        obtain ⟨columns, ordinality⟩ := row
        rw [List.flatMap_cons, ih]
        dsimp only
        rw [joined_eq]
        cases hfind : db.namespaceBlobs.find (columns.at ns) <;> simp [hfind]
  rw [selectVisible, hrows]
  apply List.mergeSort_of_pairwise
  rw [List.pairwise_map]
  apply ((pairwise_unnest requested).filter _).imp
  intro first second hle
  simpa using hle

private theorem mapM_selectResults (db : Database) (ns : String) (rows : List (Columns × ℕ)) :
    (rows.mapM fun (columns, ordinality) => do
        let result ← scalar (db.actionResults.select fun key _ =>
          key.ns = ns && key.algorithm = columns.algorithm && key.hash = columns.hash &&
            key.size = columns.size)
        return (ordinality, result) : Except String (List (ℕ × Option Json))) =
      .ok (rows.map fun row => (row.2, db.actionResults.find (row.1.at ns))) := by
  induction rows with
  | nil => rfl
  | cons row rows ih =>
      obtain ⟨columns, ordinality⟩ := row
      have hselect : (db.actionResults.select fun key _ =>
          key.ns = ns && key.algorithm = columns.algorithm && key.hash = columns.hash &&
            key.size = columns.size) =
          (db.actionResults.find (columns.at ns)).toList.map (columns.at ns, ·) := by
        rw [← Table.select_key]
        congr
        funext key _
        rw [Bool.eq_iff_iff]
        obtain ⟨keyNs, algorithm, hash, size⟩ := key
        simp [Columns.at, and_assoc]
      have hscalar : scalar ((db.actionResults.find (columns.at ns)).toList.map
          (columns.at ns, ·)) = .ok (db.actionResults.find (columns.at ns)) := by
        cases db.actionResults.find (columns.at ns) <;> rfl
      rw [List.mapM_cons, ih]
      dsimp only
      rw [hselect, hscalar]
      rfl

/-- One result or null for each requested row, in its place. -/
theorem selectResults_eq (db : Database) (ns : String) (requested : List Columns) :
    db.selectResults ns requested =
      .ok (requested.map fun columns => db.actionResults.find (columns.at ns)) := by
  rw [selectResults, mapM_selectResults]
  have hsorted : ((unnest requested).map fun row =>
      (row.2, db.actionResults.find (row.1.at ns))).mergeSort
        (fun first second => first.1 ≤ second.1) =
      (unnest requested).map fun row => (row.2, db.actionResults.find (row.1.at ns)) := by
    apply List.mergeSort_of_pairwise
    rw [List.pairwise_map]
    apply (pairwise_unnest requested).imp
    intro first second hle
    simpa using hle
  show Except.ok _ = _
  rw [hsorted, List.map_map]
  apply congrArg Except.ok
  conv_rhs => rw [← List.zipIdx_map_fst 1 requested, List.map_map]
  rfl

end Database

end MbxCache
