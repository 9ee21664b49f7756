/-
# Sweeping metadata

The three deletions of a sweep, in one transaction: blobs past an age, the action
results that are left with a top-level reference to no blob of their namespace,
and manifests that were not updated for as long. `now` is the time at which the
transaction began, and every statement sees what the ones before it did.

A stored result is looked into with the operators of `jsonb`. They find nothing
in a value that is not an object, and a size that is not a `bigint` is an error.
-/

import MbxCache.Metadata.Equivalence

namespace MbxCache

open Foundation

structure SweepOutcome where
  blobs : ℕ
  actionResults : ℕ
  manifests : ℕ
  deriving DecidableEq, Repr

/-! ## Looking into a document -/

/-- `->`. -/
def jsonMember (value : Json) (name : String) : Option Json :=
  value.asObject.bind fun members => lookupMember members name

/-- `->>`, but for the texts of fractions and nested values, which no column holds. -/
def jsonText (value : Json) (name : String) : Option String :=
  match jsonMember value name with
  | some (.string text) => some text
  | some (.bool value) => some (if value then "true" else "false")
  | some (.number (.posInt number)) => some (toString number.toNat)
  | some (.number (.negInt number)) => some (toString number)
  | _ => none

def bigint (number : ℤ) : Except String (Option ℤ) :=
  if -2 ^ 63 ≤ number ∧ number < 2 ^ 63 then .ok (some number) else .error "bigint out of range"

/-- `->> …::bigint`. -/
def jsonBigint (value : Json) (name : String) : Except String (Option ℤ) :=
  match jsonMember value name with
  | none | some .null => .ok none
  | some (.number (.posInt size)) => bigint size.toNat
  | some (.number (.negInt size)) => bigint size
  | some (.string size) =>
      match size.trimAscii.toInt? with
      | some size => bigint size
      | none => .error "invalid input syntax for type bigint"
  | some _ => .error "invalid input syntax for type bigint"

namespace Database

/-! ## The deletions -/

/-- Rows whose time is before `now - age`. -/
def expired (now age time : ℕ) : Bool := decide (time + age < now)

def deleteBlobs (db : Database) (now age : ℕ) : ℕ × Database :=
  let deleted := db.namespaceBlobs.deleteWhere fun _ row => expired now age row.createdAt
  (deleted.1, { db with namespaceBlobs := deleted.2 })

/-- A reference that is an object and names no blob of the namespace. -/
def danglingReference (db : Database) (ns : String) (reference : Option Json) :
    Except String Bool :=
  match reference with
  | some (.object members) => do
      let digest := Json.object members
      let size ← jsonBigint digest "size"
      return !db.namespaceBlobs.rows.any fun row =>
        row.1.ns = ns && jsonText digest "algorithm" = some row.1.algorithm &&
          jsonText digest "hash" = some row.1.hash && size = some row.1.size
  | _ => .ok false

/-- Only the top-level objects are checked. -/
def dangling (db : Database) (ns : String) (result : Json) : Except String Bool := do
  let metadata ← db.danglingReference ns (jsonMember result "metadata")
  let outputRoot ← db.danglingReference ns (jsonMember result "output_root")
  return metadata || outputRoot

def deleteDangling (db : Database) : Except String (ℕ × Database) := do
  let _ ← db.actionResults.rows.mapM fun row => db.dangling row.1.ns row.2
  let deleted := db.actionResults.deleteWhere fun key result =>
    (db.dangling key.ns result).toOption.getD false
  return (deleted.1, { db with actionResults := deleted.2 })

def deleteManifests (db : Database) (now age : ℕ) : ℕ × Database :=
  let deleted := db.actionManifests.deleteWhere fun _ row => expired now age row.updatedAt
  (deleted.1, { db with actionManifests := deleted.2 })

/-- `older_than_days` as an interval. -/
def sweepAge (olderThanDays : ℕ) : ℕ := olderThanDays * 86400

/-- A sweep with nothing beside it. A statement that fails rolls it back. -/
def sweep (db : Database) (now olderThanDays : ℕ) : Except String SweepOutcome × Database :=
  let age := sweepAge olderThanDays
  let blobs := db.deleteBlobs now age
  match blobs.2.deleteDangling with
  | .error error => (.error error, db)
  | .ok actionResults =>
      let manifests := actionResults.2.deleteManifests now age
      (.ok { blobs := blobs.1, actionResults := actionResults.1, manifests := manifests.1 },
        manifests.2)

/-! ## What a sweep removes -/

section Sweep

variable {db : Database} {now : ℕ}

theorem expired_eq_false {age time : ℕ} : expired now age time = false ↔ now ≤ time + age := by
  rw [expired, decide_eq_false_iff_not, Nat.not_lt]

theorem sweepAge_mono {days days' : ℕ} (h : days ≤ days') : sweepAge days ≤ sweepAge days' :=
  Nat.mul_le_mul_right _ h

theorem find_deleteBlobs (db : Database) (now age : ℕ) (key : RowKey) :
    (db.deleteBlobs now age).2.namespaceBlobs.find key =
      (db.namespaceBlobs.find key).filter fun row => !expired now age row.createdAt := by
  rw [deleteBlobs]
  exact Table.find_deleteWhere db.namespaceBlobs
    (fun _ row => expired now age row.createdAt) key

theorem deleteDangling_namespaceBlobs {after : ℕ × Database} (h : db.deleteDangling = .ok after) :
    after.2.namespaceBlobs = db.namespaceBlobs := by
  obtain ⟨_, _, h⟩ := bind_eq_ok.mp h
  rw [← Except.ok.inj h]

theorem deleteDangling_of_no_results {db : Database} (h : db.actionResults.rows = []) :
    ∃ after, db.deleteDangling = .ok after ∧ after.2.actionResults.rows = [] := by
  unfold deleteDangling
  rw [h]
  refine ⟨_, rfl, ?_⟩
  show db.actionResults.rows.filter _ = []
  rw [h, List.filter_nil]

/-- A sweep fails without effect, or removes exactly the blob rows past its age. -/
theorem sweep_namespaceBlobs (db : Database) (now olderThanDays : ℕ) :
    (db.sweep now olderThanDays).2 = db ∨
      ∀ key, (db.sweep now olderThanDays).2.namespaceBlobs.find key =
        (db.namespaceBlobs.find key).filter fun row =>
          !expired now (sweepAge olderThanDays) row.createdAt := by
  unfold sweep
  dsimp only
  cases hresults : (db.deleteBlobs now (sweepAge olderThanDays)).2.deleteDangling with
  | error error => exact .inl rfl
  | ok after =>
      right
      intro key
      rw [← find_deleteBlobs, ← deleteDangling_namespaceBlobs hresults]
      rfl

/-- Without results there is nothing to fail on. -/
theorem sweep_of_no_results (h : db.actionResults.rows = []) (now olderThanDays : ℕ) :
    (db.sweep now olderThanDays).2.actionResults.rows = [] ∧
      ∀ key, (db.sweep now olderThanDays).2.namespaceBlobs.find key =
        (db.namespaceBlobs.find key).filter fun row =>
          !expired now (sweepAge olderThanDays) row.createdAt := by
  let blobs := (db.deleteBlobs now (sweepAge olderThanDays)).2
  have hblobs : blobs.actionResults.rows = [] := h
  obtain ⟨after, hafter, hnone⟩ := deleteDangling_of_no_results hblobs
  unfold sweep
  dsimp only
  rw [hafter]
  refine ⟨hnone, fun key => ?_⟩
  rw [← find_deleteBlobs, ← deleteDangling_namespaceBlobs hafter]
  rfl

/-- Rows are left out of the tables and none is changed. -/
structure Shrinks (db later : Database) : Prop where
  namespaceBlobs : ∀ key, later.namespaceBlobs.find key = db.namespaceBlobs.find key ∨
    later.namespaceBlobs.find key = none
  actionResults : ∀ key, later.actionResults.find key = db.actionResults.find key ∨
    later.actionResults.find key = none
  actionManifests : ∀ key, later.actionManifests.find key = db.actionManifests.find key ∨
    later.actionManifests.find key = none

theorem shrinks_rfl (db : Database) : db.Shrinks db where
  namespaceBlobs _ := .inl rfl
  actionResults _ := .inl rfl
  actionManifests _ := .inl rfl

theorem find_deleteWhere_or {K R : Type} [DecidableEq K] {check : K → Prop}
    (table : Table K R check) (condition : K → R → Bool) (key : K) :
    (table.deleteWhere condition).2.find key = table.find key ∨
      (table.deleteWhere condition).2.find key = none := by
  rw [Table.find_deleteWhere]
  cases table.find key with
  | none => exact .inl rfl
  | some row =>
      rw [Option.filter_some]
      split
      · exact .inl rfl
      · exact .inr rfl

theorem sweep_shrinks (db : Database) (now olderThanDays : ℕ) :
    db.Shrinks (db.sweep now olderThanDays).2 := by
  unfold sweep
  dsimp only
  cases hresults : (db.deleteBlobs now (sweepAge olderThanDays)).2.deleteDangling with
  | error error => exact shrinks_rfl db
  | ok after =>
      obtain ⟨_, _, hdeleted⟩ := bind_eq_ok.mp hresults
      rw [← Except.ok.inj hdeleted]
      dsimp only
      constructor
      · exact find_deleteWhere_or db.namespaceBlobs
          fun _ row => expired now (sweepAge olderThanDays) row.createdAt
      · exact find_deleteWhere_or db.actionResults fun key result =>
          ((db.deleteBlobs now (sweepAge olderThanDays)).2.dangling key.ns result).toOption.getD
            false
      · exact find_deleteWhere_or db.actionManifests
          fun _ row => expired now (sweepAge olderThanDays) row.updatedAt

/-- What is left still stands for contents of the store. -/
theorem Shrinks.holds {crates : Crates} {later : Database} {view : MetadataView}
    (hshrinks : db.Shrinks later) (h : PostgresMetadata.Holds crates db view) :
    ∃ left, PostgresMetadata.Holds crates later left := by
  let left : MetadataView :=
    { visible := {key | (later.namespaceBlobs.find (rowKey key.1 key.2)).isSome = true}
      result := fun key =>
        if (later.actionResults.find (rowKey key.1 key.2)).isSome then view.result key else none
      manifest := fun key =>
        if (later.actionManifests.find (rowKey key.1 key.2)).isSome then view.manifest key
        else none }
  refine ⟨left, fun ns digest => Iff.rfl, fun ns digest => ?_, fun ns digest => ?_⟩
  · have hresult := h.result ns digest
    rcases hshrinks.actionResults (rowKey ns digest) with hsame | hgone
    · cases hfind : db.actionResults.find (rowKey ns digest) with
      | none => simp [left, hsame, hfind]
      | some value => simpa [left, hsame, hfind] using hresult
    · simp [left, hgone]
  · have hmanifest := h.manifest ns digest
    rcases hshrinks.actionManifests (rowKey ns digest) with hsame | hgone
    · cases hfind : db.actionManifests.find (rowKey ns digest) with
      | none => simp [left, hsame, hfind]
      | some row => simpa [left, hsame, hfind] using hmanifest
    · simp [left, hgone]

end Sweep

/-! ## Exactly what is left

Stated by what a reference names, not by the deletions. -/

/-- A top-level reference of a result. -/
def References (result digest : Json) : Prop :=
  (jsonMember result "metadata" = some digest ∨ jsonMember result "output_root" = some digest) ∧
    digest.asObject.isSome = true

/-- A blob row whose key has the algorithm, the hash and the size of a digest. -/
structure Names (digest : Json) (key : RowKey) : Prop where
  algorithm : jsonText digest "algorithm" = some key.algorithm
  hash : jsonText digest "hash" = some key.hash
  size : jsonBigint digest "size" = .ok (some key.size)

/-- Every top-level reference of a result names a blob row of its namespace. -/
def Resolved (db : Database) (ns : String) (result : Json) : Prop :=
  ∀ digest, References result digest →
    ∃ key, Names digest key ∧ key.ns = ns ∧ (db.namespaceBlobs.find key).isSome = true

/-- The sizes of the top-level references are those of a `bigint`. -/
def Castable (db : Database) : Prop :=
  ∀ key result, db.actionResults.find key = some result →
    ∀ digest, References result digest → ∃ size, jsonBigint digest "size" = .ok size

/-- What a sweep has to leave of a database, and to report. -/
structure Swept (db left : Database) (now age : ℕ) (outcome : SweepOutcome) : Prop where
  namespaceBlobs : ∀ key row, left.namespaceBlobs.find key = some row ↔
    db.namespaceBlobs.find key = some row ∧ now ≤ row.createdAt + age
  actionResults : ∀ key result, left.actionResults.find key = some result ↔
    db.actionResults.find key = some result ∧ left.Resolved key.ns result
  actionManifests : ∀ key row, left.actionManifests.find key = some row ↔
    db.actionManifests.find key = some row ∧ now ≤ row.updatedAt + age
  blobsRemoved : outcome.blobs + left.namespaceBlobs.rows.length = db.namespaceBlobs.rows.length
  resultsRemoved : outcome.actionResults + left.actionResults.rows.length =
    db.actionResults.rows.length
  manifestsRemoved : outcome.manifests + left.actionManifests.rows.length =
    db.actionManifests.rows.length

section Exact

variable {db : Database} {ns : String} {result : Json}

theorem danglingReference_of_object {digest : Json} (h : digest.asObject.isSome = true) :
    db.danglingReference ns (some digest) = (do
      let size ← jsonBigint digest "size"
      return !db.namespaceBlobs.rows.any fun row =>
        row.1.ns = ns && jsonText digest "algorithm" = some row.1.algorithm &&
          jsonText digest "hash" = some row.1.hash && size = some row.1.size) := by
  cases digest with
  | object members => rfl
  | null | bool | number | string | array => cases h

/-- A reference that is not there, or no object, is not dangling. -/
theorem danglingReference_of_not_object {reference : Option Json}
    (h : ∀ digest, reference = some digest → digest.asObject.isSome = false) :
    db.danglingReference ns reference = .ok false := by
  cases reference with
  | none => rfl
  | some digest =>
      cases digest with
      | object members => cases h _ rfl
      | null | bool | number | string | array => rfl

/-- The subquery finds a row exactly for a digest that names one of the namespace. -/
theorem danglingReference_eq_false {reference : Option Json} :
    db.danglingReference ns reference = .ok false ↔
      ∀ digest, reference = some digest → digest.asObject.isSome = true →
        ∃ key, Names digest key ∧ key.ns = ns ∧ (db.namespaceBlobs.find key).isSome = true := by
  by_cases hobject : ∃ digest, reference = some digest ∧ digest.asObject.isSome = true
  · obtain ⟨digest, rfl, hobject⟩ := hobject
    rw [danglingReference_of_object hobject, bind_eq_ok]
    constructor
    · rintro ⟨size, hsize, hfound⟩ other hother _
      obtain rfl := Option.some.inj hother
      have hany := Bool.not_eq_eq_eq_not.mp (Except.ok.inj hfound)
      obtain ⟨row, hrow, hnames⟩ := List.any_eq_true.mp hany
      simp only [Bool.and_eq_true, decide_eq_true_eq] at hnames
      obtain ⟨⟨⟨hns, halgorithm⟩, hhash⟩, rfl⟩ := hnames
      refine ⟨row.1, ⟨halgorithm, hhash, hsize⟩, hns, ?_⟩
      rw [Table.find_eq_some.mpr hrow]
      rfl
    · intro h
      obtain ⟨key, hnames, hns, hfind⟩ := h digest rfl hobject
      obtain ⟨row, hrow⟩ := Option.isSome_iff_exists.mp hfind
      refine ⟨some key.size, hnames.size, congrArg Except.ok ?_⟩
      rw [Bool.not_eq_false', List.any_eq_true]
      refine ⟨(key, row), Table.find_eq_some.mp hrow, ?_⟩
      simp [hns, hnames.algorithm, hnames.hash]
  · have hnone : ∀ digest, reference = some digest → digest.asObject.isSome = false := by
      intro digest hdigest
      rw [← Bool.not_eq_true]
      exact fun hsome => hobject ⟨digest, hdigest, hsome⟩
    rw [danglingReference_of_not_object hnone]
    constructor
    · intro _ digest hdigest hsome
      rw [hnone digest hdigest] at hsome
      cases hsome
    · exact fun _ => rfl

/-- Only the cast can fail. -/
theorem exists_danglingReference (db : Database) (ns : String) {reference : Option Json}
    (h : ∀ digest, reference = some digest → digest.asObject.isSome = true →
      ∃ size, jsonBigint digest "size" = .ok size) :
    ∃ found, db.danglingReference ns reference = .ok found := by
  by_cases hobject : ∃ digest, reference = some digest ∧ digest.asObject.isSome = true
  · obtain ⟨digest, rfl, hobject⟩ := hobject
    obtain ⟨size, hsize⟩ := h digest rfl hobject
    rw [danglingReference_of_object hobject, hsize]
    exact ⟨_, rfl⟩
  · refine ⟨false, danglingReference_of_not_object fun digest hdigest => ?_⟩
    rw [← Bool.not_eq_true]
    exact fun hsome => hobject ⟨digest, hdigest, hsome⟩

theorem dangling_eq_false :
    db.dangling ns result = .ok false ↔ db.Resolved ns result := by
  have hboth : db.dangling ns result = .ok false ↔
      db.danglingReference ns (jsonMember result "metadata") = .ok false ∧
        db.danglingReference ns (jsonMember result "output_root") = .ok false := by
    rw [dangling, bind_eq_ok]
    constructor
    · rintro ⟨metadata, hmetadata, h⟩
      obtain ⟨outputRoot, houtputRoot, heither⟩ := bind_eq_ok.mp h
      obtain ⟨rfl, rfl⟩ := Bool.or_eq_false_iff.mp (Except.ok.inj heither)
      exact ⟨hmetadata, houtputRoot⟩
    · rintro ⟨hmetadata, houtputRoot⟩
      refine ⟨false, hmetadata, ?_⟩
      rw [houtputRoot]
      rfl
  rw [hboth, danglingReference_eq_false, danglingReference_eq_false]
  constructor
  · rintro ⟨hmetadata, houtputRoot⟩ digest ⟨hmember | hmember, hobject⟩
    · exact hmetadata digest hmember hobject
    · exact houtputRoot digest hmember hobject
  · intro h
    exact ⟨fun digest hmember hobject => h digest ⟨.inl hmember, hobject⟩,
      fun digest hmember hobject => h digest ⟨.inr hmember, hobject⟩⟩

theorem exists_dangling (db : Database) (ns : String) (h : ∀ digest, References result digest →
    ∃ size, jsonBigint digest "size" = .ok size) :
    ∃ found, db.dangling ns result = .ok found := by
  obtain ⟨metadata, hmetadata⟩ :=
    exists_danglingReference db ns fun digest hmember hobject => h digest ⟨.inl hmember, hobject⟩
  obtain ⟨outputRoot, houtputRoot⟩ :=
    exists_danglingReference db ns fun digest hmember hobject => h digest ⟨.inr hmember, hobject⟩
  rw [dangling, hmetadata]
  show ∃ found, (do
    let outputRoot ← db.danglingReference ns (jsonMember result "output_root")
    return metadata || outputRoot) = Except.ok found
  rw [houtputRoot]
  exact ⟨_, rfl⟩

/-- Whether a result is resolved depends on the blob rows alone. -/
theorem resolved_congr {other : Database} (h : db.namespaceBlobs = other.namespaceBlobs) :
    db.Resolved ns result ↔ other.Resolved ns result := by
  unfold Resolved
  rw [h]

/-- The second deletion takes the unresolved results and touches no other table. -/
theorem deleteDangling_of_castable (h : db.Castable) :
    ∃ after, db.deleteDangling = .ok after ∧
      (∀ key result, after.2.actionResults.find key = some result ↔
        db.actionResults.find key = some result ∧ db.Resolved key.ns result) ∧
      after.1 + after.2.actionResults.rows.length = db.actionResults.rows.length ∧
      after.2.namespaceBlobs = db.namespaceBlobs ∧
      after.2.actionManifests = db.actionManifests := by
  have hrows : ∀ row ∈ db.actionResults.rows, ∃ found, db.dangling row.1.ns row.2 = .ok found := by
    intro row hrow
    exact exists_dangling db row.1.ns (h row.1 row.2 (Table.find_eq_some.mpr hrow))
  obtain ⟨_, hchecked⟩ := exists_mapM_of_forall hrows
  let deleted := db.actionResults.deleteWhere fun key result =>
    (db.dangling key.ns result).toOption.getD false
  refine ⟨(deleted.1, { db with actionResults := deleted.2 }), ?_, fun key result => ?_, ?_, rfl,
    rfl⟩
  · rw [deleteDangling, hchecked]
    rfl
  · show deleted.2.find key = some result ↔ _
    rw [Table.find_deleteWhere, Option.filter_eq_some_iff, ← dangling_eq_false]
    apply and_congr_right
    intro hfind
    obtain ⟨found, hfound⟩ := exists_dangling db key.ns (h key result hfind)
    rw [hfound]
    cases found <;> simp [Except.toOption]
  · exact Table.affected_deleteWhere db.actionResults fun key result =>
      (db.dangling key.ns result).toOption.getD false

theorem find_deleteManifests (db : Database) (now age : ℕ) (key : RowKey) :
    (db.deleteManifests now age).2.actionManifests.find key =
      (db.actionManifests.find key).filter fun row => !expired now age row.updatedAt := by
  rw [deleteManifests]
  exact Table.find_deleteWhere db.actionManifests
    (fun _ row => expired now age row.updatedAt) key

theorem filter_unexpired {R : Type} {now age : ℕ} {time : R → ℕ} {found : Option R} {row : R} :
    (found.filter fun row => !expired now age (time row)) = some row ↔
      found = some row ∧ now ≤ time row + age := by
  rw [Option.filter_eq_some_iff, Bool.not_eq_true', expired_eq_false]

/-- A sweep alone, where every cast succeeds. -/
theorem exists_swept (h : db.Castable) (now olderThanDays : ℕ) :
    ∃ outcome left, db.sweep now olderThanDays = (.ok outcome, left) ∧
      db.Swept left now (sweepAge olderThanDays) outcome := by
  let blobs := db.deleteBlobs now (sweepAge olderThanDays)
  have hcastable : blobs.2.Castable := h
  obtain ⟨after, hafter, hresults, hcount, hblobs, hmanifests⟩ :=
    deleteDangling_of_castable hcastable
  let manifests := after.2.deleteManifests now (sweepAge olderThanDays)
  have hleft : manifests.2.namespaceBlobs = blobs.2.namespaceBlobs := hblobs
  have hsweep : db.sweep now olderThanDays =
      (.ok { blobs := blobs.1, actionResults := after.1, manifests := manifests.1 },
        manifests.2) := by
    rw [sweep, hafter]
  refine ⟨_, _, hsweep, ⟨fun key row => ?_, fun key result => ?_,
    fun key row => ?_, ?_, hcount, ?_⟩⟩
  · rw [hleft, find_deleteBlobs, filter_unexpired]
  · rw [resolved_congr hleft]
    exact hresults key result
  · rw [find_deleteManifests, filter_unexpired, hmanifests]
    rfl
  · rw [hleft]
    exact Table.affected_deleteWhere db.namespaceBlobs fun _ row =>
      expired now (sweepAge olderThanDays) row.createdAt
  · have hrows : manifests.1 + manifests.2.actionManifests.rows.length =
        after.2.actionManifests.rows.length :=
      Table.affected_deleteWhere after.2.actionManifests fun _ row =>
        expired now (sweepAge olderThanDays) row.updatedAt
    rw [hmanifests] at hrows
    exact hrows

section Consequences

variable {left other : Database} {now age age' : ℕ} {outcome outcome' : SweepOutcome}

/-- A second sweep finds nothing. -/
theorem Swept.sweep_again {olderThanDays : ℕ}
    (hswept : db.Swept left now (sweepAge olderThanDays) outcome) :
    left.sweep now olderThanDays =
      (.ok { blobs := 0, actionResults := 0, manifests := 0 }, left) := by
  have hblobs : left.deleteBlobs now (sweepAge olderThanDays) = (0, left) := by
    rw [deleteBlobs, Table.deleteWhere_of_forall_not]
    intro row hrow
    have hfind := Table.find_eq_some.mpr hrow
    exact expired_eq_false.mpr ((hswept.namespaceBlobs row.1 row.2).mp hfind).2
  have hresults : left.deleteDangling = .ok (0, left) := by
    have hkept : ∀ row ∈ left.actionResults.rows, left.dangling row.1.ns row.2 = .ok false := by
      intro row hrow
      have hfind := Table.find_eq_some.mpr hrow
      exact dangling_eq_false.mpr ((hswept.actionResults row.1 row.2).mp hfind).2
    obtain ⟨_, hchecked⟩ := exists_mapM_of_forall fun row hrow => ⟨false, hkept row hrow⟩
    rw [deleteDangling, hchecked]
    show Except.ok _ = _
    rw [Table.deleteWhere_of_forall_not]
    intro row hrow
    rw [hkept row hrow]
    rfl
  have hmanifests : left.deleteManifests now (sweepAge olderThanDays) = (0, left) := by
    rw [deleteManifests, Table.deleteWhere_of_forall_not]
    intro row hrow
    have hfind := Table.find_eq_some.mpr hrow
    exact expired_eq_false.mpr ((hswept.actionManifests row.1 row.2).mp hfind).2
  rw [sweep, hblobs]
  dsimp only
  rw [hresults]
  dsimp only
  rw [hmanifests]

theorem find_eq_or_none {K R : Type} [DecidableEq K] {check : K → Prop}
    {table later : Table K R check} {key : K}
    (h : ∀ row, later.find key = some row → table.find key = some row) :
    later.find key = table.find key ∨ later.find key = none := by
  cases hfind : later.find key with
  | none => exact .inr rfl
  | some row => exact .inl (h row hfind).symm

/-- Where the age is larger, less is removed. -/
theorem Swept.shrinks (hswept : db.Swept left now age outcome)
    (hlonger : db.Swept other now age' outcome') (hage : age ≤ age') : other.Shrinks left := by
  have hblobs : ∀ key row, left.namespaceBlobs.find key = some row →
      other.namespaceBlobs.find key = some row := by
    intro key row hfind
    obtain ⟨hold, htime⟩ := (hswept.namespaceBlobs key row).mp hfind
    exact (hlonger.namespaceBlobs key row).mpr ⟨hold, htime.trans (Nat.add_le_add_left hage _)⟩
  constructor
  · intro key
    exact find_eq_or_none (hblobs key)
  · intro key
    apply find_eq_or_none
    intro result hfind
    obtain ⟨hold, hresolved⟩ := (hswept.actionResults key result).mp hfind
    apply (hlonger.actionResults key result).mpr
    apply And.intro hold
    intro digest hdigest
    obtain ⟨named, hnames, hns, hrow⟩ := hresolved digest hdigest
    obtain ⟨row, hrow⟩ := Option.isSome_iff_exists.mp hrow
    refine ⟨named, hnames, hns, ?_⟩
    rw [hblobs named row hrow]
    rfl
  · intro key
    apply find_eq_or_none
    intro row hfind
    obtain ⟨hold, htime⟩ := (hswept.actionManifests key row).mp hfind
    exact (hlonger.actionManifests key row).mpr ⟨hold, htime.trans (Nat.add_le_add_left hage _)⟩

end Consequences

/-- A sweep that fails has no effect. -/
theorem sweep_of_error {error : String} {now olderThanDays : ℕ}
    (h : (db.sweep now olderThanDays).1 = .error error) : (db.sweep now olderThanDays).2 = db := by
  unfold sweep at h ⊢
  dsimp only at h ⊢
  cases hresults : (db.deleteBlobs now (sweepAge olderThanDays)).2.deleteDangling with
  | error error => rfl
  | ok after =>
      rw [hresults] at h
      cases h

end Exact

/-- Run alone where every cast succeeds, a sweep leaves exactly the blobs and manifests
within the age and the results that are resolved by what is left, so none dangles
afterwards. A second sweep removes nothing, one with a larger age removes no more, and
a sweep that fails removes nothing at all. -/
theorem sweep_removes_exactly :
    (∀ (db : Database) (now olderThanDays : ℕ), db.Castable →
      ∃ outcome left, db.sweep now olderThanDays = (.ok outcome, left) ∧
        db.Swept left now (sweepAge olderThanDays) outcome ∧
        (∀ key result, left.actionResults.find key = some result → left.Resolved key.ns result) ∧
        (∀ key result, db.actionResults.find key = some result → left.Resolved key.ns result →
          left.actionResults.find key = some result) ∧
        left.sweep now olderThanDays =
          (.ok { blobs := 0, actionResults := 0, manifests := 0 }, left) ∧
        ∀ longer, olderThanDays ≤ longer → (db.sweep now longer).2.Shrinks left) ∧
    ∀ (db : Database) (now olderThanDays : ℕ) (error : String),
      (db.sweep now olderThanDays).1 = .error error → (db.sweep now olderThanDays).2 = db := by
  constructor
  · intro db now olderThanDays hcastable
    obtain ⟨outcome, left, hsweep, hswept⟩ := exists_swept hcastable now olderThanDays
    refine ⟨outcome, left, hsweep, hswept, fun key result hfind => ?_,
      fun key result hfind hresolved => ?_, hswept.sweep_again,
      fun longer hlonger => ?_⟩
    · exact ((hswept.actionResults key result).mp hfind).2
    · exact (hswept.actionResults key result).mpr ⟨hfind, hresolved⟩
    · obtain ⟨outcome', other, hsweep', hswept'⟩ := exists_swept hcastable now longer
      rw [hsweep']
      exact hswept.shrinks hswept' (sweepAge_mono hlonger)
  · intro db now olderThanDays error h
    exact sweep_of_error h

/-! ### A size that is no `bigint`

The result that holds it could not be stored by a request, which looks for the blob
first. -/

def heldHash : String := "aaaaaaaaaaaaaaaaaaaaaaaaaaaaaaaaaaaaaaaaaaaaaaaaaaaaaaaaaaaaaaaa"

def heldKey : RowKey where
  ns := "acme/app"
  algorithm := "blake3"
  hash := heldHash
  size := 1

/-- Its metadata has the hash of a blob that is there, and no size a row can have. -/
def oversizedResult : Json := .object
  [("metadata", .object
    [("algorithm", .string "blake3"), ("hash", .string heldHash),
      ("size", .number (.posInt (2 ^ 63)))])]

/-- One blob past any age of days, and one result. -/
def oversized : Database where
  actionResults := (Table.empty.insertNew heldKey oversizedResult (by decide)).2
  namespaceBlobs := (Table.empty.insertNew heldKey ⟨0, 0⟩ (by decide)).2
  actionManifests := Table.empty

/-- The expired row stays, as the sweep fails. -/
theorem sweep_of_oversized :
    ¬ ∀ (db : Database) (now olderThanDays : ℕ), ∃ outcome,
      db.Swept (db.sweep now olderThanDays).2 now (sweepAge olderThanDays) outcome := by
  intro h
  obtain ⟨outcome, hswept⟩ := h oversized (sweepAge 2) 1
  have hkept : (oversized.sweep (sweepAge 2) 1).2.namespaceBlobs.find heldKey = some ⟨0, 0⟩ := by
    decide +kernel
  have hwithin := ((hswept.namespaceBlobs heldKey ⟨0, 0⟩).mp hkept).2
  exact absurd hwithin (by decide)

end Database

end MbxCache
