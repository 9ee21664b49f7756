/-
# Sweeps beside other statements

A sweep is one transaction of three deletions at READ COMMITTED. Each of them sees
what others have committed by then, without the rows that the ones before it have
deleted. For everyone else these rows are there until the sweep commits, and locked:
a statement that would write one of them waits until the sweep has ended.

Statements are atomic here. A deletion that would wait for another sweep is taken
once it need not, and sees the tables as they are then.
-/

import MbxCache.Foundation.Deletions
import MbxCache.Metadata.Commits
import MbxCache.Metadata.Sweep

namespace MbxCache

open Foundation

/-! ## Deleted rows -/

/-- The keys one statement has deleted, and the number of rows it reports. -/
structure Deletion where
  keys : Finset RowKey
  affected : ℕ
  counted : keys.card = affected

def Deletion.none : Deletion := ⟨∅, 0, rfl⟩

/-- The deletions of one sweep. -/
structure Deletions where
  blobs : Deletion
  results : Deletion
  manifests : Deletion

namespace Deletions

def none : Deletions := ⟨.none, .none, .none⟩

def outcome (deletions : Deletions) : SweepOutcome where
  blobs := deletions.blobs.affected
  actionResults := deletions.results.affected
  manifests := deletions.manifests.affected

/-- No row is deleted by both. -/
structure Apart (first second : Deletions) : Prop where
  blobs : Disjoint first.blobs.keys second.blobs.keys
  results : Disjoint first.results.keys second.results.keys
  manifests : Disjoint first.manifests.keys second.manifests.keys

/-- The deleted rows are there for those who have not deleted them, and past the age
that they were deleted for. -/
structure Present (deletions : Deletions) (now age : ℕ) (db : Database) : Prop where
  blobs : ∀ key ∈ deletions.blobs.keys, ∃ row, db.namespaceBlobs.find key = some row ∧
    Database.expired now age row.createdAt = true
  results : ∀ key ∈ deletions.results.keys, (db.actionResults.find key).isSome = true
  manifests : ∀ key ∈ deletions.manifests.keys, ∃ row, db.actionManifests.find key = some row ∧
    Database.expired now age row.updatedAt = true

/-- Whether a statement would write a deleted row. -/
def blocks (deletions : Deletions) (now : ℕ) (db : Database) : Statement → Bool
  | .touchBlobs ns requested => db.namespaceBlobs.rows.any fun row =>
      decide (row.1 ∈ deletions.blobs.keys) && requested.any (fun columns => row.1 = columns.at ns) &&
        decide (row.2.lastAccessedAt + accessRefreshInterval < now)
  | .upsertBlob key _ => decide (key ∈ deletions.blobs.keys)
  | .insertResult key _ => decide (key ∈ deletions.results.keys)
  | .updateManifest key _ _ expectedEtag =>
      decide (key ∈ deletions.manifests.keys) &&
        (db.actionManifests.find key).any (·.etag = expectedEtag)
  | .insertManifest key _ _ => decide (key ∈ deletions.manifests.keys)
  | .selectVisible _ _ | .selectResult _ | .selectResults _ _ | .selectManifest _ => false

end Deletions

/-- The database without the rows some deletions have taken. -/
def Database.without (db : Database) (deletions : Deletions) : Database where
  actionResults := db.actionResults.without deletions.results.keys
  namespaceBlobs := db.namespaceBlobs.without deletions.blobs.keys
  actionManifests := db.actionManifests.without deletions.manifests.keys

@[simp]
theorem Database.without_none (db : Database) : db.without .none = db := by
  obtain ⟨results, blobs, manifests⟩ := db
  simp [without, Deletions.none, Deletion.none]

/-! ## Sweeps -/

inductive Progress where
  | begun
  | blobsDeleted (blobs : Deletion)
  | resultsDeleted (blobs results : Deletion)
  | manifestsDeleted (deletions : Deletions)
  | committed (deletions : Deletions)
  | rolledBack

/-- The rows that are deleted and not given up yet. -/
def Progress.held : Progress → Deletions
  | .begun | .committed _ | .rolledBack => .none
  | .blobsDeleted blobs => ⟨blobs, .none, .none⟩
  | .resultsDeleted blobs results => ⟨blobs, results, .none⟩
  | .manifestsDeleted deletions => deletions

/-- One call of `sweep`; `now` is the time at which its transaction began. -/
structure Sweeping where
  now : ℕ
  olderThanDays : ℕ
  progress : Progress

namespace Sweeping

def age (sweeping : Sweeping) : ℕ := Database.sweepAge sweeping.olderThanDays

/-- What its next statement sees. -/
def view (sweeping : Sweeping) (db : Database) : Database := db.without sweeping.progress.held

theorem card_gone_deleteBlobs (db : Database) (now age : ℕ) :
    (db.namespaceBlobs.gone (db.deleteBlobs now age).2.namespaceBlobs).card =
      (db.deleteBlobs now age).1 :=
  Table.card_gone_deleteWhere db.namespaceBlobs fun _ row =>
    Database.expired now age row.createdAt

theorem card_gone_deleteDangling {db : Database} {after : ℕ × Database}
    (h : db.deleteDangling = .ok after) :
    (db.actionResults.gone after.2.actionResults).card = after.1 := by
  obtain ⟨_, _, h⟩ := bind_eq_ok.mp h
  rw [← Except.ok.inj h]
  exact Table.card_gone_deleteWhere db.actionResults fun key result =>
    (db.dangling key.ns result).toOption.getD false

theorem card_gone_deleteManifests (db : Database) (now age : ℕ) :
    (db.actionManifests.gone (db.deleteManifests now age).2.actionManifests).card =
      (db.deleteManifests now age).1 :=
  Table.card_gone_deleteWhere db.actionManifests fun _ row =>
    Database.expired now age row.updatedAt

def deleteBlobs (now age : ℕ) (db : Database) : Deletion where
  keys := db.namespaceBlobs.gone (db.deleteBlobs now age).2.namespaceBlobs
  affected := (db.deleteBlobs now age).1
  counted := card_gone_deleteBlobs db now age

theorem mem_deleteBlobs {now age : ℕ} {db : Database} {key : RowKey} :
    key ∈ (deleteBlobs now age db).keys ↔ ∃ row, db.namespaceBlobs.find key = some row ∧
      Database.expired now age row.createdAt = true :=
  Table.mem_gone_deleteWhere db.namespaceBlobs fun _ row => Database.expired now age row.createdAt

def deleteDangling (db : Database) : Except String Deletion :=
  match h : db.deleteDangling with
  | .error error => .error error
  | .ok after => .ok
      { keys := db.actionResults.gone after.2.actionResults
        affected := after.1
        counted := card_gone_deleteDangling h }

def deleteManifests (now age : ℕ) (db : Database) : Deletion where
  keys := db.actionManifests.gone (db.deleteManifests now age).2.actionManifests
  affected := (db.deleteManifests now age).1
  counted := card_gone_deleteManifests db now age

theorem mem_deleteManifests {now age : ℕ} {db : Database} {key : RowKey} :
    key ∈ (deleteManifests now age db).keys ↔ ∃ row, db.actionManifests.find key = some row ∧
      Database.expired now age row.updatedAt = true :=
  Table.mem_gone_deleteWhere db.actionManifests fun _ row =>
    Database.expired now age row.updatedAt

/-- Its next statement, if one is left. -/
def next (sweeping : Sweeping) (db : Database) : Except String Progress :=
  match sweeping.progress with
  | .begun => .ok (.blobsDeleted (deleteBlobs sweeping.now sweeping.age (sweeping.view db)))
  | .blobsDeleted blobs => (deleteDangling (sweeping.view db)).map (.resultsDeleted blobs)
  | .resultsDeleted blobs results =>
      let manifests := deleteManifests sweeping.now sweeping.age (sweeping.view db)
      .ok (.manifestsDeleted ⟨blobs, results, manifests⟩)
  | .manifestsDeleted _ | .committed _ | .rolledBack => .error "no statement is left"

theorem next_begun (now olderThanDays : ℕ) (db : Database) :
    next ⟨now, olderThanDays, .begun⟩ db =
      .ok (.blobsDeleted (deleteBlobs now (Database.sweepAge olderThanDays) db)) := by
  show Except.ok (Progress.blobsDeleted (deleteBlobs now _ (db.without .none))) = _
  rw [Database.without_none]
  rfl

theorem next_blobsDeleted {now olderThanDays : ℕ} {blobs results : Deletion} {db : Database}
    (h : deleteDangling (db.without ⟨blobs, .none, .none⟩) = .ok results) :
    next ⟨now, olderThanDays, .blobsDeleted blobs⟩ db = .ok (.resultsDeleted blobs results) := by
  show (deleteDangling (db.without ⟨blobs, .none, .none⟩)).map _ = _
  rw [h]
  rfl

end Sweeping

/-! ## The database and its sweeps -/

/-- What is committed, and the sweeps in the order in which they began. -/
structure Postgres where
  db : Database
  sweeps : List Sweeping

namespace Postgres

/-- A statement of a request that waits for no sweep. -/
def Free (postgres : Postgres) (now : ℕ) (statement : Statement) : Prop :=
  ∀ sweeping ∈ postgres.sweeps,
    sweeping.progress.held.blocks now postgres.db statement = false

instance (postgres : Postgres) (now : ℕ) (statement : Statement) :
    Decidable (postgres.Free now statement) :=
  inferInstanceAs (Decidable (∀ _ ∈ _, _))

/-- What one step of a sweep did; sweeps are told by their place. -/
inductive SweepEvent where
  | started
  | deleted (index : ℕ)
  | committed (index : ℕ)
  | rolledBack (index : ℕ)

/-- One step of one sweep. -/
inductive SweepStep : Postgres → SweepEvent → Postgres → Prop where
  | start (db : Database) (sweeps : List Sweeping) (now olderThanDays : ℕ) :
      SweepStep ⟨db, sweeps⟩ .started ⟨db, sweeps ++ [⟨now, olderThanDays, .begun⟩]⟩
  | delete (db : Database) (before after : List Sweeping) (sweeping : Sweeping)
      (progress : Progress) (deleted : sweeping.next db = .ok progress)
      (free : ∀ other ∈ before ++ after, progress.held.Apart other.progress.held) :
      SweepStep ⟨db, before ++ sweeping :: after⟩ (.deleted before.length)
        ⟨db, before ++ { sweeping with progress } :: after⟩
  | commit (db : Database) (before after : List Sweeping) (sweeping : Sweeping)
      (deletions : Deletions) (complete : sweeping.progress = .manifestsDeleted deletions) :
      SweepStep ⟨db, before ++ sweeping :: after⟩ (.committed before.length)
        ⟨db.without deletions, before ++ { sweeping with progress := .committed deletions } :: after⟩
  | rollback (db : Database) (before after : List Sweeping) (sweeping : Sweeping)
      (unfinished : ∀ deletions, sweeping.progress ≠ .committed deletions) :
      SweepStep ⟨db, before ++ sweeping :: after⟩ (.rolledBack before.length)
        ⟨db, before ++ { sweeping with progress := .rolledBack } :: after⟩

/-- A statement that waits for no sweep, or a step of one. -/
inductive Step : Postgres → Postgres → Prop where
  | sent (postgres : Postgres) (now : ℕ) (statement : Statement)
      (free : postgres.Free now statement) :
      Step postgres { postgres with db := (postgres.db.execute now statement).2 }
  | swept {postgres later : Postgres} {event : SweepEvent}
      (taken : SweepStep postgres event later) : Step postgres later

/-- What any clients and sweeps may come to. -/
def Reachable (postgres : Postgres) : Prop :=
  Relation.ReflTransGen Step ⟨Database.empty, []⟩ postgres

/-- The rows that open sweeps have deleted are there, and each belongs to one of them. -/
structure Orderly (postgres : Postgres) : Prop where
  present : ∀ sweeping ∈ postgres.sweeps,
    sweeping.progress.held.Present sweeping.now sweeping.age postgres.db
  apart : postgres.sweeps.Pairwise fun first second =>
    first.progress.held.Apart second.progress.held

end Postgres

/-! ## Results -/

namespace Database

section

variable {db : Database} {now : ℕ}

/-- A result that is there was there, or is the one the statement puts in. -/
theorem actionResults_execute {statement : Statement} {key : RowKey} {value : Json}
    (h : (db.execute now statement).2.actionResults.find key = some value) :
    db.actionResults.find key = some value ∨ statement = .insertResult key value := by
  by_cases haccepted : statement.accepted = true
  · rw [execute_of_accepted haccepted] at h
    cases statement with
    | insertResult other result =>
        by_cases hcheck : other.Checked
        · cases hother : db.actionResults.find other with
          | some row =>
              rw [perform_insertResult_of_some hcheck hother] at h
              exact .inl h
          | none =>
              rw [perform_insertResult_of_none hcheck hother] at h
              dsimp only at h
              rw [(Table.insertNew_of_none hother).2] at h
              by_cases heq : key = other
              · subst heq
                rw [if_pos rfl] at h
                obtain rfl := Option.some.inj h
                exact .inr rfl
              · rw [if_neg heq] at h
                exact .inl h
        · rw [perform, dif_neg hcheck] at h
          exact .inl h
    | upsertBlob other created =>
        rw [perform] at h
        split at h <;> exact .inl h
    | insertManifest other etag manifest =>
        rw [perform] at h
        split at h <;> exact .inl h
    | touchBlobs | selectVisible | selectResult | selectResults | selectManifest => exact .inl h
    | updateManifest => exact .inl h
  · rw [execute, if_neg haccepted] at h
    exact .inl h

end

end Database

/-! ## Row locks -/

namespace Deletions

variable {first second deletions : Deletions} {db later : Database}

theorem Apart.symm (h : first.Apart second) : second.Apart first :=
  ⟨h.blobs.symm, h.results.symm, h.manifests.symm⟩

theorem none_apart (deletions : Deletions) : none.Apart deletions :=
  ⟨Finset.disjoint_empty_left _, Finset.disjoint_empty_left _, Finset.disjoint_empty_left _⟩

theorem none_present (now age : ℕ) (db : Database) : none.Present now age db where
  blobs _ h := absurd h (Finset.notMem_empty _)
  results _ h := absurd h (Finset.notMem_empty _)
  manifests _ h := absurd h (Finset.notMem_empty _)

/-- A blob row that no statement may write keeps its age. -/
theorem createdAt_of_free {sent : ℕ} {statement : Statement} {key : RowKey} {row : BlobRow}
    (hfree : deletions.blocks sent db statement = false) (hkey : key ∈ deletions.blobs.keys)
    (hrow : db.namespaceBlobs.find key = some row) :
    ∃ row', (db.execute sent statement).2.namespaceBlobs.find key = some row' ∧
      row'.createdAt = row.createdAt := by
  by_cases haccepted : statement.accepted = true
  · rw [Database.execute_of_accepted haccepted]
    cases statement with
    | upsertBlob other created =>
        have hne : key ≠ other := by
          intro heq
          exact of_decide_eq_false hfree (heq ▸ hkey)
        rw [Database.perform]
        split
        · dsimp only [Database.upsertBlob]
          rw [Table.find_upsert, if_neg hne]
          exact ⟨row, hrow, rfl⟩
        · exact ⟨row, hrow, rfl⟩
    | touchBlobs ns requested =>
        show ∃ row', (db.touchBlobs sent ns requested).2.namespaceBlobs.find key = some row' ∧ _
        rw [Database.touchBlobs, Table.find_updateWhere, hrow]
        refine ⟨_, rfl, ?_⟩
        dsimp only
        split <;> rfl
    | insertResult other result =>
        rw [Database.perform]
        split <;> exact ⟨row, hrow, rfl⟩
    | insertManifest other etag manifest =>
        rw [Database.perform]
        split <;> exact ⟨row, hrow, rfl⟩
    | selectVisible | selectResult | selectResults | selectManifest => exact ⟨row, hrow, rfl⟩
    | updateManifest => exact ⟨row, hrow, rfl⟩
  · rw [Database.execute, if_neg haccepted]
    exact ⟨row, hrow, rfl⟩

/-- So does a manifest row. -/
theorem manifest_of_free {sent : ℕ} {statement : Statement} {key : RowKey} {row : ManifestRow}
    (hfree : deletions.blocks sent db statement = false) (hkey : key ∈ deletions.manifests.keys)
    (hrow : db.actionManifests.find key = some row) :
    (db.execute sent statement).2.actionManifests.find key = some row := by
  by_cases haccepted : statement.accepted = true
  · rw [Database.execute_of_accepted haccepted]
    cases statement with
    | upsertBlob other created =>
        rw [Database.perform]
        split <;> exact hrow
    | insertResult other result =>
        rw [Database.perform]
        split <;> exact hrow
    | insertManifest other etag manifest =>
        have hne : key ≠ other := by
          intro heq
          exact of_decide_eq_false hfree (heq ▸ hkey)
        rw [Database.perform]
        split
        · dsimp only
          cases hother : db.actionManifests.find other with
          | none =>
              rw [(Table.insertNew_of_none hother).2, if_neg hne]
              exact hrow
          | some old =>
              rw [Table.insertNew_of_some hother]
              exact hrow
        · exact hrow
    | updateManifest other etag manifest expectedEtag =>
        have hother : ¬(key = other ∧
            (db.actionManifests.find other).any (·.etag = expectedEtag) = true) := by
          rintro ⟨rfl, hmatches⟩
          have hblocked : (deletions.blocks sent db
              (.updateManifest key etag manifest expectedEtag)) = true := by
            rw [blocks, hmatches, decide_eq_true hkey]
            rfl
          rw [hfree] at hblocked
          cases hblocked
        show (db.updateManifest sent other etag manifest expectedEtag).2.actionManifests.find key = _
        rw [Database.find_updateManifest, if_neg hother]
        exact hrow
    | touchBlobs | selectVisible | selectResult | selectResults | selectManifest => exact hrow
  · rw [Database.execute, if_neg haccepted]
    exact hrow

/-- Statements that wait for the sweep leave what it has deleted. -/
theorem Present.execute {now age sent : ℕ} {statement : Statement}
    (h : deletions.Present now age db) (hfree : deletions.blocks sent db statement = false) :
    deletions.Present now age (db.execute sent statement).2 where
  blobs key hkey := by
    obtain ⟨row, hrow, hexpired⟩ := h.blobs key hkey
    obtain ⟨row', hrow', hcreated⟩ := createdAt_of_free hfree hkey hrow
    exact ⟨row', hrow', hcreated ▸ hexpired⟩
  results key hkey := by
    obtain ⟨value, hvalue⟩ := Option.isSome_iff_exists.mp (h.results key hkey)
    have hkept : (db.execute sent statement).2.actionResults.find key = some value :=
      PostgresMetadata.sends_le ⟨sent, rfl⟩ key value hvalue
    rw [hkept]
    rfl
  manifests key hkey := by
    obtain ⟨row, hrow, hexpired⟩ := h.manifests key hkey
    exact ⟨row, manifest_of_free hfree hkey hrow, hexpired⟩

/-- A sweep that commits takes no row that another one has deleted. -/
theorem Present.without {now age : ℕ} (h : first.Present now age db)
    (hapart : first.Apart second) : first.Present now age (db.without second) where
  blobs key hkey := by
    obtain ⟨row, hrow, hexpired⟩ := h.blobs key hkey
    exact ⟨row, Table.find_without_eq_some.mpr
      ⟨Finset.disjoint_left.mp hapart.blobs hkey, hrow⟩, hexpired⟩
  results key hkey := by
    show ((db.actionResults.without second.results.keys).find key).isSome = true
    rw [Table.find_without, if_neg (Finset.disjoint_left.mp hapart.results hkey)]
    exact h.results key hkey
  manifests key hkey := by
    obtain ⟨row, hrow, hexpired⟩ := h.manifests key hkey
    exact ⟨row, Table.find_without_eq_some.mpr
      ⟨Finset.disjoint_left.mp hapart.manifests hkey, hrow⟩, hexpired⟩

end Deletions

namespace Sweeping

variable {sweeping : Sweeping} {db : Database} {progress : Progress}

theorem deleteDangling_eq_ok {results : Deletion} (h : deleteDangling db = .ok results) :
    ∃ after, db.deleteDangling = .ok after ∧
      results.keys = db.actionResults.gone after.2.actionResults ∧ results.affected = after.1 := by
  unfold deleteDangling at h
  split at h
  · cases h
  · rename_i after hafter
    obtain rfl := Except.ok.inj h
    exact ⟨after, hafter, rfl, rfl⟩

/-- The statements of a sweep, one for each table. -/
theorem next_eq_ok (h : sweeping.next db = .ok progress) :
    (sweeping.progress = .begun ∧
      progress = .blobsDeleted (deleteBlobs sweeping.now sweeping.age (sweeping.view db))) ∨
    (∃ blobs results, sweeping.progress = .blobsDeleted blobs ∧
      deleteDangling (sweeping.view db) = .ok results ∧ progress = .resultsDeleted blobs results) ∨
    ∃ blobs results, sweeping.progress = .resultsDeleted blobs results ∧
      progress = .manifestsDeleted
        ⟨blobs, results, deleteManifests sweeping.now sweeping.age (sweeping.view db)⟩ := by
  unfold next at h
  cases hprogress : sweeping.progress with
  | begun =>
      rw [hprogress] at h
      exact .inl ⟨rfl, (Except.ok.inj h).symm⟩
  | blobsDeleted blobs =>
      rw [hprogress] at h
      dsimp only at h
      cases hresults : deleteDangling (sweeping.view db) with
      | error error =>
          rw [hresults] at h
          cases h
      | ok results =>
          rw [hresults] at h
          exact .inr (.inl ⟨blobs, results, rfl, rfl, (Except.ok.inj h).symm⟩)
  | resultsDeleted blobs results =>
      rw [hprogress] at h
      exact .inr (.inr ⟨blobs, results, rfl, (Except.ok.inj h).symm⟩)
  | manifestsDeleted | committed | rolledBack =>
      rw [hprogress] at h
      cases h

/-- A statement deletes rows that are there and past the age. -/
theorem present_next (h : sweeping.next db = .ok progress)
    (hheld : sweeping.progress.held.Present sweeping.now sweeping.age db) :
    progress.held.Present sweeping.now sweeping.age db := by
  rcases next_eq_ok h with ⟨hbegun, rfl⟩ | ⟨blobs, results, hblobs, hresults, rfl⟩ |
    ⟨blobs, results, hboth, rfl⟩
  · rw [hbegun] at hheld
    refine ⟨fun key hkey => ?_, hheld.results, hheld.manifests⟩
    obtain ⟨row, hrow, hexpired⟩ := mem_deleteBlobs.mp hkey
    exact ⟨row, (Table.find_without_eq_some.mp hrow).2, hexpired⟩
  · rw [hblobs] at hheld
    refine ⟨hheld.blobs, fun key hkey => ?_, hheld.manifests⟩
    obtain ⟨after, _, hkeys, _⟩ := deleteDangling_eq_ok hresults
    have hgone : key ∈ results.keys := hkey
    rw [hkeys] at hgone
    obtain ⟨value, hvalue⟩ := Option.isSome_iff_exists.mp (Table.mem_gone.mp hgone).1
    rw [(Table.find_without_eq_some.mp hvalue).2]
    rfl
  · rw [hboth] at hheld
    refine ⟨hheld.blobs, hheld.results, fun key hkey => ?_⟩
    obtain ⟨row, hrow, hexpired⟩ := mem_deleteManifests.mp hkey
    exact ⟨row, (Table.find_without_eq_some.mp hrow).2, hexpired⟩

end Sweeping

namespace Postgres

variable {postgres later : Postgres} {event : SweepEvent}

theorem pairwise_apart {before after : List Sweeping} {sweeping : Sweeping} :
    (before ++ sweeping :: after).Pairwise (fun first second =>
        first.progress.held.Apart second.progress.held) ↔
      (∀ other ∈ before ++ after, sweeping.progress.held.Apart other.progress.held) ∧
        (before ++ after).Pairwise fun first second =>
          first.progress.held.Apart second.progress.held := by
  rw [List.pairwise_middle fun h => Deletions.Apart.symm h, List.pairwise_cons]

theorem forall_mem_middle {α : Type} {P : α → Prop} {before after : List α} {moved : α} :
    (∀ a ∈ before ++ moved :: after, P a) ↔ P moved ∧ ∀ a ∈ before ++ after, P a := by
  simp only [List.mem_append, List.mem_cons]
  apply Iff.intro
  · intro h
    exact ⟨h moved (.inr (.inl rfl)), fun a ha => h a (ha.imp_right .inr)⟩
  · rintro ⟨hmoved, hothers⟩ a (hbefore | rfl | hafter)
    · exact hothers a (.inl hbefore)
    · exact hmoved
    · exact hothers a (.inr hafter)

theorem Orderly.sweepStep (h : postgres.Orderly) (hstep : SweepStep postgres event later) :
    later.Orderly := by
  obtain ⟨hpresent, hapart⟩ := h
  cases hstep with
  | start db sweeps now olderThanDays =>
      apply Orderly.mk
      · intro sweeping hmem
        rcases List.mem_append.mp hmem with hold | hnew
        · exact hpresent sweeping hold
        · rw [List.mem_singleton.mp hnew]
          exact Deletions.none_present _ _ db
      · apply List.pairwise_append.mpr
        refine ⟨hapart, List.pairwise_singleton _ _, fun sweeping _ other hother => ?_⟩
        rw [List.mem_singleton.mp hother]
        exact (Deletions.none_apart sweeping.progress.held).symm
  | delete db before after sweeping progress deleted free =>
      obtain ⟨hmoved, hothers⟩ := forall_mem_middle.mp hpresent
      have hnext : progress.held.Present sweeping.now sweeping.age db :=
        Sweeping.present_next deleted hmoved
      apply Orderly.mk
      · exact forall_mem_middle.mpr ⟨hnext, hothers⟩
      · exact pairwise_apart.mpr ⟨free, (pairwise_apart.mp hapart).2⟩
  | commit db before after sweeping deletions complete =>
      obtain ⟨_, hothers⟩ := forall_mem_middle.mp hpresent
      obtain ⟨hfree, hrest⟩ := pairwise_apart.mp hapart
      rw [complete] at hfree
      apply Orderly.mk
      · exact forall_mem_middle.mpr ⟨Deletions.none_present _ _ _, fun other hmem =>
          (hothers other hmem).without (hfree other hmem).symm⟩
      · exact pairwise_apart.mpr ⟨fun other _ => Deletions.none_apart _, hrest⟩
  | rollback db before after sweeping unfinished =>
      obtain ⟨_, hothers⟩ := forall_mem_middle.mp hpresent
      apply Orderly.mk
      · exact forall_mem_middle.mpr ⟨Deletions.none_present _ _ db, hothers⟩
      · exact pairwise_apart.mpr
          ⟨fun other _ => Deletions.none_apart _, (pairwise_apart.mp hapart).2⟩

theorem Orderly.step (h : postgres.Orderly) (hstep : Step postgres later) : later.Orderly := by
  cases hstep with
  | swept taken => exact h.sweepStep taken
  | sent now statement free =>
      apply Orderly.mk
      · exact fun sweeping hmem => (h.present sweeping hmem).execute (free sweeping hmem)
      · exact h.apart

theorem Reachable.orderly (h : postgres.Reachable) : postgres.Orderly := by
  induction h with
  | refl =>
      apply Orderly.mk
      · intro sweeping hmem
        cases hmem
      · exact .nil
  | tail _ taken ih => exact ih.step taken

/-- What a commit takes and reports. -/
structure Removes (postgres later : Postgres) (sweeping : Sweeping) (deletions : Deletions) :
    Prop where
  /-- Blobs and manifests that are past the age, as they are now. -/
  blobs : ∀ key, postgres.db.namespaceBlobs.find key ≠ later.db.namespaceBlobs.find key →
    ∃ row, postgres.db.namespaceBlobs.find key = some row ∧
      later.db.namespaceBlobs.find key = none ∧
      Database.expired sweeping.now sweeping.age row.createdAt = true
  manifests : ∀ key, postgres.db.actionManifests.find key ≠ later.db.actionManifests.find key →
    ∃ row, postgres.db.actionManifests.find key = some row ∧
      later.db.actionManifests.find key = none ∧
      Database.expired sweeping.now sweeping.age row.updatedAt = true
  blobsReported : deletions.outcome.blobs + later.db.namespaceBlobs.rows.length =
    postgres.db.namespaceBlobs.rows.length
  resultsReported : deletions.outcome.actionResults + later.db.actionResults.rows.length =
    postgres.db.actionResults.rows.length
  manifestsReported : deletions.outcome.manifests + later.db.actionManifests.rows.length =
    postgres.db.actionManifests.rows.length

/-- The row of a key that a deletion took, and no other. -/
theorem find_ne_without {K R : Type} {check : K → Prop} [DecidableEq K] {table : Table K R check}
    {keys : Finset K} {key : K} (h : table.find key ≠ (table.without keys).find key) :
    key ∈ keys ∧ (table.without keys).find key = none := by
  rw [Table.find_without] at h ⊢
  by_cases hmem : key ∈ keys
  · exact ⟨hmem, if_pos hmem⟩
  · exact absurd (if_neg hmem).symm h

theorem length_without {R : Type} {check : RowKey → Prop} {table : Table RowKey R check}
    {deletion : Deletion} (h : ∀ key ∈ deletion.keys, (table.find key).isSome = true) :
    deletion.affected + (table.without deletion.keys).rows.length = table.rows.length := by
  rw [← deletion.counted]
  exact Table.card_add_length_without h

/-- Whatever ran beside it, a sweep that commits takes only blobs and manifests that are
past its age at that moment, and it reports the numbers of rows that are then gone. -/
theorem sweep_commits_what_it_reports (hreach : postgres.Reachable) {index : ℕ}
    (hstep : SweepStep postgres (.committed index) later) :
    ∃ sweeping deletions, later.sweeps[index]? = some sweeping ∧
      sweeping.progress = .committed deletions ∧ Removes postgres later sweeping deletions := by
  cases hstep with
  | commit db before after sweeping deletions complete =>
      have hheld := (forall_mem_middle.mp hreach.orderly.present).1
      rw [complete] at hheld
      refine ⟨{ sweeping with progress := .committed deletions }, deletions, ?_, rfl, ?_⟩
      · show (before ++ { sweeping with progress := .committed deletions } :: after)[before.length]? =
          _
        simp
      · refine ⟨fun key hne => ?_, fun key hne => ?_, length_without fun key hkey => ?_,
          length_without hheld.results, length_without fun key hkey => ?_⟩
        · obtain ⟨hkey, hgone⟩ := find_ne_without hne
          obtain ⟨row, hrow, hexpired⟩ := hheld.blobs key hkey
          exact ⟨row, hrow, hgone, hexpired⟩
        · obtain ⟨hkey, hgone⟩ := find_ne_without hne
          obtain ⟨row, hrow, hexpired⟩ := hheld.manifests key hkey
          exact ⟨row, hrow, hgone, hexpired⟩
        · obtain ⟨row, hrow, _⟩ := hheld.blobs key hkey
          rw [hrow]
          rfl
        · obtain ⟨row, hrow, _⟩ := hheld.manifests key hkey
          rw [hrow]
          rfl

/-- A sweep with nothing beside it comes to its commit. -/
theorem Reachable.sweeps {db : Database} (hreach : Reachable ⟨db, []⟩) (now olderThanDays : ℕ)
    (hread : (Sweeping.deleteDangling (db.without
      ⟨Sweeping.deleteBlobs now (Database.sweepAge olderThanDays) db, .none, .none⟩)).isOk = true) :
    ∃ deletions, Reachable ⟨db, [⟨now, olderThanDays, .manifestsDeleted deletions⟩]⟩ := by
  obtain ⟨results, hresults⟩ := exists_of_isOk hread
  have hnone : ∀ progress : Progress, ∀ other ∈ ([] ++ [] : List Sweeping),
      progress.held.Apart other.progress.held := by
    intro progress other hmem
    cases hmem
  exact ⟨_, (((hreach.tail (.swept (.start db [] now olderThanDays))).tail
    (.swept (.delete db [] [] _ _ (Sweeping.next_begun _ _ _) (hnone _)))).tail
    (.swept (.delete db [] [] _ _ (Sweeping.next_blobsDeleted hresults) (hnone _)))).tail
    (.swept (.delete db [] [] _ _ rfl (hnone _)))⟩

/-- A blob that was registered 36 days ago is swept. -/
theorem sweep_commits_what_it_reports_expired :
    ∃ postgres later, postgres.Reachable ∧ SweepStep postgres (.committed 0) later ∧
      ∃ sweeping deletions, later.sweeps[0]? = some sweeping ∧
        sweeping.progress = .committed deletions ∧ Removes postgres later sweeping deletions := by
  have hfree : Free ⟨Database.empty, []⟩ 0
      (.upsertBlob ⟨"acme/app", "sha256", "", 0⟩ true) := by
    intro sweeping hmem
    cases hmem
  obtain ⟨deletions, hreach⟩ := Reachable.sweeps (.single (.sent _ _ _ hfree)) 3110400 35
    (by decide +kernel)
  exact ⟨_, _, hreach, .commit _ [] [] _ _ rfl,
    sweep_commits_what_it_reports hreach (.commit _ [] [] _ _ rfl)⟩

/-! ### With nothing beside it -/

section Alone

variable {db : Database}

theorem without_deleteBlobs (db : Database) (now age : ℕ) :
    db.without ⟨Sweeping.deleteBlobs now age db, .none, .none⟩ = (db.deleteBlobs now age).2 := by
  have hblobs : db.namespaceBlobs.without (Sweeping.deleteBlobs now age db).keys =
      (db.deleteBlobs now age).2.namespaceBlobs :=
    (Table.deleteWhere_eq_without db.namespaceBlobs fun _ row =>
      Database.expired now age row.createdAt).symm
  unfold Database.without
  dsimp only [Deletion.none]
  rw [hblobs, Table.without_empty, Table.without_empty]
  rfl

theorem without_deleteDangling {blobs results : Deletion} {after : ℕ × Database}
    (h : (db.without ⟨blobs, .none, .none⟩).deleteDangling = .ok after)
    (hresults : Sweeping.deleteDangling (db.without ⟨blobs, .none, .none⟩) = .ok results) :
    db.without ⟨blobs, results, .none⟩ = after.2 ∧ results.affected = after.1 := by
  obtain ⟨after', hafter, hkeys, haffected⟩ := Sweeping.deleteDangling_eq_ok hresults
  obtain rfl : after' = after := Except.ok.inj (hafter.symm.trans h)
  apply And.intro _ haffected
  obtain ⟨_, _, h⟩ := bind_eq_ok.mp h
  rw [← Except.ok.inj h] at hkeys ⊢
  have hwithout : (db.actionResults.without Deletion.none.keys) = db.actionResults :=
    Table.without_empty
  unfold Database.without at hkeys ⊢
  dsimp only at hkeys ⊢
  rw [hwithout] at hkeys ⊢
  rw [hkeys, ← Table.deleteWhere_eq_without]

theorem without_deleteManifests {blobs results : Deletion} (now age : ℕ) :
    db.without ⟨blobs, results,
        Sweeping.deleteManifests now age (db.without ⟨blobs, results, .none⟩)⟩ =
      ((db.without ⟨blobs, results, .none⟩).deleteManifests now age).2 := by
  have hwithout : (db.actionManifests.without Deletion.none.keys) = db.actionManifests :=
    Table.without_empty
  have hmanifests : db.actionManifests.without
      (Sweeping.deleteManifests now age (db.without ⟨blobs, results, .none⟩)).keys =
        ((db.without ⟨blobs, results, .none⟩).deleteManifests now age).2.actionManifests := by
    unfold Sweeping.deleteManifests Database.deleteManifests Database.without
    dsimp only
    rw [hwithout, ← Table.deleteWhere_eq_without]
  unfold Database.without at hmanifests ⊢
  dsimp only at hmanifests ⊢
  rw [hmanifests]
  rfl

/-- The transaction of a sweep with nothing beside it. -/
theorem sweep_alone {now olderThanDays : ℕ} {outcome : SweepOutcome} {left : Database}
    (h : db.sweep now olderThanDays = (.ok outcome, left)) :
    ∃ deletions : Deletions, deletions.outcome = outcome ∧
      Relation.ReflTransGen (fun postgres later => ∃ event, SweepStep postgres event later)
        ⟨db, []⟩ ⟨left, [⟨now, olderThanDays, .committed deletions⟩]⟩ := by
  unfold Database.sweep at h
  dsimp only at h
  let blobs := Sweeping.deleteBlobs now (Database.sweepAge olderThanDays) db
  have hblobs : db.without ⟨blobs, .none, .none⟩ =
      (db.deleteBlobs now (Database.sweepAge olderThanDays)).2 := without_deleteBlobs db now _
  cases hdangling : (db.deleteBlobs now (Database.sweepAge olderThanDays)).2.deleteDangling with
  | error error =>
      rw [hdangling] at h
      cases (Prod.mk.inj h).1
  | ok after =>
      rw [hdangling] at h
      obtain ⟨houtcome, hleft⟩ := Prod.mk.inj h
      rw [← hblobs] at hdangling
      cases hresults : Sweeping.deleteDangling (db.without ⟨blobs, .none, .none⟩) with
      | error error =>
          unfold Sweeping.deleteDangling at hresults
          split at hresults
          · rename_i heq
            rw [hdangling] at heq
            cases heq
          · cases hresults
      | ok results =>
          obtain ⟨hafter, haffected⟩ := without_deleteDangling hdangling hresults
          let manifests := Sweeping.deleteManifests now (Database.sweepAge olderThanDays)
            (db.without ⟨blobs, results, .none⟩)
          refine ⟨⟨blobs, results, manifests⟩, ?_, ?_⟩
          · rw [← Except.ok.inj houtcome, ← hafter, ← haffected]
            rfl
          · have hfinal : db.without ⟨blobs, results, manifests⟩ = left := by
              rw [← hleft, ← hafter]
              exact without_deleteManifests now _
            have hstart : SweepStep ⟨db, []⟩ .started ⟨db, [⟨now, olderThanDays, .begun⟩]⟩ :=
              .start db [] now olderThanDays
            have hnone : ∀ progress : Progress, ∀ other ∈ ([] ++ [] : List Sweeping),
                progress.held.Apart other.progress.held := by
              intro progress other hmem
              cases hmem
            have hcommit : SweepStep ⟨db, [⟨now, olderThanDays,
                .manifestsDeleted ⟨blobs, results, manifests⟩⟩]⟩ (.committed 0)
                ⟨db.without ⟨blobs, results, manifests⟩,
                  [⟨now, olderThanDays, .committed ⟨blobs, results, manifests⟩⟩]⟩ :=
              .commit db [] [] _ _ rfl
            rw [hfinal] at hcommit
            exact (((((Relation.ReflTransGen.single ⟨_, hstart⟩).tail
              ⟨_, .delete db [] [] _ _ (Sweeping.next_begun _ _ _) (hnone _)⟩).tail
              ⟨_, .delete db [] [] _ _ (Sweeping.next_blobsDeleted hresults) (hnone _)⟩).tail
              ⟨_, .delete db [] [] _ _ rfl (hnone _)⟩).tail ⟨_, hcommit⟩)

end Alone

/-! ### What the second deletion takes -/

theorem exists_of_mapM_ok {ε α β : Type} {f : α → Except ε β} {items : List α} {found : List β}
    (h : items.mapM f = .ok found) : ∀ item ∈ items, ∃ b, f item = .ok b := by
  induction items generalizing found with
  | nil =>
      intro item hmem
      cases hmem
  | cons first items ih =>
      rw [List.mapM_cons] at h
      obtain ⟨b, hfirst, h⟩ := bind_eq_ok.mp h
      obtain ⟨rest, hrest, _⟩ := bind_eq_ok.mp h
      intro item hmem
      rcases List.mem_cons.mp hmem with rfl | hold
      · exact ⟨b, hfirst⟩
      · exact ih hrest item hold

theorem names_unique {digest : Json} {key other : RowKey} (h : Database.Names digest key)
    (h' : Database.Names digest other) (hns : key.ns = other.ns) : key = other := by
  obtain ⟨ns, algorithm, hash, size⟩ := key
  obtain ⟨ns', algorithm', hash', size'⟩ := other
  obtain rfl : ns = ns' := hns
  obtain rfl := Option.some.inj (h.algorithm.symm.trans h'.algorithm)
  obtain rfl := Option.some.inj (h.hash.symm.trans h'.hash)
  obtain rfl := Option.some.inj (Except.ok.inj (h.size.symm.trans h'.size))
  rfl

/-- Every result that does not resolve in what the sweep sees. -/
theorem mem_gone_of_unresolved {db : Database} {after : ℕ × Database} {key : RowKey} {value : Json}
    (h : db.deleteDangling = .ok after) (hrow : db.actionResults.find key = some value)
    (hunresolved : ¬ db.Resolved key.ns value) :
    key ∈ db.actionResults.gone after.2.actionResults := by
  obtain ⟨_, hevaluated, hdone⟩ := bind_eq_ok.mp h
  obtain ⟨found, hfound⟩ := exists_of_mapM_ok hevaluated _ (Table.find_eq_some.mp hrow)
  have htrue : found = true := by
    cases found with
    | true => rfl
    | false => exact absurd (Database.dangling_eq_false.mp hfound) hunresolved
  rw [← Except.ok.inj hdone]
  have hcondition : (db.dangling key.ns value).toOption.getD false = true := by
    have hvalue : db.dangling key.ns value = .ok found := hfound
    rw [hvalue, htrue]
    rfl
  exact (Table.mem_gone_deleteWhere db.actionResults fun key result =>
    (db.dangling key.ns result).toOption.getD false).mpr ⟨value, hrow, hcondition⟩

/-- So every result that refers to a blob which the first deletion took. -/
theorem mem_results_of_names {db : Database} {blobs results : Deletion} {key named : RowKey}
    {value digest : Json}
    (h : Sweeping.deleteDangling (db.without ⟨blobs, .none, .none⟩) = .ok results)
    (hrow : db.actionResults.find key = some value) (hrefers : Database.References value digest)
    (hnames : Database.Names digest named) (hns : named.ns = key.ns)
    (hdeleted : named ∈ blobs.keys) : key ∈ results.keys := by
  obtain ⟨after, hafter, hkeys, _⟩ := Sweeping.deleteDangling_eq_ok h
  have hseen : (db.without ⟨blobs, .none, .none⟩).actionResults.find key = some value :=
    Table.find_without_eq_some.mpr ⟨Finset.notMem_empty _, hrow⟩
  rw [hkeys]
  apply mem_gone_of_unresolved hafter hseen
  intro hresolved
  obtain ⟨other, hother, hotherNs, hpresent⟩ := hresolved digest hrefers
  obtain rfl := names_unique hnames hother (hns.trans hotherNs.symm)
  have hgone : (db.without ⟨blobs, .none, .none⟩).namespaceBlobs.find named = none := by
    show (db.namespaceBlobs.without blobs.keys).find named = none
    rw [Table.find_without, if_pos hdeleted]
  rw [hgone] at hpresent
  cases hpresent

theorem getElem?_middle {α : Type} {before after : List α} (moved : α) {index : ℕ} :
    (before ++ moved :: after)[index]? =
      if index = before.length then some moved else
        if index < before.length then before[index]? else after[index - before.length - 1]? := by
  rcases Nat.lt_trichotomy index before.length with hlt | rfl | hgt
  · rw [if_neg (by omega), if_pos hlt, List.getElem?_append_left hlt]
  · simp
  · obtain ⟨extra, hextra⟩ : ∃ extra, index - before.length = extra + 1 :=
      ⟨index - before.length - 1, by omega⟩
    rw [if_neg (by omega), if_neg (by omega), List.getElem?_append_right (by omega), hextra,
      List.getElem?_cons_succ, Nat.add_sub_cancel]

/-- A sweep that has gone on from its second deletion. -/
def Past (blobs results : Deletion) : Progress → Prop
  | .begun | .blobsDeleted _ => False
  | .resultsDeleted blobs' results' => blobs' = blobs ∧ results' = results
  | .manifestsDeleted deletions | .committed deletions =>
      deletions.blobs = blobs ∧ deletions.results = results
  | .rolledBack => True

/-- The sweep in one place of the list has. -/
def PastDangling (index : ℕ) (blobs results : Deletion) (postgres : Postgres) : Prop :=
  ∃ sweeping, postgres.sweeps[index]? = some sweeping ∧ Past blobs results sweeping.progress

theorem PastDangling.replace {index : ℕ} {blobs results : Deletion} {db db' : Database}
    {before after : List Sweeping} {sweeping moved : Sweeping}
    (h : PastDangling index blobs results ⟨db, before ++ sweeping :: after⟩)
    (hmoved : Past blobs results sweeping.progress → Past blobs results moved.progress) :
    PastDangling index blobs results ⟨db', before ++ moved :: after⟩ := by
  obtain ⟨found, hfound, hpast⟩ := h
  unfold PastDangling
  dsimp only at hfound ⊢
  rw [getElem?_middle] at hfound ⊢
  by_cases heq : index = before.length
  · rw [if_pos heq] at hfound ⊢
    obtain rfl := Option.some.inj hfound
    exact ⟨moved, rfl, hmoved hpast⟩
  · rw [if_neg heq] at hfound ⊢
    exact ⟨found, hfound, hpast⟩

theorem PastDangling.sweepStep {index : ℕ} {blobs results : Deletion}
    (h : PastDangling index blobs results postgres) (hstep : SweepStep postgres event later) :
    PastDangling index blobs results later := by
  cases hstep with
  | start db sweeps now olderThanDays =>
      obtain ⟨found, hfound, hpast⟩ := h
      refine ⟨found, ?_, hpast⟩
      show (sweeps ++ [_])[index]? = some found
      rw [List.getElem?_append_left (List.getElem?_eq_some_iff.mp hfound).1]
      exact hfound
  | delete db before after sweeping progress deleted free =>
      apply h.replace
      intro hpast
      rcases Sweeping.next_eq_ok deleted with ⟨hbegun, _⟩ | ⟨_, _, hblobs, _⟩ |
        ⟨_, _, hboth, rfl⟩
      · rw [hbegun] at hpast
        exact hpast.elim
      · rw [hblobs] at hpast
        exact hpast.elim
      · rw [hboth] at hpast
        exact hpast
  | commit db before after sweeping deletions complete =>
      apply h.replace
      intro hpast
      rw [complete] at hpast
      exact hpast
  | rollback db before after sweeping unfinished =>
      apply h.replace
      exact fun _ => trivial

/-- Rows that the second deletion took are gone once the sweep has committed. -/
theorem PastDangling.committed {index : ℕ} {blobs results : Deletion}
    (h : PastDangling index blobs results postgres)
    (hstep : SweepStep postgres (.committed index) later) :
    (∀ key value, later.db.actionResults.find key = some value →
      key ∉ results.keys ∧ postgres.db.actionResults.find key = some value) ∧
    ∀ key ∈ blobs.keys, later.db.namespaceBlobs.find key = none := by
  cases hstep with
  | commit db before after sweeping deletions complete =>
      obtain ⟨found, hfound, hpast⟩ := h
      dsimp only at hfound
      rw [getElem?_middle, if_pos rfl] at hfound
      obtain rfl := Option.some.inj hfound
      rw [complete] at hpast
      obtain ⟨rfl, rfl⟩ := hpast
      apply And.intro
      · exact fun key value hfind => Table.find_without_eq_some.mp hfind
      · intro key hkey
        show (db.namespaceBlobs.without deletions.blobs.keys).find key = none
        rw [Table.find_without, if_pos hkey]

/-- A sweep only takes results away. -/
theorem SweepStep.actionResults (hstep : SweepStep postgres event later) {key : RowKey}
    {value : Json} (h : later.db.actionResults.find key = some value) :
    postgres.db.actionResults.find key = some value := by
  cases hstep with
  | start | delete | rollback => exact h
  | commit db before after sweeping deletions complete =>
      exact (Table.find_without_eq_some.mp h).2

end Postgres

end MbxCache
