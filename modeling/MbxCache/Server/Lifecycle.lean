/-
# Bounding storage

Objects leave storage by a lifecycle rule of the object store, rows leave the
metadata by a sweep. A run is any mix of uploads, of expiries that keep whatever
they keep, of sweeps, and of time that passes. An upload is the put and the
registration with its outcome, in one step.

A row is kept in step with its object when it starts no earlier than the object
can afford: what the object may still live and the row be swept at are compared by
the time the one was written and the other created.
-/

import MbxCache.Metadata.Sweep
import MbxCache.Sample
import MbxCache.Server.Stores
import MbxCache.Server.Upload

namespace MbxCache.Server

open Foundation

/-- The stores, the clock, and when each object was last written. -/
structure Retention where
  now : ℕ
  stores : Stores Database
  writtenAt : Digest → ℕ

namespace Retention

/-! ## Steps -/

/-- The stores at a time, while nothing fails. -/
def exec (crates : Crates) (now : ℕ) :
    (op : StoreOp) → Stores Database → op.Answer × Stores Database :=
  Stores.exec .whole (PostgresMetadata.exec crates now)

/-- The row that makes a digest visible in a namespace. -/
def row (s : Retention) (ns : String) (digest : Digest) : Option BlobRow :=
  s.stores.metadata.namespaceBlobs.find (rowKey ns digest)

/-- Put an object and register it. A put that finds an object does not write. -/
def upload (crates : Crates) (ns : String) (digest : Digest) (source : Bytes) (s : Retention) :
    Retention where
  now := s.now
  stores := ((publishBlob ns digest source).run (exec crates s.now) s.stores).2
  writtenAt :=
    if s.stores.blobs digest = none then Function.update s.writtenAt digest s.now else s.writtenAt

/-- A lifecycle rule deletes objects. -/
def expire (kept : Digest → Bool) (s : Retention) : Retention :=
  { s with stores := { s.stores with
      blobs := fun digest => if kept digest then s.stores.blobs digest else none } }

def sweep (olderThanDays : ℕ) (s : Retention) : Retention :=
  { s with stores := { s.stores with
      metadata := (s.stores.metadata.sweep s.now olderThanDays).2 } }

inductive Event where
  | elapsed (time : ℕ)
  | uploaded (ns : String) (digest : Digest) (source : Bytes)
  | expired (kept : Digest → Bool)
  | swept (olderThanDays : ℕ)

def apply (crates : Crates) : Event → Retention → Retention
  | .elapsed time, s => { s with now := time }
  | .uploaded ns digest source, s => s.upload crates ns digest source
  | .expired kept, s => s.expire kept
  | .swept olderThanDays, s => s.sweep olderThanDays

/-- Runs whose steps are all allowed in the state they are taken in. -/
inductive Run (crates : Crates) (allowed : Retention → Event → Prop) (init : Retention) :
    List Event → Retention → Prop where
  | start : Run crates allowed init [] init
  | step {events : List Event} {s : Retention} (prior : Run crates allowed init events s)
      (event : Event) (may : allowed s event) :
      Run crates allowed init (events ++ [event]) (s.apply crates event)

/-- What one step preserves, a run preserves. -/
theorem Run.preserves {crates : Crates} {allowed : Retention → Event → Prop} {init : Retention}
    {inv : Retention → Prop} (hinit : inv init)
    (hstep : ∀ s event, inv s → allowed s event → inv (s.apply crates event))
    {events : List Event} {s : Retention} (hrun : Run crates allowed init events s) : inv s := by
  induction hrun with
  | start => exact hinit
  | step _ event may ih => exact hstep _ event ih may

/-! ## What a step does to objects and rows -/

section Steps

variable {crates : Crates} {s : Retention} {ns : String} {digest : Digest} {source : Bytes}

/-- A put, then the registration of its outcome. -/
theorem stores_upload : (s.upload crates ns digest source).stores =
    { (s.stores.putObject digest source).2 with
      metadata := (PostgresMetadata.exec crates s.now
        (.registerBlob ns digest (s.stores.putObject digest source).1) s.stores.metadata).2 } := by
  rw [← Stores.putObject_metadata s.stores digest source]
  let put := s.stores.putObject digest source
  let registered := PostgresMetadata.exec crates s.now (.registerBlob ns digest put.1)
    put.2.metadata
  show (Program.run _ (Program.bind (.done (registered.1.mapError ApiError.internal)) _) _).2 =
    { put.2 with metadata := registered.2 }
  cases registered.1 <;> rfl

theorem blobs_upload (other : Digest) :
    (s.upload crates ns digest source).stores.blobs other =
      if other = digest ∧ s.stores.blobs digest = none then some source
      else s.stores.blobs other := by
  rw [stores_upload]
  dsimp only
  unfold Stores.putObject
  cases hblobs : s.stores.blobs digest with
  | some content => simp
  | none => by_cases heq : other = digest <;> simp [heq]

theorem created_putObject (source : Bytes) : ((s.stores.putObject digest source).1 == .created) =
    (s.stores.blobs digest).isNone := by
  unfold Stores.putObject
  cases s.stores.blobs digest <;> rfl

theorem metadata_upload : (s.upload crates ns digest source).stores.metadata =
    (s.stores.metadata.execute s.now
      (.upsertBlob (rowKey ns digest) (s.stores.blobs digest).isNone)).2 := by
  rw [stores_upload, ← created_putObject source]
  let answer := s.stores.metadata.execute s.now
    (.upsertBlob (rowKey ns digest) ((s.stores.putObject digest source).1 == .created))
  show (Program.run _ (Program.bind (.done answer.1) _) answer.2).2 = answer.2
  cases answer.1 <;> rfl

theorem writtenAt_upload (h : s.stores.blobs digest = none) :
    (s.upload crates ns digest source).writtenAt digest = s.now := by
  rw [upload, if_pos h]
  exact Function.update_self digest s.now s.writtenAt

theorem blobs_expire_of_kept {kept : Digest → Bool} (h : kept digest = true) :
    (s.expire kept).stores.blobs digest = s.stores.blobs digest :=
  if_pos h

theorem blobs_expire_of_not {kept : Digest → Bool} (h : ¬kept digest = true) :
    (s.expire kept).stores.blobs digest = none :=
  if_neg h

/-- An upload touches no row but its own, and that one restarts with the object. -/
theorem row_upload (other : String) (key : Digest) :
    (s.upload crates ns digest source).row other key =
      if (other = ns ∧ key = digest) ∧
          (rowKey ns digest).accepted = true ∧ (rowKey ns digest).Checked then
        some (Database.restarted s.now (s.stores.blobs digest).isNone (s.row ns digest))
      else s.row other key := by
  rw [row, metadata_upload, Database.find_execute_upsertBlob]
  simp only [rowKey_inj]
  rfl

/-- A sweep fails without effect, or removes exactly the rows past its age. -/
theorem row_sweep (olderThanDays : ℕ) :
    (∀ ns digest, (s.sweep olderThanDays).row ns digest = s.row ns digest) ∨
      ∀ ns digest, (s.sweep olderThanDays).row ns digest = (s.row ns digest).filter fun row =>
        !Database.expired s.now (Database.sweepAge olderThanDays) row.createdAt := by
  rcases Database.sweep_namespaceBlobs s.stores.metadata s.now olderThanDays with h | h
  · left
    intro ns digest
    rw [row, sweep, h]
    rfl
  · right
    intro ns digest
    exact h (rowKey ns digest)

end Steps

/-! ## Live rows -/

/-- A lifecycle that removes an object once it is `lifecycle` old, and sweeps of
rows that are older than that. -/
structure Schedule where
  lifecycle : ℕ
  olderThanDays : ℕ
  objectsFirst : lifecycle < Database.sweepAge olderThanDays

namespace Schedule

variable (schedule : Schedule)

/-- No object outlives the lifecycle, and no sweep is of a lesser age. -/
def Allows (s : Retention) : Event → Prop
  | .elapsed time => s.now ≤ time ∧
      ∀ digest, s.stores.blobs digest ≠ none → time ≤ s.writtenAt digest + schedule.lifecycle
  | .swept olderThanDays => schedule.olderThanDays ≤ olderThanDays
  | .uploaded _ _ _ | .expired _ => True

/-- An object is written anew only while no other namespace has a row for it that
a sweep may take before the lifecycle takes the object. -/
def InStep (s : Retention) : Event → Prop
  | .uploaded ns digest _ => s.stores.blobs digest = none →
      ∀ other row, other ≠ ns → s.row other digest = some row →
        s.now + schedule.lifecycle ≤ row.createdAt + Database.sweepAge schedule.olderThanDays
  | .elapsed _ | .expired _ | .swept _ => True

end Schedule

/-- No object and no row yet; results and manifests may be anything. -/
structure Fresh (s : Retention) : Prop where
  objects : ∀ digest, s.stores.blobs digest = none
  rows : ∀ key, s.stores.metadata.namespaceBlobs.find key = none

/-- No row of a live object is gone. -/
def Spares (s later : Retention) : Prop :=
  ∀ ns digest row, s.row ns digest = some row → s.stores.blobs digest ≠ none →
    later.row ns digest = some row

/-- Live objects are within the lifecycle, and no row of one is past the age of a
sweep before the object is past the lifecycle. -/
structure Aligned (schedule : Schedule) (s : Retention) : Prop where
  writtenBefore : ∀ digest, s.stores.blobs digest ≠ none → s.writtenAt digest ≤ s.now
  withinLifecycle : ∀ digest, s.stores.blobs digest ≠ none →
    s.now ≤ s.writtenAt digest + schedule.lifecycle
  outlives : ∀ ns digest row, s.row ns digest = some row → s.stores.blobs digest ≠ none →
    s.writtenAt digest + schedule.lifecycle ≤ row.createdAt + Database.sweepAge schedule.olderThanDays
  sendable : ∀ ns digest, s.row ns digest ≠ none → (rowKey ns digest).accepted = true

section Aligned

variable {crates : Crates} {schedule : Schedule} {s : Retention}

theorem Fresh.aligned (h : s.Fresh) : s.Aligned schedule where
  writtenBefore digest hlive := absurd (h.objects digest) hlive
  withinLifecycle digest hlive := absurd (h.objects digest) hlive
  outlives _ digest _ _ hlive := absurd (h.objects digest) hlive
  sendable ns digest hrow := absurd (h.rows (rowKey ns digest)) hrow

theorem Aligned.elapse {time : ℕ} (h : s.Aligned schedule)
    (may : schedule.Allows s (.elapsed time)) : Aligned schedule { s with now := time } where
  writtenBefore digest hlive := (h.writtenBefore digest hlive).trans may.1
  withinLifecycle := may.2
  outlives := h.outlives
  sendable := h.sendable

theorem live_of_expire {kept : Digest → Bool} {digest : Digest}
    (h : (s.expire kept).stores.blobs digest ≠ none) : s.stores.blobs digest ≠ none := by
  intro hgone
  apply h
  show (if kept digest then s.stores.blobs digest else none) = none
  rw [hgone, ite_self]

theorem Aligned.expire {kept : Digest → Bool} (h : s.Aligned schedule) :
    (s.expire kept).Aligned schedule where
  writtenBefore digest hlive := h.writtenBefore digest (live_of_expire hlive)
  withinLifecycle digest hlive := h.withinLifecycle digest (live_of_expire hlive)
  outlives ns digest row hrow hlive := h.outlives ns digest row hrow (live_of_expire hlive)
  sendable := h.sendable

/-- A sweep leaves rows out and changes none. -/
theorem row_of_sweep {olderThanDays : ℕ} {ns : String} {digest : Digest} {row : BlobRow}
    (h : (s.sweep olderThanDays).row ns digest = some row) : s.row ns digest = some row := by
  rcases row_sweep (s := s) olderThanDays with hsame | hfilter
  · rwa [hsame] at h
  · rw [hfilter] at h
    exact (Option.filter_eq_some_iff.mp h).1

theorem Aligned.sweep {olderThanDays : ℕ} (h : s.Aligned schedule) :
    (s.sweep olderThanDays).Aligned schedule where
  writtenBefore := h.writtenBefore
  withinLifecycle := h.withinLifecycle
  outlives ns digest row hrow hlive := h.outlives ns digest row (row_of_sweep hrow) hlive
  sendable ns digest hrow := by
    obtain ⟨row, hrow⟩ := Option.ne_none_iff_exists'.mp hrow
    apply h.sendable ns digest
    rw [row_of_sweep hrow]
    exact Option.some_ne_none row

section Upload

variable {ns : String} {digest : Digest} {source : Bytes}

/-- A live object was written by this upload or is as it was. -/
theorem live_of_upload {other : Digest}
    (h : (s.upload crates ns digest source).stores.blobs other ≠ none) :
    (other = digest ∧ s.stores.blobs digest = none ∧
        (s.upload crates ns digest source).writtenAt other = s.now) ∨
      s.stores.blobs other ≠ none ∧
        (s.upload crates ns digest source).writtenAt other = s.writtenAt other := by
  rw [blobs_upload] at h
  dsimp only [Retention.upload]
  by_cases hnew : other = digest ∧ s.stores.blobs digest = none
  · left
    rw [if_pos hnew.2, hnew.1, Function.update_self]
    exact ⟨rfl, hnew.2, rfl⟩
  · right
    rw [if_neg hnew] at h
    refine ⟨h, ?_⟩
    split
    · apply Function.update_of_ne
      rintro rfl
      exact h ‹_›
    · rfl

/-- A row of this digest is the one of this upload or is as it was. -/
theorem row_of_upload {other : String} {key : Digest} {row : BlobRow}
    (h : (s.upload crates ns digest source).row other key = some row) :
    (key = digest ∧ (rowKey ns digest).accepted = true ∧ other = ns ∧
        Database.restarted s.now (s.stores.blobs digest).isNone (s.row ns digest) = row) ∨
      s.row other key = some row ∧
        ¬((other = ns ∧ key = digest) ∧
          (rowKey ns digest).accepted = true ∧ (rowKey ns digest).Checked) := by
  rw [row_upload] at h
  split at h
  · next hown => exact .inl ⟨hown.1.2, hown.2.1, hown.1.1, Option.some.inj h⟩
  · next hother => exact .inr ⟨h, hother⟩

/-- A row that is there could be sent and passes the check. -/
theorem Aligned.writable (h : s.Aligned schedule) {row : BlobRow}
    (hrow : s.row ns digest = some row) :
    (rowKey ns digest).accepted = true ∧ (rowKey ns digest).Checked := by
  refine ⟨h.sendable ns digest (by simp [hrow]), ?_⟩
  exact s.stores.metadata.namespaceBlobs.checked _ (Table.mem_rows_of_find hrow)

/-- An upload that writes the object restarts its own row, and the others were
found in step. One that finds the object leaves its row the age it had, or starts
one that is younger than the object. -/
theorem Aligned.upload (h : s.Aligned schedule)
    (hstep : schedule.InStep s (.uploaded ns digest source)) :
    (s.upload crates ns digest source).Aligned schedule where
  writtenBefore other hlive := by
    rcases live_of_upload hlive with ⟨_, _, hwritten⟩ | ⟨hold, hwritten⟩
    · exact hwritten.le
    · exact hwritten.le.trans (h.writtenBefore other hold)
  withinLifecycle other hlive := by
    show s.now ≤ _
    rcases live_of_upload hlive with ⟨_, _, hwritten⟩ | ⟨hold, hwritten⟩
    · rw [hwritten]
      exact Nat.le_add_right _ _
    · rw [hwritten]
      exact h.withinLifecycle other hold
  outlives other key row hrow hlive := by
    have hfirst := schedule.objectsFirst
    rcases live_of_upload hlive with ⟨rfl, hgone, hwritten⟩ | ⟨hold, hwritten⟩
    · rw [hwritten]
      rcases row_of_upload hrow with ⟨_, _, _, hown⟩ | ⟨hbefore, hother⟩
      · have hcreated : row.createdAt = s.now := by
          rw [← hown, hgone]
          cases s.row ns key <;> rfl
        omega
      · apply hstep hgone other row _ hbefore
        rintro rfl
        exact hother ⟨⟨rfl, rfl⟩, h.writable hbefore⟩
    · rw [hwritten]
      have hbefore := h.writtenBefore key hold
      rcases row_of_upload hrow with ⟨rfl, _, _, hown⟩ | ⟨hrow, _⟩
      · have hpresent : (s.stores.blobs key).isNone = false := by
          cases hblobs : s.stores.blobs key with
          | none => exact absurd hblobs hold
          | some content => rfl
        rw [hpresent] at hown
        cases hfound : s.row ns key with
        | none =>
            have hcreated : row.createdAt = s.now := by
              rw [← hown, hfound]
              rfl
            omega
        | some old =>
            have hcreated : row.createdAt = old.createdAt := by
              rw [← hown, hfound]
              rfl
            rw [hcreated]
            exact h.outlives ns key old hfound hold
      · exact h.outlives other key row hrow hold
  sendable other key hrow := by
    obtain ⟨row, hrow⟩ := Option.ne_none_iff_exists'.mp hrow
    rcases row_of_upload hrow with ⟨rfl, haccepted, rfl, _⟩ | ⟨hbefore, _⟩
    · exact haccepted
    · exact (h.writable hbefore).1

end Upload

theorem Aligned.apply {event : Event} (h : s.Aligned schedule) (may : schedule.Allows s event)
    (hstep : schedule.InStep s event) : (s.apply crates event).Aligned schedule := by
  cases event with
  | elapsed time => exact h.elapse may
  | uploaded ns digest source => exact h.upload hstep
  | expired kept => exact h.expire
  | swept olderThanDays => exact h.sweep

/-- Where rows and objects are in step, a sweep takes no row of a live object. -/
theorem Aligned.spares {olderThanDays : ℕ} (h : s.Aligned schedule)
    (hage : schedule.olderThanDays ≤ olderThanDays) : s.Spares (s.sweep olderThanDays) := by
  intro ns digest row hrow hlive
  rcases row_sweep (s := s) olderThanDays with hsame | hfilter
  · rw [hsame, hrow]
  · rw [hfilter, hrow, Option.filter_some, if_pos]
    have hwithin := h.withinLifecycle digest hlive
    have houtlives := h.outlives ns digest row hrow hlive
    have holder := Database.sweepAge_mono hage
    rw [Database.expired_eq_false.mpr (by omega)]
    rfl

end Aligned

/-- However uploads, expiries and sweeps follow each other: while objects are only
written anew in step with the rows of the other namespaces, no sweep takes a row of
a live object. -/
theorem sweep_spares_live_rows (crates : Crates) (schedule : Schedule) {init s : Retention}
    {events : List Event} (hinit : init.Fresh)
    (hrun : Run crates (fun s event => schedule.Allows s event ∧ schedule.InStep s event) init
      events s)
    {olderThanDays : ℕ} (hage : schedule.olderThanDays ≤ olderThanDays) :
    s.Spares (s.sweep olderThanDays) := by
  have haligned : s.Aligned schedule :=
    hrun.preserves hinit.aligned fun _ _ h may => h.apply may.1 may.2
  exact haligned.spares hage

/-- Before the first upload. -/
def empty : Retention where
  now := 0
  stores := { blobs := fun _ => none, metadata := Database.empty }
  writtenAt := fun _ => 0

theorem fresh_empty : empty.Fresh where
  objects _ := rfl
  rows _ := rfl

/-- Two namespaces upload the same content, the second when the lifecycle has just
removed it. -/
def uploadedTwice : List Event :=
  [.uploaded "acme/app" Sample.emptyDigest [], .elapsed (Database.sweepAge 30),
    .expired fun _ => false, .uploaded "acme/web" Sample.emptyDigest []]

/-- The state it ends in. -/
def afterwards : Retention :=
  uploadedTwice.foldl (fun s event => s.apply Sample.crates event) empty

theorem run_uploadedTwice {allowed : Retention → Event → Prop}
    (hfirst : allowed empty (.uploaded "acme/app" Sample.emptyDigest []))
    (helapsed : ∀ s, s.now = 0 → allowed s (.elapsed (Database.sweepAge 30)))
    (hexpired : ∀ s, allowed s (.expired fun _ => false))
    (hsecond : ∀ s, s.now = Database.sweepAge 30 →
      allowed s (.uploaded "acme/web" Sample.emptyDigest [])) :
    Run Sample.crates allowed empty uploadedTwice afterwards := by
  have huploaded : Run Sample.crates allowed empty _ _ := Run.start.step _ hfirst
  have hgone := (huploaded.step _ (helapsed _ rfl)).step _ (hexpired _)
  exact hgone.step _ (hsecond _ rfl)

/-- Rows are kept for twice the lifecycle. -/
def generous : Schedule where
  lifecycle := Database.sweepAge 30
  olderThanDays := 60
  objectsFirst := by decide

theorem sweep_spares_live_rows_sample :
    Run Sample.crates (fun s event => generous.Allows s event ∧ generous.InStep s event) empty
        uploadedTwice afterwards ∧
      afterwards.Spares (afterwards.sweep 60) ∧
      (afterwards.row "acme/app" Sample.emptyDigest).isSome ∧
      (afterwards.stores.blobs Sample.emptyDigest).isSome := by
  have hrun : Run Sample.crates (fun s event => generous.Allows s event ∧ generous.InStep s event)
      empty uploadedTwice afterwards := by
    apply run_uploadedTwice
    · exact ⟨trivial, fun _ other row _ hrow => by cases hrow⟩
    · exact fun s hnow => ⟨⟨hnow ▸ Nat.zero_le _, fun _ _ => Nat.le_add_left _ _⟩, trivial⟩
    · exact fun s => ⟨trivial, trivial⟩
    · refine fun s hnow => ⟨trivial, fun _ other row _ hrow => ?_⟩
      rw [hnow]
      exact Nat.le_add_left _ _
  exact ⟨hrun, sweep_spares_live_rows Sample.crates generous fresh_empty hrun le_rfl,
    by decide +kernel, by decide +kernel⟩

/-- Five weeks, as the documentation has it. -/
def documented : Schedule where
  lifecycle := Database.sweepAge 30
  olderThanDays := 35
  objectsFirst := by decide

/-- The object of the second upload is six days old when a sweep of five weeks takes
the row of the first namespace. -/
theorem rewritten_object_swept :
    ∃ s, Run Sample.crates documented.Allows empty
        (uploadedTwice ++ [.elapsed (Database.sweepAge 36)]) s ∧
      ¬s.Spares (s.sweep 35) := by
  refine ⟨afterwards.apply Sample.crates (.elapsed (Database.sweepAge 36)), ?_, ?_⟩
  · apply Run.step
    · apply run_uploadedTwice
      · trivial
      · exact fun s hnow => ⟨hnow ▸ Nat.zero_le _, fun _ _ => Nat.le_add_left _ _⟩
      · exact fun _ => trivial
      · exact fun _ _ => trivial
    · refine ⟨by decide, fun digest hlive => ?_⟩
      rcases live_of_upload (s := uploadedTwice.take 3 |>.foldl
        (fun s event => s.apply Sample.crates event) empty) hlive with ⟨_, _, hwritten⟩ | ⟨hold, _⟩
      · have hwritten : afterwards.writtenAt digest = Database.sweepAge 30 := hwritten
        show _ ≤ afterwards.writtenAt digest + _
        rw [hwritten]
        decide
      · exact absurd rfl hold
  · intro hspares
    let later := afterwards.apply Sample.crates (.elapsed (Database.sweepAge 36))
    have hrow : later.row "acme/app" Sample.emptyDigest = some ⟨0, 0⟩ := by decide +kernel
    have hlive : later.stores.blobs Sample.emptyDigest = some [] := by decide +kernel
    have hswept : (later.sweep 35).row "acme/app" Sample.emptyDigest = none := by decide +kernel
    have hkept := hspares "acme/app" Sample.emptyDigest ⟨0, 0⟩ hrow (by rw [hlive]; simp)
    rw [hswept] at hkept
    cases hkept

/-! ### The condition is needed -/

section OutOfStep

variable {crates : Crates} {schedule : Schedule} {s : Retention}

/-- No result is stored, so a sweep has nothing it could fail on. -/
def Bare (s : Retention) : Prop := s.stores.metadata.actionResults.rows = []

theorem Bare.apply {event : Event} (h : s.Bare) : (s.apply crates event).Bare := by
  cases event with
  | elapsed time => exact h
  | uploaded ns digest source =>
      show (s.upload crates ns digest source).stores.metadata.actionResults.rows = []
      rw [metadata_upload, Database.actionResults_execute_upsertBlob]
      exact h
  | expired kept => exact h
  | swept olderThanDays => exact (Database.sweep_of_no_results h s.now olderThanDays).1

theorem Bare.row_sweep (h : s.Bare) (olderThanDays : ℕ) (ns : String) (digest : Digest) :
    (s.sweep olderThanDays).row ns digest = (s.row ns digest).filter fun row =>
      !Database.expired s.now (Database.sweepAge olderThanDays) row.createdAt :=
  (Database.sweep_of_no_results h s.now olderThanDays).2 (rowKey ns digest)

/-- Once an object was written out of step, it takes the expiry of the others and
the passing of its lifecycle for a sweep to take a row of it while it is live. -/
theorem swept_while_live (crates : Crates) (schedule : Schedule) {ns other : String}
    {digest : Digest} (source : Bytes) {row : BlobRow} (hbare : s.Bare) (hgone : s.stores.blobs digest = none) (hother : other ≠ ns)
    (hrow : s.row other digest = some row)
    (hlate : row.createdAt + Database.sweepAge schedule.olderThanDays <
      s.now + schedule.lifecycle) :
    let written := s.apply crates (.uploaded ns digest source)
    let alone := written.apply crates (.expired (· = digest))
    let later := alone.apply crates (.elapsed (s.now + schedule.lifecycle))
    schedule.Allows alone (.elapsed (s.now + schedule.lifecycle)) ∧
      ¬later.Spares (later.sweep schedule.olderThanDays) := by
  intro written alone later
  have hblobs : written.stores.blobs digest = some source := by
    apply blobs_upload digest |>.trans
    rw [if_pos ⟨rfl, hgone⟩]
  constructor
  · refine ⟨Nat.le_add_right _ _, fun key hkey => ?_⟩
    have hself : key = digest := by
      by_contra hne
      exact hkey (blobs_expire_of_not (by simpa using hne))
    have hwritten : written.writtenAt key = s.now := by
      rw [hself]
      exact writtenAt_upload hgone
    exact hwritten.symm ▸ le_rfl
  · intro hspares
    have hkept : later.row other digest = some row := by
      apply row_upload other digest |>.trans
      rw [if_neg fun h => hother h.1.1, hrow]
    have hkeep : alone.stores.blobs digest = written.stores.blobs digest :=
      blobs_expire_of_kept (decide_eq_true rfl)
    have hlive : later.stores.blobs digest ≠ none := by
      show alone.stores.blobs digest ≠ none
      rw [hkeep, hblobs]
      exact Option.some_ne_none source
    have hswept := hspares other digest row hkept hlive
    have hbare' : later.Bare := hbare.apply.apply.apply
    rw [hbare'.row_sweep, hkept, Option.filter_some] at hswept
    have hexpired : Database.expired later.now
        (Database.sweepAge schedule.olderThanDays) row.createdAt = true :=
      decide_eq_true hlate
    rw [hexpired] at hswept
    cases hswept

/-- Every run that writes an object anew out of step may go on to a sweep that takes
a row of a live object. -/
theorem out_of_step {init : Retention} {events : List Event} {ns : String} {digest : Digest}
    {source : Bytes} (hbare : init.Bare) (hrun : Run crates schedule.Allows init events s)
    (hstep : ¬schedule.InStep s (.uploaded ns digest source)) :
    ∃ later ends, Run crates schedule.Allows init
        (events ++ .uploaded ns digest source :: later) ends ∧
      ¬ends.Spares (ends.sweep schedule.olderThanDays) := by
  have hbare' : s.Bare := hrun.preserves hbare fun _ _ h _ => h.apply
  simp only [Schedule.InStep, not_forall, Nat.not_le] at hstep
  obtain ⟨hgone, other, row, hother, hrow, hlate⟩ := hstep
  obtain ⟨hallows, hnot⟩ :=
    swept_while_live crates schedule source hbare' hgone hother hrow hlate
  refine ⟨[.expired (· = digest), .elapsed (s.now + schedule.lifecycle)], _, ?_, hnot⟩
  have hthree := ((hrun.step (.uploaded ns digest source) trivial).step
    (.expired (· = digest)) trivial).step (.elapsed (s.now + schedule.lifecycle)) hallows
  simpa only [List.append_assoc, List.cons_append, List.nil_append] using hthree

end OutOfStep

end Retention

end MbxCache.Server
