/-
# Pack telemetry

The counters a download of a pack reports to, and the guard each download holds.
A guard may be driven in any way and dropped at any moment. However many there are,
their calls add up: what was started is in flight or has exactly one outcome.
-/

import Mathlib.Algebra.BigOperators.Group.List.Basic
import Mathlib.Algebra.Order.Ring.Int
import Mathlib.Data.Set.Basic
import Mathlib.Logic.Function.Basic

namespace MbxCache

/-! ## Counters -/

inductive Outcome where
  | completed
  | cancelled
  | error
  deriving DecidableEq, Repr

inductive Kind where
  | requested
  | missing
  | served
  deriving DecidableEq, Repr

/-- The counters with their labels, and the number of observations of a histogram. -/
inductive Counter where
  | packRequests (outcome : Outcome)
  | packDuration (outcome : Outcome)
  | packTimeToFirstByte
  | packBlobs (kind : Kind)
  | packBytes (kind : Kind)
  deriving DecidableEq, Repr

structure Metrics where
  packInFlight : ℤ
  counters : Counter → ℕ

namespace Metrics

def new : Metrics where
  packInFlight := 0
  counters _ := 0

def incBy (metrics : Metrics) (counter : Counter) (amount : ℕ) : Metrics :=
  { metrics with
    counters := Function.update metrics.counters counter (metrics.counters counter + amount) }

def inc (metrics : Metrics) (counter : Counter) : Metrics := metrics.incBy counter 1

@[simp]
theorem incBy_packInFlight (metrics : Metrics) (counter : Counter) (amount : ℕ) :
    (metrics.incBy counter amount).packInFlight = metrics.packInFlight := rfl

/-- An increment as an addition at every counter. -/
theorem incBy_counters (metrics : Metrics) (counter other : Counter) (amount : ℕ) :
    (metrics.incBy counter amount).counters other =
      metrics.counters other + if other = counter then amount else 0 := by
  show Function.update metrics.counters counter _ other = _
  by_cases h : other = counter
  · subst h
    rw [Function.update_self, if_pos rfl]
  · rw [Function.update_of_ne h, if_neg h, Nat.add_zero]

end Metrics

/-! ## The guard of one download -/

structure PackGuard where
  finished : Bool
  firstByteRecorded : Bool
  deriving DecidableEq, Repr

def Metrics.startPack (metrics : Metrics) (requestedBlobs requestedBytes missingBlobs : ℕ) :
    PackGuard × Metrics :=
  let metrics := { metrics with packInFlight := metrics.packInFlight + 1 }
  let metrics := metrics.incBy (.packBlobs .requested) requestedBlobs
  let metrics := metrics.incBy (.packBlobs .missing) missingBlobs
  let metrics := metrics.incBy (.packBytes .requested) requestedBytes
  ({ finished := false, firstByteRecorded := false }, metrics)

namespace PackGuard

def recordFirstByte (guard : PackGuard) (metrics : Metrics) : PackGuard × Metrics :=
  if guard.firstByteRecorded then (guard, metrics)
  else ({ guard with firstByteRecorded := true }, metrics.inc .packTimeToFirstByte)

def addServedBytes (guard : PackGuard) (bytes : ℕ) (metrics : Metrics) : PackGuard × Metrics :=
  (guard, metrics.incBy (.packBytes .served) bytes)

def blobServed (guard : PackGuard) (metrics : Metrics) : PackGuard × Metrics :=
  (guard, metrics.inc (.packBlobs .served))

def finish (guard : PackGuard) (outcome : Outcome) (metrics : Metrics) : PackGuard × Metrics :=
  if guard.finished then (guard, metrics)
  else
    let metrics := metrics.inc (.packRequests outcome)
    let metrics := metrics.inc (.packDuration outcome)
    ({ guard with finished := true },
      { metrics with packInFlight := metrics.packInFlight - 1 })

def complete (guard : PackGuard) (metrics : Metrics) : PackGuard × Metrics :=
  guard.finish .completed metrics

def error (guard : PackGuard) (metrics : Metrics) : PackGuard × Metrics :=
  guard.finish .error metrics

def drop (guard : PackGuard) (metrics : Metrics) : PackGuard × Metrics :=
  if !guard.finished then guard.finish .cancelled metrics else (guard, metrics)

end PackGuard

inductive GuardCall where
  | recordFirstByte
  | addServedBytes (bytes : ℕ)
  | blobServed
  | complete
  | error
  | drop
  deriving DecidableEq, Repr

def GuardCall.perform (guard : PackGuard) (metrics : Metrics) : GuardCall → PackGuard × Metrics
  | .recordFirstByte => guard.recordFirstByte metrics
  | .addServedBytes bytes => guard.addServedBytes bytes metrics
  | .blobServed => guard.blobServed metrics
  | .complete => guard.complete metrics
  | .error => guard.error metrics
  | .drop => guard.drop metrics

/-! ## What one call adds -/

namespace GuardCall

/-- The outcome a call asks for. -/
def outcome : GuardCall → Option Outcome
  | .complete => some .completed
  | .error => some .error
  | .drop => some .cancelled
  | _ => none

/-- What a call adds to a counter, whatever the counters were. -/
def adds (guard : PackGuard) (call : GuardCall) (counter : Counter) : ℕ :=
  match call with
  | .recordFirstByte =>
      if counter = .packTimeToFirstByte ∧ guard.firstByteRecorded = false then 1 else 0
  | .addServedBytes bytes => if counter = .packBytes .served then bytes else 0
  | .blobServed => if counter = .packBlobs .served then 1 else 0
  | .complete | .error | .drop =>
      if guard.finished = false ∧ (counter = .packRequests (call.outcome.getD .cancelled) ∨
        counter = .packDuration (call.outcome.getD .cancelled)) then 1 else 0

end GuardCall

theorem PackGuard.finish_spec (guard : PackGuard) (outcome : Outcome) (metrics : Metrics) :
    (∀ counter, (guard.finish outcome metrics).2.counters counter = metrics.counters counter +
      if guard.finished = false ∧
        (counter = .packRequests outcome ∨ counter = .packDuration outcome) then 1 else 0) ∧
    (guard.finish outcome metrics).2.packInFlight =
      metrics.packInFlight - (if guard.finished then 0 else 1) ∧
    (guard.finish outcome metrics).1 = { guard with finished := true } := by
  obtain ⟨finished, firstByteRecorded⟩ := guard
  cases finished with
  | true => simp [finish]
  | false =>
      refine ⟨fun counter => ?_, rfl, rfl⟩
      show ((metrics.inc (.packRequests outcome)).inc (.packDuration outcome)).counters counter = _
      rw [Metrics.inc, Metrics.incBy_counters, Metrics.inc, Metrics.incBy_counters]
      cases counter <;> simp

namespace GuardCall

variable (guard : PackGuard) (metrics : Metrics) (call : GuardCall)

theorem perform_counters (counter : Counter) :
    (call.perform guard metrics).2.counters counter =
      metrics.counters counter + call.adds guard counter := by
  obtain ⟨finished, firstByteRecorded⟩ := guard
  cases call with
  | recordFirstByte =>
      cases firstByteRecorded with
      | true => simp [perform, PackGuard.recordFirstByte, adds]
      | false => simp [perform, PackGuard.recordFirstByte, adds, Metrics.inc,
          Metrics.incBy_counters]
  | addServedBytes bytes => exact Metrics.incBy_counters _ _ _ _
  | blobServed => exact Metrics.incBy_counters _ _ _ _
  | complete => exact (PackGuard.finish_spec _ _ _).1 counter
  | error => exact (PackGuard.finish_spec _ _ _).1 counter
  | drop =>
      cases finished with
      | true => simp [perform, PackGuard.drop, adds]
      | false =>
          exact (PackGuard.finish_spec ⟨false, firstByteRecorded⟩ .cancelled metrics).1 counter

/-- The guard after a call, and the gauge: it goes down when the guard finishes. -/
theorem perform_guard :
    (call.perform guard metrics).1.finished = (guard.finished || call.outcome.isSome) ∧
    (call.perform guard metrics).1.firstByteRecorded =
      (guard.firstByteRecorded || decide (call = .recordFirstByte)) ∧
    (call.perform guard metrics).2.packInFlight = metrics.packInFlight -
      if guard.finished = false ∧ call.outcome.isSome = true then 1 else 0 := by
  obtain ⟨finished, firstByteRecorded⟩ := guard
  cases call <;> cases finished <;> cases firstByteRecorded <;>
    simp [perform, PackGuard.recordFirstByte, PackGuard.addServedBytes, PackGuard.blobServed,
      PackGuard.complete, PackGuard.error, PackGuard.drop, PackGuard.finish, outcome,
      Metrics.inc]

end GuardCall

/-! ## All downloads -/

/-- A download: its guard, whether that has been dropped, and what the download has
added to each counter. -/
structure StartedPack where
  guard : PackGuard
  dropped : Bool
  added : Counter → ℕ

/-- A call on the guard of a download. -/
def StartedPack.call (pack : StartedPack) (call : GuardCall) (metrics : Metrics) : StartedPack × Metrics :=
  let after := call.perform pack.guard metrics
  ({ guard := after.1
     dropped := decide (call = .drop)
     added := fun counter =>
      pack.added counter + (after.2.counters counter - metrics.counters counter) },
    after.2)

/-- A download that starts. -/
def StartedPack.start (requestedBlobs requestedBytes missingBlobs : ℕ) (metrics : Metrics) :
    StartedPack × Metrics :=
  let after := metrics.startPack requestedBlobs requestedBytes missingBlobs
  ({ guard := after.1
     dropped := false
     added := fun counter => after.2.counters counter - metrics.counters counter },
    after.2)

/-- The shared counters and the downloads in order of their start. -/
structure Telemetry where
  metrics : Metrics
  packs : List StartedPack

namespace Telemetry

/-- One step. A guard that was dropped is called no more. -/
inductive Step : Telemetry → Telemetry → Prop where
  | started (metrics : Metrics) (packs : List StartedPack)
      (requestedBlobs requestedBytes missingBlobs : ℕ) :
      Step ⟨metrics, packs⟩
        ⟨(StartedPack.start requestedBlobs requestedBytes missingBlobs metrics).2,
          packs ++ [(StartedPack.start requestedBlobs requestedBytes missingBlobs metrics).1]⟩
  | called (metrics : Metrics) (before after : List StartedPack) (pack : StartedPack) (call : GuardCall)
      (held : pack.dropped = false) :
      Step ⟨metrics, before ++ pack :: after⟩
        ⟨(pack.call call metrics).2, before ++ (pack.call call metrics).1 :: after⟩

/-- The states of all runs. -/
inductive Reachable : Telemetry → Prop where
  | start : Reachable ⟨Metrics.new, []⟩
  | step {s t : Telemetry} (prior : Reachable s) (taken : Step s t) : Reachable t

end Telemetry

/-! ### One download -/

/-- The outcomes a download was counted with. -/
def StartedPack.outcomes (pack : StartedPack) : ℕ :=
  pack.added (.packRequests .completed) + pack.added (.packRequests .cancelled) +
    pack.added (.packRequests .error)

namespace StartedPack

/-- A download was counted once if its guard is finished and not at all before. -/
structure Counted (pack : StartedPack) : Prop where
  outcomes : pack.outcomes = if pack.guard.finished then 1 else 0
  durations : ∀ outcome, pack.added (.packDuration outcome) = pack.added (.packRequests outcome)
  firstByte : pack.added .packTimeToFirstByte = if pack.guard.firstByteRecorded then 1 else 0
  dropped : pack.dropped = true → pack.guard.finished = true

variable {pack : StartedPack} {call : GuardCall} {metrics : Metrics}

theorem call_added (counter : Counter) :
    (pack.call call metrics).1.added counter =
      pack.added counter + call.adds pack.guard counter := by
  show pack.added counter + ((call.perform pack.guard metrics).2.counters counter -
    metrics.counters counter) = _
  rw [GuardCall.perform_counters, Nat.add_sub_cancel_left]

theorem start_added (requestedBlobs requestedBytes missingBlobs : ℕ) (counter : Counter) :
    (start requestedBlobs requestedBytes missingBlobs metrics).1.added counter =
      (if counter = .packBlobs .requested then requestedBlobs else 0) +
        (if counter = .packBlobs .missing then missingBlobs else 0) +
        (if counter = .packBytes .requested then requestedBytes else 0) := by
  show (((Metrics.incBy _ _ _).incBy _ _).incBy _ _).counters counter - _ = _
  rw [Metrics.incBy_counters, Metrics.incBy_counters, Metrics.incBy_counters]
  show metrics.counters counter + _ + _ + _ - metrics.counters counter = _
  rw [Nat.add_assoc, Nat.add_assoc, Nat.add_sub_cancel_left, Nat.add_assoc]

theorem start_counters (requestedBlobs requestedBytes missingBlobs : ℕ) (counter : Counter) :
    (start requestedBlobs requestedBytes missingBlobs metrics).2.counters counter =
      metrics.counters counter +
        (start requestedBlobs requestedBytes missingBlobs metrics).1.added counter := by
  rw [start_added, ← Nat.add_assoc, ← Nat.add_assoc]
  show (((Metrics.incBy _ _ _).incBy _ _).incBy _ _).counters counter = _
  rw [Metrics.incBy_counters, Metrics.incBy_counters, Metrics.incBy_counters]

theorem counted_start (requestedBlobs requestedBytes missingBlobs : ℕ) :
    Counted (start requestedBlobs requestedBytes missingBlobs metrics).1 where
  outcomes := by
    rw [StartedPack.outcomes, start_added, start_added, start_added]
    rfl
  durations outcome := by
    rw [start_added, start_added]
    rfl
  firstByte := by
    rw [start_added]
    rfl
  dropped h := by cases h

/-- The calls that ask for no outcome leave the outcomes alone. -/
theorem adds_outcomes (guard : PackGuard) (call : GuardCall) :
    call.adds guard (.packRequests .completed) + call.adds guard (.packRequests .cancelled) +
      call.adds guard (.packRequests .error) =
        if guard.finished = false ∧ call.outcome.isSome = true then 1 else 0 := by
  obtain ⟨finished, firstByteRecorded⟩ := guard
  cases call <;> cases finished <;> simp [GuardCall.adds, GuardCall.outcome]

theorem Counted.called (h : pack.Counted) (call : GuardCall) (metrics : Metrics) :
    Counted (pack.call call metrics).1 where
  outcomes := by
    have hadds := adds_outcomes pack.guard call
    have hguard : (pack.call call metrics).1.guard.finished = _ :=
      (call.perform_guard pack.guard metrics).1
    have hold := h.outcomes
    rw [StartedPack.outcomes] at hold ⊢
    rw [call_added, call_added, call_added, hguard]
    cases hfinished : pack.guard.finished <;> cases hasks : call.outcome.isSome <;>
      simp [hfinished, hasks] at hold hadds ⊢ <;> omega
  durations outcome := by
    rw [call_added, call_added, h.durations outcome]
    apply congrArg
    cases call <;> simp [GuardCall.adds]
  firstByte := by
    have hguard : (pack.call call metrics).1.guard.firstByteRecorded = _ :=
      (call.perform_guard pack.guard metrics).2.1
    rw [call_added, h.firstByte, hguard]
    cases call <;> cases hrecorded : pack.guard.firstByteRecorded <;>
      simp [GuardCall.adds, hrecorded]
  dropped hdropped := by
    have hguard : (pack.call call metrics).1.guard.finished = _ :=
      (call.perform_guard pack.guard metrics).1
    have hcall : call = .drop := of_decide_eq_true hdropped
    rw [hguard, hcall]
    exact Bool.or_true _

end StartedPack

/-! ### The sums -/

namespace Telemetry

/-- What the counters show is what the downloads added. -/
structure Adds (s : Telemetry) : Prop where
  counters : ∀ counter, s.metrics.counters counter = (s.packs.map (·.added counter)).sum
  inFlight : s.metrics.packInFlight =
    ((s.packs.countP fun pack => !pack.guard.finished : ℕ) : ℤ)
  counted : ∀ pack ∈ s.packs, pack.Counted

theorem adds_start : Adds ⟨Metrics.new, []⟩ where
  counters _ := rfl
  inFlight := rfl
  counted _ hmem := absurd hmem List.not_mem_nil

theorem Adds.step {s t : Telemetry} (h : s.Adds) (hstep : Step s t) : t.Adds := by
  cases hstep with
  | started metrics packs requestedBlobs requestedBytes missingBlobs =>
      constructor
      · intro counter
        have hold : metrics.counters counter = _ := h.counters counter
        show (StartedPack.start _ _ _ metrics).2.counters counter = _
        rw [StartedPack.start_counters, List.map_append, List.sum_append, ← hold, List.map_singleton,
          List.sum_singleton]
      · have hold : metrics.packInFlight = _ := h.inFlight
        show metrics.packInFlight + 1 = _
        rw [hold, List.countP_append, Int.natCast_add]
        rfl
      · intro pack hmem
        rcases List.mem_append.mp hmem with hold | hnew
        · exact h.counted pack hold
        · rw [List.mem_singleton.mp hnew]
          exact StartedPack.counted_start _ _ _
  | called metrics before after pack call held =>
      constructor
      · intro counter
        have hold : metrics.counters counter = _ := h.counters counter
        show (call.perform pack.guard metrics).2.counters counter = _
        rw [GuardCall.perform_counters, hold, List.map_append, List.map_append, List.map_cons,
          List.map_cons, List.sum_append, List.sum_append, List.sum_cons, List.sum_cons,
          StartedPack.call_added]
        omega
      · have hold : metrics.packInFlight = _ := h.inFlight
        obtain ⟨hfinished, _, hgauge⟩ := call.perform_guard pack.guard metrics
        show (call.perform pack.guard metrics).2.packInFlight =
          ((List.countP _ (before ++ (pack.call call metrics).1 :: after) : ℕ) : ℤ)
        rw [hgauge, hold, List.countP_append, List.countP_append, List.countP_cons,
          List.countP_cons]
        show _ = ((_ + (_ + if !(call.perform pack.guard metrics).1.finished then 1 else 0) : ℕ) : ℤ)
        rw [hfinished]
        cases pack.guard.finished <;> cases call.outcome.isSome <;> simp
        omega
      · intro other hmem
        rcases List.mem_append.mp hmem with hbefore | hrest
        · exact h.counted other (by simp [hbefore])
        · rcases List.mem_cons.mp hrest with rfl | hafter
          · exact (h.counted pack (by simp)).called call metrics
          · exact h.counted other (by simp [hafter])

theorem Reachable.adds {s : Telemetry} (h : Reachable s) : s.Adds := by
  induction h with
  | start => exact adds_start
  | step _ taken ih => exact ih.step taken

/-- The downloads with each outcome, and the ones with none. -/
theorem Adds.length_eq {s : Telemetry} (h : s.Adds) : (s.packs.length : ℤ) =
    s.metrics.packInFlight + s.metrics.counters (.packRequests .completed) +
      s.metrics.counters (.packRequests .cancelled) + s.metrics.counters (.packRequests .error) := by
  have hfinished : ∀ packs : List StartedPack, (∀ pack ∈ packs, pack.Counted) →
      packs.length = packs.countP (fun pack => !pack.guard.finished) +
        (packs.map (·.added (.packRequests .completed))).sum +
        (packs.map (·.added (.packRequests .cancelled))).sum +
        (packs.map (·.added (.packRequests .error))).sum := by
    intro packs hcounted
    induction packs with
    | nil => rfl
    | cons pack packs ih =>
        have hrest := ih fun other hmem => hcounted other (List.mem_cons_of_mem pack hmem)
        have hpack := (hcounted pack List.mem_cons_self).outcomes
        rw [StartedPack.outcomes] at hpack
        rw [List.length_cons, List.countP_cons, List.map_cons, List.map_cons, List.map_cons,
          List.sum_cons, List.sum_cons, List.sum_cons, hrest]
        cases hguard : pack.guard.finished <;> simp [hguard] at hpack ⊢ <;> omega
  rw [h.inFlight, h.counters, h.counters, h.counters]
  exact_mod_cast hfinished s.packs h.counted

/-- What the counters show of the downloads, at any moment. -/
structure Conserves (s : Telemetry) : Prop where
  balance : (s.packs.length : ℤ) =
    s.metrics.packInFlight + s.metrics.counters (.packRequests .completed) +
      s.metrics.counters (.packRequests .cancelled) + s.metrics.counters (.packRequests .error)
  shown : ∀ counter, s.metrics.counters counter = (s.packs.map (·.added counter)).sum
  /-- One outcome, once there is one, and none before; a dropped guard has one. -/
  once : ∀ pack ∈ s.packs, pack.outcomes = if pack.guard.finished then 1 else 0
  dropped : ∀ pack ∈ s.packs, pack.dropped = true → pack.outcomes = 1
  firstByte : ∀ pack ∈ s.packs, pack.added .packTimeToFirstByte ≤ 1

theorem Reachable.conserves {s : Telemetry} (h : Reachable s) : s.Conserves where
  balance := h.adds.length_eq
  shown := h.adds.counters
  once pack hmem := (h.adds.counted pack hmem).outcomes
  dropped pack hmem hdropped := by
    have hcounted := h.adds.counted pack hmem
    rw [hcounted.outcomes, if_pos (hcounted.dropped hdropped)]
  firstByte pack hmem := by
    rw [(h.adds.counted pack hmem).firstByte]
    split
    · exact le_rfl
    · exact Nat.zero_le 1

end Telemetry

end MbxCache
