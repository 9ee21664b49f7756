/-
# Reading ahead in order

A queue of reads of which a bounded number is under way at a time. They complete
in any order and are handed on in the order in which they were asked for. Each
read stands for its request together with the answer it will get.
-/

import Mathlib.Data.List.Basic

namespace MbxCache.Foundation

/-- What has not been started, and what has been and is not handed on yet, oldest
first, with whether it has completed. -/
structure ReadAhead (τ : Type) where
  waiting : List τ
  inFlight : List (τ × Bool)

namespace ReadAhead

variable {τ : Type}

def new (reads : List τ) : ReadAhead τ where
  waiting := reads
  inFlight := []

/-- Everything that is still to be handed on, in order. -/
def remaining (queue : ReadAhead τ) : List τ :=
  queue.inFlight.map Prod.fst ++ queue.waiting

/-- One step, and the read it hands on, if it does. -/
inductive Step (window : ℕ) : ReadAhead τ → Option τ → ReadAhead τ → Prop where
  | start (read : τ) (waiting : List τ) (inFlight : List (τ × Bool))
      (room : inFlight.length < window) :
      Step window ⟨read :: waiting, inFlight⟩ none ⟨waiting, inFlight ++ [(read, false)]⟩
  | complete (waiting : List τ) (before after : List (τ × Bool)) (read : τ) :
      Step window ⟨waiting, before ++ (read, false) :: after⟩ none
        ⟨waiting, before ++ (read, true) :: after⟩
  | deliver (waiting : List τ) (read : τ) (inFlight : List (τ × Bool)) :
      Step window ⟨waiting, (read, true) :: inFlight⟩ (some read) ⟨waiting, inFlight⟩

@[simp]
theorem remaining_new (reads : List τ) : (new reads).remaining = reads := rfl

/-- Whatever completes first, the reads are handed on in order and none is lost. -/
theorem Step.remaining {window : ℕ} {queue later : ReadAhead τ} {read : Option τ}
    (h : Step window queue read later) : queue.remaining = read.toList ++ later.remaining := by
  cases h with
  | start read waiting inFlight => simp [ReadAhead.remaining]
  | complete waiting before after read => simp [ReadAhead.remaining]
  | deliver waiting read inFlight => rfl

theorem Step.bounded {window : ℕ} {queue later : ReadAhead τ} {read : Option τ}
    (h : Step window queue read later) (hbounded : queue.inFlight.length ≤ window) :
    later.inFlight.length ≤ window := by
  cases h with
  | start read waiting inFlight room => simpa using Nat.succ_le_of_lt room
  | complete waiting before after read => simpa using hbounded
  | deliver waiting read inFlight => exact Nat.le_of_succ_le hbounded

end ReadAhead

end MbxCache.Foundation
