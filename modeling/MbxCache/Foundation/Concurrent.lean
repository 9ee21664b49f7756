/-
# Interleaved programs

A pool holds the shared state and every request that has arrived, each with what
is left of its program. Requests arrive at any time and any of them may take the
next step, so a run is an arbitrary interleaving. A request that is abandoned is
one that no later step advances.

The relation is labelled with the events of a run, so that one run can be read
both for the states it reaches and for the order in which its calls were made.
-/

import Mathlib.Data.List.Basic
import MbxCache.Foundation.Effects

namespace MbxCache.Foundation

/-- The shared state and the requests in flight, in order of arrival. -/
structure Pool (S ρ Op : Type) (Answer : Op → Type) (ε α : Type) where
  state : S
  threads : List (ρ × Program Op Answer ε α)

namespace Pool

variable {S ρ Op : Type} {Answer : Op → Type} {ε α : Type}

/-- What one step of a run did: a request arrived, or the request with the given
index performed its next operation and got an answer. -/
inductive Event (ρ Op : Type) (Answer : Op → Type) where
  | arrived (request : ρ)
  | performed (index : ℕ) (op : Op) (answer : Answer op)

/-- One step of the system. Only the thread that moves and the shared state
change; every other thread is as it was. -/
inductive Step (exec : (op : Op) → S → Answer op → S → Prop)
    (handler : ρ → Program Op Answer ε α) :
    Pool S ρ Op Answer ε α → Event ρ Op Answer → Pool S ρ Op Answer ε α → Prop where
  | arrive (s : S) (threads : List (ρ × Program Op Answer ε α)) (request : ρ) :
      Step exec handler ⟨s, threads⟩ (.arrived request)
        ⟨s, threads ++ [(request, handler request)]⟩
  | advance (s t : S) (before after : List (ρ × Program Op Answer ε α)) (request : ρ)
      (op : Op) (next : Answer op → Program Op Answer ε α) (answer : Answer op)
      (realized : exec op s answer t) :
      Step exec handler ⟨s, before ++ (request, .call op next) :: after⟩
        (.performed before.length op answer)
        ⟨t, before ++ (request, next answer) :: after⟩

/-- Runs from a state in which no request has arrived yet, with their events in
the order in which they happened. -/
inductive Run (exec : (op : Op) → S → Answer op → S → Prop)
    (handler : ρ → Program Op Answer ε α) (init : S) :
    List (Event ρ Op Answer) → Pool S ρ Op Answer ε α → Prop where
  | start : Run exec handler init [] ⟨init, []⟩
  | step {events : List (Event ρ Op Answer)} {pool pool' : Pool S ρ Op Answer ε α}
      {event : Event ρ Op Answer} (prior : Run exec handler init events pool)
      (taken : Step exec handler pool event pool') :
      Run exec handler init (events ++ [event]) pool'

/-- A pool some run ends in. -/
def Reachable (exec : (op : Op) → S → Answer op → S → Prop)
    (handler : ρ → Program Op Answer ε α) (init : S)
    (pool : Pool S ρ Op Answer ε α) : Prop :=
  ∃ events, Run exec handler init events pool

section Sequential

variable {exec : (op : Op) → S → Answer op → S → Prop}
  (det : (op : Op) → S → Answer op × S) (handler : ρ → Program Op Answer ε α)

/-- A request that arrives and runs to its end before anything else happens. -/
def serve (pool : Pool S ρ Op Answer ε α) (request : ρ) : Pool S ρ Op Answer ε α where
  state := ((handler request).run det pool.state).2
  threads := pool.threads ++ [(request, .done ((handler request).run det pool.state).1)]

variable {det handler}

/-- The last thread may run to its end. -/
theorem Reachable.finish {init : S}
    (hdet : ∀ op s, exec op s (det op s).1 (det op s).2) {request : ρ}
    {threads : List (ρ × Program Op Answer ε α)} :
    ∀ {program : Program Op Answer ε α} {s : S},
      Reachable exec handler init ⟨s, threads ++ [(request, program)]⟩ →
      Reachable exec handler init
        ⟨(program.run det s).2, threads ++ [(request, .done (program.run det s).1)]⟩
  | .done _, _, h => h
  | .call op next, s, ⟨events, hrun⟩ => by
      have hstep : Step exec handler ⟨s, threads ++ (request, .call op next) :: []⟩
          (.performed threads.length op (det op s).1)
          ⟨(det op s).2, threads ++ (request, next (det op s).1) :: []⟩ :=
        .advance s _ threads [] request op next _ (hdet op s)
      have hnext : Reachable exec handler init
          ⟨(det op s).2, threads ++ [(request, next (det op s).1)]⟩ := ⟨_, hrun.step hstep⟩
      exact hnext.finish hdet

/-- A request at a time is one of the interleavings. -/
theorem Reachable.serve {init : S} (hdet : ∀ op s, exec op s (det op s).1 (det op s).2)
    {pool : Pool S ρ Op Answer ε α} (h : Reachable exec handler init pool) (request : ρ) :
    Reachable exec handler init (pool.serve det handler request) := by
  obtain ⟨events, hrun⟩ := h
  have harrived : Reachable exec handler init
      ⟨pool.state, pool.threads ++ [(request, handler request)]⟩ :=
    ⟨_, hrun.step (.arrive pool.state pool.threads request)⟩
  exact harrived.finish hdet

theorem Reachable.serveAll {init : S} (hdet : ∀ op s, exec op s (det op s).1 (det op s).2)
    (requests : List ρ) {pool : Pool S ρ Op Answer ε α} (h : Reachable exec handler init pool) :
    Reachable exec handler init (requests.foldl (Pool.serve det handler) pool) := by
  induction requests generalizing pool with
  | nil => exact h
  | cons request requests ih => exact ih (h.serve hdet request)

theorem reachable_start {init : S} : Reachable exec handler init ⟨init, []⟩ :=
  ⟨[], .start⟩

end Sequential

section Invariant

variable [Preorder S] {exec : (op : Op) → S → Answer op → S → Prop}
  {handler : ρ → Program Op Answer ε α} {inv : S → Prop}
  {post : ρ → Except ε α → S → Prop}

/-- The invariant of the whole pool: the shared state satisfies `inv`, and what
is left of each request is checked from the present state. -/
def Checked (exec : (op : Op) → S → Answer op → S → Prop) (inv : S → Prop)
    (post : ρ → Except ε α → S → Prop) (pool : Pool S ρ Op Answer ε α) : Prop :=
  inv pool.state ∧
    ∀ thread ∈ pool.threads, thread.2.Ensures exec inv (post thread.1) pool.state

/-- One step keeps the pool checked. The thread that moved was checked for
exactly this call; the others only see the state move upward. -/
theorem Checked.step (hhandler : ∀ request s, inv s →
      (handler request).Ensures exec inv (post request) s)
    {pool pool' : Pool S ρ Op Answer ε α} {event : Event ρ Op Answer}
    (hchecked : Checked exec inv post pool) (hstep : Step exec handler pool event pool') :
    Checked exec inv post pool' := by
  obtain ⟨hinv, hthreads⟩ := hchecked
  cases hstep with
  | arrive s threads request =>
      refine ⟨hinv, fun thread hmem => ?_⟩
      rcases List.mem_append.mp hmem with hold | hnew
      · exact hthreads thread hold
      · rw [List.mem_singleton.mp hnew]
        exact hhandler request s hinv
  | advance s t before after request op next answer realized =>
      have hmoved := hthreads (request, .call op next) (by simp)
      obtain ⟨hinv', hle, hnext⟩ := hmoved s le_rfl hinv answer t realized
      refine ⟨hinv', fun thread hmem => ?_⟩
      rcases List.mem_append.mp hmem with hbefore | hrest
      · exact (hthreads thread (by simp [hbefore])).mono hle
      · rcases List.mem_cons.mp hrest with rfl | hafter
        · exact hnext
        · exact (hthreads thread (by simp [hafter])).mono hle

/-- The run lemma: handlers checked one at a time stay checked together. -/
theorem Run.checked {init : S} (hinit : inv init)
    (hhandler : ∀ request s, inv s →
      (handler request).Ensures exec inv (post request) s)
    {events : List (Event ρ Op Answer)} {pool : Pool S ρ Op Answer ε α}
    (hrun : Run exec handler init events pool) : Checked exec inv post pool := by
  induction hrun with
  | start => exact ⟨hinit, by simp⟩
  | step prior taken ih => exact ih.step hhandler taken

/-- In every reachable pool the invariant holds, and every request that has
stopped did so with an outcome its postcondition allows. -/
theorem Reachable.checked {init : S} (hinit : inv init)
    (hhandler : ∀ request s, inv s →
      (handler request).Ensures exec inv (post request) s)
    {pool : Pool S ρ Op Answer ε α} (hreach : Reachable exec handler init pool) :
    Checked exec inv post pool := by
  obtain ⟨events, hrun⟩ := hreach
  exact hrun.checked hinit hhandler

theorem Checked.outcome {pool : Pool S ρ Op Answer ε α}
    (hchecked : Checked exec inv post pool) {request : ρ} {outcome : Except ε α}
    (hmem : (request, Program.done outcome) ∈ pool.threads) :
    post request outcome pool.state :=
  hchecked.2 _ hmem pool.state le_rfl hchecked.1

end Invariant

section Calls

variable {exec : (op : Op) → S → Answer op → S → Prop} {handler : ρ → Program Op Answer ε α}
  {inv : S → Prop} {allowed : Op → Prop}

/-- One step keeps what every allowed operation keeps, and leaves each thread with
allowed operations only. -/
theorem Step.inv_of_calls (hhandler : ∀ request, Program.Calls allowed (handler request))
    (hexec : ∀ op s answer t, allowed op → exec op s answer t → inv s → inv t)
    {pool pool' : Pool S ρ Op Answer ε α} {event : Event ρ Op Answer}
    (hstep : Step exec handler pool event pool') (hinv : inv pool.state)
    (hthreads : ∀ thread ∈ pool.threads, Program.Calls allowed thread.2) :
    inv pool'.state ∧ ∀ thread ∈ pool'.threads, Program.Calls allowed thread.2 := by
  cases hstep with
  | arrive s threads request =>
      apply And.intro hinv
      intro thread hmem
      rcases List.mem_append.mp hmem with hold | hnew
      · exact hthreads thread hold
      · rw [List.mem_singleton.mp hnew]
        exact hhandler request
  | advance s t before after request op next answer realized =>
      have hmoved := hthreads (request, .call op next) (by simp)
      apply And.intro (hexec op s answer t hmoved.1 realized hinv)
      intro thread hmem
      rcases List.mem_append.mp hmem with hbefore | hrest
      · exact hthreads thread (by simp [hbefore])
      · rcases List.mem_cons.mp hrest with rfl | hafter
        · exact hmoved.2 answer
        · exact hthreads thread (by simp [hafter])

/-- The run lemma: what every allowed operation keeps, handlers that issue no other
keep together. -/
theorem Reachable.inv_of_calls {init : S} (hinit : inv init)
    (hhandler : ∀ request, Program.Calls allowed (handler request))
    (hexec : ∀ op s answer t, allowed op → exec op s answer t → inv s → inv t)
    {pool : Pool S ρ Op Answer ε α} (h : Reachable exec handler init pool) : inv pool.state := by
  obtain ⟨events, hrun⟩ := h
  have hboth : inv pool.state ∧ ∀ thread ∈ pool.threads, Program.Calls allowed thread.2 := by
    induction hrun with
    | start => exact ⟨hinit, by simp⟩
    | step prior taken ih => exact taken.inv_of_calls hhandler hexec ih.1 ih.2
  exact hboth.1

end Calls

end Pool

end MbxCache.Foundation
