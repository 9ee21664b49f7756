/-
# Pools over an implementation

The operations of a pool may themselves be programs over a lower-level store, so
that the calls of one operation have those of other threads between them. When
every operation takes effect at one of its calls, and what it did before cannot be
told, a pool of such threads only does what a pool of the operations does.

An operation that takes effect without a call is made by the abstract pool as soon
as the thread comes to it.
-/

import Mathlib.Data.List.Forall2
import MbxCache.Foundation.Later

namespace MbxCache.Foundation

namespace Pool

section Advances

variable {S ρ Op : Type} {Answer : Op → Type} {ε α : Type}
  {exec : (op : Op) → S → Answer op → S → Prop} {handler : ρ → Program Op Answer ε α}

/-- The calls one program makes with nothing beside it, up to some point. -/
inductive Advances (exec : (op : Op) → S → Answer op → S → Prop) :
    S → Program Op Answer ε α → S → Program Op Answer ε α → Prop where
  | refl (s : S) (program : Program Op Answer ε α) : Advances exec s program s program
  | call {s t u : S} {op : Op} {next : Answer op → Program Op Answer ε α} {answer : Answer op}
      {program : Program Op Answer ε α} (realized : exec op s answer t)
      (later : Advances exec t (next answer) u program) :
      Advances exec s (.call op next) u program

/-- A thread may make its calls while the others wait. -/
theorem Advances.leads {s t : S} {program later : Program Op Answer ε α}
    (h : Advances exec s program t later) (before after : List (ρ × Program Op Answer ε α))
    (request : ρ) : Leads exec handler ⟨s, before ++ (request, program) :: after⟩
      ⟨t, before ++ (request, later) :: after⟩ := by
  induction h with
  | refl s program => exact .refl
  | call realized _ ih =>
      exact .head ⟨_, .advance _ _ before after request _ _ _ realized⟩ ih

end Advances

section Refinement

variable {S T ρ Op Low : Type} {Answer : Op → Type} {LowAnswer : Low → Type} {ε α : Type}
  [Preorder S]
  (lowExec : (op : Low) → S → LowAnswer op → S → Prop)
  (exec : (op : Op) → T → Answer op → T → Prop) (related : S → T → Prop)
  (implementation : (op : Op) → Program Low LowAnswer ε (Answer op))

/-- The operation may take effect now, with this answer, and leave the stores
related. -/
def TakesEffect (op : Op) (answer : Answer op) (s : S) (t : T) : Prop :=
  ∃ later, exec op t answer later ∧ related s later

/-- What is left of an operation that has not taken effect. Its next call leaves it
so, or is the one at which it does and the last. -/
def Realizes (op : Op) : S → Program Low LowAnswer ε (Answer op) → Prop
  | s, .done outcome => ∃ answer, outcome = .ok answer ∧
      ∀ s' t, s ≤ s' → related s' t → TakesEffect exec related op answer s' t
  | s, .call low next =>
      ∀ s' t answer later, s ≤ s' → related s' t → lowExec low s' answer later →
        s' ≤ later ∧
          ((related later t ∧ Realizes op later (next answer)) ∨
            ∃ value, next answer = .done (.ok value) ∧
              TakesEffect exec related op value later t)

/-- A thread of the implementation beside the thread it stands for: both have
stopped, or the operation that is under way is the next one. -/
inductive Tracks : S → Program Low LowAnswer ε α → Program Op Answer ε α → Prop where
  | done (s : S) (outcome : Except ε α) : Tracks s (.done outcome) (.done outcome)
  | call {s : S} {op : Op} {next : Answer op → Program Op Answer ε α} {low : Low}
      {lowNext : LowAnswer low → Program Low LowAnswer ε (Answer op)}
      (within : Realizes lowExec exec related op s (.call low lowNext)) :
      Tracks s
        (.call low fun answer =>
          lowNext answer >>= fun value => (next value).interpret implementation)
        (.call op next)

/-- Each thread with the one it stands for, and the states related. -/
structure Simulates (pool : Pool S ρ Low LowAnswer ε α) (abstract : Pool T ρ Op Answer ε α) :
    Prop where
  states : related pool.state abstract.state
  threads : List.Forall₂ (fun thread abstractThread => thread.1 = abstractThread.1 ∧
    Tracks lowExec exec related implementation pool.state thread.2 abstractThread.2)
      pool.threads abstract.threads

variable {lowExec exec related implementation}

theorem Realizes.mono {op : Op} {s t : S} {program : Program Low LowAnswer ε (Answer op)}
    (h : Realizes lowExec exec related op s program) (hle : s ≤ t) :
    Realizes lowExec exec related op t program := by
  cases program with
  | done outcome =>
      obtain ⟨answer, houtcome, hnow⟩ := h
      exact ⟨answer, houtcome, fun u v hu => hnow u v (hle.trans hu)⟩
  | call low next => exact fun u v answer later hu => h u v answer later (hle.trans hu)

theorem Tracks.mono {s t : S} {program : Program Low LowAnswer ε α}
    {abstract : Program Op Answer ε α}
    (h : Tracks lowExec exec related implementation s program abstract) (hle : s ≤ t) :
    Tracks lowExec exec related implementation t program abstract := by
  cases h with
  | done outcome => exact .done t outcome
  | call within => exact .call (within.mono hle)

/-- A thread has stopped exactly when the one it stands for has, with the same
outcome. -/
theorem Tracks.done_iff {s : S} {program : Program Low LowAnswer ε α}
    {abstract : Program Op Answer ε α}
    (h : Tracks lowExec exec related implementation s program abstract) (outcome : Except ε α) :
    program = .done outcome ↔ abstract = .done outcome := by
  cases h with
  | done outcome' =>
      constructor
      · intro heq
        cases heq
        rfl
      · intro heq
        cases heq
        rfl
  | call within =>
      constructor
      · intro heq
        cases heq
      · intro heq
        cases heq

/-- The abstract thread makes the operations the implementation needs no call for. -/
theorem exists_tracks (himplementation : ∀ op s,
      Realizes lowExec exec related op s (implementation op))
    (program : Program Op Answer ε α) {s : S} {t : T} (hrelated : related s t) :
    ∃ t' abstract, Advances exec t program t' abstract ∧ related s t' ∧
      Tracks lowExec exec related implementation s (program.interpret implementation)
        abstract := by
  induction program generalizing t with
  | done outcome => exact ⟨t, _, .refl t _, hrelated, .done s outcome⟩
  | call op next ih =>
      have hop := himplementation op s
      rw [Program.interpret]
      cases hcode : implementation op with
      | done outcome =>
          rw [hcode] at hop
          obtain ⟨answer, rfl, hnow⟩ := hop
          obtain ⟨later, hexec, hlater⟩ := hnow s t le_rfl hrelated
          obtain ⟨t', abstract, hadvances, hrelated', htracks⟩ := ih answer hlater
          exact ⟨t', abstract, .call hexec hadvances, hrelated', htracks⟩
      | call low lowNext =>
          rw [hcode] at hop
          exact ⟨t, _, .refl t _, hrelated, .call hop⟩

/-- One call of the implementation. -/
theorem Tracks.step (himplementation : ∀ op s,
      Realizes lowExec exec related op s (implementation op))
    {s s' : S} {t : T} {low : Low} {answer : LowAnswer low}
    {next : LowAnswer low → Program Low LowAnswer ε α} {abstract : Program Op Answer ε α}
    (h : Tracks lowExec exec related implementation s (.call low next) abstract)
    (hrelated : related s t) (hexec : lowExec low s answer s') :
    s ≤ s' ∧ ∃ t' abstract', Advances exec t abstract t' abstract' ∧ related s' t' ∧
      Tracks lowExec exec related implementation s' (next answer) abstract' := by
  cases h with
  | @call op abstractNext _ lowNext within =>
      obtain ⟨hle, hcase⟩ := within s t answer s' le_rfl hrelated hexec
      apply And.intro hle
      dsimp only
      rcases hcase with ⟨hrelated', hleft⟩ | ⟨value, hstopped, later, hnow, hlater⟩
      · cases hrest : lowNext answer with
        | done outcome =>
            rw [hrest] at hleft
            obtain ⟨value, rfl, htakes⟩ := hleft
            obtain ⟨later, hnow, hlater⟩ := htakes s' t le_rfl hrelated'
            obtain ⟨t', abstract, hadvances, hfinal, htracks⟩ :=
              exists_tracks himplementation (abstractNext value) hlater
            exact ⟨t', abstract, .call hnow hadvances, hfinal, htracks⟩
        | call low' lowNext' =>
            rw [hrest] at hleft
            exact ⟨t, _, .refl t _, hrelated', .call hleft⟩
      · obtain ⟨t', abstract, hadvances, hfinal, htracks⟩ :=
          exists_tracks himplementation (abstractNext value) hlater
        rw [hstopped]
        exact ⟨t', abstract, .call hnow hadvances, hfinal, htracks⟩

theorem exists_append {β γ : Type} {R : β → γ → Prop} {before after : List β}
    {others : List γ} (h : List.Forall₂ R (before ++ after) others) :
    ∃ othersBefore othersAfter, List.Forall₂ R before othersBefore ∧
      List.Forall₂ R after othersAfter ∧ others = othersBefore ++ othersAfter :=
  ⟨_, _, (List.forall₂_take_append others before after h.flip).flip,
    (List.forall₂_drop_append others before after h.flip).flip,
    (List.take_append_drop before.length others).symm⟩

variable {handler : ρ → Program Op Answer ε α}

/-- One step of the implementation is some steps of the abstract pool. -/
theorem Simulates.step (himplementation : ∀ op s,
      Realizes lowExec exec related op s (implementation op))
    {pool pool' : Pool S ρ Low LowAnswer ε α} {abstract : Pool T ρ Op Answer ε α}
    {event : Event ρ Low LowAnswer}
    (h : Simulates lowExec exec related implementation pool abstract)
    (hstep : Step lowExec (fun request => (handler request).interpret implementation) pool event
      pool') :
    ∃ abstract', Leads exec handler abstract abstract' ∧
      Simulates lowExec exec related implementation pool' abstract' := by
  obtain ⟨t, abstractThreads⟩ := abstract
  obtain ⟨hrelated, hthreads⟩ := h
  cases hstep with
  | arrive s threads request =>
      obtain ⟨t', program, hadvances, hrelated', htracks⟩ :=
        exists_tracks himplementation (handler request) hrelated
      refine ⟨⟨t', abstractThreads ++ [(request, program)]⟩, ?_, hrelated', ?_⟩
      · exact .head ⟨_, .arrive t abstractThreads request⟩
          (hadvances.leads abstractThreads [] request)
      · exact List.rel_append hthreads (.cons ⟨rfl, htracks⟩ .nil)
  | advance s s' before after request low next answer realized =>
      obtain ⟨abstractBefore, abstractRest, hbefore, hrest, rfl⟩ := exists_append hthreads
      obtain ⟨⟨_, program⟩, abstractAfter, ⟨rfl, htracks⟩, hafter, rfl⟩ :=
        List.forall₂_cons_left_iff.mp hrest
      obtain ⟨hle, t', program', hadvances, hrelated', htracks'⟩ :=
        htracks.step himplementation hrelated realized
      refine ⟨⟨t', abstractBefore ++ (_, program') :: abstractAfter⟩,
        hadvances.leads abstractBefore abstractAfter _, hrelated', ?_⟩
      apply List.rel_append
      · exact hbefore.imp fun _ _ hthread => ⟨hthread.1, hthread.2.mono hle⟩
      · exact .cons ⟨rfl, htracks'⟩
          (hafter.imp fun _ _ hthread => ⟨hthread.1, hthread.2.mono hle⟩)

/-- The run lemma. -/
theorem Reachable.simulates (himplementation : ∀ op s,
      Realizes lowExec exec related op s (implementation op))
    {init : S} {abstractInit : T} (hinit : related init abstractInit)
    {pool : Pool S ρ Low LowAnswer ε α}
    (h : Reachable lowExec (fun request => (handler request).interpret implementation) init
      pool) :
    ∃ abstract, Reachable exec handler abstractInit abstract ∧
      Simulates lowExec exec related implementation pool abstract := by
  obtain ⟨events, hrun⟩ := h
  induction hrun with
  | start => exact ⟨⟨abstractInit, []⟩, ⟨[], .start⟩, hinit, .nil⟩
  | step _ taken ih =>
      obtain ⟨abstract, hreach, hsimulates⟩ := ih
      obtain ⟨abstract', hleads, hsimulates'⟩ := hsimulates.step himplementation taken
      exact ⟨abstract', hreach.leads hleads, hsimulates'⟩

/-- Threads that stand for each other, told by their outcomes. -/
def SameThreads (threads : List (ρ × Program Low LowAnswer ε α))
    (abstract : List (ρ × Program Op Answer ε α)) : Prop :=
  List.Forall₂ (fun thread abstractThread => thread.1 = abstractThread.1 ∧
    ∀ outcome, thread.2 = .done outcome ↔ abstractThread.2 = .done outcome) threads abstract

theorem Simulates.sameThreads {pool : Pool S ρ Low LowAnswer ε α}
    {abstract : Pool T ρ Op Answer ε α}
    (h : Simulates lowExec exec related implementation pool abstract) :
    SameThreads pool.threads abstract.threads :=
  h.threads.imp fun _ _ hthread => ⟨hthread.1, hthread.2.done_iff⟩

/-- A request that has stopped has an abstract one that stopped alike. -/
theorem SameThreads.exists_done {threads : List (ρ × Program Low LowAnswer ε α)}
    {abstract : List (ρ × Program Op Answer ε α)} (h : SameThreads threads abstract)
    {request : ρ} {outcome : Except ε α} (hmem : (request, .done outcome) ∈ threads) :
    (request, .done outcome) ∈ abstract := by
  induction h with
  | nil => cases hmem
  | @cons thread abstractThread rest abstractRest hthread _ ih =>
      rcases List.mem_cons.mp hmem with rfl | hrest
      · obtain ⟨_, program⟩ := abstractThread
        obtain ⟨rfl, hdone⟩ := hthread
        obtain rfl := (hdone outcome).mp rfl
        exact List.mem_cons_self
      · exact List.mem_cons_of_mem _ (ih hrest)

end Refinement

end Pool

end MbxCache.Foundation
