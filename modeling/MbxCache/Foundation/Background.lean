/-
# Pools beside other changes

The state of a pool may also be changed by something that is no request: a pool step
is then one of many kinds. A thread keeps its place and, once it has stopped, its
outcome.

Programs have a second rule here for facts that others may end. While a fact holds
some answers cannot be given, and a program may be shown not to make certain calls
as long as it is only given the others.
-/

import MbxCache.Foundation.Later

namespace MbxCache.Foundation

variable {S ρ Op Low : Type} {Answer : Op → Type} {LowAnswer : Low → Type} {ε α β : Type}

namespace Program

/-- As long as the answers are ones that may be given, only allowed calls are made and
a value is as it should be. -/
def Heeds (may : (op : Op) → Answer op → Prop) (allowed : Op → Prop) (good : α → Prop) :
    Program Op Answer ε α → Prop
  | .done (.ok a) => good a
  | .done (.error _) => True
  | .call op next => allowed op ∧ ∀ answer, may op answer → Heeds may allowed good (next answer)

section Heeds

variable {may : (op : Op) → Answer op → Prop} {allowed : Op → Prop} {good : α → Prop}
  {good' : β → Prop}

theorem heeds_of_calls {program : Program Op Answer ε α} (h : Calls allowed program) :
    Heeds may allowed (fun _ => True) program := by
  induction program with
  | done outcome =>
      cases outcome with
      | ok a => trivial
      | error e => trivial
  | call op next ih => exact ⟨h.1, fun answer _ => ih answer (h.2 answer)⟩

theorem Heeds.imp {good₂ : α → Prop} (himp : ∀ a, good a → good₂ a)
    {program : Program Op Answer ε α} (h : Heeds may allowed good program) :
    Heeds may allowed good₂ program := by
  induction program with
  | done outcome =>
      cases outcome with
      | ok a => exact himp a h
      | error e => trivial
  | call op next ih => exact ⟨h.1, fun answer hmay => ih answer (h.2 answer hmay)⟩

theorem Heeds.bind {program : Program Op Answer ε α} {f : α → Program Op Answer ε β}
    (h : Heeds may allowed good program) (hnext : ∀ a, good a → Heeds may allowed good' (f a)) :
    Heeds may allowed good' (program >>= f) := by
  induction program with
  | done outcome =>
      cases outcome with
      | ok a => exact hnext a h
      | error e => trivial
  | call op next ih => exact ⟨h.1, fun answer hmay => ih answer (h.2 answer hmay)⟩

/-- A local computation makes no call. -/
theorem Heeds.lift {outcome : Except ε α} {f : α → Program Op Answer ε β}
    (hnext : ∀ a, outcome = .ok a → Heeds may allowed good' (f a)) :
    Heeds may allowed good' ((done outcome : Program Op Answer ε α) >>= f) := by
  cases outcome with
  | ok a => exact hnext a rfl
  | error e => trivial

theorem Heeds.map {program : Program Op Answer ε α} {f : α → β}
    (h : Heeds may allowed (fun a => good' (f a)) program) :
    Heeds may allowed good' (f <$> program) := by
  rw [map_eq_pure_bind]
  exact h.bind fun _ ha => ha

/-- A program that gives no value is followed by nothing. -/
theorem Heeds.stops {program : Program Op Answer ε α} {f : α → Program Op Answer ε β}
    (h : Heeds may allowed (fun _ => False) program) :
    Heeds may allowed good' (program >>= f) :=
  h.bind fun _ => False.elim

/-- Where each operation heeds the answers of its own calls, so does a program of
operations. -/
theorem Heeds.interpret {lowMay : (op : Low) → LowAnswer op → Prop} {lowAllowed : Low → Prop}
    {implementation : (op : Op) → Program Low LowAnswer ε (Answer op)}
    (himplementation : ∀ op, allowed op → Heeds lowMay lowAllowed (may op) (implementation op))
    {program : Program Op Answer ε α} (h : Heeds may allowed good program) :
    Heeds lowMay lowAllowed good (program.interpret implementation) := by
  induction program with
  | done outcome =>
      cases outcome with
      | ok a => exact h
      | error e => trivial
  | call op next ih =>
      rw [Program.interpret]
      exact (himplementation op h.1).bind fun answer hmay => ih answer (h.2 answer hmay)

theorem Calls.interpret {lowAllowed : Low → Prop}
    {implementation : (op : Op) → Program Low LowAnswer ε (Answer op)}
    (himplementation : ∀ op, allowed op → Calls lowAllowed (implementation op))
    {program : Program Op Answer ε α} (h : Calls allowed program) :
    Calls lowAllowed (program.interpret implementation) := by
  induction program with
  | done outcome => trivial
  | call op next ih =>
      rw [Program.interpret]
      exact (himplementation op h.1).bind fun answer => ih answer (h.2 answer)

end Heeds

end Program

namespace Pool

section

variable (exec : (op : Op) → S → Answer op → S → Prop) (handler : ρ → Program Op Answer ε α)
  (background : S → S → Prop)

/-- One step of a pool, or of what else changes its state. -/
inductive StepBeside : Pool S ρ Op Answer ε α → Pool S ρ Op Answer ε α → Prop where
  | served {pool later : Pool S ρ Op Answer ε α} {event : Event ρ Op Answer}
      (taken : Step exec handler pool event later) : StepBeside pool later
  | changed (s t : S) (threads : List (ρ × Program Op Answer ε α)) (changes : background s t) :
      StepBeside ⟨s, threads⟩ ⟨t, threads⟩

/-- Such steps, each of which leaves a fact. -/
def LeadsWhile (fact : S → Prop) : Pool S ρ Op Answer ε α → Pool S ρ Op Answer ε α → Prop :=
  Relation.ReflTransGen fun pool later =>
    StepBeside exec handler background pool later ∧ fact later.state

abbrev LeadsBeside : Pool S ρ Op Answer ε α → Pool S ρ Op Answer ε α → Prop :=
  LeadsWhile exec handler background fun _ => True

/-- What is come to from a state in which no request has arrived. -/
def ReachableBeside (init : S) (pool : Pool S ρ Op Answer ε α) : Prop :=
  LeadsBeside exec handler background ⟨init, []⟩ pool

end

variable {exec : (op : Op) → S → Answer op → S → Prop} {handler : ρ → Program Op Answer ε α}
  {background : S → S → Prop} {pool later : Pool S ρ Op Answer ε α} {init : S}

theorem ReachableBeside.leads (hreach : ReachableBeside exec handler background init pool)
    (h : LeadsBeside exec handler background pool later) :
    ReachableBeside exec handler background init later :=
  Relation.ReflTransGen.trans hreach h

/-- A run with nothing beside it is one. -/
theorem Reachable.beside (h : Reachable exec handler init pool) :
    ReachableBeside exec handler background init pool := by
  obtain ⟨events, hrun⟩ := h
  induction hrun with
  | start => exact .refl
  | step _ taken ih => exact ih.tail ⟨.served taken, trivial⟩

theorem LeadsWhile.leadsBeside {fact : S → Prop}
    (h : LeadsWhile exec handler background fact pool later) :
    LeadsBeside exec handler background pool later := by
  induction h with
  | refl => exact .refl
  | tail _ taken ih => exact ih.tail ⟨taken.1, trivial⟩

/-- The other changes may be followed by hand. -/
theorem leadsBeside_changed (hthreads : later.threads = pool.threads)
    (h : background pool.state later.state) : LeadsBeside exec handler background pool later := by
  obtain ⟨s, threads⟩ := pool
  obtain ⟨t, _⟩ := later
  obtain rfl : _ = threads := hthreads
  exact .single ⟨.changed s t _ h, trivial⟩

/-! ### Threads -/

/-- The threads of a later pool: the same requests in the same places, and what has
stopped has. -/
def Follows (pool later : Pool S ρ Op Answer ε α) : Prop :=
  ∀ (index : ℕ) (request : ρ) (program : Program Op Answer ε α),
    pool.threads[index]? = some (request, program) →
    ∃ program', later.threads[index]? = some (request, program') ∧
      ∀ outcome, program = .done outcome → program' = .done outcome

theorem follows_refl (pool : Pool S ρ Op Answer ε α) : Follows pool pool :=
  fun _ _ program hthread => ⟨program, hthread, fun _ hdone => hdone⟩

theorem Follows.trans {middle : Pool S ρ Op Answer ε α} (h : Follows pool middle)
    (h' : Follows middle later) : Follows pool later := by
  intro index request program hthread
  obtain ⟨program', hthread', hdone⟩ := h index request program hthread
  obtain ⟨program'', hthread'', hdone'⟩ := h' index request program' hthread'
  exact ⟨program'', hthread'', fun outcome heq => hdone' outcome (hdone outcome heq)⟩

theorem StepBeside.follows (h : StepBeside exec handler background pool later) :
    Follows pool later := by
  cases h with
  | changed s t threads changes =>
      intro index request program hthread
      exact ⟨program, hthread, fun _ hdone => hdone⟩
  | served taken =>
      cases taken with
      | arrive s threads request =>
          intro index other program hthread
          refine ⟨program, ?_, fun _ hdone => hdone⟩
          exact List.getElem?_append_left (List.getElem?_eq_some_iff.mp hthread).1 ▸ hthread
      | advance s t before after request op next answer realized =>
          intro index other program hthread
          dsimp only at hthread ⊢
          rcases Nat.lt_trichotomy index before.length with hlt | rfl | hgt
          · rw [List.getElem?_append_left hlt] at hthread ⊢
            exact ⟨program, hthread, fun _ hdone => hdone⟩
          · rw [List.getElem?_append_right (Nat.le_refl _), Nat.sub_self, List.getElem?_cons_zero] at hthread ⊢
            obtain ⟨rfl, rfl⟩ := Prod.mk.inj (Option.some.inj hthread)
            refine ⟨next answer, rfl, ?_⟩
            intro outcome hdone
            cases hdone
          · obtain ⟨extra, hextra⟩ : ∃ extra, index - before.length = extra + 1 :=
              ⟨index - before.length - 1, by omega⟩
            rw [List.getElem?_append_right (Nat.le_of_lt hgt), hextra, List.getElem?_cons_succ] at hthread ⊢
            exact ⟨program, hthread, fun _ hdone => hdone⟩

theorem LeadsWhile.follows {fact : S → Prop}
    (h : LeadsWhile exec handler background fact pool later) : Follows pool later := by
  induction h with
  | refl => exact follows_refl pool
  | tail _ taken ih => exact ih.trans taken.1.follows

/-- Requests that were served one at a time have all stopped. -/
theorem done_of_serveAll {det : (op : Op) → S → Answer op × S} (requests : List ρ)
    (hpool : ∀ thread ∈ pool.threads, ∃ outcome, thread.2 = .done outcome) :
    ∀ thread ∈ (requests.foldl (Pool.serve det handler) pool).threads,
      ∃ outcome, thread.2 = .done outcome := by
  induction requests generalizing pool with
  | nil => exact hpool
  | cons request requests ih =>
      apply ih
      intro thread hmem
      rcases List.mem_append.mp hmem with hold | hnew
      · exact hpool thread hold
      · rw [List.mem_singleton.mp hnew]
        exact ⟨_, rfl⟩

/-! ### What steps keep -/

/-- One step keeps what each call and each other change keeps. -/
theorem StepBeside.keeps (h : StepBeside exec handler background pool later) (fact : S → Prop)
    (hcall : ∀ request op next answer t, (request, Program.call op next) ∈ pool.threads →
      exec op pool.state answer t → fact pool.state → fact t)
    (hchange : ∀ t, background pool.state t → fact pool.state → fact t)
    (hfact : fact pool.state) : fact later.state := by
  cases h with
  | changed s t threads changes => exact hchange t changes hfact
  | served taken =>
      cases taken with
      | arrive s threads request => exact hfact
      | advance s t before after request op next answer realized =>
          exact hcall request op next answer t (by simp) realized hfact

/-- A fact about each thread that its calls keep and its arrival has. -/
theorem StepBeside.threads {P : ρ → Program Op Answer ε α → Prop}
    (h : StepBeside exec handler background pool later)
    (harrive : ∀ request, P request (handler request))
    (hcall : ∀ request op next answer t, P request (.call op next) →
      exec op pool.state answer t → P request (next answer))
    (hthreads : ∀ thread ∈ pool.threads, P thread.1 thread.2) :
    ∀ thread ∈ later.threads, P thread.1 thread.2 := by
  cases h with
  | changed s t threads changes => exact hthreads
  | served taken =>
      have hbeyond : Beyond 0 P pool := ⟨Nat.zero_le _, hthreads⟩
      exact (taken.beyond harrive hcall hbeyond).2

/-- In every run each thread keeps to the calls of its request. -/
theorem ReachableBeside.calls {allowed : ρ → Op → Prop}
    (hcalls : ∀ request, Program.Calls (allowed request) (handler request))
    (h : ReachableBeside exec handler background init pool) :
    ∀ thread ∈ pool.threads, Program.Calls (allowed thread.1) thread.2 := by
  unfold ReachableBeside LeadsBeside LeadsWhile at h
  induction h with
  | refl =>
      intro thread hmem
      cases hmem
  | tail _ taken ih =>
      apply taken.1.threads hcalls _ ih
      exact fun request op next answer t hprogram _ => hprogram.2 answer

end Pool

end MbxCache.Foundation
