/-
# Monitors over the calls of a program

A monitor moves with every call that a program makes and may have no move for it. A
program that a monitor follows keeps to it however it is answered, as far as such
answers may be given, so what a run of the monitor guarantees holds of all calls that
the program ever makes, also beside other programs. A set of allowed calls, a budget
and a record of what has been asked for are monitors.
-/

import Mathlib.Algebra.BigOperators.Group.List.Basic
import Mathlib.Algebra.GroupWithZero.Nat
import Mathlib.Data.Finset.Card
import MbxCache.Foundation.Concurrent

namespace MbxCache.Foundation

namespace Program

variable {Op : Type} {Answer : Op → Type} {ε α β M : Type}

/-- The monitor has a move for every call, however the ones before are answered. Where
it stands at the end goes with the value. -/
def Watched (may : (op : Op) → Answer op → Prop) (step : M → Op → M → Prop)
    (post : α → M → Prop) : Program Op Answer ε α → M → Prop
  | done (.ok a), m => post a m
  | done (.error _), _ => True
  | call op next, m =>
      ∃ m', step m op m' ∧ ∀ answer, may op answer → Watched may step post (next answer) m'

section Rules

variable {may : (op : Op) → Answer op → Prop} {step : M → Op → M → Prop} {post : α → M → Prop} {m : M}

@[simp]
theorem watched_ok {a : α} :
    Watched may step post (done (.ok a) : Program Op Answer ε α) m ↔ post a m := Iff.rfl

@[simp]
theorem watched_error {e : ε} :
    Watched may step post (done (.error e) : Program Op Answer ε α) m := trivial

theorem Watched.imp {post' : α → M → Prop} (himp : ∀ a m, post a m → post' a m) :
    ∀ {p : Program Op Answer ε α} {m : M}, Watched may step post p m → Watched may step post' p m
  | done (.ok a), m, h => himp a m h
  | done (.error _), _, _ => trivial
  | call _ _, _, ⟨m', hstep, hnext⟩ => ⟨m', hstep, fun answer hmay => (hnext answer hmay).imp himp⟩

theorem Watched.bind {post' : β → M → Prop} {f : α → Program Op Answer ε β} :
    ∀ {p : Program Op Answer ε α} {m : M}, Watched may step post p m →
      (∀ a m, post a m → Watched may step post' (f a) m) → Watched may step post' (p >>= f) m
  | done (.ok a), m, h, hf => hf a m h
  | done (.error _), _, _, _ => trivial
  | call _ _, _, ⟨m', hstep, hnext⟩, hf => ⟨m', hstep, fun answer hmay => (hnext answer hmay).bind hf⟩

/-- A local computation leaves the monitor where it is. -/
theorem watched_lift {outcome : Except ε α} {post' : β → M → Prop}
    {f : α → Program Op Answer ε β} (hf : ∀ a, outcome = .ok a → Watched may step post' (f a) m) :
    Watched may step post' ((done outcome : Program Op Answer ε α) >>= f) m := by
  cases outcome with
  | ok a => exact hf a rfl
  | error e => trivial

theorem watched_done {outcome : Except ε α} (h : ∀ a, outcome = .ok a → post a m) :
    Watched may step post (done outcome : Program Op Answer ε α) m := by
  cases outcome with
  | ok a => exact h a rfl
  | error e => trivial

theorem Watched.map {post' : β → M → Prop} {f : α → β} {p : Program Op Answer ε α}
    (h : Watched may step (fun a m => post' (f a) m) p m) : Watched may step post' (f <$> p) m := by
  rw [map_eq_pure_bind]
  exact h.bind fun _ _ hpost => hpost

/-- A fold is followed when each of its turns restores the invariant for the items
that are left. -/
theorem watched_foldlM {σ τ : Type} {body : σ → τ → Program Op Answer ε σ}
    (inv : List τ → σ → M → Prop)
    (hbody : ∀ item items state m, inv (item :: items) state m →
      Watched may step (inv items) (body state item) m) :
    ∀ {items : List τ} {state : σ} {m : M}, inv items state m →
      Watched may step (inv []) (items.foldlM body state) m
  | [], _, _, h => h
  | item :: items, state, m, h => by
      rw [List.foldlM_cons]
      exact (hbody item items state m h).bind fun _ _ hlater => watched_foldlM inv hbody hlater

theorem watched_forM {τ : Type} {body : τ → Program Op Answer ε PUnit} (inv : M → Prop)
    (hbody : ∀ item m, inv m → Watched may step (fun _ => inv) (body item) m) :
    ∀ {items : List τ} {m : M}, inv m → Watched may step (fun _ => inv) (items.forM body) m
  | [], _, h => h
  | item :: _, m, h => (hbody item m h).bind fun _ _ hlater => watched_forM inv hbody hlater

end Rules

/-! ## Traces -/

/-- The first calls of some execution. -/
inductive Issues (may : (op : Op) → Answer op → Prop) :
    Program Op Answer ε α → List Op → Prop where
  | nil (p : Program Op Answer ε α) : Issues may p []
  | cons {op : Op} {next : Answer op → Program Op Answer ε α} {answer : Answer op} {ops : List Op}
      (given : may op answer) (later : Issues may (next answer) ops) :
      Issues may (call op next) (op :: ops)

variable {may : (op : Op) → Answer op → Prop}

/-- The moves of a monitor along some calls. -/
inductive Follows (step : M → Op → M → Prop) : M → List Op → M → Prop where
  | nil (m : M) : Follows step m [] m
  | cons {m m' m'' : M} {op : Op} {ops : List Op} (first : step m op m')
      (later : Follows step m' ops m'') : Follows step m (op :: ops) m''

theorem Watched.follows {step : M → Op → M → Prop} {post : α → M → Prop}
    {p : Program Op Answer ε α} {m : M} {ops : List Op} (h : Watched may step post p m)
    (hops : Issues may p ops) : ∃ m', Follows step m ops m' := by
  induction hops generalizing m with
  | nil p => exact ⟨m, .nil m⟩
  | cons given later ih =>
      obtain ⟨m', hstep, hnext⟩ := h
      obtain ⟨m'', hfollows⟩ := ih (hnext _ given)
      exact ⟨m'', .cons hstep hfollows⟩

/-- A sequence makes the calls of its first part, and then may make those of what
follows some value. -/
theorem issues_bind {p : Program Op Answer ε α} {f : α → Program Op Answer ε β} {ops : List Op}
    (h : Issues may (p >>= f) ops) :
    Issues may p ops ∨ ∃ a first later, ops = first ++ later ∧ Issues may p first ∧ Issues may (f a) later := by
  induction p generalizing ops with
  | done outcome =>
      cases outcome with
      | ok a => exact .inr ⟨a, [], ops, rfl, .nil _, h⟩
      | error e =>
          cases h
          exact .inl (.nil _)
  | call op next ih =>
      cases h with
      | nil => exact .inl (.nil _)
      | cons given later =>
          rcases ih _ later with hfirst | ⟨a, first, rest, rfl, hfirst, hrest⟩
          · exact .inl (.cons given hfirst)
          · exact .inr ⟨a, op :: first, rest, rfl, .cons given hfirst, hrest⟩

/-! ## Allowed calls -/

theorem Calls.issues {allowed : Op → Prop} {p : Program Op Answer ε α} {ops : List Op}
    (h : Calls allowed p) (hops : Issues may p ops) : ∀ op ∈ ops, allowed op := by
  induction hops with
  | nil p =>
      intro op hmem
      cases hmem
  | cons _ later ih =>
      intro op hmem
      rcases List.mem_cons.mp hmem with rfl | hlater
      · exact h.1
      · exact ih (h.2 _) op hlater

/-- The monitor of the calls that are allowed. -/
def Allows (allowed : Op → Prop) (_ : Unit) (op : Op) (_ : Unit) : Prop := allowed op

theorem Watched.calls {allowed : Op → Prop} {post : α → Unit → Prop} :
    ∀ {p : Program Op Answer ε α}, Watched (fun _ _ => True) (Allows allowed) post p () → Calls allowed p
  | done _, _ => trivial
  | call _ _, ⟨_, hallowed, hnext⟩ => ⟨hallowed, fun answer => (hnext answer trivial).calls⟩

theorem Calls.watched {allowed : Op → Prop} :
    ∀ {p : Program Op Answer ε α}, Calls allowed p →
      Watched may (Allows allowed) (fun _ _ => True) p ()
  | done (.ok _), _ => trivial
  | done (.error _), _ => trivial
  | call _ _, h => ⟨(), h.1, fun answer _ => (h.2 answer).watched⟩

/-! ## Budgets -/

section Budgets

variable {price : Op → ℕ}

/-- However such a program is answered, its calls cost at most this. -/
def Costs (may : (op : Op) → Answer op → Prop) (price : Op → ℕ) (budget : ℕ) (p : Program Op Answer ε α) : Prop :=
  ∀ ops, Issues may p ops → (ops.map price).sum ≤ budget

theorem costs_done (budget : ℕ) (outcome : Except ε α) :
    Costs may price budget (done outcome : Program Op Answer ε α) := by
  intro ops h
  cases h
  exact Nat.zero_le budget

theorem costs_call {op : Op} {next : Answer op → Program Op Answer ε α} {budget : ℕ}
    (h : ∀ answer, may op answer → Costs may price budget (next answer)) :
    Costs may price (price op + budget) (call op next) := by
  intro ops hops
  cases hops with
  | nil => exact Nat.zero_le _
  | cons given later =>
      rw [List.map_cons, List.sum_cons]
      exact Nat.add_le_add_left (h _ given _ later) (price op)

theorem Costs.mono {budget budget' : ℕ} {p : Program Op Answer ε α} (h : Costs may price budget p)
    (hle : budget ≤ budget') : Costs may price budget' p :=
  fun ops hops => (h ops hops).trans hle

theorem Costs.bind {budget later : ℕ} {p : Program Op Answer ε α} {f : α → Program Op Answer ε β}
    (h : Costs may price budget p) (hf : ∀ a, Costs may price later (f a)) :
    Costs may price (budget + later) (p >>= f) := by
  intro ops hops
  rcases issues_bind hops with hfirst | ⟨a, first, rest, rfl, hfirst, hrest⟩
  · exact (h ops hfirst).trans (Nat.le_add_right budget later)
  · rw [List.map_append, List.sum_append]
    exact Nat.add_le_add (h first hfirst) (hf a rest hrest)

/-- What follows is free. -/
theorem Costs.bind_free {budget : ℕ} {p : Program Op Answer ε α} {f : α → Program Op Answer ε β}
    (h : Costs may price budget p) (hf : ∀ a, Costs may price 0 (f a)) :
    Costs may price budget (p >>= f) := h.bind hf

/-- What goes before is free. -/
theorem Costs.free_bind {budget : ℕ} {p : Program Op Answer ε α} {f : α → Program Op Answer ε β}
    (h : Costs may price 0 p) (hf : ∀ a, Costs may price budget (f a)) :
    Costs may price budget (p >>= f) := (h.bind hf).mono (Nat.le_of_eq (Nat.zero_add budget))

theorem costs_lift {budget : ℕ} {outcome : Except ε α} {f : α → Program Op Answer ε β}
    (hf : ∀ a, outcome = .ok a → Costs may price budget (f a)) :
    Costs may price budget ((done outcome : Program Op Answer ε α) >>= f) := by
  cases outcome with
  | ok a => exact hf a rfl
  | error e => exact costs_done budget _

theorem Costs.map {budget : ℕ} {p : Program Op Answer ε α} {f : α → β} (h : Costs may price budget p) :
    Costs may price budget (f <$> p) := by
  rw [map_eq_pure_bind]
  exact h.bind fun a => costs_done 0 (.ok (f a))

/-- The monitor of what may still be spent. -/
def Pays (price : Op → ℕ) (budget : ℕ) (op : Op) (left : ℕ) : Prop := left + price op = budget

theorem Follows.total {budget left : ℕ} {ops : List Op} (h : Follows (Pays price) budget ops left) :
    left + (ops.map price).sum = budget := by
  induction h with
  | nil budget => rfl
  | cons first later ih =>
      rw [List.map_cons, List.sum_cons, ← first, ← ih]
      omega

theorem Watched.costs {budget : ℕ} {post : α → ℕ → Prop} {p : Program Op Answer ε α}
    (h : Watched may (Pays price) post p budget) : Costs may price budget p := by
  intro ops hops
  obtain ⟨left, hfollows⟩ := h.follows hops
  have htotal := hfollows.total
  omega

end Budgets

/-! ## Things asked for once -/

section Once

variable {K : Type} {others : Op → Prop} {key : Op → Option K} {limit : ℕ}
  {asked asked' : Finset K} {ops : List Op}

/-- The monitor of the things a program has asked for: each of them once, at most so
many, and nothing but the other calls that are allowed beside them. -/
def Asks [DecidableEq K] (others : Op → Prop) (key : Op → Option K) (limit : ℕ)
    (asked : Finset K) (op : Op) (asked' : Finset K) : Prop :=
  match key op with
  | none => others op ∧ asked' = asked
  | some k => k ∉ asked ∧ asked' = insert k asked ∧ asked'.card ≤ limit

variable [DecidableEq K]

theorem asks_of_none {op : Op} (hkey : key op = none) :
    Asks others key limit asked op asked' ↔ others op ∧ asked' = asked := by
  unfold Asks
  rw [hkey]

theorem asks_of_some {op : Op} {k : K} (hkey : key op = some k) :
    Asks others key limit asked op asked' ↔
      k ∉ asked ∧ asked' = insert k asked ∧ asked'.card ≤ limit := by
  unfold Asks
  rw [hkey]

theorem Follows.beside (h : Follows (Asks others key limit) asked ops asked') :
    ∀ op ∈ ops, key op = none → others op := by
  induction h with
  | nil asked =>
      intro op hmem
      cases hmem
  | cons first _ ih =>
      intro op hmem hkey
      rcases List.mem_cons.mp hmem with rfl | hlater
      · exact ((asks_of_none hkey).mp first).1
      · exact ih op hlater hkey

theorem Follows.once (h : Follows (Asks others key limit) asked ops asked') :
    (ops.filterMap key).Nodup ∧ (∀ k ∈ ops.filterMap key, k ∉ asked) ∧
      asked'.card = asked.card + (ops.filterMap key).length := by
  induction h with
  | nil asked => simp
  | @cons asked middle later op ops first _ ih =>
      cases hkey : key op with
      | none =>
          obtain rfl := ((asks_of_none hkey).mp first).2
          rw [List.filterMap_cons_none hkey]
          exact ih
      | some k =>
          obtain ⟨hnew, rfl, _⟩ := (asks_of_some hkey).mp first
          obtain ⟨hnodup, hapart, hcard⟩ := ih
          rw [List.filterMap_cons_some hkey]
          refine ⟨?_, ?_, ?_⟩
          · rw [List.nodup_cons]
            exact ⟨fun hmem => hapart k hmem (Finset.mem_insert_self k asked), hnodup⟩
          · rw [List.forall_mem_cons]
            exact ⟨hnew, fun other hmem hin => hapart other hmem (Finset.mem_insert_of_mem hin)⟩
          · rw [hcard, Finset.card_insert_of_notMem hnew, List.length_cons]
            omega

theorem Follows.card_le (h : Follows (Asks others key limit) asked ops asked')
    (hcard : asked.card ≤ limit) : asked'.card ≤ limit := by
  induction h with
  | nil asked => exact hcard
  | @cons asked middle later op ops first _ ih =>
      apply ih
      cases hkey : key op with
      | none =>
          rw [((asks_of_none hkey).mp first).2]
          exact hcard
      | some k => exact ((asks_of_some hkey).mp first).2.2

variable {post : α → Finset K → Prop} {p : Program Op Answer ε α}

/-- A program that such a monitor follows from the start asks for nothing twice, and
for at most so many things. -/
theorem Watched.asks_once (h : Watched may (Asks others key limit) post p ∅) (hops : Issues may p ops) :
    (ops.filterMap key).Nodup ∧ (ops.filterMap key).length ≤ limit := by
  obtain ⟨asked, hfollows⟩ := h.follows hops
  obtain ⟨hnodup, _, hcard⟩ := hfollows.once
  have hle := hfollows.card_le (Nat.zero_le limit)
  rw [hcard, Finset.card_empty, Nat.zero_add] at hle
  exact ⟨hnodup, hle⟩

/-- Its other calls being free, it costs at most what that many things do. -/
theorem Watched.costs_asked {price : Op → ℕ} {budget : ℕ}
    (h : Watched may (Asks others key limit) post p ∅) (hfree : ∀ op, others op → price op = 0)
    (hprice : ∀ op k, key op = some k → price op ≤ budget) : Costs may price (limit * budget) p := by
  intro ops hops
  obtain ⟨asked, hfollows⟩ := h.follows hops
  have hothers := hfollows.beside
  have htotal : (ops.map price).sum ≤ (ops.filterMap key).length * budget := by
    clear hops hfollows
    induction ops with
    | nil => exact Nat.zero_le _
    | cons op ops ih =>
        have hlater := ih fun other hmem => hothers other (List.mem_cons_of_mem op hmem)
        rw [List.map_cons, List.sum_cons]
        cases hkey : key op with
        | none =>
            rw [List.filterMap_cons_none hkey, hfree op (hothers op List.mem_cons_self hkey),
              Nat.zero_add]
            exact hlater
        | some k =>
            rw [List.filterMap_cons_some hkey, List.length_cons, Nat.succ_mul, Nat.add_comm]
            exact Nat.add_le_add hlater (hprice op k hkey)
  exact htotal.trans (Nat.mul_le_mul_right budget (h.asks_once hops).2)

end Once

end Program

/-! ## Beside other programs -/

namespace Pool

open Program

variable {S ρ Op : Type} {Answer : Op → Type} {ε α : Type}
  {exec : (op : Op) → S → Answer op → S → Prop} {handler : ρ → Program Op Answer ε α}
  {may : (op : Op) → Answer op → Prop}

def Event.performedBy (index : ℕ) : Event ρ Op Answer → Option Op
  | .arrived _ => none
  | .performed mover op _ => if mover = index then some op else none

/-- The calls that one request has made, in their order. -/
def performed (index : ℕ) (events : List (Event ρ Op Answer)) : List Op :=
  events.filterMap (Event.performedBy index)

/-- What a request has done so far, and what it may still do. -/
structure Continues (may : (op : Op) → Answer op → Prop) (handler : ρ → Program Op Answer ε α)
    (events : List (Event ρ Op Answer)) (threads : List (ρ × Program Op Answer ε α)) : Prop where
  issues : ∀ (index : ℕ) request program, threads[index]? = some (request, program) →
    ∀ later, Issues may program later →
      Issues may (handler request) (performed index events ++ later)
  idle : ∀ index, threads.length ≤ index → performed index events = []

theorem Step.continues (hmay : ∀ op s answer t, exec op s answer t → may op answer)
    {events : List (Event ρ Op Answer)} {event : Event ρ Op Answer}
    {pool pool' : Pool S ρ Op Answer ε α} (hstep : Step exec handler pool event pool')
    (h : Continues may handler events pool.threads) :
    Continues may handler (events ++ [event]) pool'.threads := by
  cases hstep with
  | arrive s threads arrived =>
      have hsame : ∀ index, performed index (events ++ [Event.arrived arrived]) =
          performed index events := by
        intro index
        unfold performed
        rw [List.filterMap_append]
        exact List.append_nil _
      apply Continues.mk
      · intro index request program hthread later hlater
        rw [hsame]
        by_cases hold : index < threads.length
        · apply h.issues index request program _ later hlater
          rwa [List.getElem?_append_left hold] at hthread
        · have hge : threads.length ≤ index := Nat.le_of_not_lt hold
          dsimp only at hthread
          rw [List.getElem?_append_right hge] at hthread
          obtain ⟨rfl, rfl⟩ := Prod.mk.inj (List.mem_singleton.mp (List.mem_of_getElem? hthread))
          rw [h.idle index hge, List.nil_append]
          exact hlater
      · intro index hindex
        rw [hsame]
        apply h.idle index
        rw [List.length_append] at hindex
        exact (Nat.le_add_right _ _).trans hindex
  | advance s t before after mover op next answer realized =>
      have hsplit : ∀ index, performed index (events ++ [Event.performed before.length op answer]) =
          performed index events ++ if before.length = index then [op] else [] := by
        intro index
        unfold performed
        rw [List.filterMap_append]
        congr 1
        by_cases hindex : before.length = index
        · simp [Event.performedBy, hindex]
        · simp [Event.performedBy, hindex]
      apply Continues.mk
      · intro index request program hthread later hlater
        rw [hsplit]
        by_cases hindex : before.length = index
        · subst hindex
          rw [if_pos rfl, List.append_assoc, List.singleton_append]
          have hmover : (mover, next answer) = (request, program) := by simpa using hthread
          obtain ⟨rfl, rfl⟩ := Prod.mk.inj hmover
          apply h.issues before.length mover (.call op next)
          · show (before ++ _)[before.length]? = _
            simp
          · exact .cons (hmay op s answer t realized) hlater
        · rw [if_neg hindex, List.append_nil]
          apply h.issues index request program _ later hlater
          show (before ++ _)[index]? = _
          have hother : (before ++ (mover, next answer) :: after)[index]? = some (request, program) :=
            hthread
          rcases Nat.lt_or_ge index before.length with hlt | hge
          · rwa [List.getElem?_append_left hlt] at hother ⊢
          · rw [List.getElem?_append_right hge] at hother ⊢
            obtain ⟨place, hplace⟩ : ∃ place, index - before.length = place + 1 :=
              Nat.exists_eq_add_one.mpr (by omega)
            rw [hplace, List.getElem?_cons_succ] at hother ⊢
            exact hother
      · intro index hindex
        simp only [List.length_append, List.length_cons] at hindex
        rw [hsplit, if_neg (by omega), List.append_nil]
        apply h.idle index
        simp only [List.length_append, List.length_cons]
        exact hindex

/-- The calls of a request in a run are the first ones of some execution of it. -/
theorem Run.issues (hmay : ∀ op s answer t, exec op s answer t → may op answer) {init : S}
    {events : List (Event ρ Op Answer)} {pool : Pool S ρ Op Answer ε α}
    (hrun : Run exec handler init events pool) {index : ℕ} {request : ρ}
    {program : Program Op Answer ε α} (hthread : pool.threads[index]? = some (request, program)) :
    Issues may (handler request) (performed index events) := by
  have hcontinues : Continues may handler events pool.threads := by
    clear hthread
    induction hrun with
    | start =>
        apply Continues.mk
        · intro index request program hthread
          cases hthread
        · exact fun _ _ => rfl
    | step prior taken ih => exact taken.continues hmay ih
  have hissues := hcontinues.issues index request program hthread [] (.nil _)
  rwa [List.append_nil] at hissues

end Pool

end MbxCache.Foundation
