/-
# Requests that arrive later

Some facts stand once they hold: no call of any thread takes them back. A request
that arrives while one stands is answered under it, whatever runs beside it. A
request that only succeeds once a fact holds leaves it behind for those.

The two halves have their own rules, `Under` for the request that relies on a fact
and `Attains` for the one that establishes it.
-/

import Mathlib.Logic.Relation
import MbxCache.Foundation.Concurrent

namespace MbxCache.Foundation

variable {S ρ Op : Type} {Answer : Op → Type} {ε α β : Type}

namespace Program

section

variable (exec : (op : Op) → S → Answer op → S → Prop) (fact : S → Prop)

/-- No call takes the fact back. -/
def Stands : Prop := ∀ op s answer t, exec op s answer t → fact s → fact t

/-- Whatever runs beside the program, if the fact holds at each of its calls then its
outcome is as stated. -/
def Under (post : Except ε α → Prop) : Program Op Answer ε α → Prop
  | done outcome => post outcome
  | call op next => ∀ s answer t, fact s → exec op s answer t → Under post (next answer)

/-- The program gives no value before the fact holds, but for values that are set
free. -/
def Attains (free : α → Prop) : Program Op Answer ε α → Prop
  | done outcome => ∀ a, outcome = .ok a → free a
  | call op next => ∀ s answer t, exec op s answer t → fact t ∨ Attains free (next answer)

end

variable {exec : (op : Op) → S → Answer op → S → Prop} {fact : S → Prop}

/-! ### Relying on a fact -/

theorem Under.imp {post post' : Except ε α → Prop} (himp : ∀ outcome, post outcome → post' outcome)
    {program : Program Op Answer ε α} (h : Under exec fact post program) :
    Under exec fact post' program := by
  induction program with
  | done outcome => exact himp outcome h
  | call op next ih => exact fun s answer t hfact hexec => ih answer (h s answer t hfact hexec)

theorem Under.bind {middle : Except ε α → Prop} {post : Except ε β → Prop}
    {program : Program Op Answer ε α} {f : α → Program Op Answer ε β}
    (h : Under exec fact middle program) (herror : ∀ e, middle (.error e) → post (.error e))
    (hok : ∀ a, middle (.ok a) → Under exec fact post (f a)) :
    Under exec fact post (program >>= f) := by
  induction program with
  | done outcome =>
      cases outcome with
      | ok a => exact hok a h
      | error e => exact herror e h
  | call op next ih => exact fun s answer t hfact hexec => ih answer (h s answer t hfact hexec)

/-- A local computation whose value is known. -/
theorem under_lift {post : Except ε β → Prop} {outcome : Except ε α} {a : α}
    {f : α → Program Op Answer ε β} (hvalue : outcome = .ok a) (h : Under exec fact post (f a)) :
    Under exec fact post ((done outcome : Program Op Answer ε α) >>= f) := by
  rw [hvalue]
  exact h

theorem Under.map {post : Except ε β → Prop} {program : Program Op Answer ε α} {f : α → β}
    (h : Under exec fact (fun outcome => post (outcome.map f)) program) :
    Under exec fact post (f <$> program) := by
  rw [map_eq_pure_bind]
  exact h.bind (fun _ he => he) fun _ ha => ha

/-- A value as it should be, or one of the errors that may be given. -/
def EndsWith (errors : ε → Prop) (good : α → Prop) : Except ε α → Prop
  | .ok a => good a
  | .error e => errors e

section EndsWith

variable {errors : ε → Prop} {good : α → Prop} {good' : β → Prop}

theorem EndsWith.imp {errors' : ε → Prop} {good₂ : α → Prop} (herrors : ∀ e, errors e → errors' e)
    (hgood : ∀ a, good a → good₂ a) {outcome : Except ε α} (h : EndsWith errors good outcome) :
    EndsWith errors' good₂ outcome := by
  cases outcome with
  | ok a => exact hgood a h
  | error e => exact herrors e h

theorem under_trivial {post : Except ε α → Prop} (h : ∀ outcome, post outcome)
    (program : Program Op Answer ε α) : Under exec fact post program := by
  induction program with
  | done outcome => exact h outcome
  | call op next ih => exact fun _ answer _ _ _ => ih answer

theorem under_bind {program : Program Op Answer ε α} {f : α → Program Op Answer ε β}
    (h : Under exec fact (EndsWith errors good) program)
    (hok : ∀ a, good a → Under exec fact (EndsWith errors good') (f a)) :
    Under exec fact (EndsWith errors good') (program >>= f) :=
  h.bind (fun _ he => he) hok

/-- A local computation that gives a value or one of the errors. -/
theorem under_local {outcome : Except ε α} {f : α → Program Op Answer ε β}
    (herrors : Errs errors outcome)
    (hok : ∀ a, outcome = .ok a → Under exec fact (EndsWith errors good') (f a)) :
    Under exec fact (EndsWith errors good') ((done outcome : Program Op Answer ε α) >>= f) := by
  cases outcome with
  | ok a => exact hok a rfl
  | error e => exact herrors e rfl

theorem under_done {outcome : Except ε α} (herrors : Errs errors outcome)
    (hgood : ∀ a, outcome = .ok a → good a) :
    Under exec fact (EndsWith errors good) (done outcome : Program Op Answer ε α) := by
  cases outcome with
  | ok a => exact hgood a rfl
  | error e => exact herrors e rfl

theorem under_map {f : α → β} {program : Program Op Answer ε α}
    (h : Under exec fact (EndsWith errors fun a => good' (f a)) program) :
    Under exec fact (EndsWith errors good') (f <$> program) := by
  rw [map_eq_pure_bind]
  exact under_bind h fun _ ha => ha

/-- The rule for a loop: an invariant of what is left and of the accumulator. -/
theorem under_foldlM {σ τ : Type} {body : σ → τ → Program Op Answer ε σ}
    (loopInv : List τ → σ → Prop)
    (hbody : ∀ item rest acc, loopInv (item :: rest) acc →
      Under exec fact (EndsWith errors (loopInv rest)) (body acc item)) :
    ∀ (items : List τ) (acc : σ), loopInv items acc →
      Under exec fact (EndsWith errors (loopInv [])) (items.foldlM body acc)
  | [], _, h => h
  | item :: rest, acc, h => by
      rw [List.foldlM_cons]
      apply under_bind (hbody item rest acc h)
      intro acc' hacc'
      exact under_foldlM loopInv hbody rest acc' hacc'

theorem under_forM {τ : Type} {body : τ → Program Op Answer ε PUnit}
    (hbody : ∀ item, Under exec fact (EndsWith errors fun _ => True) (body item))
    (items : List τ) :
    Under exec fact (EndsWith errors fun _ => True) (items.forM body) := by
  induction items with
  | nil => trivial
  | cons item items ih => exact under_bind (hbody item) fun _ _ => ih

end EndsWith

/-! ### Establishing a fact -/

theorem Attains.imp {free free' : α → Prop} (himp : ∀ a, free a → free' a)
    {program : Program Op Answer ε α} (h : Attains exec fact free program) :
    Attains exec fact free' program := by
  induction program with
  | done outcome => exact fun a ha => himp a (h a ha)
  | call op next ih =>
      intro s answer t hexec
      rcases h s answer t hexec with hnow | hnext
      · exact .inl hnow
      · exact .inr (ih answer hnext)

theorem Attains.of_fact {fact' : S → Prop} {free : α → Prop} (himp : ∀ s, fact s → fact' s)
    {program : Program Op Answer ε α} (h : Attains exec fact free program) :
    Attains exec fact' free program := by
  induction program with
  | done outcome => exact h
  | call op next ih =>
      intro s answer t hexec
      rcases h s answer t hexec with hnow | hnext
      · exact .inl (himp t hnow)
      · exact .inr (ih answer hnext)

theorem Attains.bind {free : α → Prop} {free' : β → Prop} {program : Program Op Answer ε α}
    {f : α → Program Op Answer ε β} (h : Attains exec fact free program)
    (hok : ∀ a, free a → Attains exec fact free' (f a)) :
    Attains exec fact free' (program >>= f) := by
  induction program with
  | done outcome =>
      cases outcome with
      | ok a => exact hok a (h a rfl)
      | error e => exact fun b hb => by cases hb
  | call op next ih =>
      intro s answer t hexec
      rcases h s answer t hexec with hnow | hnext
      · exact .inl hnow
      · exact .inr (ih answer hnext)

/-- Any program may come first. -/
theorem attains_trivial (program : Program Op Answer ε α) :
    Attains exec fact (fun _ => True) program := by
  induction program with
  | done outcome => exact fun _ _ => trivial
  | call op next ih => exact fun s answer t _ => .inr (ih answer)

theorem attains_lift {free : β → Prop} {outcome : Except ε α} {f : α → Program Op Answer ε β}
    (hok : ∀ a, outcome = .ok a → Attains exec fact free (f a)) :
    Attains exec fact free ((done outcome : Program Op Answer ε α) >>= f) := by
  cases outcome with
  | ok a => exact hok a rfl
  | error e => exact fun b hb => by cases hb

theorem Attains.map {free : β → Prop} {program : Program Op Answer ε α} {f : α → β}
    (h : Attains exec fact (fun a => free (f a)) program) :
    Attains exec fact free (f <$> program) := by
  rw [map_eq_pure_bind]
  exact h.bind fun a ha b hb => by
    obtain rfl := Except.ok.inj hb
    exact ha

/-- The rule for a loop: an invariant of what is left and of the accumulator. -/
theorem attains_foldlM {σ τ : Type} {body : σ → τ → Program Op Answer ε σ}
    (loopInv : List τ → σ → Prop)
    (hbody : ∀ item rest acc, loopInv (item :: rest) acc →
      Attains exec fact (loopInv rest) (body acc item)) :
    ∀ (items : List τ) (acc : σ), loopInv items acc →
      Attains exec fact (loopInv []) (items.foldlM body acc)
  | [], acc, h => fun a ha => by
      obtain rfl := Except.ok.inj ha
      exact h
  | item :: rest, acc, h => by
      rw [List.foldlM_cons]
      apply (hbody item rest acc h).bind
      intro acc' hacc'
      exact attains_foldlM loopInv hbody rest acc' hacc'

end Program

namespace Pool

variable {exec : (op : Op) → S → Answer op → S → Prop} {handler : ρ → Program Op Answer ε α}

/-- What a run that has come to a pool may still come to. -/
def Leads (exec : (op : Op) → S → Answer op → S → Prop) (handler : ρ → Program Op Answer ε α) :
    Pool S ρ Op Answer ε α → Pool S ρ Op Answer ε α → Prop :=
  Relation.ReflTransGen fun pool later => ∃ event, Step exec handler pool event later

theorem Reachable.leads {init : S} {pool later : Pool S ρ Op Answer ε α}
    (hreach : Reachable exec handler init pool) (h : Leads exec handler pool later) :
    Reachable exec handler init later := by
  induction h with
  | refl => exact hreach
  | tail _ taken ih =>
      obtain ⟨event, hstep⟩ := taken
      obtain ⟨events, hrun⟩ := ih
      exact ⟨_, hrun.step hstep⟩

section Sequential

variable {det : (op : Op) → S → Answer op × S}

theorem leads_finish (hdet : ∀ op s, exec op s (det op s).1 (det op s).2) (request : ρ)
    (threads : List (ρ × Program Op Answer ε α)) (program : Program Op Answer ε α) (s : S) :
    Leads exec handler ⟨s, threads ++ [(request, program)]⟩
      ⟨(program.run det s).2, threads ++ [(request, .done (program.run det s).1)]⟩ := by
  induction program generalizing s with
  | done outcome => exact .refl
  | call op next ih =>
      exact .head ⟨_, .advance s _ threads [] request op next _ (hdet op s)⟩ (ih _ _)

/-- A request may be served to its end next. -/
theorem leads_serve (hdet : ∀ op s, exec op s (det op s).1 (det op s).2)
    (pool : Pool S ρ Op Answer ε α) (request : ρ) :
    Leads exec handler pool (pool.serve det handler request) :=
  .head ⟨_, .arrive pool.state pool.threads request⟩
    (leads_finish hdet request pool.threads (handler request) pool.state)

end Sequential

section Facts

variable {fact : S → Prop} {pool later : Pool S ρ Op Answer ε α} {event : Event ρ Op Answer}

theorem Step.stands (hstands : Program.Stands exec fact) (h : Step exec handler pool event later)
    (hfact : fact pool.state) : fact later.state := by
  cases h with
  | arrive s threads request => exact hfact
  | advance s t before after request op next answer realized =>
      exact hstands op s answer t realized hfact

theorem Leads.stands (hstands : Program.Stands exec fact) (h : Leads exec handler pool later)
    (hfact : fact pool.state) : fact later.state := by
  induction h with
  | refl => exact hfact
  | tail _ taken ih =>
      obtain ⟨event, hstep⟩ := taken
      exact hstep.stands hstands ih

/-- The threads that are not among the first ones are as stated. -/
def Beyond (count : ℕ) (P : ρ → Program Op Answer ε α → Prop) (pool : Pool S ρ Op Answer ε α) :
    Prop :=
  count ≤ pool.threads.length ∧ ∀ thread ∈ pool.threads.drop count, P thread.1 thread.2

/-- One step keeps what each call keeps and each arrival has. -/
theorem Step.beyond {count : ℕ} {P : ρ → Program Op Answer ε α → Prop}
    (harrive : ∀ request, P request (handler request))
    (hcall : ∀ request op next answer t, P request (.call op next) →
      exec op pool.state answer t → P request (next answer))
    (h : Step exec handler pool event later) (hpool : Beyond count P pool) :
    Beyond count P later := by
  obtain ⟨hcount, hthreads⟩ := hpool
  cases h with
  | arrive s threads request =>
      dsimp only at hcount hthreads
      apply And.intro
      · simp only [List.length_append]
        omega
      · intro thread hmem
        rw [List.drop_append_of_le_length hcount] at hmem
        rcases List.mem_append.mp hmem with hold | hnew
        · exact hthreads thread hold
        · rw [List.mem_singleton.mp hnew]
          exact harrive request
  | advance s t before after request op next answer realized =>
      dsimp only at hcount hthreads hcall
      apply And.intro
      · simpa using hcount
      · intro thread hmem
        dsimp only at hmem
        by_cases hle : count ≤ before.length
        · rw [List.drop_append_of_le_length hle] at hthreads hmem
          rcases List.mem_append.mp hmem with hbefore | hrest
          · exact hthreads thread (List.mem_append_left _ hbefore)
          · rcases List.mem_cons.mp hrest with rfl | hafter
            · exact hcall _ _ _ _ _ (hthreads (request, .call op next) (by simp)) realized
            · exact hthreads thread (by simp [hafter])
        · have hdrop : ∀ moved : ρ × Program Op Answer ε α,
              (before ++ moved :: after).drop count = after.drop (count - before.length - 1) := by
            intro moved
            obtain ⟨extra, hextra⟩ : ∃ extra, count - before.length = extra + 1 :=
              ⟨count - before.length - 1, by omega⟩
            rw [List.drop_append, List.drop_eq_nil_of_le (by omega), List.nil_append, hextra,
              List.drop_succ_cons, Nat.add_sub_cancel]
          rw [hdrop] at hthreads hmem
          exact hthreads thread hmem

/-- A request that arrives under a standing fact and stops does so with an outcome
allowed under it. -/
theorem Leads.under {post : ρ → Except ε α → Prop} (hstands : Program.Stands exec fact)
    (hhandler : ∀ request, Program.Under exec fact (post request) (handler request))
    (h : Leads exec handler pool later) (hfact : fact pool.state) {request : ρ}
    {outcome : Except ε α}
    (hmem : (request, .done outcome) ∈ later.threads.drop pool.threads.length) :
    post request outcome := by
  have hbeyond : Beyond pool.threads.length
      (fun request program => Program.Under exec fact (post request) program) later := by
    clear hmem
    induction h with
    | refl => exact ⟨Nat.le_refl _, by simp⟩
    | @tail middle later hleads taken ih =>
        obtain ⟨event, hstep⟩ := taken
        have hmiddle := Leads.stands hstands hleads hfact
        apply hstep.beyond hhandler
        · intro request op next answer t hunder hexec
          exact hunder _ answer t hmiddle hexec
        · exact ih
  exact hbeyond.2 _ hmem

/-- What is true of every state of a run may be relied on by every request of it. -/
theorem Reachable.under {init : S} {post : ρ → Except ε α → Prop}
    (hinv : ∀ {pool}, Reachable exec handler init pool → fact pool.state)
    (hhandler : ∀ request, Program.Under exec fact (post request) (handler request))
    (hreach : Reachable exec handler init pool) {request : ρ} {outcome : Except ε α}
    (hmem : (request, .done outcome) ∈ pool.threads) : post request outcome := by
  obtain ⟨events, hrun⟩ := hreach
  have hbeyond : Beyond 0
      (fun request program => Program.Under exec fact (post request) program) pool := by
    clear hmem
    induction hrun with
    | start => exact ⟨Nat.le_refl _, by simp⟩
    | step prior taken ih =>
        apply taken.beyond hhandler
        · intro request op next answer t hunder hexec
          exact hunder _ answer t (hinv ⟨_, prior⟩) hexec
        · exact ih
  exact hbeyond.2 _ hmem

/-- A run whose calls are all of a narrower kind is a run. -/
theorem Reachable.weaken {init : S} {wider : (op : Op) → S → Answer op → S → Prop}
    (hexec : ∀ op s answer t, exec op s answer t → wider op s answer t)
    (hreach : Reachable exec handler init pool) : Reachable wider handler init pool := by
  obtain ⟨events, hrun⟩ := hreach
  induction hrun with
  | start => exact ⟨[], .start⟩
  | step prior taken ih =>
      obtain ⟨events, hrun⟩ := ih
      cases taken with
      | arrive s threads request => exact ⟨_, hrun.step (.arrive s threads request)⟩
      | advance s t before after request op next answer realized =>
          exact ⟨_, hrun.step
            (.advance s t before after request op next answer (hexec op s answer t realized))⟩

/-- A request that gave a value has left the fact it attains. -/
theorem Reachable.attains {init : S} {request : ρ} {free : α → Prop}
    (hstands : Program.Stands exec fact)
    (hhandler : Program.Attains exec fact free (handler request))
    (hreach : Reachable exec handler init pool) {a : α} (hnot : ¬ free a)
    (hmem : (request, .done (.ok a)) ∈ pool.threads) : fact pool.state := by
  obtain ⟨events, hrun⟩ := hreach
  have hthreads : ∀ program, (request, program) ∈ pool.threads →
      fact pool.state ∨ Program.Attains exec fact free program := by
    clear hmem
    induction hrun with
    | start =>
        intro program hmem
        cases hmem
    | @step events middle later event prior taken ih =>
        intro program hmem
        by_cases hfact : fact middle.state
        · exact .inl (taken.stands hstands hfact)
        · cases taken with
          | arrive s threads arrived =>
              rcases List.mem_append.mp hmem with hold | hnew
              · exact ih program hold
              · obtain ⟨rfl, rfl⟩ := Prod.mk.inj (List.mem_singleton.mp hnew)
                exact .inr hhandler
          | advance s t before after moved op next answer realized =>
              rcases List.mem_append.mp hmem with hbefore | hrest
              · rcases ih program (by simp [hbefore]) with hnow | hattains
                · exact absurd hnow hfact
                · exact .inr hattains
              · rcases List.mem_cons.mp hrest with heq | hafter
                · obtain ⟨rfl, rfl⟩ := Prod.mk.inj heq
                  rcases ih (.call op next) (by simp) with hnow | hattains
                  · exact absurd hnow hfact
                  · exact hattains s answer t realized
                · rcases ih program (by simp [hafter]) with hnow | hattains
                  · exact absurd hnow hfact
                  · exact .inr hattains
  rcases hthreads _ hmem with hfact | hattains
  · exact hfact
  · exact absurd (hattains a rfl) hnot

end Facts

end Pool

end MbxCache.Foundation
