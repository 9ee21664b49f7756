/-
# Resumable programs over atomic operations

A request handler is asynchronous: between two calls to a shared store it may be
suspended while other handlers run, and it may never be resumed. The tree of
calls below is the part of a handler such a scheduler can see. Everything local
to the handler happens inside the continuations.

One tree is read in three ways. `run` executes it alone against a deterministic
store, `interpret` replaces each call by a program over a lower-level store, and
`Ensures` is the proof rule for a tree whose calls may be separated by anything
that only moves the shared state upward in a given order.
-/

import Mathlib.Order.Basic

namespace MbxCache.Foundation

/-! ## Outcomes -/

section Outcome

variable {ε δ α β : Type}

theorem bind_eq_ok {x : Except ε α} {f : α → Except ε β} {b : β} :
    (x >>= f) = .ok b ↔ ∃ a, x = .ok a ∧ f a = .ok b := by
  cases x with
  | error e =>
      constructor
      · intro h
        cases h
      · rintro ⟨a, h, _⟩
        cases h
  | ok a =>
      constructor
      · intro h
        exact ⟨a, rfl, h⟩
      · rintro ⟨a', h, hf⟩
        injection h with h
        exact h ▸ hf

theorem bind_eq_error {x : Except ε α} {f : α → Except ε β} {e : ε} :
    (x >>= f) = .error e ↔ x = .error e ∨ ∃ a, x = .ok a ∧ f a = .error e := by
  cases x with
  | error e' =>
      constructor
      · intro h
        injection h with h
        exact .inl (h ▸ rfl)
      · rintro (h | ⟨a, h, _⟩)
        · injection h with h
          exact h ▸ rfl
        · cases h
  | ok a =>
      constructor
      · exact fun h => .inr ⟨a, rfl, h⟩
      · rintro (h | ⟨a', h, hf⟩)
        · cases h
        · injection h with h
          exact h ▸ hf

@[simp]
theorem mapError_eq_ok {x : Except ε α} {f : ε → δ} {a : α} :
    x.mapError f = .ok a ↔ x = .ok a := by
  cases x <;> simp [Except.mapError]

@[simp]
theorem mapError_eq_error {x : Except ε α} {f : ε → δ} {d : δ} :
    x.mapError f = .error d ↔ ∃ e, x = .error e ∧ f e = d := by
  cases x <;> simp [Except.mapError]

/-- An early return with an error. -/
def rejectIf (refused : Bool) (error : ε) : Except ε Unit :=
  if refused then .error error else .ok ()

/-- `ok_or_else`. -/
def okOr (value : Option α) (error : ε) : Except ε α :=
  match value with
  | some a => .ok a
  | none => .error error

@[simp]
theorem rejectIf_eq_ok {refused : Bool} {error : ε} {u : Unit} :
    rejectIf refused error = .ok u ↔ refused = false := by
  cases refused <;> simp [rejectIf]

@[simp]
theorem rejectIf_eq_error {refused : Bool} {error error' : ε} :
    rejectIf refused error = .error error' ↔ refused = true ∧ error = error' := by
  cases refused <;> simp [rejectIf]

@[simp]
theorem okOr_eq_ok {value : Option α} {error : ε} {a : α} :
    okOr value error = .ok a ↔ value = some a := by
  cases value <;> simp [okOr]

@[simp]
theorem okOr_eq_error {value : Option α} {error error' : ε} :
    okOr value error = .error error' ↔ value = none ∧ error = error' := by
  cases value <;> simp [okOr]

theorem exists_of_isOk {x : Except ε α} (h : x.isOk = true) : ∃ a, x = .ok a := by
  cases x with
  | ok a => exact ⟨a, rfl⟩
  | error e => cases h

theorem exists_mapM_of_forall {f : α → Except ε β} {items : List α}
    (h : ∀ item ∈ items, ∃ b, f item = .ok b) : ∃ bs, items.mapM f = .ok bs := by
  induction items with
  | nil => exact ⟨[], rfl⟩
  | cons item items ih =>
      obtain ⟨b, hb⟩ := h item List.mem_cons_self
      obtain ⟨bs, hbs⟩ := ih fun other hmem => h other (List.mem_cons_of_mem item hmem)
      apply Exists.intro (b :: bs)
      rw [List.mapM_cons, hb, hbs]
      rfl

theorem forM_eq_ok {f : α → Except ε Unit} {items : List α} {u : Unit} :
    items.forM f = .ok u ↔ ∀ item ∈ items, f item = .ok u := by
  induction items with
  | nil => exact ⟨fun _ _ hmem => absurd hmem List.not_mem_nil, fun _ => rfl⟩
  | cons item items ih =>
      rw [List.forall_mem_cons, ← ih]
      constructor
      · intro h
        obtain ⟨_, hitem, hitems⟩ := bind_eq_ok.mp h
        exact ⟨hitem, hitems⟩
      · exact fun h => bind_eq_ok.mpr ⟨u, h.1, h.2⟩

/-- Every error a computation may stop with is one of some kind. -/
def Errs (kind : ε → Prop) (x : Except ε α) : Prop := ∀ e, x = .error e → kind e

section Errs

variable {kind : ε → Prop}

theorem errs_ok (a : α) : Errs kind (.ok a : Except ε α) := by
  intro e h
  cases h

theorem Errs.bind {x : Except ε α} {f : α → Except ε β} (hx : Errs kind x)
    (hf : ∀ a, Errs kind (f a)) : Errs kind (x >>= f) := by
  intro e h
  rcases bind_eq_error.mp h with herror | ⟨a, _, herror⟩
  · exact hx e herror
  · exact hf a e herror

theorem errs_mapError {x : Except δ α} {f : δ → ε} (h : ∀ e, kind (f e)) :
    Errs kind (x.mapError f) := by
  intro e herror
  obtain ⟨e', _, rfl⟩ := mapError_eq_error.mp herror
  exact h e'

theorem errs_rejectIf {refused : Bool} {error : ε} (h : kind error) :
    Errs kind (rejectIf refused error) := by
  intro e herror
  exact (rejectIf_eq_error.mp herror).2 ▸ h

theorem errs_okOr {value : Option α} {error : ε} (h : kind error) :
    Errs kind (okOr value error) := by
  intro e herror
  exact (okOr_eq_error.mp herror).2 ▸ h

theorem errs_foldlM {f : β → α → Except ε β} (hf : ∀ b a, Errs kind (f b a)) :
    ∀ (items : List α) (b : β), Errs kind (items.foldlM f b)
  | [], b => errs_ok b
  | item :: items, b => by
      rw [List.foldlM_cons]
      exact (hf b item).bind fun b => errs_foldlM hf items b

theorem errs_forM {f : α → Except ε PUnit} (hf : ∀ a, Errs kind (f a)) (items : List α) :
    Errs kind (items.forM f) := by
  induction items with
  | nil => exact errs_ok _
  | cons item items ih => exact (hf item).bind fun _ => ih

end Errs

end Outcome

/-! ## Programs -/

/-- A program issues an operation, resumes with its answer, and finally stops
with a value or an error. Early returns are `done` with an error. -/
inductive Program (Op : Type) (Answer : Op → Type) (ε α : Type) where
  | done (outcome : Except ε α)
  | call (op : Op) (next : Answer op → Program Op Answer ε α)

namespace Program

variable {Op : Type} {Answer : Op → Type} {ε δ α β γ : Type}

/-- Sequencing stops at the first error, as the `?` operator does. -/
def bind (p : Program Op Answer ε α) (f : α → Program Op Answer ε β) :
    Program Op Answer ε β :=
  match p with
  | done (.ok a) => f a
  | done (.error e) => done (.error e)
  | call op next => call op fun answer => bind (next answer) f

instance : Monad (Program Op Answer ε) where
  pure a := done (.ok a)
  bind := bind

instance : MonadLift (Except ε) (Program Op Answer ε) where
  monadLift := done

/-- Issue one operation and return its answer. -/
def perform (op : Op) : Program Op Answer ε (Answer op) :=
  call op fun answer => done (.ok answer)

/-- Run a program to its end and hand its outcome over as a value. -/
def attempt : Program Op Answer δ α → Program Op Answer ε (Except δ α)
  | done outcome => done (.ok outcome)
  | call op next => call op fun answer => attempt (next answer)

@[simp]
theorem pure_eq (a : α) : (pure a : Program Op Answer ε α) = done (.ok a) := rfl

@[simp]
theorem monadLift_eq (outcome : Except ε α) :
    (liftM outcome : Program Op Answer ε α) = done outcome := rfl

@[simp]
theorem ok_bind (a : α) (f : α → Program Op Answer ε β) :
    (done (.ok a) >>= f) = f a := rfl

@[simp]
theorem error_bind (e : ε) (f : α → Program Op Answer ε β) :
    (done (.error e) >>= f) = done (.error e) := rfl

@[simp]
theorem call_bind (op : Op) (next : Answer op → Program Op Answer ε α)
    (f : α → Program Op Answer ε β) :
    (call op next >>= f) = call op fun answer => next answer >>= f := rfl

@[simp]
theorem perform_bind (op : Op) (f : Answer op → Program Op Answer ε β) :
    (perform op >>= f) = call op f := rfl

theorem bind_assoc (p : Program Op Answer ε α) (f : α → Program Op Answer ε β)
    (g : β → Program Op Answer ε γ) : (p >>= f) >>= g = p >>= fun a => f a >>= g := by
  induction p with
  | done outcome => cases outcome <;> rfl
  | call op next ih =>
      simp only [call_bind]
      congr
      funext answer
      exact ih answer

theorem bind_pure (p : Program Op Answer ε α) : p >>= pure = p := by
  induction p with
  | done outcome => cases outcome <;> rfl
  | call op next ih =>
      simp only [call_bind]
      congr
      funext answer
      exact ih answer

instance : LawfulMonad (Program Op Answer ε) :=
  LawfulMonad.mk' _ (fun p => bind_pure p) (fun _ _ => rfl) bind_assoc

/-! ## Execution alone -/

section Run

variable {S : Type} (exec : (op : Op) → S → Answer op × S)

/-- Execute a program with no other program running beside it. -/
def run : Program Op Answer ε α → S → Except ε α × S
  | done outcome, s => (outcome, s)
  | call op next, s => run (next (exec op s).1) (exec op s).2

@[simp]
theorem run_done (outcome : Except ε α) (s : S) :
    run exec (done outcome : Program Op Answer ε α) s = (outcome, s) := rfl

@[simp]
theorem run_call (op : Op) (next : Answer op → Program Op Answer ε α) (s : S) :
    run exec (call op next) s = run exec (next (exec op s).1) (exec op s).2 := rfl

@[simp]
theorem run_perform (op : Op) (s : S) :
    run exec (perform op : Program Op Answer ε (Answer op)) s =
      (.ok (exec op s).1, (exec op s).2) := rfl

theorem run_bind (p : Program Op Answer ε α) (f : α → Program Op Answer ε β) (s : S) :
    run exec (p >>= f) s =
      match run exec p s with
      | (.ok a, t) => run exec (f a) t
      | (.error e, t) => (.error e, t) := by
  induction p generalizing s with
  | done outcome => cases outcome <;> rfl
  | call op next ih =>
      simp only [call_bind, run_call]
      exact ih _ _

theorem run_bind_ok {p : Program Op Answer ε α} {f : α → Program Op Answer ε β}
    {s t : S} {a : α} (hp : run exec p s = (.ok a, t)) :
    run exec (p >>= f) s = run exec (f a) t := by
  rw [run_bind, hp]

theorem run_bind_error {p : Program Op Answer ε α} {f : α → Program Op Answer ε β}
    {s t : S} {e : ε} (hp : run exec p s = (.error e, t)) :
    run exec (p >>= f) s = (.error e, t) := by
  rw [run_bind, hp]

/-- A run of a sequence that ends in a value passed through the value of its
first part. -/
theorem exists_of_run_bind_ok {p : Program Op Answer ε α}
    {f : α → Program Op Answer ε β} {s u : S} {b : β}
    (h : run exec (p >>= f) s = (.ok b, u)) :
    ∃ a t, run exec p s = (.ok a, t) ∧ run exec (f a) t = (.ok b, u) := by
  rw [run_bind] at h
  match hp : run exec p s, h with
  | (.ok a, t), h => exact ⟨a, t, rfl, h⟩

/-- A local computation at the front of such a sequence gave a value. -/
theorem exists_of_run_lift_ok {outcome : Except ε α} {f : α → Program Op Answer ε β}
    {s t : S} {b : β}
    (h : run exec ((done outcome : Program Op Answer ε α) >>= f) s = (.ok b, t)) :
    ∃ a, outcome = .ok a ∧ run exec (f a) s = (.ok b, t) := by
  cases outcome with
  | ok a => exact ⟨a, rfl, h⟩
  | error e => cases h

/-- A sequence whose parts leave the state as it was does so too. -/
theorem run_bind_same {p : Program Op Answer ε α} {f : α → Program Op Answer ε β} {s : S}
    {first : Except ε α} {rest : α → Except ε β} (hp : run exec p s = (first, s))
    (hf : ∀ a, run exec (f a) s = (rest a, s)) : run exec (p >>= f) s = (first >>= rest, s) := by
  rw [run_bind, hp]
  cases first with
  | ok a => exact hf a
  | error e => rfl

theorem run_forM_same {τ : Type} {body : τ → Program Op Answer ε PUnit} {s : S}
    {check : τ → Except ε PUnit} (hbody : ∀ item, run exec (body item) s = (check item, s))
    (items : List τ) : run exec (items.forM body) s = (items.forM check, s) := by
  induction items with
  | nil => rfl
  | cons item items ih => exact run_bind_same exec (hbody item) fun _ => ih

theorem run_attempt (p : Program Op Answer δ α) (s : S) :
    run exec (attempt p : Program Op Answer ε (Except δ α)) s =
      (.ok (run exec p s).1, (run exec p s).2) := by
  induction p generalizing s with
  | done outcome => rfl
  | call op next ih => exact ih _ _

end Run

/-! ## Replacing operations by programs -/

section Interpret

variable {Low : Type} {LowAnswer : Low → Type}

/-- Replace every operation by a program over a lower-level store. -/
def interpret (implementation : (op : Op) → Program Low LowAnswer ε (Answer op)) :
    Program Op Answer ε α → Program Low LowAnswer ε α
  | done outcome => done outcome
  | call op next =>
      implementation op >>= fun answer => interpret implementation (next answer)

end Interpret

/-! ## Execution among others -/

section OnOk

variable {S : Type}

/-- A condition on the value of a program, if it gives one. -/
def OnOk (Q : α → S → Prop) : Except ε α → S → Prop
  | .ok a, s => Q a s
  | .error _, _ => True

@[simp]
theorem onOk_ok {Q : α → S → Prop} {a : α} {s : S} :
    OnOk Q (.ok a : Except ε α) s ↔ Q a s := Iff.rfl

@[simp]
theorem onOk_error {Q : α → S → Prop} {e : ε} {s : S} :
    OnOk Q (.error e : Except ε α) s := trivial

end OnOk

section Ensures

variable {S : Type} [Preorder S] (exec : (op : Op) → S → Answer op → S → Prop)
  (inv : S → Prop)

/-- `Ensures exec inv post s p`: resumed at any state above `s` in which the
invariant holds, each call of `p` keeps the invariant and moves the state upward,
and when `p` stops its outcome satisfies `post`. What `p` learned from an answer
is the state it was given in, and stays usable for as long as it is monotone. -/
def Ensures (post : Except ε α → S → Prop) : S → Program Op Answer ε α → Prop
  | s, done outcome => ∀ t, s ≤ t → inv t → post outcome t
  | s, call op next =>
      ∀ t, s ≤ t → inv t → ∀ answer u, exec op t answer u →
        inv u ∧ t ≤ u ∧ Ensures post u (next answer)

variable {exec inv}
variable {post : Except ε α → S → Prop} {post' : Except ε β → S → Prop}

/-- A program checked from a state is checked from every later state. -/
theorem Ensures.mono {s t : S} {p : Program Op Answer ε α}
    (h : Ensures exec inv post s p) (hle : s ≤ t) : Ensures exec inv post t p := by
  cases p with
  | done outcome => exact fun u hu => h u (hle.trans hu)
  | call op next => exact fun u hu => h u (hle.trans hu)

theorem Ensures.imp {post₂ : Except ε α → S → Prop} {s : S} {p : Program Op Answer ε α}
    (h : Ensures exec inv post s p)
    (himp : ∀ outcome t, s ≤ t → inv t → post outcome t → post₂ outcome t) :
    Ensures exec inv post₂ s p := by
  induction p generalizing s with
  | done outcome => exact fun t hle hinv => himp outcome t hle hinv (h t hle hinv)
  | call op next ih =>
      intro t hle hinv answer u hexec
      obtain ⟨hinv', hle', hnext⟩ := h t hle hinv answer u hexec
      exact ⟨hinv', hle', ih answer hnext fun outcome v hv =>
        himp outcome v (hle.trans (hle'.trans hv))⟩

/-- The rule for sequencing: the second part starts from a state in which the
first part's conclusion holds, and an error of the first part is the outcome. -/
theorem Ensures.bind {s : S} {p : Program Op Answer ε α}
    {f : α → Program Op Answer ε β} (hinv : inv s)
    (hp : Ensures exec inv post s p)
    (hok : ∀ a t, s ≤ t → inv t → post (.ok a) t → Ensures exec inv post' t (f a))
    (herror : ∀ e t, s ≤ t → inv t → post (.error e) t → post' (.error e) t) :
    Ensures exec inv post' s (p >>= f) := by
  induction p generalizing s with
  | done outcome =>
      cases outcome with
      | ok a => exact hok a s le_rfl hinv (hp s le_rfl hinv)
      | error e => exact fun t hle hinv' => herror e t hle hinv' (hp t hle hinv')
  | call op next ih =>
      intro t hle hinvt answer u hexec
      obtain ⟨hinvu, hle', hnext⟩ := hp t hle hinvt answer u hexec
      have hsu : s ≤ u := hle.trans hle'
      refine ⟨hinvu, hle', ih answer hinvu hnext ?_ ?_⟩
      · exact fun a v hv => hok a v (hsu.trans hv)
      · exact fun e v hv => herror e v (hsu.trans hv)

theorem ensures_done {s : S} {outcome : Except ε α}
    (h : ∀ t, s ≤ t → inv t → post outcome t) :
    Ensures exec inv post s (done outcome : Program Op Answer ε α) := h

theorem ensures_call {s : S} {op : Op} {next : Answer op → Program Op Answer ε α}
    (h : ∀ t, s ≤ t → inv t → ∀ answer u, exec op t answer u →
      inv u ∧ t ≤ u ∧ Ensures exec inv post u (next answer)) :
    Ensures exec inv post s (call op next) := h

/-- Lifting a local computation: its outcome is all there is to check. -/
theorem ensures_lift_bind {s : S} {outcome : Except ε α}
    {f : α → Program Op Answer ε β}
    (hok : ∀ a, outcome = .ok a → Ensures exec inv post' s (f a))
    (herror : ∀ e, outcome = .error e → ∀ t, s ≤ t → inv t → post' (.error e) t) :
    Ensures exec inv post' s ((done outcome : Program Op Answer ε α) >>= f) := by
  cases outcome with
  | ok a => exact hok a rfl
  | error e => exact herror e rfl

/-! ### Rules for the value alone

Most handlers promise something only when they succeed. An early return then has
nothing to show, and the rules lose the premise about errors. -/

section Value

variable {Q : α → S → Prop} {R : β → S → Prop}

theorem Ensures.bind_ok {s : S} {p : Program Op Answer ε α} {f : α → Program Op Answer ε β}
    (hinv : inv s) (hp : Ensures exec inv (OnOk Q) s p)
    (hok : ∀ a t, s ≤ t → inv t → Q a t → Ensures exec inv (OnOk R) t (f a)) :
    Ensures exec inv (OnOk R) s (p >>= f) :=
  Ensures.bind hinv hp hok fun _ _ _ _ _ => trivial

theorem Ensures.lift_ok {s : S} {outcome : Except ε α} {f : α → Program Op Answer ε β}
    (hok : ∀ a, outcome = .ok a → Ensures exec inv (OnOk R) s (f a)) :
    Ensures exec inv (OnOk R) s ((done outcome : Program Op Answer ε α) >>= f) :=
  ensures_lift_bind hok fun _ _ _ _ _ => trivial

theorem Ensures.map_ok {s : S} {p : Program Op Answer ε α} {f : α → β}
    (hp : Ensures exec inv (OnOk fun a t => R (f a) t) s p) :
    Ensures exec inv (OnOk R) s (f <$> p) := by
  induction p generalizing s with
  | done outcome => cases outcome <;> exact hp
  | call op next ih =>
      intro t hle hinv answer u hexec
      obtain ⟨hinvu, hleu, hnext⟩ := hp t hle hinv answer u hexec
      exact ⟨hinvu, hleu, ih answer hnext⟩

/-- The rule for a loop over a list: an invariant of the accumulator that every
iteration reestablishes, whatever ran between its calls. -/
theorem ensures_foldlM {σ τ : Type} {body : σ → τ → Program Op Answer ε σ}
    (loopInv : List τ → σ → S → Prop)
    (hmono : ∀ rest acc s t, s ≤ t → loopInv rest acc s → loopInv rest acc t)
    (hbody : ∀ item rest acc s, inv s → loopInv (item :: rest) acc s →
      Ensures exec inv (OnOk (loopInv rest)) s (body acc item)) :
    ∀ (items : List τ) (acc : σ) (s : S), inv s → loopInv items acc s →
      Ensures exec inv (OnOk (loopInv [])) s (items.foldlM body acc)
  | [], acc, s, _, hloop => fun t hle _ => hmono [] acc s t hle hloop
  | item :: rest, acc, s, hinv, hloop => by
      rw [List.foldlM_cons]
      apply Ensures.bind_ok hinv (hbody item rest acc s hinv hloop)
      intro acc' t _ hinvt hloop'
      exact ensures_foldlM loopInv hmono hbody rest acc' t hinvt hloop'

/-- A loop that collects nothing: what each iteration establishes lasts, so at
the end it holds of every item. -/
theorem ensures_forM {τ : Type} {body : τ → Program Op Answer ε PUnit} {Q : τ → S → Prop}
    (hmono : ∀ item s t, s ≤ t → Q item s → Q item t)
    (hbody : ∀ item s, inv s → Ensures exec inv (OnOk fun _ t => Q item t) s (body item)) :
    ∀ (items : List τ) (s : S), inv s →
      Ensures exec inv (OnOk fun _ t => ∀ item ∈ items, Q item t) s (items.forM body)
  | [], _, _ => fun t _ _ => by
      intro item hmem
      cases hmem
  | item :: items, s, hinv => by
      change Ensures exec inv _ s (body item >>= fun _ => items.forM body)
      refine Ensures.bind_ok hinv (hbody item s hinv) fun _ t _ hinvt hitem => ?_
      refine (ensures_forM hmono hbody items t hinvt).imp fun outcome u hle _ hrest => ?_
      cases outcome with
      | error e => trivial
      | ok a =>
          intro other hmem
          rcases List.mem_cons.mp hmem with rfl | hmem
          · exact hmono other t u hle hitem
          · exact hrest other hmem

end Value

end Ensures

end Program

end MbxCache.Foundation
