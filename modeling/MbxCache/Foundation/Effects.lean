/-
# The calls a program makes

Which operations a program may issue, whatever it is answered, and what one
execution with nothing beside it leaves behind when the answers are not
determined. A program that only issues operations without an effect leaves the
state as it was, however it ends.
-/

import MbxCache.Foundation.Program

namespace MbxCache.Foundation

namespace Program

variable {Op : Type} {Answer : Op → Type} {ε α β S : Type}

/-! ## Calls -/

/-- Every operation the program may issue is allowed. -/
def Calls (allowed : Op → Prop) : Program Op Answer ε α → Prop
  | done _ => True
  | call op next => allowed op ∧ ∀ answer, Calls allowed (next answer)

section Calls

variable {allowed : Op → Prop}

@[simp]
theorem calls_done (outcome : Except ε α) :
    Calls allowed (done outcome : Program Op Answer ε α) := trivial

theorem Calls.bind {p : Program Op Answer ε α} {f : α → Program Op Answer ε β}
    (hp : Calls allowed p) (hf : ∀ a, Calls allowed (f a)) : Calls allowed (p >>= f) := by
  induction p with
  | done outcome =>
      cases outcome with
      | ok a => exact hf a
      | error e => trivial
  | call op next ih => exact ⟨hp.1, fun answer => ih answer (hp.2 answer)⟩

/-- A local computation makes no call. -/
theorem Calls.lift {outcome : Except ε α} {f : α → Program Op Answer ε β}
    (hf : ∀ a, outcome = .ok a → Calls allowed (f a)) :
    Calls allowed ((done outcome : Program Op Answer ε α) >>= f) := by
  cases outcome with
  | ok a => exact hf a rfl
  | error e => trivial

theorem Calls.map {p : Program Op Answer ε α} {f : α → β} (hp : Calls allowed p) :
    Calls allowed (f <$> p) := by
  rw [map_eq_pure_bind]
  exact hp.bind fun _ => trivial

theorem calls_forM {τ : Type} {body : τ → Program Op Answer ε PUnit}
    (hbody : ∀ item, Calls allowed (body item)) (items : List τ) :
    Calls allowed (items.forM body) := by
  induction items with
  | nil => trivial
  | cons item items ih => exact (hbody item).bind fun _ => ih

theorem calls_foldlM {σ τ : Type} {body : σ → τ → Program Op Answer ε σ}
    (hbody : ∀ state item, Calls allowed (body state item)) (items : List τ) (state : σ) :
    Calls allowed (items.foldlM body state) := by
  induction items generalizing state with
  | nil => trivial
  | cons item items ih =>
      rw [List.foldlM_cons]
      exact (hbody state item).bind fun later => ih later

/-- A program that keeps to a narrower set of operations keeps to a wider one. -/
theorem Calls.imp {wider : Op → Prop} (h : ∀ op, allowed op → wider op)
    {p : Program Op Answer ε α} (hp : Calls allowed p) : Calls wider p := by
  induction p with
  | done outcome => trivial
  | call op next ih => exact ⟨h op hp.1, fun answer => ih answer (hp.2 answer)⟩

end Calls

/-! ## Executions -/

/-- One execution of a program with nothing beside it. -/
inductive Executes (exec : (op : Op) → S → Answer op → S → Prop) :
    Program Op Answer ε α → S → Except ε α → S → Prop where
  | done (outcome : Except ε α) (s : S) : Executes exec (.done outcome) s outcome s
  | call {op : Op} {next : Answer op → Program Op Answer ε α} {s t u : S} {answer : Answer op}
      {outcome : Except ε α} (realized : exec op s answer t)
      (later : Executes exec (next answer) t outcome u) :
      Executes exec (.call op next) s outcome u

section Executes

variable {exec : (op : Op) → S → Answer op → S → Prop}

theorem executes_done {outcome result : Except ε α} {s t : S} :
    Executes exec (done outcome) s result t ↔ result = outcome ∧ t = s := by
  constructor
  · intro h
    cases h
    exact ⟨rfl, rfl⟩
  · rintro ⟨rfl, rfl⟩
    exact .done _ _

theorem executes_call {op : Op} {next : Answer op → Program Op Answer ε α} {outcome : Except ε α}
    {s u : S} : Executes exec (call op next) s outcome u ↔
      ∃ answer t, exec op s answer t ∧ Executes exec (next answer) t outcome u := by
  constructor
  · intro h
    cases h with
    | call realized later => exact ⟨_, _, realized, later⟩
  · rintro ⟨answer, t, realized, later⟩
    exact .call realized later

/-- Local computations only decide the outcome. -/
theorem executes_local {first : Except ε α} {f : α → Except ε β} {outcome : Except ε β} {s t : S} :
    Executes exec ((done first : Program Op Answer ε α) >>= fun a => done (f a)) s outcome t ↔
      outcome = (first >>= f) ∧ t = s := by
  have hdone : ((done first : Program Op Answer ε α) >>= fun a => done (f a)) =
      done (first >>= f) := by
    cases first <;> rfl
  rw [hdone, executes_done]

/-- A sequence stops with the error of its first part, or goes on from its value. -/
theorem executes_bind {p : Program Op Answer ε α} {f : α → Program Op Answer ε β}
    {outcome : Except ε β} {s u : S} : Executes exec (p >>= f) s outcome u ↔
      (∃ e, outcome = .error e ∧ Executes exec p s (.error e) u) ∨
        ∃ a t, Executes exec p s (.ok a) t ∧ Executes exec (f a) t outcome u := by
  induction p generalizing s with
  | done first =>
      cases first with
      | ok a =>
          rw [ok_bind]
          constructor
          · exact fun h => .inr ⟨a, s, .done _ _, h⟩
          · rintro (⟨e, _, h⟩ | ⟨a', t, h, hf⟩)
            · cases h
            · cases h
              exact hf
      | error e =>
          rw [error_bind, executes_done]
          constructor
          · rintro ⟨rfl, rfl⟩
            exact .inl ⟨e, rfl, .done _ _⟩
          · rintro (⟨e', rfl, h⟩ | ⟨a', t, h, _⟩)
            · cases h
              exact ⟨rfl, rfl⟩
            · cases h
  | call op next ih =>
      simp only [call_bind, executes_call, ih]
      constructor
      · rintro ⟨answer, t, hexec, ⟨e, houtcome, hnext⟩ | ⟨a, v, hnext, hf⟩⟩
        · exact .inl ⟨e, houtcome, answer, t, hexec, hnext⟩
        · exact .inr ⟨a, v, ⟨answer, t, hexec, hnext⟩, hf⟩
      · rintro (⟨e, houtcome, answer, t, hexec, hnext⟩ | ⟨a, v, ⟨answer, t, hexec, hnext⟩, hf⟩)
        · exact ⟨answer, t, hexec, .inl ⟨e, houtcome, hnext⟩⟩
        · exact ⟨answer, t, hexec, .inr ⟨a, v, hnext, hf⟩⟩

theorem executes_map {p : Program Op Answer ε α} {f : α → β} {s u : S} {e : ε} :
    Executes exec (f <$> p) s (.error e) u ↔ Executes exec p s (.error e) u := by
  rw [map_eq_pure_bind, executes_bind]
  constructor
  · rintro (⟨e', heq, hp⟩ | ⟨a, t, _, hpure⟩)
    · cases heq
      exact hp
    · cases hpure
  · exact fun hp => .inl ⟨e, rfl, hp⟩

/-- The run of a program is one of its executions. -/
theorem executes_run {det : (op : Op) → S → Answer op × S}
    (hdet : ∀ op s, exec op s (det op s).1 (det op s).2) (p : Program Op Answer ε α) (s : S) :
    Executes exec p s (run det p s).1 (run det p s).2 := by
  induction p generalizing s with
  | done outcome => exact .done outcome s
  | call op next ih => exact .call (hdet op s) (ih _ _)

/-- Operations without an effect leave the state as it was. -/
theorem Calls.unchanged {allowed : Op → Prop}
    (hreads : ∀ op s answer t, allowed op → exec op s answer t → t = s)
    {p : Program Op Answer ε α} (hp : Calls allowed p) {s t : S} {outcome : Except ε α}
    (h : Executes exec p s outcome t) : t = s := by
  induction h with
  | done outcome s => rfl
  | call realized later ih =>
      rw [ih (hp.2 _)]
      exact hreads _ _ _ _ hp.1 realized

end Executes

end Program

end MbxCache.Foundation
