/-
# Threads that are not seen

A pool whose threads serve several parties, seen by one of them. Its threads run
alike beside the others and without them when the states, as far as that party can
tell, stay related: each call of one of its own threads can be made in the other
pool with a like answer, and a call of a foreign thread leaves the relation as it is.

What a thread has learned of the two states lasts, so both may only grow.
-/

import MbxCache.Foundation.Refinement

namespace MbxCache.Foundation

variable {S ρ Op : Type} {Answer : Op → Type} {ε α β γ δ : Type}

namespace Program

/-- The same error, or values that are alike. -/
def Agree (same : α → β → Prop) : Except ε α → Except ε β → Prop
  | .ok a, .ok b => same a b
  | .error e, .error e' => e = e'
  | _, _ => False

section

variable [Preorder S] (exec : (op : Op) → S → Answer op → S → Prop) (related : S → S → Prop)

/-- Two programs, each on its own state. Whenever the first makes a call, the second
can make one so that the states stay related and what follows is alike. -/
def Alike (same : S → S → α → β → Prop) :
    S → S → Program Op Answer ε α → Program Op Answer ε β → Prop
  | s, t, .done first, .done second => Agree (same s t) first second
  | s, t, .call op next, .call op' next' => ∀ s' t', s ≤ s' → t ≤ t' → related s' t' →
      ∀ answer later, exec op s' answer later → ∃ answer' later',
        exec op' t' answer' later' ∧ related later later' ∧
          Alike same later later' (next answer) (next' answer')
  | _, _, _, _ => False

/-- A program whose calls cannot be told from the other state. -/
def Unseen : Program Op Answer ε α → Prop
  | .done _ => True
  | .call op next => ∀ s t answer later, related s t → exec op s answer later →
      related later t ∧ Unseen (next answer)

end

variable [Preorder S] {exec : (op : Op) → S → Answer op → S → Prop} {related : S → S → Prop}
  {same : S → S → α → β → Prop} {same' : S → S → γ → δ → Prop} {s t s' t' : S}

theorem Alike.mono (hsame : ∀ s t s' t' a b, s ≤ s' → t ≤ t' → same s t a b → same s' t' a b)
    {p : Program Op Answer ε α} {q : Program Op Answer ε β}
    (h : Alike exec related same s t p q) (hs : s ≤ s') (ht : t ≤ t') :
    Alike exec related same s' t' p q := by
  match p, q, h with
  | .done (.ok a), .done (.ok b), h => exact hsame s t s' t' a b hs ht h
  | .done (.error e), .done (.error e'), h => exact h
  | .call op next, .call op' next', h =>
      intro u v hu hv
      exact h u v (hs.trans hu) (ht.trans hv)

theorem Alike.imp {same₂ : S → S → α → β → Prop} (himp : ∀ s t a b, same s t a b → same₂ s t a b) :
    ∀ {p : Program Op Answer ε α} {q : Program Op Answer ε β} {s t : S},
      Alike exec related same s t p q → Alike exec related same₂ s t p q
  | .done (.ok a), .done (.ok b), s, t, h => himp s t a b h
  | .done (.error e), .done (.error e'), _, _, h => h
  | .call op next, .call op' next', s, t, h => by
      intro u v hu hv hrelated answer later hexec
      obtain ⟨answer', later', hexec', hlater, hnext⟩ := h u v hu hv hrelated answer later hexec
      exact ⟨answer', later', hexec', hlater, hnext.imp himp⟩

/-- Programs that are alike go on alike when what follows them is. -/
theorem Alike.bind (hexec : ∀ op s answer t, exec op s answer t → s ≤ t)
    {f : α → Program Op Answer ε γ} {g : β → Program Op Answer ε δ} :
    ∀ {p : Program Op Answer ε α} {q : Program Op Answer ε β} {s t : S},
      Alike exec related same s t p q →
      (∀ s' t' a b, s ≤ s' → t ≤ t' → same s' t' a b →
        Alike exec related same' s' t' (f a) (g b)) →
      Alike exec related same' s t (p >>= f) (q >>= g)
  | .done (.ok a), .done (.ok b), s, t, h, hnext => hnext s t a b le_rfl le_rfl h
  | .done (.error e), .done (.error e'), _, _, h, _ => h
  | .call op next, .call op' next', s, t, h, hnext => by
      intro u v hu hv hrelated answer later hstep
      obtain ⟨answer', later', hstep', hlater, halike⟩ := h u v hu hv hrelated answer later hstep
      refine ⟨answer', later', hstep', hlater, halike.bind hexec ?_⟩
      intro s' t' a b hs ht
      apply hnext s' t' a b
      · exact (hu.trans (hexec op u answer later hstep)).trans hs
      · exact (hv.trans (hexec op' v answer' later' hstep')).trans ht

/-- A local computation gives both the same. -/
theorem alike_lift {outcome : Except ε α} {f : α → Program Op Answer ε γ}
    {g : α → Program Op Answer ε δ}
    (hnext : ∀ a, outcome = .ok a → Alike exec related same' s t (f a) (g a)) :
    Alike exec related same' s t ((done outcome : Program Op Answer ε α) >>= f)
      ((done outcome : Program Op Answer ε α) >>= g) := by
  cases outcome with
  | ok a => exact hnext a rfl
  | error e => rfl

theorem Alike.map {f : α → γ} {g : β → δ} {p : Program Op Answer ε α} {q : Program Op Answer ε β}
    (hexec : ∀ op s answer t, exec op s answer t → s ≤ t)
    (h : Alike exec related (fun s t a b => same' s t (f a) (g b)) s t p q) :
    Alike exec related same' s t (f <$> p) (g <$> q) := by
  rw [map_eq_pure_bind, map_eq_pure_bind]
  exact h.bind hexec fun _ _ _ _ _ _ hsame => hsame

/-- The rule for a loop: an invariant of what is left and of the two accumulators. -/
theorem alike_foldlM (hexec : ∀ op s answer t, exec op s answer t → s ≤ t) {σ τ : Type}
    {body : σ → τ → Program Op Answer ε σ} (loopInv : List τ → S → S → σ → σ → Prop)
    (hbody : ∀ item rest s t acc acc', loopInv (item :: rest) s t acc acc' →
      Alike exec related (loopInv rest) s t (body acc item) (body acc' item)) :
    ∀ (items : List τ) (s t : S) (acc acc' : σ), loopInv items s t acc acc' →
      Alike exec related (loopInv []) s t (items.foldlM body acc) (items.foldlM body acc')
  | [], _, _, _, _, h => h
  | item :: rest, s, t, acc, acc', h => by
      rw [List.foldlM_cons, List.foldlM_cons]
      apply (hbody item rest s t acc acc' h).bind hexec
      intro s' t' next next' _ _ hnext
      exact alike_foldlM hexec loopInv hbody rest s' t' next next' hnext

theorem alike_forM (hexec : ∀ op s answer t, exec op s answer t → s ≤ t) {τ : Type}
    {body : τ → Program Op Answer ε PUnit}
    (hbody : ∀ item s t, Alike exec related (fun _ _ _ _ => True) s t (body item) (body item))
    (items : List τ) (s t : S) :
    Alike exec related (fun _ _ _ _ => True) s t (items.forM body) (items.forM body) := by
  induction items generalizing s t with
  | nil => trivial
  | cons item items ih =>
      apply (hbody item s t).bind hexec
      exact fun s' t' _ _ _ _ _ => ih s' t'

omit [Preorder S] in
/-- A program whose operations cannot be told. -/
theorem unseen_of_calls {allowed : Op → Prop}
    (hexec : ∀ op s t answer later, allowed op → related s t → exec op s answer later →
      related later t)
    {program : Program Op Answer ε α} (h : Calls allowed program) :
    Unseen exec related program := by
  induction program with
  | done outcome => trivial
  | call op next ih =>
      intro s t answer later hrelated hstep
      exact ⟨hexec op s t answer later h.1 hrelated hstep, ih answer (h.2 answer)⟩

/-- An operation that the program may issue. -/
def MayCall (op : Op) : Program Op Answer ε α → Prop
  | .done _ => False
  | .call op' next => op' = op ∨ ∃ answer, MayCall op (next answer)

theorem calls_of_mayCall {allowed : Op → Prop} {program : Program Op Answer ε α}
    (h : ∀ op, MayCall op program → allowed op) : Calls allowed program := by
  induction program with
  | done outcome => trivial
  | call op next ih =>
      apply And.intro (h op (.inl rfl))
      exact fun answer => ih answer fun op' hop => h op' (.inr ⟨answer, hop⟩)

theorem mayCall_of_calls {allowed : Op → Prop} {program : Program Op Answer ε α}
    (h : Calls allowed program) {op : Op} (hop : MayCall op program) : allowed op := by
  induction program with
  | done outcome => cases hop
  | call op' next ih =>
      rcases hop with rfl | ⟨answer, hlater⟩
      · exact h.1
      · exact ih answer (h.2 answer) hlater

section Sequential

variable {det : (op : Op) → S → Answer op × S} {allowed : Op → Prop}

/-- Run alone on related states, programs that are alike end alike. -/
theorem Alike.run (hdet : ∀ op s, allowed op → exec op s (det op s).1 (det op s).2)
    (honly : ∀ op s answer t, exec op s answer t → det op s = (answer, t)) :
    ∀ {p : Program Op Answer ε α} {q : Program Op Answer ε β} {s t : S},
      Alike exec related same s t p q → Calls allowed p → related s t →
      Agree (same (p.run det s).2 (q.run det t).2) (p.run det s).1 (q.run det t).1 ∧
        related (p.run det s).2 (q.run det t).2
  | .done (.ok a), .done (.ok b), _, _, h, _, hrelated => ⟨h, hrelated⟩
  | .done (.error e), .done (.error e'), _, _, h, _, hrelated => ⟨h, hrelated⟩
  | .call op next, .call op' next', s, t, h, hcalls, hrelated => by
      obtain ⟨answer', later', hstep, hlater, hnext⟩ :=
        h s t le_rfl le_rfl hrelated _ _ (hdet op s hcalls.1)
      have heq := honly op' t answer' later' hstep
      have hrun := hnext.run hdet honly (hcalls.2 _) hlater
      simp only [run_call, heq]
      exact hrun

omit [Preorder S] in
theorem Unseen.run (hdet : ∀ op s, allowed op → exec op s (det op s).1 (det op s).2)
    {program : Program Op Answer ε α} {s t : S} (h : Unseen exec related program)
    (hcalls : Calls allowed program) (hrelated : related s t) :
    related (program.run det s).2 t := by
  induction program generalizing s with
  | done outcome => exact hrelated
  | call op next ih =>
      obtain ⟨hlater, hnext⟩ := h s t _ _ hrelated (hdet op s hcalls.1)
      exact ih _ hnext (hcalls.2 _) hlater

end Sequential

end Program

namespace Pool

section Purge

variable [Preorder S] {exec : (op : Op) → S → Answer op → S → Prop} {related : S → S → Prop}
  {handler : ρ → Program Op Answer ε α} {same : α → α → Prop} {observed : ρ → Bool}

/-- The threads of the observed requests. -/
def ownThreads (observed : ρ → Bool) (threads : List (ρ × Program Op Answer ε α)) :
    List (ρ × Program Op Answer ε α) :=
  threads.filter fun thread => observed thread.1

section Own

variable {threads later : List (ρ × Program Op Answer ε α)} {request : ρ}
  {program : Program Op Answer ε α}

theorem ownThreads_append :
    ownThreads observed (threads ++ later) =
      ownThreads observed threads ++ ownThreads observed later :=
  List.filter_append ..

theorem ownThreads_cons (h : observed request = true) :
    ownThreads observed ((request, program) :: threads) =
      (request, program) :: ownThreads observed threads :=
  List.filter_cons_of_pos h

theorem ownThreads_cons_foreign (h : observed request = false) :
    ownThreads observed ((request, program) :: threads) = ownThreads observed threads :=
  List.filter_cons_of_neg (by simp [h])

end Own

/-- A pool beside one that only has the observed requests. -/
structure Purges (exec : (op : Op) → S → Answer op → S → Prop) (related : S → S → Prop)
    (same : α → α → Prop) (observed : ρ → Bool)
    (pool purged : Pool S ρ Op Answer ε α) : Prop where
  states : related pool.state purged.state
  own : List.Forall₂ (fun thread other => thread.1 = other.1 ∧
      Program.Alike exec related (fun _ _ => same) pool.state purged.state thread.2 other.2)
    (ownThreads observed pool.threads) purged.threads
  foreign : ∀ thread ∈ pool.threads, observed thread.1 = false →
    Program.Unseen exec related thread.2

/-- Two threads that have both stopped, alike, or both have calls to make. -/
def SameProgress (same : α → β → Prop) : Program Op Answer ε α → Program Op Answer ε β → Prop
  | .done first, .done second => Program.Agree same first second
  | .call _ _, .call _ _ => True
  | _, _ => False

theorem sameProgress_of_alike {s t : S} {p q : Program Op Answer ε α}
    (h : Program.Alike exec related (fun _ _ => same) s t p q) : SameProgress same p q := by
  match p, q, h with
  | .done first, .done second, h => exact h
  | .call op next, .call op' next', h => trivial

/-- One step of the pool is one of the other or none. -/
theorem Purges.step (hexec : ∀ op s answer t, exec op s answer t → s ≤ t)
    (hown : ∀ request, observed request = true → ∀ s t,
      Program.Alike exec related (fun _ _ => same) s t (handler request) (handler request))
    (hforeign : ∀ request, observed request = false →
      Program.Unseen exec related (handler request))
    {pool later purged : Pool S ρ Op Answer ε α} {event : Event ρ Op Answer}
    (h : Purges exec related same observed pool purged)
    (hstep : Step exec handler pool event later) :
    ∃ purged', Leads exec handler purged purged' ∧
      Purges exec related same observed later purged' := by
  obtain ⟨t, others⟩ := purged
  obtain ⟨hrelated, hthreads, hunseen⟩ := h
  cases hstep with
  | arrive s threads request =>
      cases hobserved : observed request with
      | true =>
          refine ⟨⟨t, others ++ [(request, handler request)]⟩, .single ⟨_, .arrive t others request⟩,
            hrelated, ?_, ?_⟩
          · show List.Forall₂ _ (ownThreads observed (threads ++ [(request, handler request)])) _
            rw [ownThreads_append, ownThreads_cons hobserved]
            exact List.rel_append hthreads (.cons ⟨rfl, hown request hobserved s t⟩ .nil)
          · intro thread hmem hother
            rcases List.mem_append.mp hmem with hold | hnew
            · exact hunseen thread hold hother
            · rw [List.mem_singleton.mp hnew, hobserved] at hother
              cases hother
      | false =>
          refine ⟨⟨t, others⟩, .refl, hrelated, ?_, ?_⟩
          · show List.Forall₂ _ (ownThreads observed (threads ++ [(request, handler request)])) _
            have hsame : ownThreads observed (threads ++ [(request, handler request)]) =
                ownThreads observed threads := by
              rw [ownThreads_append, ownThreads_cons_foreign hobserved]
              exact List.append_nil _
            rw [hsame]
            exact hthreads
          · intro thread hmem hother
            rcases List.mem_append.mp hmem with hold | hnew
            · exact hunseen thread hold hother
            · rw [List.mem_singleton.mp hnew]
              exact hforeign request hobserved
  | advance s s' before after request op next answer realized =>
      have hle := hexec op s answer s' realized
      have hkeep : ∀ {t t' : S} {threads others : List (ρ × Program Op Answer ε α)}, t ≤ t' →
          List.Forall₂ (fun thread other => thread.1 = other.1 ∧
            Program.Alike exec related (fun _ _ => same) s t thread.2 other.2) threads others →
          List.Forall₂ (fun thread other => thread.1 = other.1 ∧
            Program.Alike exec related (fun _ _ => same) s' t' thread.2 other.2) threads others :=
        fun hle' hall => hall.imp fun _ _ hthread =>
          ⟨hthread.1, hthread.2.mono (fun _ _ _ _ _ _ _ _ hsame => hsame) hle hle'⟩
      dsimp only at hthreads hrelated
      rw [ownThreads_append] at hthreads
      obtain ⟨othersBefore, othersRest, hbefore, hrest, rfl⟩ := exists_append hthreads
      cases hobserved : observed request with
      | true =>
          rw [ownThreads_cons hobserved] at hrest
          obtain ⟨⟨_, program⟩, othersAfter, ⟨rfl, halike⟩, hafter, rfl⟩ :=
            List.forall₂_cons_left_iff.mp hrest
          match program, halike with
          | .call op' next', halike =>
              obtain ⟨answer', t', realized', hrelated', hnext⟩ :=
                halike s t le_rfl le_rfl hrelated answer s' realized
              have hle' := hexec op' t answer' t' realized'
              refine ⟨⟨t', othersBefore ++ (request, next' answer') :: othersAfter⟩,
                .single ⟨_, .advance t t' othersBefore othersAfter request op' next' answer'
                  realized'⟩, hrelated', ?_, ?_⟩
              · show List.Forall₂ _ (ownThreads observed (before ++ (request, next answer) :: after)) _
                rw [ownThreads_append, ownThreads_cons hobserved]
                exact List.rel_append (hkeep hle' hbefore)
                  (.cons ⟨rfl, hnext⟩ (hkeep hle' hafter))
              · intro thread hmem hother
                rcases List.mem_append.mp hmem with hold | hmoved
                · exact hunseen thread (List.mem_append_left _ hold) hother
                · rcases List.mem_cons.mp hmoved with rfl | hold
                  · rw [hobserved] at hother
                    cases hother
                  · exact hunseen thread (by simp [hold]) hother
      | false =>
          rw [ownThreads_cons_foreign hobserved] at hrest
          obtain ⟨hrelated', hnext⟩ := hunseen (request, .call op next) (by simp) hobserved s t
            answer s' hrelated realized
          refine ⟨⟨t, othersBefore ++ othersRest⟩, .refl, hrelated', ?_, ?_⟩
          · show List.Forall₂ _ (ownThreads observed (before ++ (request, next answer) :: after)) _
            rw [ownThreads_append, ownThreads_cons_foreign hobserved]
            exact List.rel_append (hkeep le_rfl hbefore) (hkeep le_rfl hrest)
          · intro thread hmem hother
            rcases List.mem_append.mp hmem with hold | hmoved
            · exact hunseen thread (List.mem_append_left _ hold) hother
            · rcases List.mem_cons.mp hmoved with rfl | hold
              · exact hnext
              · exact hunseen thread (by simp [hold]) hother

/-- The run lemma: whatever the other requests do, the observed ones could have been
answered alike without them. -/
theorem Reachable.purges (hexec : ∀ op s answer t, exec op s answer t → s ≤ t)
    (hown : ∀ request, observed request = true → ∀ s t,
      Program.Alike exec related (fun _ _ => same) s t (handler request) (handler request))
    (hforeign : ∀ request, observed request = false →
      Program.Unseen exec related (handler request))
    {init : S} (hinit : related init init) {pool : Pool S ρ Op Answer ε α}
    (h : Reachable exec handler init pool) :
    ∃ purged, Reachable exec handler init purged ∧
      Purges exec related same observed pool purged := by
  obtain ⟨events, hrun⟩ := h
  induction hrun with
  | start =>
      refine ⟨⟨init, []⟩, ⟨[], .start⟩, hinit, .nil, ?_⟩
      intro thread hmem
      cases hmem
  | step _ taken ih =>
      obtain ⟨purged, hreach, hpurges⟩ := ih
      obtain ⟨purged', hleads, hpurges'⟩ := hpurges.step hexec hown hforeign taken
      exact ⟨purged', hreach.leads hleads, hpurges'⟩

/-- The observed requests of a pool beside those of the other, in the same order. -/
theorem Purges.outcomes {pool purged : Pool S ρ Op Answer ε α}
    (h : Purges exec related same observed pool purged) :
    List.Forall₂ (fun thread other => thread.1 = other.1 ∧
        SameProgress same thread.2 other.2)
      (ownThreads observed pool.threads) purged.threads :=
  h.own.imp fun _ _ hthread => ⟨hthread.1, sameProgress_of_alike hthread.2⟩

/-! ### One request after another -/

section Sequential

variable {det : (op : Op) → S → Answer op × S} {allowed : Op → Prop}

/-- Serving all requests, or the observed ones only, answers those alike. -/
theorem serveAll_purges (hdet : ∀ op s, allowed op → exec op s (det op s).1 (det op s).2)
    (honly : ∀ op s answer t, exec op s answer t → det op s = (answer, t))
    (hown : ∀ request, observed request = true → ∀ s t,
      Program.Alike exec related (fun _ _ => same) s t (handler request) (handler request))
    (hforeign : ∀ request, observed request = false →
      Program.Unseen exec related (handler request)) :
    ∀ (requests : List ρ), (∀ request ∈ requests, Program.Calls allowed (handler request)) →
      ∀ {pool purged : Pool S ρ Op Answer ε α}, related pool.state purged.state →
        List.Forall₂ (fun thread other => thread.1 = other.1 ∧
          SameProgress same thread.2 other.2) (ownThreads observed pool.threads) purged.threads →
        List.Forall₂ (fun thread other => thread.1 = other.1 ∧
            SameProgress same thread.2 other.2)
          (ownThreads observed (requests.foldl (Pool.serve det handler) pool).threads)
          ((requests.filter observed).foldl (Pool.serve det handler) purged).threads
  | [], _, _, _, _, hthreads => hthreads
  | request :: requests, hcalls, pool, purged, hrelated, hthreads => by
      have hrest : ∀ other ∈ requests, Program.Calls allowed (handler other) :=
        fun other hmem => hcalls other (List.mem_cons_of_mem _ hmem)
      have hrequest := hcalls request List.mem_cons_self
      rw [List.foldl_cons]
      cases hobserved : observed request with
      | true =>
          rw [List.filter_cons_of_pos hobserved, List.foldl_cons]
          obtain ⟨hagree, hlater⟩ := (hown request hobserved pool.state purged.state).run hdet honly
            hrequest hrelated
          apply serveAll_purges hdet honly hown hforeign requests hrest hlater
          show List.Forall₂ _ (ownThreads observed (pool.threads ++ [_])) (purged.threads ++ [_])
          rw [ownThreads_append, ownThreads_cons hobserved]
          exact List.rel_append hthreads (.cons ⟨rfl, hagree⟩ .nil)
      | false =>
          rw [List.filter_cons_of_neg (by simp [hobserved])]
          apply serveAll_purges hdet honly hown hforeign requests hrest
            ((hforeign request hobserved).run hdet hrequest hrelated)
          show List.Forall₂ _ (ownThreads observed (pool.threads ++ [_])) purged.threads
          rw [ownThreads_append, ownThreads_cons_foreign hobserved]
          exact (List.append_nil (ownThreads observed pool.threads)).symm ▸ hthreads

end Sequential

end Purge

/-! ### Narrower calls -/

/-- A run whose requests only make allowed calls is one of these calls. -/
theorem Reachable.restrict {exec : (op : Op) → S → Answer op → S → Prop}
    {handler : ρ → Program Op Answer ε α} {allowed : Op → Prop} {init : S}
    {pool : Pool S ρ Op Answer ε α} (h : Reachable exec handler init pool)
    (hcalls : ∀ thread ∈ pool.threads, Program.Calls allowed (handler thread.1)) :
    Reachable (fun op s answer t => exec op s answer t ∧ allowed op) handler init pool := by
  obtain ⟨events, hrun⟩ := h
  have hboth : Reachable (fun op s answer t => exec op s answer t ∧ allowed op) handler init pool ∧
      ∀ thread ∈ pool.threads, Program.Calls allowed thread.2 := by
    induction hrun with
    | start => exact ⟨⟨[], .start⟩, by simp⟩
    | step prior taken ih =>
        cases taken with
        | arrive s threads request =>
            obtain ⟨⟨events, hearlier⟩, hthreads⟩ :=
              ih fun thread hmem => hcalls thread (List.mem_append_left _ hmem)
            apply And.intro ⟨_, hearlier.step (.arrive s threads request)⟩
            intro thread hmem
            rcases List.mem_append.mp hmem with hold | hnew
            · exact hthreads thread hold
            · rw [List.mem_singleton.mp hnew]
              exact hcalls (request, handler request) (by simp)
        | advance s t before after request op next answer realized =>
            have hearly : ∀ thread ∈ before ++ (request, .call op next) :: after,
                Program.Calls allowed (handler thread.1) := by
              intro thread hmem
              rcases List.mem_append.mp hmem with hbefore | hrest
              · exact hcalls thread (List.mem_append_left _ hbefore)
              · rcases List.mem_cons.mp hrest with rfl | hafter
                · exact hcalls (request, next answer) (by simp)
                · exact hcalls thread (by simp [hafter])
            obtain ⟨⟨events, hearlier⟩, hthreads⟩ := ih hearly
            have hmoved := hthreads (request, .call op next) (by simp)
            apply And.intro
            · exact ⟨_, hearlier.step
                (.advance s t before after request op next answer ⟨realized, hmoved.1⟩)⟩
            · intro thread hmem
              rcases List.mem_append.mp hmem with hbefore | hrest
              · exact hthreads thread (by simp [hbefore])
              · rcases List.mem_cons.mp hrest with rfl | hafter
                · exact hmoved.2 answer
                · exact hthreads thread (by simp [hafter])
  exact hboth.1

end Pool

end MbxCache.Foundation
