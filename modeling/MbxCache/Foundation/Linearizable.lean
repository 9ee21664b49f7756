/-
# Linearization at the first operation

Calls of an object are programs over a shared state, and may be interleaved step by
step. When the first operation of a call has all of its effect and decides its
answer, and whatever comes later only reads, the answers are those of a sequential
object that serves the calls in the order of their first operations. That order
keeps real time: a call that ended before another came is served before it.
-/

import Mathlib.Data.List.Nodup
import MbxCache.Foundation.Concurrent

namespace MbxCache.Foundation

namespace Pool

variable {S ρ Op A : Type} {Answer : Op → Type} {ε α : Type}

/-! ## Histories -/

def Event.isArrival : Event ρ Op Answer → Bool
  | .arrived _ => true
  | .performed _ _ _ => false

def arrivals (events : List (Event ρ Op Answer)) : ℕ := events.countP Event.isArrival

/-- All steps of the first call happened before the second came. -/
def Precedes (events : List (Event ρ Op Answer)) (first second : ℕ) : Prop :=
  ∃ before after, events = before ++ after ∧ first < arrivals before ∧
    arrivals before ≤ second ∧ ∀ op answer, .performed first op answer ∉ after

def requests (pool : Pool S ρ Op Answer ε α) : List ρ := pool.threads.map Prod.fst

/-- The requests behind some calls. -/
def called (requests : List ρ) (order : List ℕ) : List ρ := order.filterMap (requests[·]?)

/-- The state of a sequential object after some requests. -/
def replay (spec : ρ → A → Except ε α × A) (init : A) (requests : List ρ) : A :=
  requests.foldl (fun a request => (spec request a).2) init

/-- An order of calls that explains their answers. A call that was refused has no
place in it. -/
structure Linearizes (spec : ρ → A → Except ε α × A) (refusable : ρ → Prop) (init : A)
    (events : List (Event ρ Op Answer)) (pool : Pool S ρ Op Answer ε α)
    (order : List ℕ) : Prop where
  nodup : order.Nodup
  arrived : ∀ index ∈ order, index < pool.threads.length
  complete : ∀ index request outcome, pool.threads[index]? = some (request, .done outcome) →
    index ∈ order ∨ refusable request ∧ ∃ e, outcome = .error e
  answers : ∀ before index after request outcome, order = before ++ index :: after →
    pool.threads[index]? = some (request, .done outcome) →
    outcome = (spec request (replay spec init (called pool.requests before))).1
  realTime : ∀ first second, Precedes events first second → first ∈ order → second ∈ order →
    (∃ request outcome, pool.threads[first]? = some (request, .done outcome)) →
    order.idxOf first < order.idxOf second

section

variable [Preorder S] (exec : (op : Op) → S → Answer op → S → Prop) (inv : S → Prop)

/-- What is left of a call whose answer is decided only reads, and ends with that
answer however the state has grown. -/
def Settled (outcome : Except ε α) : S → Program Op Answer ε α → Prop
  | _, .done result => result = outcome
  | s, .call op next => ∀ t, s ≤ t → inv t → ∀ answer u, exec op t answer u →
      u = t ∧ Settled outcome t (next answer)

/-- Each call takes effect at once with its first operation, or is refused by it. -/
structure TakeEffect (handler : ρ → Program Op Answer ε α) (spec : ρ → A → Except ε α × A)
    (refusable : ρ → Prop) (holds : S → A → Prop) : Prop where
  immediate : ∀ request outcome, handler request = .done outcome →
    ∀ s a, holds s a → spec request a = (outcome, a)
  first : ∀ request op next, handler request = .call op next →
    ∀ s a answer t, holds s a → exec op s answer t →
      (s ≤ t ∧ holds t (spec request a).2 ∧
        Settled exec (fun s => ∃ a, holds s a) (spec request a).1 t (next answer)) ∨
      (t = s ∧ refusable request ∧ ∃ e, next answer = .done (.error e))

variable {exec inv}

theorem Settled.mono {outcome : Except ε α} {s t : S} {program : Program Op Answer ε α}
    (h : Settled exec inv outcome s program) (hle : s ≤ t) :
    Settled exec inv outcome t program := by
  cases program with
  | done result => exact h
  | call op next => exact fun u hu => h u (hle.trans hu)

end

/-! ## Lists -/

theorem called_append {requests : List ρ} {order : List ℕ} (request : ρ)
    (h : ∀ index ∈ order, index < requests.length) :
    called (requests ++ [request]) order = called requests order := by
  apply List.filterMap_congr
  intro index hmem
  exact List.getElem?_append_left (h index hmem)

theorem called_concat {requests : List ρ} {order : List ℕ} {index : ℕ} {request : ρ}
    (h : requests[index]? = some request) :
    called requests (order ++ [index]) = called requests order ++ [request] := by
  rw [called, called, List.filterMap_append, List.filterMap_cons, h]
  rfl

theorem replay_concat (spec : ρ → A → Except ε α × A) (init : A) (requests : List ρ)
    (request : ρ) : replay spec init (requests ++ [request]) =
      (spec request (replay spec init requests)).2 := by
  rw [replay, List.foldl_append]
  rfl

theorem arrivals_concat (events : List (Event ρ Op Answer)) (event : Event ρ Op Answer) :
    arrivals (events ++ [event]) = arrivals events + if event.isArrival then 1 else 0 := by
  rw [arrivals, List.countP_append, List.countP_singleton, arrivals]

theorem arrivals_le {before after : List (Event ρ Op Answer)} :
    arrivals before ≤ arrivals (before ++ after) := by
  rw [arrivals, arrivals, List.countP_append]
  exact Nat.le_add_right _ _

/-! ## Steps -/

section

variable {exec : (op : Op) → S → Answer op → S → Prop} {handler : ρ → Program Op Answer ε α}
variable {init : S} {events : List (Event ρ Op Answer)} {event : Event ρ Op Answer}
variable {pool pool' : Pool S ρ Op Answer ε α}

/-- The call that moves in a step. -/
def Event.moved (count : ℕ) : Event ρ Op Answer → ℕ
  | .arrived _ => count
  | .performed index _ _ => index

theorem Step.others (h : Step exec handler pool event pool') {index : ℕ}
    (hne : index ≠ event.moved pool.threads.length) :
    pool'.threads[index]? = pool.threads[index]? := by
  cases h with
  | arrive s threads request =>
      show (threads ++ [_])[index]? = threads[index]?
      have hne : index ≠ threads.length := hne
      grind
  | advance s t before after request op next answer realized =>
      show (before ++ _ :: after)[index]? = (before ++ _ :: after)[index]?
      have hne : index ≠ before.length := hne
      grind

theorem Step.length (h : Step exec handler pool event pool') :
    pool'.threads.length = pool.threads.length + if event.isArrival then 1 else 0 := by
  cases h with
  | arrive s threads request => simp [Event.isArrival]
  | advance s t before after request op next answer realized => simp [Event.isArrival]

theorem Run.length (h : Run exec handler init events pool) :
    pool.threads.length = arrivals events := by
  induction h with
  | start => rfl
  | step prior taken ih => rw [taken.length, ih, arrivals_concat]

end

/-! ## The order of first operations -/

section

variable [Preorder S] (exec : (op : Op) → S → Answer op → S → Prop)
variable (handler : ρ → Program Op Answer ε α) (spec : ρ → A → Except ε α × A)
variable (refusable : ρ → Prop) (holds : S → A → Prop) (init : A)

/-- Where a call is, in a run whose calls were served in some order. -/
inductive Stage (pool : Pool S ρ Op Answer ε α) (order : List ℕ) (index : ℕ) (request : ρ) :
    Program Op Answer ε α → Prop where
  | waiting {op : Op} {next : Answer op → Program Op Answer ε α} (unserved : index ∉ order)
      (pending : handler request = .call op next) : Stage pool order index request (.call op next)
  | refused (unserved : index ∉ order) (refused : refusable request) (e : ε) :
      Stage pool order index request (.done (.error e))
  | settled {program : Program Op Answer ε α} (before after : List ℕ)
      (served : order = before ++ index :: after)
      (decided : Settled exec (fun s => ∃ a, holds s a)
        (spec request (replay spec init (called pool.requests before))).1 pool.state program) :
      Stage pool order index request program

/-- The state is what the calls served so far leave behind, in their order. -/
structure Linearizing (events : List (Event ρ Op Answer)) (pool : Pool S ρ Op Answer ε α)
    (order : List ℕ) : Prop where
  state : holds pool.state (replay spec init (called pool.requests order))
  nodup : order.Nodup
  arrived : ∀ index ∈ order, index < pool.threads.length
  stages : ∀ index request program, pool.threads[index]? = some (request, program) →
    Stage exec handler spec refusable holds init pool order index request program
  realTime : ∀ first second, Precedes events first second → first ∈ order → second ∈ order →
    (∃ request outcome, pool.threads[first]? = some (request, .done outcome)) →
    order.idxOf first < order.idxOf second

variable {exec handler spec refusable holds init}
variable {events : List (Event ρ Op Answer)} {event : Event ρ Op Answer}
variable {pool pool' : Pool S ρ Op Answer ε α} {order extra : List ℕ}

/-- Serving at most the call that moves, last, keeps real time. -/
theorem Linearizing.realTime_step
    (h : Linearizing exec handler spec refusable holds init events pool order)
    (hlength : pool.threads.length = arrivals events)
    (hstep : Step exec handler pool event pool')
    (hextra : ∀ index ∈ extra, index = event.moved pool.threads.length ∧ index ∉ order)
    (first second : ℕ) (hprecedes : Precedes (events ++ [event]) first second)
    (hfirst : first ∈ order ++ extra) (hsecond : second ∈ order ++ extra)
    (harrived : second < pool'.threads.length)
    (hdone : ∃ request outcome, pool'.threads[first]? = some (request, .done outcome)) :
    (order ++ extra).idxOf first < (order ++ extra).idxOf second := by
  obtain ⟨before, after, hevents, hcame, hlater, hquiet⟩ := hprecedes
  rcases List.eq_nil_or_concat after with rfl | ⟨after, last, rfl⟩
  · -- the second call has not come yet
    rw [List.append_nil] at hevents
    rw [hstep.length, hlength, ← arrivals_concat, hevents] at harrived
    exact absurd harrived (Nat.not_lt.mpr hlater)
  · rw [List.concat_eq_append, ← List.append_assoc] at hevents
    obtain ⟨rfl, hlast⟩ := List.append_inj' hevents rfl
    obtain rfl : event = last := List.singleton_inj.mp hlast
    have hnot : first ≠ event.moved pool.threads.length := by
      rintro rfl
      cases event with
      | arrived request =>
          have hbefore : arrivals before ≤ arrivals (before ++ after) := arrivals_le
          rw [← hlength] at hbefore
          exact absurd hcame (Nat.not_lt.mpr hbefore)
      | performed index op answer => exact hquiet op answer (by simp [Event.moved])
    have hold : first ∈ order := by
      rcases List.mem_append.mp hfirst with hold | hnew
      · exact hold
      · exact absurd (hextra first hnew).1 hnot
    rw [hstep.others hnot] at hdone
    rw [List.idxOf_append_of_mem hold]
    rcases List.mem_append.mp hsecond with hsecond | hnew
    · rw [List.idxOf_append_of_mem hsecond]
      apply h.realTime first second ⟨before, after, rfl, hcame, hlater, ?_⟩ hold hsecond hdone
      intro op answer hmem
      exact hquiet op answer (by simp [hmem])
    · rw [List.idxOf_append_of_notMem (hextra second hnew).2]
      exact Nat.lt_of_lt_of_le (List.idxOf_lt_length_iff.mpr hold) (Nat.le_add_right _ _)

/-- The other calls stay where they are. -/
theorem Stage.keep {index : ℕ} {request : ρ} {program : Program Op Answer ε α}
    (h : Stage exec handler spec refusable holds init pool order index request program)
    (harrived : ∀ index ∈ order, index < pool.requests.length)
    (hrequests : ∃ more, pool'.requests = pool.requests ++ more)
    (hle : pool.state ≤ pool'.state) (hextra : index ∉ extra) :
    Stage exec handler spec refusable holds init pool' (order ++ extra) index request program := by
  have hnot : index ∉ order → index ∉ order ++ extra := fun hnot hmem =>
    (List.mem_append.mp hmem).elim hnot hextra
  cases h with
  | waiting unserved pending => exact .waiting (hnot unserved) pending
  | refused unserved refused e => exact .refused (hnot unserved) refused e
  | settled before after served decided =>
      apply Stage.settled before (after ++ extra)
      · rw [served, List.append_assoc, List.cons_append]
      · obtain ⟨more, hrequests⟩ := hrequests
        have hsame : called pool'.requests before = called pool.requests before := by
          apply List.filterMap_congr
          intro other hmem
          rw [hrequests]
          apply List.getElem?_append_left
          exact harrived other (by rw [served]; exact List.mem_append_left _ hmem)
        rw [hsame]
        exact decided.mono hle

omit [Preorder S] in
theorem length_requests (pool : Pool S ρ Op Answer ε α) :
    pool.requests.length = pool.threads.length := by
  rw [requests, List.length_map]

/-- A step explains the call that moves; the rest follows. -/
theorem Linearizing.extend
    (h : Linearizing exec handler spec refusable holds init events pool order)
    (hlength : pool.threads.length = arrivals events)
    (hstep : Step exec handler pool event pool')
    (hextra : ∀ index ∈ extra, index = event.moved pool.threads.length ∧ index ∉ order)
    (honce : extra.Nodup)
    (hmoves : event.moved pool.threads.length < pool'.threads.length)
    (hrequests : ∃ more, pool'.requests = pool.requests ++ more)
    (hle : pool.state ≤ pool'.state)
    (hstate : holds pool'.state (replay spec init (called pool'.requests (order ++ extra))))
    (hstage : ∀ request program,
      pool'.threads[event.moved pool.threads.length]? = some (request, program) →
      Stage exec handler spec refusable holds init pool' (order ++ extra)
        (event.moved pool.threads.length) request program) :
    Linearizing exec handler spec refusable holds init (events ++ [event]) pool'
      (order ++ extra) := by
  have harrived : ∀ index ∈ order ++ extra, index < pool'.threads.length := by
    intro index hmem
    rcases List.mem_append.mp hmem with hold | hnew
    · rw [hstep.length]
      exact Nat.lt_of_lt_of_le (h.arrived index hold) (Nat.le_add_right _ _)
    · exact (hextra index hnew).1 ▸ hmoves
  constructor
  case state => exact hstate
  case nodup =>
    rw [List.nodup_append]
    refine ⟨h.nodup, honce, ?_⟩
    rintro index hold other hnew rfl
    exact (hextra index hnew).2 hold
  case arrived => exact harrived
  case stages =>
    intro index request program hthread
    by_cases hmoved : index = event.moved pool.threads.length
    · exact hmoved ▸ hstage request program (hmoved ▸ hthread)
    · rw [hstep.others hmoved] at hthread
      apply (h.stages index request program hthread).keep _ hrequests hle
      · exact fun hnew => hmoved (hextra index hnew).1
      · intro other hother
        rw [length_requests]
        exact h.arrived other hother
  case realTime =>
    intro first second hprecedes hfirst hsecond
    exact h.realTime_step hlength hstep hextra first second hprecedes hfirst hsecond
      (harrived second hsecond)

variable (heffect : TakeEffect exec handler spec refusable holds)
include heffect

theorem Linearizing.step
    (h : Linearizing exec handler spec refusable holds init events pool order)
    (hlength : pool.threads.length = arrivals events)
    (hstep : Step exec handler pool event pool') :
    ∃ extra, Linearizing exec handler spec refusable holds init (events ++ [event]) pool'
      (order ++ extra) := by
  have htaken := hstep
  cases hstep with
  | arrive s threads request =>
      have hnew : (⟨s, threads ++ [(request, handler request)]⟩ : Pool S ρ Op Answer ε α).requests =
          threads.map Prod.fst ++ [request] := by simp [requests]
      have hcalled : called (threads.map Prod.fst ++ [request]) order =
          called (threads.map Prod.fst) order := by
        apply called_append
        intro index hmem
        rw [List.length_map]
        exact h.arrived index hmem
      have hlast : (threads.map Prod.fst ++ [request])[threads.length]? = some request := by
        simp
      have hfresh : threads.length ∉ order := fun hmem =>
        absurd (h.arrived _ hmem) (Nat.lt_irrefl _)
      have hcases : (∃ op next, handler request = .call op next) ∨
          ∃ outcome, handler request = .done outcome := by
        cases handler request with
        | call op next => exact .inl ⟨op, next, rfl⟩
        | done outcome => exact .inr ⟨outcome, rfl⟩
      rcases hcases with ⟨op, next, hprogram⟩ | ⟨outcome, hprogram⟩
      · -- the call waits for its first operation
        refine ⟨[], h.extend hlength htaken ?_ List.nodup_nil ?_ ⟨_, hnew⟩ le_rfl ?_ ?_⟩
        · exact fun index hmem => absurd hmem List.not_mem_nil
        · simp [Event.moved]
        · rw [hnew, List.append_nil, hcalled]
          exact h.state
        · intro request' program hthread
          have heq : (request, handler request) = (request', program) := by
            simpa [Event.moved] using hthread
          obtain ⟨rfl, rfl⟩ := Prod.mk.inj heq
          rw [hprogram, List.append_nil]
          exact .waiting hfresh hprogram
      · -- the call ends where it came
        have hspec : spec request (replay spec init (called (threads.map Prod.fst) order)) = _ :=
          heffect.immediate request outcome hprogram s _ h.state
        refine ⟨[threads.length], h.extend hlength htaken ?_ (List.nodup_singleton _) ?_
          ⟨_, hnew⟩ le_rfl ?_ ?_⟩
        · intro index hmem
          obtain rfl := List.mem_singleton.mp hmem
          exact ⟨rfl, hfresh⟩
        · simp [Event.moved]
        · rw [hnew, called_concat hlast, hcalled, replay_concat, hspec]
          exact h.state
        · intro request' program hthread
          have heq : (request, handler request) = (request', program) := by
            simpa [Event.moved] using hthread
          obtain ⟨rfl, rfl⟩ := Prod.mk.inj heq
          apply Stage.settled order [] rfl
          rw [hnew, hcalled, hspec, hprogram]
          rfl
  | advance s t before after request op next answer realized =>
      have hsame : (⟨t, before ++ (request, next answer) :: after⟩ :
          Pool S ρ Op Answer ε α).requests =
          (⟨s, before ++ (request, .call op next) :: after⟩ :
            Pool S ρ Op Answer ε α).requests := by simp [requests]
      have hmoving : (before ++ (request, .call op next) :: after)[before.length]? =
          some (request, .call op next) := by simp
      have hmoved : ∀ {request' : ρ} {program : Program Op Answer ε α},
          (before ++ (request, next answer) :: after)[before.length]? = some (request', program) →
            request' = request ∧ program = next answer := by
        intro request' program hthread
        have heq : (request, next answer) = (request', program) := by simpa using hthread
        obtain ⟨rfl, rfl⟩ := Prod.mk.inj heq
        exact ⟨rfl, rfl⟩
      have hrequest : (⟨s, before ++ (request, .call op next) :: after⟩ :
          Pool S ρ Op Answer ε α).requests[before.length]? = some request := by simp [requests]
      cases h.stages _ _ _ hmoving with
      | waiting unserved pending =>
          rcases heffect.first request op next pending s _ answer t h.state realized with
            ⟨hle, hholds, hsettled⟩ | ⟨rfl, hrefusable, e, herror⟩
          · -- the first operation serves the call
            refine ⟨[before.length], h.extend hlength htaken ?_ (List.nodup_singleton _) ?_
              ⟨[], by rw [hsame, List.append_nil]⟩ hle ?_ ?_⟩
            · intro index hmem
              obtain rfl := List.mem_singleton.mp hmem
              exact ⟨rfl, unserved⟩
            · simp [Event.moved]
            · rw [hsame, called_concat hrequest, replay_concat]
              exact hholds
            · intro request' program hthread
              obtain ⟨rfl, rfl⟩ := hmoved hthread
              apply Stage.settled order [] rfl
              rw [hsame]
              exact hsettled
          · refine ⟨[], h.extend hlength htaken ?_ List.nodup_nil ?_
              ⟨[], by rw [hsame, List.append_nil]⟩ le_rfl ?_ ?_⟩
            · exact fun index hmem => absurd hmem List.not_mem_nil
            · simp [Event.moved]
            · rw [hsame, List.append_nil]
              exact h.state
            · intro request' program hthread
              obtain ⟨rfl, rfl⟩ := hmoved hthread
              rw [herror, List.append_nil]
              exact .refused unserved hrefusable e
      | settled served rest hserved decided =>
          -- a later operation only reads
          obtain ⟨rfl, hnext⟩ := decided s le_rfl ⟨_, h.state⟩ answer t realized
          refine ⟨[], h.extend hlength htaken ?_ List.nodup_nil ?_
            ⟨[], by rw [hsame, List.append_nil]⟩ le_rfl ?_ ?_⟩
          · exact fun index hmem => absurd hmem List.not_mem_nil
          · simp [Event.moved]
          · rw [hsame, List.append_nil]
            exact h.state
          · intro request' program hthread
            obtain ⟨rfl, rfl⟩ := hmoved hthread
            apply Stage.settled served rest (by rw [List.append_nil]; exact hserved)
            rw [hsame]
            exact hnext

theorem Run.linearizing {start : S} (hstart : holds start init)
    (hrun : Run exec handler start events pool) :
    ∃ order, Linearizing exec handler spec refusable holds init events pool order := by
  induction hrun with
  | start =>
      refine ⟨[], hstart, List.nodup_nil, ?_, ?_, ?_⟩
      · exact fun index hmem => absurd hmem List.not_mem_nil
      · intro index request program hthread
        cases hthread
      · exact fun first second _ hmem => absurd hmem List.not_mem_nil
  | step prior taken ih =>
      obtain ⟨order, h⟩ := ih
      obtain ⟨extra, hextended⟩ := h.step heffect prior.length taken
      exact ⟨_, hextended⟩

omit heffect in
theorem Linearizing.linearizes
    (h : Linearizing exec handler spec refusable holds init events pool order) :
    Linearizes spec refusable init events pool order where
  nodup := h.nodup
  arrived := h.arrived
  complete index request outcome hthread := by
    cases h.stages index request _ hthread with
    | refused unserved refused e => exact .inr ⟨refused, e, rfl⟩
    | settled before after served decided =>
        left
        rw [served]
        exact List.mem_append_right _ List.mem_cons_self
  answers before index after request outcome horder hthread := by
    have hserved : index ∈ order := by
      rw [horder]
      exact List.mem_append_right _ List.mem_cons_self
    cases h.stages index request _ hthread with
    | refused unserved refused e => exact absurd hserved unserved
    | settled before' after' served decided =>
        have hnodup := h.nodup
        rw [horder] at served hnodup
        obtain ⟨_, hafter, hapart⟩ := List.nodup_append.mp hnodup
        have hnotBefore : index ∉ before := fun hmem =>
          hapart index hmem index List.mem_cons_self rfl
        have hnotAfter : index ∉ after := (List.nodup_cons.mp hafter).1
        obtain ⟨hbefore, _⟩ := (List.append_cons_inj_of_notMem hnotBefore hnotAfter).mp served
        rw [hbefore]
        exact decided
  realTime := h.realTime

end

end Pool

end MbxCache.Foundation
