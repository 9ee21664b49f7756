/-
# Machines driven by events

A machine does one step for each event, or refuses it. A run is the steps of a list
of events. What every step preserves holds after a run, and what holds after a run
and did not hold before it came about at some moment of it.
-/

import Mathlib.Data.List.Induction

namespace MbxCache.Foundation.Machine

variable {S E : Type} (step : E → S → Option S)

/-- The state after a list of events, if none of them was refused. -/
def run : List E → S → Option S
  | [], s => some s
  | event :: events, s => (step event s).bind (run events)

variable {step} {s t : S}

theorem run_append {before after : List E} :
    run step (before ++ after) s = (run step before s).bind (run step after) := by
  induction before generalizing s with
  | nil => rfl
  | cons event before ih =>
      rw [List.cons_append, run, run, Option.bind_assoc]
      congr
      funext u
      exact ih

theorem run_concat {events : List E} {event : E} :
    run step (events ++ [event]) s = (run step events s).bind (step event) := by
  rw [run_append]
  congr
  funext u
  show (step event u).bind some = _
  exact Option.bind_fun_some _

/-- The run lemma. -/
theorem run_preserves {inv : S → Prop} (hstep : ∀ event u v, inv u → step event u = some v → inv v)
    {events : List E} (hinit : inv s) (hrun : run step events s = some t) : inv t := by
  induction events generalizing s with
  | nil => exact Option.some.inj hrun ▸ hinit
  | cons event events ih =>
      obtain ⟨u, hu, hrun⟩ := Option.bind_eq_some_iff.mp hrun
      exact ih (hstep event s u hinit hu) hrun

/-- What comes about only in certain states came about in one of them. -/
theorem exists_moment (inv cause : S → Prop)
    (hstep : ∀ event u v, step event u = some v → inv v → inv u ∨ cause u) (hinit : ¬inv s)
    {events : List E} (hrun : run step events s = some t) (hinv : inv t) :
    ∃ before u, before <+: events ∧ run step before s = some u ∧ cause u := by
  induction events using List.reverseRecOn generalizing t with
  | nil =>
      obtain rfl : s = t := Option.some.inj hrun
      exact absurd hinv hinit
  | append_singleton events event ih =>
      rw [run_concat] at hrun
      obtain ⟨u, hu, hlast⟩ := Option.bind_eq_some_iff.mp hrun
      rcases hstep event u t hlast hinv with hearlier | hnow
      · obtain ⟨before, v, hprefix, hv, hcause⟩ := ih hu hearlier
        exact ⟨before, v, hprefix.trans (List.prefix_append _ _), hv, hcause⟩
      · exact ⟨events, u, List.prefix_append _ _, hu, hnow⟩

/-! ## Machines that choose -/

section Choosing

variable {T : Type} {rel : S → E → S → Prop}

/-- The events of a run and the state it ends in, when a step may go several ways. -/
inductive Traces (rel : S → E → S → Prop) (init : S) : List E → S → Prop where
  | start : Traces rel init [] init
  | step {events : List E} {s t : S} {event : E} (prior : Traces rel init events s)
      (taken : rel s event t) : Traces rel init (events ++ [event]) t

theorem Traces.preserves {inv : S → Prop}
    (hstep : ∀ s event t, inv s → rel s event t → inv t) {init : S} (hinit : inv init)
    {events : List E} (h : Traces rel init events s) : inv s := by
  induction h with
  | start => exact hinit
  | step prior taken ih => exact hstep _ _ _ ih taken

/-- Runs are runs of another machine with the same events when every step is one of its
steps. -/
theorem Traces.refines {inv : S → Prop} {rel' : T → E → T → Prop} {abstract : S → T}
    (hstep : ∀ s event t, inv s → rel s event t → inv t)
    (hrefines : ∀ s event t, inv s → rel s event t → rel' (abstract s) event (abstract t))
    {init : S} (hinit : inv init) {events : List E} (h : Traces rel init events s) :
    Traces rel' (abstract init) events (abstract s) := by
  induction h with
  | start => exact .start
  | step prior taken ih => exact .step ih (hrefines _ _ _ (prior.preserves hstep hinit) taken)

end Choosing

end MbxCache.Foundation.Machine
