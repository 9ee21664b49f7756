/-
# What refreshes keep

The lock makes a refresh the only one to note an attempt, to fetch or to install, so
what it found under the lock is still so when it acts on it. From one step to the
next this gives the distance between attempts, the one fetch in flight, and where
the installed keys come from. What a call was decided by is traced back to the
moment at which it looked.
-/

import MbxCache.Server.Keys

namespace MbxCache.Server

open Foundation

namespace KeyServer

variable {library : TokenLibrary} {provider : KeyProvider} {initial : JwkSet}

/-! ## What a step can do -/

@[simp]
theorem put_calls_self (s : KeyServer) (index : ℕ) (call : Call) :
    (s.put index call).calls index = some call := by
  rw [put]
  exact Function.update_self ..

theorem put_calls_of_ne (s : KeyServer) {index other : ℕ} (call : Call) (h : other ≠ index) :
    (s.put index call).calls other = s.calls other := by
  rw [put]
  exact Function.update_of_ne h ..

/-- The steps, with what each found. -/
inductive Stepped (library : TokenLibrary) (provider : KeyProvider) (s : KeyServer) :
    KeyEvent → KeyServer → Prop where
  | elapsed (time : ℕ) (forward : s.now ≤ time) : Stepped library provider s (.elapsed time) { s with now := time }
  | arrived (index : ℕ) (call : Call) (new : s.calls index = none)
      (reading : call.phase = .reading) : Stepped library provider s (.arrived index call.token) (s.put index call)
  | looked (index : ℕ) (call : Call) (here : s.calls index = some call)
      (phase : call.phase = .reading) (known : Bool)
      (found : known = (s.keys.set.find call.kid).isSome) (next : Phase)
      (follows : next = .locking known ∨ next = .finding) :
      Stepped library provider s (.moved index) (s.put index { call with phase := next })
  | locked (index : ℕ) (call : Call) (here : s.calls index = some call) (known : Bool)
      (phase : call.phase = .locking known) (free : s.refresh = none) :
      Stepped library provider s (.moved index)
        { s.put index { call with phase := .checking known } with refresh := some index }
  | skipped (index : ℕ) (call : Call) (here : s.calls index = some call) (known : Bool)
      (phase : call.phase = .checking known) :
      Stepped library provider s (.moved index)
        { s.put index { call with phase := .finding } with refresh := none }
  | due (index : ℕ) (call : Call) (here : s.calls index = some call) (known : Bool)
      (phase : call.phase = .checking known) (late : s.skips provider call.kid = false) :
      Stepped library provider s (.moved index) (s.put index { call with phase := .timing known })
  | timed (index : ℕ) (call : Call) (here : s.calls index = some call) (known : Bool)
      (phase : call.phase = .timing known) :
      Stepped library provider s (.moved index) (s.put index { call with phase := .recording known s.now })
  | recorded (index : ℕ) (call : Call) (here : s.calls index = some call) (known : Bool)
      (attempt : ℕ) (phase : call.phase = .recording known attempt) :
      Stepped library provider s (.moved index)
        { s.put index { call with phase := .requesting known attempt } with
          keys := { s.keys with attemptedAt := some attempt } }
  | requested (index : ℕ) (call : Call) (here : s.calls index = some call) (known : Bool)
      (attempt : ℕ) (phase : call.phase = .requesting known attempt) :
      Stepped library provider s (.moved index)
        { s.put index { call with phase := .fetching known } with
          fetches := ⟨attempt, s.now, none, false⟩ :: s.fetches }
  | fetched (index : ℕ) (call : Call) (here : s.calls index = some call) (known : Bool)
      (phase : call.phase = .fetching known) (set : JwkSet) :
      Stepped library provider s (.answered index (.ok set))
        { s.put index { call with phase := .installing known set } with
          fetches := s.latest fun fetch => { fetch with answer := some (.ok set) } }
  | failed (index : ℕ) (call : Call) (here : s.calls index = some call) (known : Bool)
      (phase : call.phase = .fetching known) (error : String) (next : Phase)
      (follows : next = .finding ∨ known = false ∧ next = .refreshFailed error) :
      Stepped library provider s (.answered index (.error error))
        { s.put index { call with phase := next } with
          fetches := s.latest fun fetch => { fetch with answer := some (.error error) }
          refresh := none }
  | installed (index : ℕ) (call : Call) (here : s.calls index = some call) (known : Bool)
      (set : JwkSet) (phase : call.phase = .installing known set) :
      Stepped library provider s (.moved index)
        { s.put index { call with phase := .finding } with
          keys := { s.keys with set, fetchedAt := s.now }
          fetches := s.latest fun fetch => { fetch with installed := true }
          refresh := none }
  | found (index : ℕ) (call : Call) (here : s.calls index = some call)
      (phase : call.phase = .finding) :
      Stepped library provider s (.moved index) (s.put index { call with
        phase := .decided (provider.decodeWith library s.keys.set call.token call.alg call.kid) })
  | dropped (index : ℕ) (call : Call) (here : s.calls index = some call) :
      Stepped library provider s (.dropped index)
        { s.put index { call with phase := .dropped } with
          refresh := if call.phase.holds then none else s.refresh }

theorem stepped_move {s t : KeyServer} {index : ℕ} {call : Call} (here : s.calls index = some call)
    (h : s.move library provider index call = some t) :
    Stepped library provider s (.moved index) t := by
  unfold move at h
  cases hphase : call.phase with
  | reading =>
      rw [hphase] at h
      obtain rfl := Option.some.inj h
      apply Stepped.looked index call here hphase _ rfl
      split
      · exact .inl rfl
      · exact .inr rfl
  | locking known =>
      rw [hphase] at h
      dsimp only at h
      split at h
      · next hfree =>
          obtain rfl := Option.some.inj h
          exact .locked index call here known hphase (Option.isNone_iff_eq_none.mp hfree)
      · cases h
  | checking known =>
      rw [hphase] at h
      dsimp only at h
      split at h
      · obtain rfl := Option.some.inj h
        exact .skipped index call here known hphase
      · next hlate =>
          obtain rfl := Option.some.inj h
          exact .due index call here known hphase (by simpa using hlate)
  | timing known =>
      rw [hphase] at h
      obtain rfl := Option.some.inj h
      exact .timed index call here known hphase
  | recording known attempt =>
      rw [hphase] at h
      obtain rfl := Option.some.inj h
      exact .recorded index call here known attempt hphase
  | requesting known attempt =>
      rw [hphase] at h
      obtain rfl := Option.some.inj h
      exact .requested index call here known attempt hphase
  | installing known set =>
      rw [hphase] at h
      obtain rfl := Option.some.inj h
      exact .installed index call here known set hphase
  | finding =>
      rw [hphase] at h
      obtain rfl := Option.some.inj h
      exact .found index call here hphase
  | fetching known | refreshFailed error | decided outcome | dropped =>
      rw [hphase] at h
      cases h

theorem stepped_answer {s t : KeyServer} {index : ℕ} {call : Call} {reply : Except String JwkSet}
    (here : s.calls index = some call) (h : s.answer index call reply = some t) :
    Stepped library provider s (.answered index reply) t := by
  unfold answer at h
  split at h
  · next known hphase =>
      cases reply with
      | ok set =>
          obtain rfl := Option.some.inj h
          exact .fetched index call here known hphase set
      | error error =>
          obtain rfl := Option.some.inj h
          apply Stepped.failed index call here known hphase error
          cases known with
          | true => exact .inl rfl
          | false => exact .inr ⟨rfl, rfl⟩
  · cases h

theorem stepped_of_step {s t : KeyServer} {event : KeyEvent}
    (h : step library provider event s = some t) : Stepped library provider s event t := by
  cases event with
  | elapsed time =>
      rw [step] at h
      split at h
      · next hforward => exact Option.some.inj h ▸ .elapsed time hforward
      · cases h
  | arrived index token =>
      rw [step] at h
      split at h
      · next alg kid hnew _ =>
          exact Option.some.inj h ▸ .arrived index ⟨token, alg, kid, .reading⟩ hnew rfl
      · cases h
  | moved index =>
      obtain ⟨call, here, hmove⟩ := Option.bind_eq_some_iff.mp h
      exact stepped_move here hmove
  | answered index reply =>
      obtain ⟨call, here, hanswer⟩ := Option.bind_eq_some_iff.mp h
      exact stepped_answer here hanswer
  | dropped index =>
      obtain ⟨call, here, hdrop⟩ := Option.bind_eq_some_iff.mp h
      unfold drop at hdrop
      split at hdrop
      · cases hdrop
      · exact Option.some.inj hdrop ▸ .dropped index call here

/-! ## The invariant -/

/-- The sets that refreshes installed, latest first. -/
def installedSets (fetches : List Fetch) : List JwkSet :=
  fetches.filterMap fun fetch =>
    if fetch.installed then fetch.answer.bind Except.toOption else none

/-- The attempts of all fetches are a refresh interval before an instant. -/
def Cooled (provider : KeyProvider) (s : KeyServer) (instant : ℕ) : Prop :=
  ∀ fetch ∈ s.fetches, fetch.attemptedAt + provider.minRefreshInterval ≤ instant

/-- What the holder of the lock has found. -/
def Ready (provider : KeyProvider) (s : KeyServer) : Phase → Prop
  | .timing _ => s.Cooled provider s.now
  | .recording _ attempt => attempt ≤ s.now ∧ s.Cooled provider attempt
  | .requesting _ attempt =>
      attempt ≤ s.now ∧ s.Cooled provider attempt ∧ s.keys.attemptedAt = some attempt
  | .fetching _ => ∃ fetch fetches, s.fetches = fetch :: fetches ∧ fetch.installed = false
  | .installing _ set => ∃ fetch fetches, s.fetches = fetch :: fetches ∧
      fetch.installed = false ∧ fetch.answer = some (.ok set)
  | _ => True

structure Guarded (provider : KeyProvider) (initial : JwkSet) (s : KeyServer) : Prop where
  exclusive : ∀ index call, s.calls index = some call →
    (call.phase.holds = true ↔ s.refresh = some index)
  owned : ∀ index, s.refresh = some index → s.calls index ≠ none
  attempted : ∀ attempt, s.keys.attemptedAt = some attempt → attempt ≤ s.now
  noted : ∀ fetch ∈ s.fetches, fetch.attemptedAt ≤ fetch.startedAt ∧ fetch.startedAt ≤ s.now ∧
    ∃ attempt, s.keys.attemptedAt = some attempt ∧ fetch.attemptedAt ≤ attempt
  spaced : s.fetches.Pairwise fun later earlier =>
    earlier.attemptedAt + provider.minRefreshInterval ≤ later.attemptedAt
  held : ∀ index call, s.calls index = some call → s.Ready provider call.phase
  installed : s.keys.set = (installedSets s.fetches).headD initial

theorem ready_of_not_holds {s : KeyServer} {phase : Phase} (h : phase.holds = false) :
    s.Ready provider phase := by
  cases phase <;> trivial

theorem guarded_new (now : ℕ) (set : JwkSet) : (new now set).Guarded provider set where
  exclusive _ _ h := by cases h
  owned _ h := by cases h
  attempted _ h := by cases h
  noted _ h := by cases h
  spaced := .nil
  held _ _ h := by cases h
  installed := rfl

/-- Later, what was found still holds. -/
theorem Ready.elapse {s : KeyServer} {time : ℕ} (hforward : s.now ≤ time) {phase : Phase}
    (h : s.Ready provider phase) : Ready provider { s with now := time } phase := by
  cases phase with
  | timing known => exact fun fetch hmem => (h fetch hmem).trans hforward
  | recording known attempt => exact ⟨h.1.trans hforward, h.2⟩
  | requesting known attempt => exact ⟨h.1.trans hforward, h.2⟩
  | _ => exact h

theorem Guarded.elapse {s : KeyServer} {time : ℕ} (h : s.Guarded provider initial)
    (hforward : s.now ≤ time) : Guarded provider initial { s with now := time } where
  exclusive := h.exclusive
  owned := h.owned
  attempted attempt hattempt := (h.attempted attempt hattempt).trans hforward
  noted fetch hmem := by
    obtain ⟨hstarted, hbefore, hnoted⟩ := h.noted fetch hmem
    exact ⟨hstarted, hbefore.trans hforward, hnoted⟩
  spaced := h.spaced
  held index call hcall := (h.held index call hcall).elapse hforward
  installed := h.installed

section Call

variable {s : KeyServer} {index : ℕ} {call : Call}

/-- The calls after one was put in its place. -/
theorem calls_put {other : ℕ} {found : Call} (h : (s.put index call).calls other = some found) :
    (other = index ∧ found = call) ∨ (other ≠ index ∧ s.calls other = some found) := by
  by_cases heq : other = index
  · rw [heq, put_calls_self] at h
    exact .inl ⟨heq, (Option.some.inj h).symm⟩
  · rw [put_calls_of_ne s call heq] at h
    exact .inr ⟨heq, h⟩

theorem put_calls_ne_none {other : ℕ} (h : s.calls other ≠ none) :
    (s.put index call).calls other ≠ none := by
  by_cases heq : other = index
  · rw [heq, put_calls_self]
    exact Option.some_ne_none call
  · rwa [put_calls_of_ne s call heq]

/-- A call that keeps or keeps off the lock, and is ready for where it is. -/
theorem Guarded.put (h : s.Guarded provider initial)
    (hlock : call.phase.holds = true ↔ s.refresh = some index)
    (hready : s.Ready provider call.phase) : (s.put index call).Guarded provider initial where
  exclusive other found hfound := by
    rcases calls_put hfound with ⟨rfl, rfl⟩ | ⟨_, hother⟩
    · exact hlock
    · exact h.exclusive other found hother
  owned other hother := put_calls_ne_none (h.owned other hother)
  attempted := h.attempted
  noted := h.noted
  spaced := h.spaced
  held other found hfound := by
    rcases calls_put hfound with ⟨rfl, rfl⟩ | ⟨_, hother⟩
    · exact hready
    · exact h.held other found hother
  installed := h.installed

/-- Nobody else holds the lock. -/
theorem Guarded.not_holds (h : s.Guarded provider initial) (hlock : s.refresh = some index)
    {other : ℕ} {found : Call} (hne : other ≠ index) (hother : s.calls other = some found) :
    found.phase.holds = false := by
  rw [← Bool.not_eq_true, h.exclusive other found hother, hlock]
  intro hsame
  exact hne (Option.some.inj hsame).symm

/-- The holder acts: it stays with the lock or leaves it, and what it changed of the
keys and fetches is in order. -/
theorem Guarded.act (h : s.Guarded provider initial) (hlock : s.refresh = some index)
    {keys : CachedKeys} {fetches : List Fetch} {refresh : Option ℕ}
    (hrefresh : refresh = if call.phase.holds then some index else none)
    (hattempted : ∀ attempt, keys.attemptedAt = some attempt → attempt ≤ s.now)
    (hnoted : ∀ fetch ∈ fetches, fetch.attemptedAt ≤ fetch.startedAt ∧ fetch.startedAt ≤ s.now ∧
      ∃ attempt, keys.attemptedAt = some attempt ∧ fetch.attemptedAt ≤ attempt)
    (hspaced : fetches.Pairwise fun later earlier =>
      earlier.attemptedAt + provider.minRefreshInterval ≤ later.attemptedAt)
    (hready : Ready provider { s.put index call with keys, fetches, refresh } call.phase)
    (hinstalled : keys.set = (installedSets fetches).headD initial) :
    Guarded provider initial { s.put index call with keys, fetches, refresh } where
  exclusive other found hfound := by
    rcases calls_put hfound with ⟨rfl, rfl⟩ | ⟨hne, hother⟩
    · rw [hrefresh]
      cases found.phase.holds <;> simp
    · rw [h.not_holds hlock hne hother, hrefresh]
      cases call.phase.holds with
      | true => simpa using fun hsame => hne hsame.symm
      | false => simp
  owned other hother := by
    have hsome : s.calls index ≠ none := h.owned index hlock
    rw [hrefresh] at hother
    split at hother
    · exact put_calls_ne_none (Option.some.inj hother ▸ hsome)
    · cases hother
  attempted := hattempted
  noted := hnoted
  spaced := hspaced
  held other found hfound := by
    rcases calls_put hfound with ⟨rfl, rfl⟩ | ⟨hne, hother⟩
    · exact hready
    · exact ready_of_not_holds (h.not_holds hlock hne hother)
  installed := hinstalled

/-- The holder leaves the lock and changes nothing. -/
theorem Guarded.release (h : s.Guarded provider initial) (hlock : s.refresh = some index)
    (hphase : call.phase.holds = false) :
    Guarded provider initial { s.put index call with refresh := none } :=
  h.act hlock (by simp [hphase]) h.attempted h.noted h.spaced (ready_of_not_holds hphase)
    h.installed

/-- Changing the answer of the fetch under way changes no instant. -/
theorem Guarded.act_latest (h : s.Guarded provider initial) (hlock : s.refresh = some index)
    (change : Fetch → Fetch) {keys : CachedKeys} {refresh : Option ℕ}
    (hrefresh : refresh = if call.phase.holds then some index else none)
    (hkeys : keys.attemptedAt = s.keys.attemptedAt)
    (hchange : ∀ fetch, (change fetch).attemptedAt = fetch.attemptedAt ∧
      (change fetch).startedAt = fetch.startedAt)
    (hready : Ready provider { s.put index call with keys, fetches := s.latest change, refresh }
      call.phase)
    (hinstalled : keys.set = (installedSets (s.latest change)).headD initial) :
    Guarded provider initial
      { s.put index call with keys, fetches := s.latest change, refresh } := by
  have hspaced := h.spaced
  have hnoted := h.noted
  apply h.act hlock hrefresh (hkeys ▸ h.attempted) _ _ hready hinstalled
  · rw [hkeys]
    unfold latest
    cases hfetches : s.fetches with
    | nil => exact fun _ hmem => by cases hmem
    | cons fetch fetches =>
        rw [hfetches, List.forall_mem_cons] at hnoted
        rw [List.forall_mem_cons, (hchange fetch).1, (hchange fetch).2]
        exact hnoted
  · unfold latest
    cases hfetches : s.fetches with
    | nil => exact .nil
    | cons fetch fetches =>
        rw [hfetches, List.pairwise_cons] at hspaced
        rw [List.pairwise_cons, (hchange fetch).1]
        exact hspaced

end Call

/-- Past the second look, every attempt is a refresh interval ago. -/
theorem Guarded.cooled {s : KeyServer} (h : s.Guarded provider initial) {kid : String}
    (hlate : s.skips provider kid = false) : s.Cooled provider s.now := by
  intro fetch hmem
  obtain ⟨_, _, attempt, hattempt, hle⟩ := h.noted fetch hmem
  have hbefore := h.attempted attempt hattempt
  rw [skips, hattempt, Bool.or_eq_false_iff] at hlate
  have helapsed : ¬s.now - attempt < provider.minRefreshInterval := of_decide_eq_false hlate.1
  omega

/-- The step lemma. -/
theorem Guarded.step {s t : KeyServer} {event : KeyEvent} (h : s.Guarded provider initial)
    (hstep : Stepped library provider s event t) : t.Guarded provider initial := by
  cases hstep with
  | elapsed time forward => exact h.elapse forward
  | arrived index call new reading =>
      apply h.put
      · rw [reading]
        simpa [Phase.holds] using fun hlock => h.owned index hlock new
      · rw [reading]
        trivial
  | looked index call here phase known found next follows =>
      have hfree := h.exclusive index call here
      rw [phase] at hfree
      rcases follows with rfl | rfl
      · exact h.put hfree trivial
      · exact h.put hfree trivial
  | locked index call here known phase free =>
      have hnobody : ∀ other found, s.calls other = some found → found.phase.holds = false := by
        intro other found hfound
        rw [← Bool.not_eq_true, h.exclusive other found hfound, free]
        intro hlock
        cases hlock
      constructor
      · intro other found hfound
        rcases calls_put hfound with ⟨rfl, rfl⟩ | ⟨hne, hother⟩
        · simp [Phase.holds]
        · rw [hnobody other found hother]
          simpa using fun hsame => hne hsame.symm
      · intro other hother
        rw [← Option.some.inj hother]
        exact put_calls_ne_none (by simp [here])
      · exact h.attempted
      · exact h.noted
      · exact h.spaced
      · intro other found hfound
        rcases calls_put hfound with ⟨rfl, rfl⟩ | ⟨_, hother⟩
        · trivial
        · exact ready_of_not_holds (hnobody other found hother)
      · exact h.installed
  | skipped index call here known phase =>
      have hlock := (h.exclusive index call here).mp (by rw [phase]; rfl)
      exact h.release hlock rfl
  | due index call here known phase late =>
      have hlock := (h.exclusive index call here).mp (by rw [phase]; rfl)
      exact h.put (by simp [Phase.holds, hlock]) (h.cooled late)
  | timed index call here known phase =>
      have hlock := (h.exclusive index call here).mp (by rw [phase]; rfl)
      have hready := h.held index call here
      rw [phase] at hready
      exact h.put (by simp [Phase.holds, hlock]) ⟨le_rfl, hready⟩
  | recorded index call here known attempt phase =>
      have hlock := (h.exclusive index call here).mp (by rw [phase]; rfl)
      have hready := h.held index call here
      rw [phase] at hready
      obtain ⟨hbefore, hcooled⟩ := hready
      apply h.act hlock hlock
      · intro other hother
        rw [← Option.some.inj hother]
        exact hbefore
      · intro fetch hmem
        obtain ⟨hstarted, hnow, _⟩ := h.noted fetch hmem
        exact ⟨hstarted, hnow, attempt, rfl, (Nat.le_add_right _ _).trans (hcooled fetch hmem)⟩
      · exact h.spaced
      · exact ⟨hbefore, hcooled, rfl⟩
      · exact h.installed
  | requested index call here known attempt phase =>
      have hlock := (h.exclusive index call here).mp (by rw [phase]; rfl)
      have hready := h.held index call here
      rw [phase] at hready
      obtain ⟨hbefore, hcooled, hnoted⟩ := hready
      apply h.act hlock hlock h.attempted
      · exact List.forall_mem_cons.mpr ⟨⟨hbefore, le_rfl, attempt, hnoted, le_rfl⟩, h.noted⟩
      · exact List.pairwise_cons.mpr ⟨hcooled, h.spaced⟩
      · exact ⟨_, _, rfl, rfl⟩
      · exact h.installed
  | fetched index call here known phase set =>
      have hlock := (h.exclusive index call here).mp (by rw [phase]; rfl)
      have hready := h.held index call here
      rw [phase] at hready
      obtain ⟨fetch, fetches, hfetches, hinstalled⟩ := hready
      apply h.act_latest hlock (fun fetch => { fetch with answer := some (.ok set) }) hlock rfl
        fun _ => ⟨rfl, rfl⟩
      · rw [latest, hfetches]
        exact ⟨_, _, rfl, hinstalled, rfl⟩
      · rw [h.installed, latest, hfetches]
        simp [installedSets, hinstalled]
  | failed index call here known phase error next follows =>
      have hlock := (h.exclusive index call here).mp (by rw [phase]; rfl)
      have hready := h.held index call here
      rw [phase] at hready
      obtain ⟨fetch, fetches, hfetches, hinstalled⟩ := hready
      have hleaves : next.holds = false := by
        rcases follows with rfl | ⟨_, rfl⟩ <;> rfl
      apply h.act_latest hlock (fun fetch => { fetch with answer := some (.error error) })
        (by rw [hleaves]; rfl) rfl fun _ => ⟨rfl, rfl⟩
      · exact ready_of_not_holds hleaves
      · rw [h.installed, latest, hfetches]
        simp [installedSets, hinstalled]
  | installed index call here known set phase =>
      have hlock := (h.exclusive index call here).mp (by rw [phase]; rfl)
      have hready := h.held index call here
      rw [phase] at hready
      obtain ⟨fetch, fetches, hfetches, hinstalled, hanswer⟩ := hready
      have hleaves : none = if Phase.finding.holds then some index else none := rfl
      have hkeys : ({ s.keys with set, fetchedAt := s.now } : CachedKeys).attemptedAt =
        s.keys.attemptedAt := rfl
      apply h.act_latest hlock (fun fetch => { fetch with installed := true }) hleaves hkeys
        fun _ => ⟨rfl, rfl⟩
      · trivial
      · rw [latest, hfetches]
        simp [installedSets, hanswer, Except.toOption]
  | found index call here phase =>
      have hfree := h.exclusive index call here
      rw [phase] at hfree
      exact h.put hfree trivial
  | dropped index call here =>
      cases hphase : call.phase.holds with
      | true => exact h.release ((h.exclusive index call here).mp hphase) rfl
      | false =>
          have hfree := h.exclusive index call here
          rw [hphase] at hfree
          exact h.put hfree trivial

/-! ## Where the keys come from -/

/-- Keys change in one step only, and that step installs what was fetched. -/
theorem Stepped.keys {s t : KeyServer} {event : KeyEvent}
    (h : Stepped library provider s event t) :
    (t.keys.set = s.keys.set ∧ t.keys.fetchedAt = s.keys.fetchedAt) ∨
      ∃ index call known set, event = .moved index ∧ s.calls index = some call ∧
        call.phase = .installing known set := by
  cases h with
  | installed index call here known set phase =>
      exact .inr ⟨index, call, known, set, rfl, here, phase⟩
  | _ => exact .inl ⟨rfl, rfl⟩

/-- Steps while a call holds the lock, none of which is its installation. -/
inductive Refreshing (library : TokenLibrary) (provider : KeyProvider) (index : ℕ)
    (s : KeyServer) : KeyServer → Prop where
  | start : Refreshing library provider index s s
  | step {t u : KeyServer} (event : KeyEvent) (prior : Refreshing library provider index s t)
      (holds : t.refresh = some index)
      (other : ∀ call known set, t.calls index = some call →
        call.phase = .installing known set → event ≠ .moved index)
      (taken : step library provider event t = some u) : Refreshing library provider index s u

theorem Refreshing.guarded {s t : KeyServer} {index : ℕ} (h : s.Guarded provider initial)
    (hrefreshing : Refreshing library provider index s t) : t.Guarded provider initial := by
  induction hrefreshing with
  | start => exact h
  | step event prior holds other taken ih => exact ih.step (stepped_of_step taken)

/-- A refresh that does not install leaves the keys as it found them: no other call
can install while it holds the lock. -/
theorem Refreshing.keys {s t : KeyServer} {index : ℕ} (h : s.Guarded provider initial)
    (hrefreshing : Refreshing library provider index s t) :
    t.keys.set = s.keys.set ∧ t.keys.fetchedAt = s.keys.fetchedAt := by
  induction hrefreshing with
  | start => exact ⟨rfl, rfl⟩
  | step event prior holds other taken ih =>
      rcases (stepped_of_step taken).keys with ⟨hset, hfetched⟩ | ⟨i, call, known, set, hevent, here,
        phase⟩
      · exact ⟨hset.trans ih.1, hfetched.trans ih.2⟩
      · have hlock := ((prior.guarded h).exclusive i call here).mp (by rw [phase]; rfl)
        rw [holds] at hlock
        obtain rfl := Option.some.inj hlock
        exact absurd hevent (other call known set here phase)

/-! ## How a call was decided -/

/-- One step of a call: it decides by the keys as they are, and doubts only where it
did not find its key. -/
structure Follows (library : TokenLibrary) (provider : KeyProvider) (s : KeyServer)
    (call next : Call) : Prop where
  same : next.token = call.token ∧ next.alg = call.alg ∧ next.kid = call.kid
  decides : ∀ outcome, next.phase = .decided outcome → call.phase = .finding ∧
    provider.decodeWith library s.keys.set call.token call.alg call.kid = outcome
  doubts : next.phase.doubts = true →
    call.phase.doubts = true ∨ call.phase = .reading ∧ s.keys.set.find call.kid = none

theorem follows_put {s : KeyServer} {index other : ℕ} {call next : Call} {phase : Phase}
    (here : s.calls index = some call)
    (hnext : (s.put index { call with phase }).calls other = some next)
    (hdecides : ∀ outcome, phase = .decided outcome → call.phase = .finding ∧
      provider.decodeWith library s.keys.set call.token call.alg call.kid = outcome)
    (hdoubts : phase.doubts = true →
      call.phase.doubts = true ∨ call.phase = .reading ∧ s.keys.set.find call.kid = none) :
    s.calls other = some next ∨ next.phase = .reading ∨
      ∃ call, s.calls other = some call ∧ Follows library provider s call next := by
  rcases calls_put hnext with ⟨rfl, rfl⟩ | ⟨_, hold⟩
  · exact .inr (.inr ⟨call, here, ⟨rfl, rfl, rfl⟩, hdecides, hdoubts⟩)
  · exact .inl hold

theorem Stepped.follows {s t : KeyServer} {event : KeyEvent}
    (h : Stepped library provider s event t) {other : ℕ} {next : Call}
    (hnext : t.calls other = some next) :
    s.calls other = some next ∨ next.phase = .reading ∨
      ∃ call, s.calls other = some call ∧ Follows library provider s call next := by
  cases h with
  | elapsed time forward => exact .inl hnext
  | arrived index call new reading =>
      rcases calls_put hnext with ⟨_, rfl⟩ | ⟨_, hold⟩
      · exact .inr (.inl reading)
      · exact .inl hold
  | looked index call here phase known found next' follows =>
      apply follows_put here hnext
      · rintro outcome rfl
        rcases follows with hlocking | hfinding
        · cases hlocking
        · cases hfinding
      · intro hdoubts
        rcases follows with rfl | rfl
        · have hknown : known = false := by simpa [Phase.doubts] using hdoubts
          rw [hknown] at found
          exact .inr ⟨phase, by simpa using found.symm⟩
        · cases hdoubts
  | found index call here phase =>
      apply follows_put here hnext
      · rintro outcome houtcome
        exact ⟨phase, Phase.decided.inj houtcome⟩
      · intro hdoubts
        cases hdoubts
  | failed index call here known phase error next' follows =>
      apply follows_put here hnext
      · rintro outcome rfl
        rcases follows with hfinding | ⟨_, hfailed⟩
        · cases hfinding
        · cases hfailed
      · intro hdoubts
        rcases follows with rfl | ⟨rfl, rfl⟩
        · cases hdoubts
        · exact .inl (by rw [phase]; rfl)
  | skipped index call here known phase | installed index call here known set phase =>
      exact follows_put here hnext (fun _ h => by cases h) (fun h => by cases h)
  | dropped index call here =>
      exact follows_put here hnext (fun _ h => by cases h) (fun h => by cases h)
  | locked index call here known phase free | due index call here known phase late
  | timed index call here known phase | recorded index call here known attempt phase
  | requested index call here known attempt phase | fetched index call here known phase set =>
      apply follows_put here hnext (fun _ h => by cases h)
      intro hdoubts
      exact .inl (by rw [phase]; exact hdoubts)

section Moments

variable {init s : KeyServer} {events : List KeyEvent} {index : ℕ} {call : Call}

/-- A decided call looked at the keys of some moment of the run. -/
theorem exists_moment_decided (hinit : init.calls index = none)
    (hrun : Machine.run (step library provider) events init = some s)
    (hcall : s.calls index = some call) {outcome : Except String Json}
    (hdecided : call.phase = .decided outcome) :
    ∃ before u, before <+: events ∧ Machine.run (step library provider) before init = some u ∧
      ∃ asking, u.calls index = some asking ∧ asking.phase = .finding ∧
        provider.decodeWith library u.keys.set call.token call.alg call.kid = outcome := by
  apply Machine.exists_moment
    (fun s => ∃ next, s.calls index = some next ∧ next.token = call.token ∧
      next.alg = call.alg ∧ next.kid = call.kid ∧ next.phase = .decided outcome)
    _ _ _ hrun ⟨call, hcall, rfl, rfl, rfl, hdecided⟩
  · rintro event u v hstep ⟨next, hnext, htoken, halg, hkid, hphase⟩
    rcases (stepped_of_step hstep).follows hnext with hold | hreading | ⟨asking, hasking, hfollows⟩
    · exact .inl ⟨next, hold, htoken, halg, hkid, hphase⟩
    · rw [hreading] at hphase
      cases hphase
    · obtain ⟨hfinding, houtcome⟩ := hfollows.decides outcome hphase
      refine .inr ⟨asking, hasking, hfinding, ?_⟩
      rw [← htoken, ← halg, ← hkid, hfollows.same.1, hfollows.same.2.1, hfollows.same.2.2]
      exact houtcome
  · rintro ⟨next, hnext, _⟩
    rw [hinit] at hnext
    cases hnext

/-- A call that doubts its key did not find it at some moment since it came. -/
theorem exists_moment_unknown (hinit : init.calls index = none)
    (hrun : Machine.run (step library provider) events init = some s)
    (hcall : s.calls index = some call) (hdoubts : call.phase.doubts = true) :
    ∃ before u, before <+: events ∧ Machine.run (step library provider) before init = some u ∧
      ∃ asking, u.calls index = some asking ∧ u.keys.set.find call.kid = none := by
  apply Machine.exists_moment
    (fun s => ∃ next, s.calls index = some next ∧ next.kid = call.kid ∧
      next.phase.doubts = true) _ _ _ hrun ⟨call, hcall, rfl, hdoubts⟩
  · rintro event u v hstep ⟨next, hnext, hkid, hphase⟩
    rcases (stepped_of_step hstep).follows hnext with hold | hreading | ⟨asking, hasking, hfollows⟩
    · exact .inl ⟨next, hold, hkid, hphase⟩
    · rw [hreading] at hphase
      cases hphase
    · have hsame := hfollows.same.2.2
      rcases hfollows.doubts hphase with hbefore | ⟨_, hunknown⟩
      · exact .inl ⟨asking, hasking, hsame.symm.trans hkid, hbefore⟩
      · rw [← hsame, hkid] at hunknown
        exact .inr ⟨asking, hasking, hunknown⟩
  · rintro ⟨next, hnext, _⟩
    rw [hinit] at hnext
    cases hnext

end Moments

/-! ## Discipline -/

/-- What holds of a provider that has run for a while. -/
structure Disciplined (library : TokenLibrary) (provider : KeyProvider) (initial : JwkSet)
    (init : KeyServer) (events : List KeyEvent) (s : KeyServer) : Prop where
  /-- One fetch at a time. -/
  single : ∀ index other call found known known', s.calls index = some call →
    s.calls other = some found → call.phase = .fetching known → found.phase = .fetching known' →
    index = other
  /-- The attempts behind any two fetches are an interval apart, and a fetch starts
  when its attempt is noted or later. -/
  spaced : s.fetches.Pairwise fun later earlier =>
    earlier.attemptedAt + provider.minRefreshInterval ≤ later.attemptedAt
  started : ∀ fetch ∈ s.fetches, fetch.attemptedAt ≤ fetch.startedAt
  /-- A refresh that does not install changes no key. -/
  unchanged : ∀ index later, Refreshing library provider index s later →
    later.keys.set = s.keys.set ∧ later.keys.fetchedAt = s.keys.fetchedAt
  /-- The keys are the last ones installed, or the first ones. -/
  installed : s.keys.set = (installedSets s.fetches).headD initial
  /-- A token is accepted under the key that the keys of the moment held for it. -/
  accepted : ∀ index call claims, s.calls index = some call →
    call.phase = .decided (.ok claims) →
    ∃ before u, before <+: events ∧ Machine.run (step library provider) before init = some u ∧
      (∃ asking, u.calls index = some asking ∧ asking.phase = .finding) ∧
      u.keys.set = (installedSets u.fetches).headD initial ∧
      ∃ jwk key, u.keys.set.find call.kid = some jwk ∧ library.fromJwk jwk = .ok key ∧
        library.decode call.token key (provider.validation call.alg) = .ok claims
  /-- Only a token whose key was missing at some moment since it came is refused for
  a refresh that failed. -/
  kept : ∀ index call error, s.calls index = some call → call.phase = .refreshFailed error →
    ∃ before u, before <+: events ∧ Machine.run (step library provider) before init = some u ∧
      (∃ asking, u.calls index = some asking) ∧ u.keys.set.find call.kid = none

theorem run_guarded {init s : KeyServer} {events : List KeyEvent}
    (hinit : init.Guarded provider initial)
    (hrun : Machine.run (step library provider) events init = some s) :
    s.Guarded provider initial :=
  Machine.run_preserves (fun _ _ _ h hstep => h.step (stepped_of_step hstep)) hinit hrun

/-- Any number of calls with any key ids, in any order of their steps, whatever the
endpoint answers, whichever calls are dropped, and however the clock moves. -/
theorem refresh_disciplined (library : TokenLibrary) (provider : KeyProvider) (now : ℕ)
    (initial : JwkSet) (events : List KeyEvent) (s : KeyServer)
    (hrun : Machine.run (step library provider) events (new now initial) = some s) :
    Disciplined library provider initial (new now initial) events s := by
  have h : s.Guarded provider initial := run_guarded (guarded_new now initial) hrun
  constructor
  · intro index other call found known known' hcall hfound hphase hphase'
    have hfirst := (h.exclusive index call hcall).mp (by rw [hphase]; rfl)
    have hsecond := (h.exclusive other found hfound).mp (by rw [hphase']; rfl)
    rw [hfirst] at hsecond
    exact Option.some.inj hsecond
  · exact h.spaced
  · exact fun fetch hmem => (h.noted fetch hmem).1
  · exact fun index later hrefreshing => hrefreshing.keys h
  · exact h.installed
  · intro index call claims hcall hdecided
    obtain ⟨before, u, hprefix, hu, asking, hasking, hfinding, houtcome⟩ :=
      exists_moment_decided rfl hrun hcall hdecided
    obtain ⟨jwk, key, hfind, _, hkey, hdecode⟩ := KeyProvider.decodeWith_eq_ok houtcome
    exact ⟨before, u, hprefix, hu, ⟨asking, hasking, hfinding⟩,
      (run_guarded (guarded_new now initial) hu).installed, jwk, key, hfind, hkey, hdecode⟩
  · intro index call error hcall hfailed
    obtain ⟨before, u, hprefix, hu, asking, hasking, hunknown⟩ :=
      exists_moment_unknown rfl hrun hcall (by rw [hfailed]; rfl)
    exact ⟨before, u, hprefix, hu, ⟨asking, hasking⟩, hunknown⟩

/-! ### A key that is not there yet -/

/-- A token signed under the key `k1`. -/
def sampleToken : String :=
  "eyJhbGciOiJFZERTQSIsImtpZCI6ImsxIn0.eyJpc3MiOiJodHRwczovL2lzc3Vlci5leGFtcGxlIiwic3ViIjoiY2k" ++
    "iLCJhdWQiOiJtYngtY2FjaGUiLCJleHAiOjQxMDI0NDQ4MDB9.zh0v2c5iZzLgR7-Kws9qdc9qGtcpD2VX8F-3boy6" ++
    "V2MovFoeyMlY0Gr87Lj40PkPZ1FR_J0speeamEvLOEsuCA"

def sampleKey : Jwk where
  keyId := some "k1"
  keyAlgorithm := none
  publicKeyUse := some "sig"
  keyOperations := none
  parameters := "\x7b\"kty\":\"OKP\",\"crv\":\"Ed25519\",\"x\":\"czvnrVOPZEnQYEVBWbAZqCc2wtJeD0BmK-7KM74DLsk\"\x7d"

/-- The library on this token and this key; it refuses everything else. -/
def sampleLibrary : TokenLibrary where
  DecodingKey := String
  decodeHeader token :=
    if token = sampleToken then .ok ⟨.EdDSA, some "k1"⟩ else .error "InvalidToken"
  fromJwk jwk := .ok jwk.parameters
  decode token key _ :=
    if token = sampleToken ∧ key = sampleKey.parameters then
      .ok (.object [("iss", .string "https://issuer.example"), ("sub", .string "ci")])
    else .error "InvalidSignature"

def sampleProvider : KeyProvider :=
  KeyProvider.new
    { issuer := "https://issuer.example"
      audiences := ["mbx-cache"]
      discoveryUri := none
      jwksUri := some "https://issuer.example/keys"
      algorithms := []
      jwksRefreshSeconds := 300
      clockSkewSeconds := 60
      rules := [] }
    DEFAULT_ALGORITHMS

/-- A call up to the point where it is to note the attempt of its refresh. -/
def untilRecording (index : ℕ) : List KeyEvent :=
  [.arrived index sampleToken, .moved index, .moved index, .moved index, .moved index]

def runSample (events : List KeyEvent) : Option KeyServer :=
  Machine.run (step sampleLibrary sampleProvider) events (new 0 ⟨[]⟩)

/-- What became of a call. -/
def outcomeOf (index : ℕ) (s : KeyServer) : Option (Option String) :=
  (s.calls index).bind fun call => match call.phase with
    | .decided (.ok _) => some none
    | .decided (.error error) | .refreshFailed error => some (some error)
    | _ => none

/-- The key is fetched and the token accepted. -/
theorem refresh_disciplined_sample : ∃ s, runSample (untilRecording 0 ++
      [.moved 0, .moved 0, .answered 0 (.ok ⟨[sampleKey]⟩), .moved 0, .moved 0]) = some s ∧
    outcomeOf 0 s = some none ∧
    Disciplined sampleLibrary sampleProvider ⟨[]⟩ (new 0 ⟨[]⟩) (untilRecording 0 ++
      [.moved 0, .moved 0, .answered 0 (.ok ⟨[sampleKey]⟩), .moved 0, .moved 0]) s := by
  have houtcome : (runSample (untilRecording 0 ++
      [.moved 0, .moved 0, .answered 0 (.ok ⟨[sampleKey]⟩), .moved 0, .moved 0])).map
        (outcomeOf 0) = some (some none) := by
    decide +kernel
  obtain ⟨s, hrun, houtcome⟩ := Option.map_eq_some_iff.mp houtcome
  exact ⟨s, hrun, houtcome, refresh_disciplined _ _ _ _ _ s hrun⟩

/-- The keys the endpoint answered with. -/
def answeredSets (s : KeyServer) : List (Option JwkSet) :=
  s.fetches.map fun fetch => fetch.answer.bind Except.toOption

/-- The first attempt is noted 31 seconds before its fetch can start, so that a
second fetch starts at the same instant; and keys that were fetched are not the keys
a token is checked against when their call was dropped before it could install them. -/
theorem fetches_start_together :
    (∃ s, runSample (untilRecording 0 ++ [.elapsed (seconds 31), .moved 0, .moved 0,
          .answered 0 (.error "connection refused")] ++ untilRecording 1 ++
          [.moved 1, .moved 1]) = some s ∧
        s.fetches.map Fetch.startedAt = [seconds 31, seconds 31]) ∧
      ∃ s, runSample (untilRecording 0 ++ [.moved 0, .moved 0,
          .answered 0 (.ok ⟨[sampleKey]⟩), .dropped 0, .arrived 1 sampleToken, .moved 1, .moved 1,
          .moved 1, .moved 1]) = some s ∧
        answeredSets s = [some ⟨[sampleKey]⟩] ∧ s.keys.set = ⟨[]⟩ ∧
        outcomeOf 1 s = some (some "JWT signing key was not found") := by
  constructor
  · have hstarts : (runSample (untilRecording 0 ++ [.elapsed (seconds 31), .moved 0, .moved 0,
        .answered 0 (.error "connection refused")] ++ untilRecording 1 ++
        [.moved 1, .moved 1])).map (fun s => s.fetches.map Fetch.startedAt) =
          some [seconds 31, seconds 31] := by
      decide +kernel
    exact Option.map_eq_some_iff.mp hstarts
  · have hend : (runSample (untilRecording 0 ++ [.moved 0, .moved 0,
        .answered 0 (.ok ⟨[sampleKey]⟩), .dropped 0, .arrived 1 sampleToken, .moved 1, .moved 1,
        .moved 1, .moved 1])).map (fun s => (answeredSets s, s.keys.set, outcomeOf 1 s)) =
          some ([some ⟨[sampleKey]⟩], ⟨[]⟩, some (some "JWT signing key was not found")) := by
      decide +kernel
    obtain ⟨s, hrun, hs⟩ := Option.map_eq_some_iff.mp hend
    simp only [Prod.mk.injEq] at hs
    exact ⟨s, hrun, hs⟩

end KeyServer

end MbxCache.Server
