/-
# When blobs were used

Each read of a blob asks for its row to be touched, and a touch writes the row only when
the time in it is more than an hour old. So the writes of one row are more than an hour
apart however often it is read, and the time in it is never more than an hour behind
its last use. This is about the statements of all requests and sweeps in the order in
which they take effect, with a clock that does not go backwards.
-/

import MbxCache.Metadata.Sweep

namespace MbxCache

open Foundation

/-- A statement or a sweep at a time. -/
inductive Timed where
  | sent (now : ℕ) (statement : Statement)
  | swept (now olderThanDays : ℕ)

namespace Timed

def now : Timed → ℕ
  | sent now _ => now
  | swept now _ => now

def apply : Timed → Database → Database
  | sent now statement, db => (db.execute now statement).2
  | swept now olderThanDays, db => (db.sweep now olderThanDays).2

/-- The tables after some events. -/
def applyAll (events : List Timed) (db : Database) : Database :=
  events.foldl (fun db event => event.apply db) db

/-- Whether the event is a use of the blob, by an upload or by a read. -/
def uses (key : RowKey) : Timed → Bool
  | sent _ (.touchBlobs ns requested) =>
      (Statement.touchBlobs ns requested).accepted && requested.any fun columns =>
        key = columns.at ns
  | sent _ (.upsertBlob other _) => key = other && key.accepted && decide key.Checked
  | _ => false

/-- Whether the event is a touch that writes the row of the blob. -/
def touches (key : RowKey) (db : Database) : Timed → Bool
  | sent now (.touchBlobs ns requested) =>
      (Statement.touchBlobs ns requested).accepted &&
        (requested.any fun columns => key = columns.at ns) &&
          (db.namespaceBlobs.find key).any fun row =>
            row.lastAccessedAt + accessRefreshInterval < now
  | _ => false

/-- When the blob was used last. -/
def lastUse (key : RowKey) (events : List Timed) : Option ℕ :=
  (events.filter (uses key)).getLast?.map now

/-- When touches wrote the row of the blob. -/
def touchedAt (key : RowKey) : List Timed → Database → List ℕ
  | [], _ => []
  | event :: events, db =>
      if event.touches key db then event.now :: touchedAt key events (event.apply db)
      else touchedAt key events (event.apply db)

/-! ## What one event does to a row -/

/-- The row of a blob before and after an event. -/
inductive Change (key : RowKey) (db : Database) (event : Timed) : Option BlobRow → Prop where
  | kept (unused : event.uses key = false) (unwritten : event.touches key db = false) :
      Change key db event (db.namespaceBlobs.find key)
  | deleted (unused : event.uses key = false) (unwritten : event.touches key db = false) :
      Change key db event none
  | recent (used : event.uses key = true) (unwritten : event.touches key db = false)
      (recent : ∀ row, db.namespaceBlobs.find key = some row →
        event.now ≤ row.lastAccessedAt + accessRefreshInterval) :
      Change key db event (db.namespaceBlobs.find key)
  | touched (row : BlobRow) (used : event.uses key = true)
      (written : event.touches key db = true) (found : db.namespaceBlobs.find key = some row)
      (old : row.lastAccessedAt + accessRefreshInterval < event.now) :
      Change key db event (some { row with lastAccessedAt := event.now })
  | uploaded (created : Bool) (used : event.uses key = true)
      (unwritten : event.touches key db = false) :
      Change key db event
        (some (Database.restarted event.now created (db.namespaceBlobs.find key)))

variable {key : RowKey} {db : Database}

theorem change_touch (now : ℕ) (ns : String) (requested : List Columns) :
    Change key db (sent now (.touchBlobs ns requested))
      ((db.execute now (.touchBlobs ns requested)).2.namespaceBlobs.find key) := by
  by_cases haccepted : (Statement.touchBlobs ns requested).accepted = true
  · rw [Database.execute_of_accepted haccepted]
    show Change key db _ ((db.touchBlobs now ns requested).2.namespaceBlobs.find key)
    rw [Database.touchBlobs, Table.find_updateWhere]
    by_cases hasked : (requested.any fun columns => key = columns.at ns) = true
    · have hused : (sent now (.touchBlobs ns requested)).uses key = true := by
        rw [uses, haccepted, hasked]
        rfl
      cases hfound : db.namespaceBlobs.find key with
      | none =>
          have hunwritten : (sent now (.touchBlobs ns requested)).touches key db = false := by
            rw [touches, hfound]
            simp
          have hrecent := Change.recent hused hunwritten fun row h => by
            rw [hfound] at h
            cases h
          rw [hfound] at hrecent
          exact hrecent
      | some row =>
          rw [Option.map_some, hasked, Bool.true_and]
          by_cases hold : row.lastAccessedAt + accessRefreshInterval < now
          · have hwritten : (sent now (.touchBlobs ns requested)).touches key db = true := by
              rw [touches, haccepted, hasked, hfound]
              simpa using hold
            rw [if_pos (decide_eq_true hold)]
            exact .touched row hused hwritten hfound hold
          · have hunwritten : (sent now (.touchBlobs ns requested)).touches key db = false := by
              rw [touches, haccepted, hasked, hfound]
              simpa using hold
            have hrecent := Change.recent hused hunwritten fun row' h => by
              rw [hfound] at h
              rw [← Option.some.inj h]
              exact Nat.not_lt.mp hold
            rw [hfound] at hrecent
            rw [if_neg (by simpa using hold)]
            exact hrecent
    · have hnot : (requested.any fun columns => key = columns.at ns) = false :=
        Bool.not_eq_true _ ▸ hasked
      have hunused : (sent now (.touchBlobs ns requested)).uses key = false := by
        rw [uses, hnot, Bool.and_false]
      have hunwritten : (sent now (.touchBlobs ns requested)).touches key db = false := by
        rw [touches, hnot, Bool.and_false, Bool.false_and]
      have hkept := Change.kept hunused hunwritten
      rw [hnot]
      simpa using hkept
  · have hrefused : (Statement.touchBlobs ns requested).accepted = false :=
      Bool.not_eq_true _ ▸ haccepted
    rw [Database.execute, if_neg haccepted]
    apply Change.kept
    · rw [uses, hrefused, Bool.false_and]
    · rw [touches, hrefused, Bool.false_and, Bool.false_and]

theorem change_upsert (now : ℕ) (other : RowKey) (created : Bool) :
    Change key db (sent now (.upsertBlob other created))
      ((db.execute now (.upsertBlob other created)).2.namespaceBlobs.find key) := by
  rw [Database.find_execute_upsertBlob]
  by_cases hsame : key = other ∧ other.accepted = true ∧ other.Checked
  · obtain ⟨rfl, haccepted, hchecked⟩ := hsame
    rw [if_pos ⟨rfl, haccepted, hchecked⟩]
    have hused : (sent now (.upsertBlob key created)).uses key = true := by
      simp [uses, haccepted, hchecked]
    exact .uploaded created hused rfl
  · rw [if_neg hsame]
    apply Change.kept
    · rw [uses]
      by_contra hused
      apply hsame
      have hused' : key = other ∧ key.accepted = true ∧ key.Checked := by simpa using hused
      obtain ⟨rfl, haccepted, hchecked⟩ := hused'
      exact ⟨rfl, haccepted, hchecked⟩
    · rfl

/-- Statements on other tables leave the blobs alone. -/
theorem change (event : Timed) : Change key db event ((event.apply db).namespaceBlobs.find key) := by
  cases event with
  | swept now olderThanDays =>
      rcases db.sweep_namespaceBlobs now olderThanDays with hsame | hblobs
      · show Change key db _ ((db.sweep now olderThanDays).2.namespaceBlobs.find key)
        rw [hsame]
        exact .kept rfl rfl
      · show Change key db _ ((db.sweep now olderThanDays).2.namespaceBlobs.find key)
        rw [hblobs key]
        cases hfound : db.namespaceBlobs.find key with
        | none => exact .deleted rfl rfl
        | some row =>
            by_cases hexpired : (!Database.expired now (Database.sweepAge olderThanDays)
                row.createdAt) = true
            · rw [Option.filter_some, if_pos hexpired, ← hfound]
              exact .kept rfl rfl
            · rw [Option.filter_some, if_neg hexpired]
              exact .deleted rfl rfl
  | sent now statement =>
      have hkept : (sent now statement).uses key = false →
          (sent now statement).touches key db = false →
          (db.execute now statement).2.namespaceBlobs = db.namespaceBlobs →
          Change key db (sent now statement)
            ((db.execute now statement).2.namespaceBlobs.find key) := by
        intro hunused hunwritten hsame
        rw [hsame]
        exact .kept hunused hunwritten
      cases statement with
      | touchBlobs ns requested => exact change_touch now ns requested
      | upsertBlob other created => exact change_upsert now other created
      | insertResult other result =>
          apply hkept rfl rfl
          unfold Database.execute Database.perform
          split
          · dsimp only
            split <;> rfl
          · rfl
      | insertManifest other etag manifest =>
          apply hkept rfl rfl
          unfold Database.execute Database.perform
          split
          · dsimp only
            split <;> rfl
          · rfl
      | _ =>
          apply hkept rfl rfl
          unfold Database.execute
          split <;> rfl

/-! ## Runs -/

/-- Where neither the time in the row nor any later event is before a bound, all touches
come more than an hour after it and after each other. -/
theorem touchedAt_spaced (events : List Timed) (hclock : (events.map now).Pairwise (· ≤ ·)) :
    ∀ {db : Database} {bound : ℕ},
      (∀ row, db.namespaceBlobs.find key = some row → bound ≤ row.lastAccessedAt) →
      (∀ event ∈ events, bound ≤ event.now) →
      (∀ time ∈ touchedAt key events db, bound + accessRefreshInterval < time) ∧
        (touchedAt key events db).Pairwise fun first second =>
          first + accessRefreshInterval < second := by
  induction events with
  | nil =>
      intro db bound _ _
      exact ⟨fun time hmem => (List.not_mem_nil hmem).elim, .nil⟩
  | cons event events ih =>
      intro db bound hrow hbound
      rw [List.map_cons, List.pairwise_cons] at hclock
      obtain ⟨hfirst, hclock⟩ := hclock
      have hnow := hbound event List.mem_cons_self
      have hlater : ∀ other ∈ events, event.now ≤ other.now :=
        fun other hother => hfirst other.now (List.mem_map_of_mem hother)
      have hrest : ∀ other ∈ events, bound ≤ other.now :=
        fun other hother => hbound other (List.mem_cons_of_mem event hother)
      have hchange : Change key db event ((event.apply db).namespaceBlobs.find key) := change event
      rw [touchedAt]
      generalize hafter : (event.apply db).namespaceBlobs.find key = after at hchange
      cases hchange with
      | kept unused unwritten =>
          rw [unwritten]
          exact ih hclock (fun row h => hrow row (hafter ▸ h)) hrest
      | deleted unused unwritten =>
          rw [unwritten]
          exact ih hclock (fun row h => by rw [hafter] at h; cases h) hrest
      | recent used unwritten recent =>
          rw [unwritten]
          exact ih hclock (fun row h => hrow row (hafter ▸ h)) hrest
      | uploaded created used unwritten =>
          rw [unwritten]
          apply ih hclock _ hrest
          intro row h
          rw [hafter] at h
          rw [← Option.some.inj h]
          exact hnow
      | touched row used written found old =>
          rw [written, if_pos rfl]
          have hnew : ∀ row', (event.apply db).namespaceBlobs.find key = some row' →
              event.now ≤ row'.lastAccessedAt := by
            intro row' h
            rw [hafter] at h
            rw [← Option.some.inj h]
          obtain ⟨hafterwards, hspaced⟩ := ih hclock hnew hlater
          have hthis : bound + accessRefreshInterval < event.now :=
            Nat.lt_of_le_of_lt (Nat.add_le_add_right (hrow row found) _) old
          apply And.intro
          · intro time hmem
            rcases List.mem_cons.mp hmem with rfl | hothers
            · exact hthis
            · exact Nat.lt_of_le_of_lt (Nat.add_le_add_right hnow _) (hafterwards time hothers)
          · exact List.pairwise_cons.mpr ⟨hafterwards, hspaced⟩

/-- What the times in a row say of the uses of its blob. -/
structure Tells (events : List Timed) (key : RowKey) (row : BlobRow) : Prop where
  created : row.createdAt ≤ row.lastAccessedAt
  used : ∃ time, lastUse key events = some time ∧ row.lastAccessedAt ≤ time ∧
    time ≤ row.lastAccessedAt + accessRefreshInterval

theorem lastUse_concat (events : List Timed) (event : Timed) :
    lastUse key (events ++ [event]) =
      if event.uses key then some event.now else lastUse key events := by
  rw [lastUse, List.filter_append]
  by_cases hused : event.uses key = true
  · simp [hused]
  · simp [hused, lastUse]

theorem lastUse_le {events : List Timed} {event : Timed} {time : ℕ}
    (hclock : ((events ++ [event]).map now).Pairwise (· ≤ ·))
    (h : lastUse key events = some time) : time ≤ event.now := by
  obtain ⟨last, hlast, rfl⟩ := Option.map_eq_some_iff.mp h
  have hmem : last ∈ events := (List.mem_filter.mp (List.mem_of_getLast? hlast)).1
  rw [List.map_append, List.pairwise_append] at hclock
  exact hclock.2.2 last.now (List.mem_map_of_mem hmem) event.now List.mem_cons_self

/-- The step lemma. -/
theorem Tells.step {events : List Timed} {event : Timed}
    (hclock : ((events ++ [event]).map now).Pairwise (· ≤ ·))
    (h : ∀ row, db.namespaceBlobs.find key = some row → Tells events key row) {row : BlobRow}
    (hrow : (event.apply db).namespaceBlobs.find key = some row) :
    Tells (events ++ [event]) key row := by
  have hchange : Change key db event ((event.apply db).namespaceBlobs.find key) := change event
  have hlast : lastUse key (events ++ [event]) =
      if event.uses key then some event.now else lastUse key events := lastUse_concat events event
  rw [hrow] at hchange
  generalize hafter : some row = after at hchange
  cases hchange with
  | kept unused unwritten =>
      rw [unused] at hlast
      obtain ⟨hcreated, time, htime, hbefore, hafter'⟩ := h row hafter.symm
      exact ⟨hcreated, time, hlast.trans htime, hbefore, hafter'⟩
  | deleted unused unwritten => cases hafter
  | recent used unwritten recent =>
      rw [used] at hlast
      obtain ⟨hcreated, time, htime, hbefore, _⟩ := h row hafter.symm
      exact ⟨hcreated, event.now, hlast, hbefore.trans (lastUse_le hclock htime),
        recent row hafter.symm⟩
  | touched old used written found expired =>
      rw [used] at hlast
      obtain rfl := Option.some.inj hafter
      have hcreated := (h old found).created
      refine ⟨?_, event.now, hlast, Nat.le_refl _, Nat.le_add_right _ _⟩
      show old.createdAt ≤ event.now
      omega
  | uploaded created used unwritten =>
      rw [used] at hlast
      obtain rfl := Option.some.inj hafter
      refine ⟨?_, event.now, hlast, Nat.le_refl _, Nat.le_add_right _ _⟩
      show (db.namespaceBlobs.find key).elim event.now _ ≤ event.now
      cases hfound : db.namespaceBlobs.find key with
      | none => exact Nat.le_refl _
      | some old =>
          obtain ⟨hcreated, time, htime, hbefore, _⟩ := h old hfound
          have htime' := lastUse_le hclock htime
          show (if created then event.now else old.createdAt) ≤ event.now
          split
          · exact Nat.le_refl _
          · omega

theorem tells_applyAll (events : List Timed) (hclock : (events.map now).Pairwise (· ≤ ·)) :
    ∀ row, (applyAll events Database.empty).namespaceBlobs.find key = some row →
      Tells events key row := by
  induction events using List.reverseRecOn with
  | nil =>
      intro row h
      cases h
  | append_singleton events event ih =>
      intro row h
      have hearlier : (events.map now).Pairwise (· ≤ ·) := by
        rw [List.map_append] at hclock
        exact (List.pairwise_append.mp hclock).1
      rw [applyAll, List.foldl_append] at h
      exact Tells.step hclock (ih hearlier) h

end Timed

/-- In every run of statements and sweeps whose clock does not go backwards, touches
write one row at times that are more than an hour apart, and the time in a row is at
most an hour behind the last use of its blob and not ahead of it. -/
theorem access_times (events : List Timed) (hclock : (events.map Timed.now).Pairwise (· ≤ ·))
    (key : RowKey) :
    ((Timed.touchedAt key events Database.empty).Pairwise fun first second =>
      first + accessRefreshInterval < second) ∧
    ∀ row, (Timed.applyAll events Database.empty).namespaceBlobs.find key = some row →
      Timed.Tells events key row := by
  apply And.intro
  · have hempty : ∀ row, Database.empty.namespaceBlobs.find key = some row →
        0 ≤ row.lastAccessedAt := fun row _ => Nat.zero_le _
    exact (Timed.touchedAt_spaced events hclock hempty fun event _ => Nat.zero_le _).2
  · exact Timed.tells_applyAll events hclock

/-- A blob is uploaded and read half an hour, an hour and six minutes, and an hour and a
half later. -/
def Timed.readings : List Timed :=
  [sent 0 (.upsertBlob ⟨"acme/app", "blake3", "a", 1⟩ true),
    sent 1800 (.touchBlobs "acme/app" [⟨"blake3", "a", 1⟩]),
    sent 3960 (.touchBlobs "acme/app" [⟨"blake3", "a", 1⟩]),
    sent 5400 (.touchBlobs "acme/app" [⟨"blake3", "a", 1⟩])]

/-- Of these reads one writes the row, which is then behind the last one. -/
theorem access_times_readings :
    Timed.touchedAt ⟨"acme/app", "blake3", "a", 1⟩ Timed.readings Database.empty = [3960] ∧
      Timed.Tells Timed.readings ⟨"acme/app", "blake3", "a", 1⟩ ⟨0, 3960⟩ := by
  have hclock : (Timed.readings.map Timed.now).Pairwise (· ≤ ·) := by decide
  have hrow : (Timed.applyAll Timed.readings Database.empty).namespaceBlobs.find
      ⟨"acme/app", "blake3", "a", 1⟩ = some ⟨0, 3960⟩ := by
    decide +kernel
  apply And.intro
  · decide +kernel
  · exact (access_times Timed.readings hclock ⟨"acme/app", "blake3", "a", 1⟩).2 _ hrow

end MbxCache
