/-
# The S3 store

The service creates an object only under a key that has none. The client library sends
a request again that it got no answer to, and a request that was given up may still be
carried out, at any later time. So a put may be told of an object that it created
itself, and one that failed may create its object afterwards.

Whatever happens, the store is one that the handlers are checked against: every call is
answered as by a store of objects that are put if absent.
-/

import MbxCache.Foundation.Machine
import MbxCache.Foundation.PutIfAbsent
import MbxCache.Sample
import MbxCache.Server.Stores
import MbxCache.Storage.AzureRuns

namespace MbxCache

open Foundation Server

structure S3Store where
  storePrefix : String

namespace S3Store

/-! ## Requests -/

section

variable (digestKey : Digest → String) (store : S3Store)

def key (digest : Digest) : String := store.storePrefix ++ "/blobs/" ++ digestKey digest

/-- Digests the service accepts are spelled differently. -/
def Documented (rules : DigestRules) : Prop :=
  ∀ digest digest', rules.validate digest = true → rules.validate digest' = true →
    digestKey digest = digestKey digest' → digest = digest'

variable {digestKey store}

theorem key_injective {rules : DigestRules} (hkeys : Documented digestKey rules)
    {digest digest' : Digest} (hvalid : rules.validate digest = true)
    (hvalid' : rules.validate digest' = true)
    (h : store.key digestKey digest = store.key digestKey digest') : digest = digest' :=
  hkeys digest digest' hvalid hvalid' ((String.append_right_inj _).mp h)

end

/-- What comes back from a read: an object with the length the service gives, a refusal,
or no answer. -/
inductive GetResponse where
  | object (contentLength : Option Int) (stream : ByteStream)
  | refused (status : ℕ) (noSuchKey : Bool) (error : String)
  | failed (error : String)

def get : GetResponse → Except String (Option Blob)
  | .object (some length) stream =>
      if 0 ≤ length then .ok (some { size := length.toNat, stream })
      else .error "S3 object response is missing content length"
  | .object none _ => .error "S3 object response is missing content length"
  | .refused status noSuchKey error =>
      if noSuchKey || status == 404 then .ok none else .error error
  | .failed error => .error error

/-- How the service answers a read of what is under a key. The stream may break off. -/
inductive Responds : Option Bytes → GetResponse → Prop where
  | object (content : Bytes) (chunks : List Bytes) (sent : chunks.flatten = content) :
      Responds (some content) (.object (some content.length) (chunks.map .ok))
  | cutOff (content : Bytes) (chunks : List Bytes) (error : String)
      (sent : chunks.flatten <+: content) :
      Responds (some content) (.object (some content.length) (chunks.map .ok ++ [.error error]))
  | unmeasured (content : Bytes) (stream : ByteStream) :
      Responds (some content) (.object none stream)
  | absent (status : ℕ) (noSuchKey : Bool) (error : String)
      (either : noSuchKey = true ∨ status = 404) : Responds none (.refused status noSuchKey error)
  | refused (held : Option Bytes) (status : ℕ) (error : String) (other : status ≠ 404) :
      Responds held (.refused status false error)
  | failed (held : Option Bytes) (error : String) : Responds held (.failed error)

/-- A store that cuts one object as it was sent. -/
def chunkingOf (chunks : List Bytes) : Chunking where
  chunks content := if content = chunks.flatten then chunks else [content]
  flatten_chunks := by
    intro content
    split
    · rename_i hcontent
      exact hcontent.symm
    · simp

section

variable {M : Type} {metadata : (op : MetadataOp) → M → op.Answer × M}

/-- A read is answered as one of a store that holds the object. -/
theorem Responds.answers {stores : Stores M} {digest : Digest} {response : GetResponse}
    (h : Responds (stores.blobs digest) response) :
    Stores.Answers metadata (.blobs (.get digest)) stores (get response) stores := by
  generalize hheld : stores.blobs digest = held at h
  cases h with
  | object content chunks sent =>
      have hanswer : (Stores.exec (chunkingOf chunks) metadata (.blobs (.get digest)) stores).1 =
          get (.object (some content.length) (chunks.map .ok)) := by
        have hcut : (chunkingOf chunks).chunks content = chunks := if_pos sent.symm
        show Except.ok ((stores.blobs digest).map (Stores.blobOf (chunkingOf chunks))) = _
        rw [hheld, get, if_pos (Int.natCast_nonneg _), Int.toNat_natCast, Option.map_some,
          Stores.blobOf, hcut]
      rw [← hanswer]
      exact .answered (chunkingOf chunks) _ stores
  | cutOff content chunks error sent =>
      rw [get, if_pos (Int.natCast_nonneg _), Int.toNat_natCast]
      exact .interrupted stores digest content chunks error hheld sent
  | unmeasured content stream => exact .refused _ stores _
  | absent status noSuchKey error either =>
      have hanswer : (Stores.exec .whole metadata (.blobs (.get digest)) stores).1 =
          get (.refused status noSuchKey error) := by
        have hfound : (noSuchKey || status == 404) = true := by simpa using either
        show Except.ok ((stores.blobs digest).map _) = _
        rw [hheld, get, hfound]
        rfl
      rw [← hanswer]
      exact .answered .whole _ stores
  | refused _ status error other =>
      have hother : (false || status == 404) = false := by simpa using other
      rw [get, hother]
      exact .refused _ stores error
  | failed _ error => exact .refused _ stores error

end

/-! ## Puts -/

/-- Where a put stands. The last stage is after its caller has registered the blob. -/
inductive PutStage where
  | sending
  | returned (answer : Except String PutOutcome)
  | registered (outcome : PutOutcome)

/-- A put with the number of its requests that were given up and may still be carried
out, and whether one of its requests created the object. -/
structure PutCall where
  digest : Digest
  source : Bytes
  stage : PutStage
  abandoned : ℕ
  created : Bool

abbrev Objects := String → Option Bytes

/-- What others can tell of a step. -/
inductive Event where
  | put (digest : Digest) (source : Bytes) (answer : Except String PutOutcome)
  | late (digest : Digest) (source : Bytes)
  | get (digest : Digest) (answer : Except String (Option Blob))
  | silent

/-- One step of a put, or of one of its requests that were given up. -/
inductive PutStep (destination : String) (objects : Objects) (call : PutCall) :
    Event → Objects → PutCall → Prop where
  | created (stage : call.stage = .sending) (vacant : objects destination = none) :
      PutStep destination objects call (.put call.digest call.source (.ok .created))
        (Function.update objects destination (some call.source))
        { call with stage := .returned (.ok .created), created := true }
  | occupied (stage : call.stage = .sending) (there : objects destination ≠ none) :
      PutStep destination objects call (.put call.digest call.source (.ok .alreadyExists)) objects
        { call with stage := .returned (.ok .alreadyExists) }
  | sentAgain (stage : call.stage = .sending) :
      PutStep destination objects call .silent objects
        { call with abandoned := call.abandoned + 1 }
  | failed (error : String) (stage : call.stage = .sending) :
      PutStep destination objects call (.put call.digest call.source (.error error)) objects
        { call with stage := .returned (.error error) }
  | arrived (left : ℕ) (late : call.abandoned = left + 1) (vacant : objects destination = none) :
      PutStep destination objects call (.late call.digest call.source)
        (Function.update objects destination (some call.source))
        { call with abandoned := left, created := true }
  | dropped (left : ℕ) (late : call.abandoned = left + 1) :
      PutStep destination objects call .silent objects { call with abandoned := left }
  | registered (outcome : PutOutcome) (stage : call.stage = .returned (.ok outcome)) :
      PutStep destination objects call .silent objects { call with stage := .registered outcome }

/-- What a put knows once it has an answer. -/
def PutCall.Facts (destination : String) (objects : Objects) (call : PutCall) : Prop :=
  ∀ outcome, call.stage = .returned (.ok outcome) ∨ call.stage = .registered outcome →
    objects destination ≠ none ∧ (outcome = .created → call.created = true)

section

variable {destination : String} {objects objects' : Objects} {call call' : PutCall} {event : Event}

theorem PutStep.same (h : PutStep destination objects call event objects' call') :
    call'.digest = call.digest ∧ call'.source = call.source := by
  cases h <;> exact ⟨rfl, rfl⟩

/-- A step leaves the objects alone or creates the one of its put. -/
theorem PutStep.effect (h : PutStep destination objects call event objects' call') :
    (objects' = objects ∧ call'.created = call.created) ∨
      (objects destination = none ∧
        objects' = Function.update objects destination (some call.source) ∧
          call'.created = true) := by
  cases h with
  | created stage vacant => exact .inr ⟨vacant, rfl, rfl⟩
  | arrived left late vacant => exact .inr ⟨vacant, rfl, rfl⟩
  | _ => exact .inl ⟨rfl, rfl⟩

theorem PutStep.putIfAbsent (h : PutStep destination objects call event objects' call') :
    PutIfAbsent.Step objects objects' := by
  rcases h.effect with ⟨rfl, _⟩ | ⟨hvacant, rfl, _⟩
  · exact .idle
  · exact .created destination call.source hvacant

theorem PutStep.created_of_created (h : PutStep destination objects call event objects' call')
    (hcreated : call.created = true) : call'.created = true := by
  rcases h.effect with ⟨_, hsame⟩ | ⟨_, _, hnew⟩
  · exact hsame.trans hcreated
  · exact hnew

theorem PutStep.facts (h : PutStep destination objects call event objects' call')
    (hfacts : call.Facts destination objects) : call'.Facts destination objects' := by
  intro outcome hstage
  cases h with
  | created stage vacant =>
      apply And.intro
      · rw [Function.update_self]
        exact Option.some_ne_none _
      · exact fun _ => rfl
  | occupied stage there =>
      refine ⟨there, ?_⟩
      rintro rfl
      rcases hstage with hstage | hstage <;> cases hstage
  | sentAgain stage =>
      have hsending : call.stage = .returned (.ok outcome) ∨ call.stage = .registered outcome := hstage
      exact hfacts outcome hsending
  | failed error stage => rcases hstage with hstage | hstage <;> cases hstage
  | arrived left late vacant =>
      apply And.intro
      · rw [Function.update_self]
        exact Option.some_ne_none _
      · exact fun _ => rfl
  | dropped left late => exact hfacts outcome hstage
  | registered earlier stage =>
      obtain rfl : earlier = outcome := by
        rcases hstage with hstage | hstage
        · cases hstage
        · exact PutStage.registered.inj hstage
      exact hfacts earlier (.inl stage)

theorem PutCall.Facts.mono (h : call.Facts destination objects)
    (hstep : PutIfAbsent.Step objects objects') : call.Facts destination objects' := by
  intro outcome hstage
  obtain ⟨hthere, hcreated⟩ := h outcome hstage
  obtain ⟨content, hcontent⟩ := Option.ne_none_iff_exists'.mp hthere
  rw [hstep.keeps hcontent]
  exact ⟨Option.some_ne_none content, hcreated⟩

end

/-! ## The system -/

/-- The objects, and every put that was ever called. -/
structure Running where
  objects : Objects
  puts : List PutCall

/-- The digest of a put that created its object. -/
def PutCall.winner (call : PutCall) : Option Digest :=
  if call.created then some call.digest else none

theorem PutCall.winner_eq_some {call : PutCall} {digest : Digest} :
    call.winner = some digest ↔ call.created = true ∧ call.digest = digest := by
  rw [PutCall.winner, Option.ite_none_right_eq_some, Option.some.injEq]

namespace Running

section

variable (digestKey : Digest → String) (store : S3Store) (rules : DigestRules)
  (verified : Digest → Bytes → Prop)

/-- A put is called with a verified source, a put takes a step, or a read is answered. -/
inductive Step (s : Running) : Event → Running → Prop where
  | called (digest : Digest) (source : Bytes) (valid : rules.validate digest = true)
      (checked : verified digest source) :
      Step s .silent { s with puts := s.puts ++ [⟨digest, source, .sending, 0, false⟩] }
  | put (before after : List PutCall) (call call' : PutCall) (event : Event) (objects : Objects)
      (puts : s.puts = before ++ call :: after)
      (taken : PutStep (store.key digestKey call.digest) s.objects call event objects call') :
      Step s event { s with objects, puts := before ++ call' :: after }
  | got (digest : Digest) (response : GetResponse) (valid : rules.validate digest = true)
      (responds : Responds (s.objects (store.key digestKey digest)) response) :
      Step s (.get digest (get response)) s

/-- A bucket in which nothing has been put. -/
def Fresh (objects : Objects) : Prop :=
  ∀ digest, rules.validate digest = true → objects (store.key digestKey digest) = none

/-- The objects by digest. -/
def held (s : Running) (digest : Digest) : Option Bytes :=
  if rules.validate digest then s.objects (store.key digestKey digest) else none

/-- The invariant of all runs. -/
structure Consistent (s : Running) : Prop where
  called : ∀ call ∈ s.puts, rules.validate call.digest = true ∧ verified call.digest call.source
  objects : ∀ digest content, rules.validate digest = true →
    s.objects (store.key digestKey digest) = some content →
      ∃ call ∈ s.puts, call.digest = digest ∧ call.created = true ∧ call.source = content
  reserved : ∀ call ∈ s.puts, call.created = true →
    s.objects (store.key digestKey call.digest) ≠ none
  once : (s.puts.filterMap PutCall.winner).Nodup
  facts : ∀ call ∈ s.puts, call.Facts (store.key digestKey call.digest) s.objects

end

variable {digestKey : Digest → String} {store : S3Store} {rules : DigestRules}
  {verified : Digest → Bytes → Prop} {s t : Running}

theorem held_of_valid {digest : Digest} (hvalid : rules.validate digest = true) :
    s.held digestKey store rules digest = s.objects (store.key digestKey digest) :=
  if_pos hvalid

theorem Consistent.start {objects : Objects} (hfresh : Fresh digestKey store rules objects) :
    Consistent digestKey store rules verified ⟨objects, []⟩ where
  called call hcall := by cases hcall
  objects digest content hvalid hobject := by
    have hnone := hfresh digest hvalid
    cases hnone.symm.trans hobject
  reserved call hcall := by cases hcall
  once := List.nodup_nil
  facts call hcall := by cases hcall

theorem Consistent.called_put (h : Consistent digestKey store rules verified s) {digest : Digest}
    {source : Bytes} (hvalid : rules.validate digest = true) (hverified : verified digest source) :
    Consistent digestKey store rules verified
      { s with puts := s.puts ++ [⟨digest, source, .sending, 0, false⟩] } where
  called call hcall := by
    rcases List.mem_append.mp hcall with hold | hnew
    · exact h.called call hold
    · rw [List.mem_singleton.mp hnew]
      exact ⟨hvalid, hverified⟩
  objects digest' content hvalid' hobject := by
    obtain ⟨call, hcall, hwon⟩ := h.objects digest' content hvalid' hobject
    exact ⟨call, List.mem_append_left _ hcall, hwon⟩
  reserved call hcall hcreated := by
    rcases List.mem_append.mp hcall with hold | hnew
    · exact h.reserved call hold hcreated
    · rw [List.mem_singleton.mp hnew] at hcreated
      cases hcreated
  once := by
    have hnone : [(⟨digest, source, .sending, 0, false⟩ : PutCall)].filterMap PutCall.winner = [] :=
      rfl
    rw [List.filterMap_append, hnone, List.append_nil]
    exact h.once
  facts call hcall := by
    rcases List.mem_append.mp hcall with hold | hnew
    · exact h.facts call hold
    · rw [List.mem_singleton.mp hnew]
      intro outcome hstage
      rcases hstage with hstage | hstage <;> cases hstage

section

variable {before after : List PutCall} {call call' : PutCall} {objects : Objects} {event : Event}
  (h : Consistent digestKey store rules verified s) (hputs : s.puts = before ++ call :: after)

omit h in
include hputs in
theorem mem_moving : call ∈ s.puts := by
  rw [hputs]
  exact List.mem_append_right before List.mem_cons_self

omit h in
include hputs in
theorem mem_puts {other : PutCall} (hother : other ∈ before ++ after) : other ∈ s.puts := by
  rw [hputs]
  exact List.perm_middle.mem_iff.mpr (List.mem_cons_of_mem call hother)

variable (hstep : PutStep (store.key digestKey call.digest) s.objects call event objects call')

include h hputs hstep

theorem Consistent.put_objects (hkeys : Documented digestKey rules) {digest : Digest}
    {content : Bytes} (hvalid : rules.validate digest = true)
    (hobject : objects (store.key digestKey digest) = some content) :
    ∃ put ∈ before ++ call' :: after, put.digest = digest ∧ put.created = true ∧
      put.source = content := by
  obtain ⟨hdigest, hsource⟩ := hstep.same
  have hmoved : call' ∈ before ++ call' :: after :=
    List.mem_append_right before List.mem_cons_self
  by_cases hbefore : s.objects (store.key digestKey digest) = some content
  · obtain ⟨put, hput, hname, hcreated, hcontent⟩ := h.objects digest content hvalid hbefore
    rw [hputs] at hput
    rcases List.mem_cons.mp (List.perm_middle.mem_iff.mp hput) with rfl | hother
    · exact ⟨call', hmoved, hdigest.trans hname, hstep.created_of_created hcreated,
        hsource.trans hcontent⟩
    · exact ⟨put, List.perm_middle.mem_iff.mpr (List.mem_cons_of_mem call' hother), hname,
        hcreated, hcontent⟩
  · rcases hstep.effect with ⟨rfl, _⟩ | ⟨_, rfl, hcreated⟩
    · exact absurd hobject hbefore
    · by_cases hkey : store.key digestKey digest = store.key digestKey call.digest
      · have hname := key_injective hkeys hvalid (h.called call (mem_moving hputs)).1 hkey
        rw [hkey, Function.update_self] at hobject
        exact ⟨call', hmoved, hdigest.trans hname.symm, hcreated,
          hsource.trans (Option.some.inj hobject)⟩
      · rw [Function.update_of_ne hkey] at hobject
        exact absurd hobject hbefore

omit h hputs in
/-- What is under a key is kept. -/
theorem put_present {digest : Digest}
    (hpresent : s.objects (store.key digestKey digest) ≠ none) :
    objects (store.key digestKey digest) ≠ none := by
  obtain ⟨content, hcontent⟩ := Option.ne_none_iff_exists'.mp hpresent
  rw [hstep.putIfAbsent.keeps hcontent]
  exact Option.some_ne_none content

theorem Consistent.put_once : ((before ++ call' :: after).filterMap PutCall.winner).Nodup := by
  have honce := h.once
  rw [hputs] at honce
  apply nodup_moved honce
  intro digest hnew
  obtain ⟨hcreated, hname⟩ := PutCall.winner_eq_some.mp hnew
  rw [hstep.same.1] at hname
  rcases hstep.effect with ⟨_, hsame⟩ | ⟨hvacant, _, _⟩
  · exact .inl (PutCall.winner_eq_some.mpr ⟨hsame ▸ hcreated, hname⟩)
  · apply Or.inr
    intro hmem
    obtain ⟨other, hother, hearlier⟩ := List.mem_filterMap.mp hmem
    rw [← hputs] at hother
    obtain ⟨hfirst, hsame⟩ := PutCall.winner_eq_some.mp hearlier
    apply h.reserved other hother hfirst
    rw [hsame, ← hname, hvacant]

/-- The step lemma for a put. -/
theorem Consistent.put (hkeys : Documented digestKey rules) :
    Consistent digestKey store rules verified
      { s with objects, puts := before ++ call' :: after } where
  called := by
    apply forall_mem_moved
    · exact fun other hother => h.called other (mem_puts hputs hother)
    · obtain ⟨hdigest, hsource⟩ := hstep.same
      rw [hdigest, hsource]
      exact h.called call (mem_moving hputs)
  objects _ _ hvalid hobject := h.put_objects hputs hstep hkeys hvalid hobject
  reserved := by
    apply forall_mem_moved
    · intro other hother hcreated
      exact put_present hstep (h.reserved other (mem_puts hputs hother) hcreated)
    · intro hcreated
      show objects (store.key digestKey call'.digest) ≠ none
      rw [hstep.same.1]
      rcases hstep.effect with ⟨rfl, hsame⟩ | ⟨_, rfl, _⟩
      · exact h.reserved call (mem_moving hputs) (hsame ▸ hcreated)
      · rw [Function.update_self]
        exact Option.some_ne_none _
  once := h.put_once hputs hstep
  facts := by
    apply forall_mem_moved
    · intro other hother
      exact (h.facts other (mem_puts hputs hother)).mono hstep.putIfAbsent
    · show call'.Facts (store.key digestKey call'.digest) objects
      rw [hstep.same.1]
      exact hstep.facts (h.facts call (mem_moving hputs))

end

theorem Consistent.step (hkeys : Documented digestKey rules)
    (h : Consistent digestKey store rules verified s) {event : Event}
    (hstep : Step digestKey store rules verified s event t) :
    Consistent digestKey store rules verified t := by
  cases hstep with
  | called digest source valid checked => exact h.called_put valid checked
  | put before after call call' event objects puts taken => exact h.put puts taken hkeys
  | got digest response valid responds => exact h

/-! ## The store the handlers are checked against -/

section

variable (digestKey store rules)

/-- The store of the service, with the objects as they are. -/
def asStores {M : Type} (s : Running) (m : M) : Stores M where
  blobs := s.held digestKey store rules
  metadata := m

/-- What holds of every state. -/
structure Guaranteed (verified : Digest → Bytes → Prop) (s : Running) : Prop where
  /-- Every object is one that was verified. -/
  checked : ∀ digest content, s.held digestKey store rules digest = some content →
    verified digest content
  /-- A put that was acknowledged has an object, and its own if it says that it created
  it. -/
  answered : ∀ call ∈ s.puts, ∀ outcome,
    call.stage = .returned (.ok outcome) ∨ call.stage = .registered outcome →
      (∃ content, s.held digestKey store rules call.digest = some content) ∧
        (outcome = .created → s.held digestKey store rules call.digest = some call.source)
  /-- Only one put of a digest says so. -/
  once : ∀ before call after, s.puts = before ++ call :: after →
    (call.stage = .returned (.ok .created) ∨ call.stage = .registered .created) →
      ∀ other ∈ before ++ after, other.digest = call.digest → ∀ outcome,
        (other.stage = .returned (.ok outcome) ∨ other.stage = .registered outcome) →
          outcome = .alreadyExists
  /-- Objects are not replaced, also by requests that were given up. -/
  kept : ∀ events t, Machine.Traces (Step digestKey store rules verified) s events t →
    ∀ digest content, s.held digestKey store rules digest = some content →
      t.held digestKey store rules digest = some content

end

theorem Step.putIfAbsent {event : Event} (h : Step digestKey store rules verified s event t) :
    PutIfAbsent.Step s.objects t.objects := by
  cases h with
  | called digest source valid checked => exact .idle
  | put before after call call' event objects puts taken => exact taken.putIfAbsent
  | got digest response valid responds => exact .idle

theorem held_eq_some {digest : Digest} {content : Bytes} :
    s.held digestKey store rules digest = some content ↔
      rules.validate digest = true ∧ s.objects (store.key digestKey digest) = some content := by
  rw [held, Option.ite_none_right_eq_some]

theorem held_keeps (h : PutIfAbsent.Step s.objects t.objects) {digest : Digest} {content : Bytes}
    (hheld : s.held digestKey store rules digest = some content) :
    t.held digestKey store rules digest = some content := by
  obtain ⟨hvalid, hobject⟩ := held_eq_some.mp hheld
  exact held_eq_some.mpr ⟨hvalid, h.keeps hobject⟩

theorem Consistent.held_of_created (h : Consistent digestKey store rules verified s)
    {call : PutCall} (hcall : call ∈ s.puts) (hcreated : call.created = true) :
    s.held digestKey store rules call.digest = some call.source := by
  have hvalid := (h.called call hcall).1
  obtain ⟨content, hcontent⟩ := Option.ne_none_iff_exists'.mp (h.reserved call hcall hcreated)
  obtain ⟨put, hput, hdigest, hfirst, hsource⟩ := h.objects call.digest content hvalid hcontent
  obtain rfl := eq_of_nodup h.once hcall hput (PutCall.winner_eq_some.mpr ⟨hcreated, rfl⟩)
    (PutCall.winner_eq_some.mpr ⟨hfirst, hdigest⟩)
  rw [held_of_valid hvalid, hcontent, hsource]

theorem Consistent.guaranteed (h : Consistent digestKey store rules verified s) :
    Guaranteed digestKey store rules verified s where
  checked digest content hheld := by
    obtain ⟨hvalid, hobject⟩ := held_eq_some.mp hheld
    obtain ⟨call, hcall, rfl, _, rfl⟩ := h.objects digest content hvalid hobject
    exact (h.called call hcall).2
  answered call hcall outcome hstage := by
    obtain ⟨hthere, hcreated⟩ := h.facts call hcall outcome hstage
    obtain ⟨content, hcontent⟩ := Option.ne_none_iff_exists'.mp hthere
    apply And.intro
    · exact ⟨content, held_eq_some.mpr ⟨(h.called call hcall).1, hcontent⟩⟩
    · exact fun hfirst => h.held_of_created hcall (hcreated hfirst)
  once before call after hputs hstage other hother hdigest outcome hanswer := by
    cases outcome with
    | alreadyExists => rfl
    | created =>
        have honce := h.once
        rw [hputs] at honce
        have hfirst := (h.facts call (mem_moving hputs) .created hstage).2 rfl
        have hsecond := (h.facts other (mem_puts hputs hother) .created hanswer).2 rfl
        exact absurd hdigest (ne_of_nodup honce hother
          (PutCall.winner_eq_some.mpr ⟨hfirst, rfl⟩)
          (PutCall.winner_eq_some.mpr ⟨hsecond, rfl⟩))
  kept events t hrun digest content hheld := by
    have hkeeps : ∀ u event v, u.held digestKey store rules digest = some content →
        Step digestKey store rules verified u event v →
          v.held digestKey store rules digest = some content :=
      fun u event v hbefore hstep => held_keeps hstep.putIfAbsent hbefore
    exact Machine.Traces.preserves (S := Running) hkeeps hheld hrun

end Running

section Refines

variable {M : Type} (metadata : (op : MetadataOp) → M → op.Answer × M)

/-- What an event is to a store of objects that are put if absent: a call that was
answered, a put that took effect although its caller was told of a failure, or nothing. -/
def Event.Allowed (stores : Stores M) (event : Event) (later : Stores M) : Prop :=
  match event with
  | .put digest source answer =>
      Stores.Answers metadata (.blobs (.put digest source)) stores answer later
  | .late digest source =>
      ∃ error, Stores.Answers metadata (.blobs (.put digest source)) stores (.error error) later
  | .get digest answer => Stores.Answers metadata (.blobs (.get digest)) stores answer later
  | .silent => later = stores

variable {metadata} {stores : Stores M} {digest : Digest} {source : Bytes}

theorem putObject_of_vacant (h : stores.blobs digest = none) :
    stores.putObject digest source = (.created,
      { stores with blobs := Function.update stores.blobs digest (some source) }) := by
  rw [Stores.putObject, h]

theorem answers_created (h : stores.blobs digest = none) :
    Stores.Answers metadata (.blobs (.put digest source)) stores (.ok .created)
      { stores with blobs := Function.update stores.blobs digest (some source) } := by
  have hanswered : Stores.Answers metadata (.blobs (.put digest source)) stores
      (.ok (stores.putObject digest source).1) (stores.putObject digest source).2 :=
    .answered .whole _ stores
  rwa [putObject_of_vacant h] at hanswered

theorem answers_late (h : stores.blobs digest = none) (error : String) :
    Stores.Answers metadata (.blobs (.put digest source)) stores (.error error)
      { stores with blobs := Function.update stores.blobs digest (some source) } := by
  have hlost : Stores.Answers metadata (.blobs (.put digest source)) stores (.error error)
      (stores.putObject digest source).2 := .lost _ stores error
  rwa [putObject_of_vacant h] at hlost

theorem answers_occupied (h : stores.blobs digest ≠ none) :
    Stores.Answers metadata (.blobs (.put digest source)) stores (.ok .alreadyExists) stores := by
  obtain ⟨content, hcontent⟩ := Option.ne_none_iff_exists'.mp h
  have hanswered : Stores.Answers metadata (.blobs (.put digest source)) stores
      (.ok (stores.putObject digest source).1) (stores.putObject digest source).2 :=
    .answered .whole _ stores
  have hsame : stores.putObject digest source = (.alreadyExists, stores) := by
    rw [Stores.putObject, hcontent]
  rwa [hsame] at hanswered

namespace Running

variable {digestKey : Digest → String} {store : S3Store} {rules : DigestRules}
  {verified : Digest → Bytes → Prop} {s t : Running} {m : M}

/-- Creating an object under its key creates it under its digest. -/
theorem asStores_update (hkeys : Documented digestKey rules) (hvalid : rules.validate digest = true)
    (puts : List PutCall) :
    asStores digestKey store rules
      ⟨Function.update s.objects (store.key digestKey digest) (some source), puts⟩ m =
      { s.asStores digestKey store rules m with
        blobs := Function.update (s.held digestKey store rules) digest (some source) } := by
  have hblobs : held digestKey store rules
      ⟨Function.update s.objects (store.key digestKey digest) (some source), puts⟩ =
        Function.update (s.held digestKey store rules) digest (some source) := by
    funext other
    by_cases hother : other = digest
    · subst hother
      rw [Function.update_self, held_of_valid hvalid]
      exact Function.update_self ..
    · rw [Function.update_of_ne hother]
      by_cases hother' : rules.validate other = true
      · rw [held_of_valid hother', held_of_valid hother']
        exact Function.update_of_ne
          (fun hkey => hother (key_injective hkeys hother' hvalid hkey)) ..
      · rw [held, held, if_neg hother', if_neg hother']
  rw [asStores, hblobs]
  rfl

/-- Every step is a call of the store the handlers are checked against, or none. -/
theorem Step.allowed (hkeys : Documented digestKey rules)
    (h : Consistent digestKey store rules verified s) {event : Event}
    (hstep : Step digestKey store rules verified s event t) :
    event.Allowed metadata (s.asStores digestKey store rules m) (t.asStores digestKey store rules m) := by
  cases hstep with
  | called digest source valid checked => rfl
  | got digest response valid responds =>
      rw [← held_of_valid valid] at responds
      exact responds.answers
  | put before after call call' event objects puts taken =>
      have hvalid := (h.called call (mem_moving puts)).1
      have hheld : s.held digestKey store rules call.digest =
          s.objects (store.key digestKey call.digest) := held_of_valid hvalid
      cases taken with
      | created stage vacant =>
          rw [asStores_update hkeys hvalid]
          exact answers_created (hheld.trans vacant)
      | occupied stage there => exact answers_occupied fun hnone => there (hheld.symm.trans hnone)
      | sentAgain stage => rfl
      | failed error stage => exact .refused _ _ error
      | arrived left late vacant =>
          rw [asStores_update hkeys hvalid]
          exact ⟨"", answers_late (hheld.trans vacant) ""⟩
      | dropped left late => rfl
      | registered outcome stage => rfl

end Running

end Refines

/-- The store keeps what the handlers rely on. In every run, with requests that are sent
again or arrive late, its calls are answered as by a store of objects that are put if
absent; what is stored was verified and stays, and one put of a digest at most says that
it created the object. -/
theorem s3_refines {M : Type} {metadata : (op : MetadataOp) → M → op.Answer × M}
    {digestKey : Digest → String} {rules : DigestRules} (hkeys : Documented digestKey rules)
    (store : S3Store) (verified : Digest → Bytes → Prop) {objects : Objects}
    (hfresh : Running.Fresh digestKey store rules objects) (m : M) {events : List Event}
    {s : Running}
    (hrun : Machine.Traces (Running.Step digestKey store rules verified) ⟨objects, []⟩ events s) :
    Machine.Traces (Event.Allowed metadata) ⟨fun _ => none, m⟩ events
      (s.asStores digestKey store rules m) ∧
    s.Guaranteed digestKey store rules verified := by
  have hstart : Running.Consistent digestKey store rules verified ⟨objects, []⟩ := .start hfresh
  have hstep : ∀ s event t, Running.Consistent digestKey store rules verified s →
      Running.Step digestKey store rules verified s event t →
        Running.Consistent digestKey store rules verified t :=
    fun s event t h hstep => h.step hkeys hstep
  have hempty : Running.asStores digestKey store rules ⟨objects, []⟩ m = ⟨fun _ => none, m⟩ := by
    have hnone : Running.held digestKey store rules ⟨objects, []⟩ = fun _ => none := by
      funext digest
      by_cases hvalid : rules.validate digest = true
      · exact (Running.held_of_valid hvalid).trans (hfresh digest hvalid)
      · exact if_neg hvalid
    rw [Running.asStores, hnone]
  apply And.intro
  · rw [← hempty]
    exact hrun.refines hstep (fun s event t h taken => taken.allowed hkeys h) hstart
  · exact (hrun.preserves hstep hstart).guaranteed

section

variable {digestKey : Digest → String} {store : S3Store} {rules : DigestRules}
  {verified : Digest → Bytes → Prop}

theorem traces_alone {init : Running} {events : List Event} {objects objects' : Objects}
    {call call' : PutCall} {event : Event}
    (h : Machine.Traces (Running.Step digestKey store rules verified) init events ⟨objects, [call]⟩)
    (hstep : PutStep (store.key digestKey call.digest) objects call event objects' call') :
    Machine.Traces (Running.Step digestKey store rules verified) init (events ++ [event])
      ⟨objects', [call']⟩ :=
  h.step (.put [] [] call call' event objects' rfl hstep)

/-- A put whose request is sent again and then arrives twice is told of its own object. -/
theorem traces_sentAgain {digest : Digest} {source : Bytes} (hvalid : rules.validate digest = true)
    (hverified : verified digest source) :
    Machine.Traces (Running.Step digestKey store rules verified) ⟨fun _ => none, []⟩
      [.silent, .silent, .late digest source, .put digest source (.ok .alreadyExists), .silent]
      ⟨Function.update (fun _ => none) (store.key digestKey digest) (some source),
        [⟨digest, source, .registered .alreadyExists, 0, true⟩]⟩ := by
  have hstart : Machine.Traces (Running.Step digestKey store rules verified) ⟨fun _ => none, []⟩ []
      ⟨fun _ => none, []⟩ := .start
  have hcalled := hstart.step (.called digest source hvalid hverified)
  have hsent := traces_alone hcalled (.sentAgain rfl)
  have harrived := traces_alone hsent (.arrived 0 rfl rfl)
  have hthere : Function.update (fun _ => none : Objects) (store.key digestKey digest)
      (some source) (store.key digestKey digest) ≠ none := by
    rw [Function.update_self]
    exact Option.some_ne_none source
  have hanswered := traces_alone harrived (.occupied rfl hthere)
  exact traces_alone hanswered (.registered .alreadyExists rfl)

end

theorem documented_spelled : Documented AzureStore.spelledNames.digestKey Sample.digestRules := by
  intro digest digest' hvalid hvalid' hkey
  apply AzureStore.documented_spelled.digest ⟨""⟩ digest digest' hvalid hvalid'
  rw [AzureStore.key, AzureStore.key, hkey]

/-- A directory that was put by a request that was given up is there, and its put is told
that it is. -/
theorem s3_refines_sentAgain : ∃ s : Running,
    Machine.Traces (Event.Allowed (MemoryMetadata.exec Sample.crates))
      ⟨fun _ => none, MemoryMetadata.empty⟩
      [.silent, .silent, .late Sample.directoryDigest Sample.directoryText,
        .put Sample.directoryDigest Sample.directoryText (.ok .alreadyExists), .silent]
      (s.asStores AzureStore.spelledNames.digestKey ⟨"v1"⟩ Sample.digestRules
        MemoryMetadata.empty) ∧
      s.Guaranteed AzureStore.spelledNames.digestKey ⟨"v1"⟩ Sample.digestRules
        Sample.crates.Matches := by
  have hvalid : Sample.digestRules.validate Sample.directoryDigest = true := by
    decide +kernel
  have hmatches : Sample.crates.Matches Sample.directoryDigest Sample.directoryText :=
    ⟨by decide +kernel, .blake3, by decide +kernel, by decide +kernel⟩
  exact ⟨_, s3_refines documented_spelled ⟨"v1"⟩ Sample.crates.Matches (fun _ _ => rfl)
    MemoryMetadata.empty (traces_sentAgain hvalid hmatches)⟩

end S3Store

end MbxCache
