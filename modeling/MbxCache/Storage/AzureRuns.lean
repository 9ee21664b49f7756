/-
# The Azure store over whole runs

One put creates the destination of a digest, and the service fills it from that put's
staging object, which nobody else writes to. So a destination that can be read holds
the source of that put, and it is read before any put returns, by the put that
created it as by all that came too late.
-/

import MbxCache.Sample
import MbxCache.Server.Namespaces
import MbxCache.Storage.Azure

namespace MbxCache.AzureStore

open Foundation

variable {Path : Type} {names : ObjectNames Path} {store : AzureStore} {rules : DigestRules}

/-- The digest of a put that created its destination. -/
def PutCall.winner (call : PutCall Path) : Option Digest :=
  if call.accepted then some call.digest else none

theorem PutCall.winner_eq_some {call : PutCall Path} {digest : Digest} :
    call.winner = some digest ↔ call.accepted = true ∧ call.digest = digest := by
  rw [PutCall.winner, Option.ite_none_right_eq_some, Option.some.injEq]

/-- Nothing is left of the staging object, unless it was copied from or could not be
deleted. -/
def PutCall.Cleaned (blobs : Objects Path) (call : PutCall Path) : Prop :=
  call.accepted = true ∨ call.deleteFailed = true ∨
    ∀ upload, call.upload = some upload → blobs upload = none

/-- The destination can be read, and a put that says that it created it did. -/
structure PutCall.Answered (destination : Path) (blobs : Objects Path) (call : PutCall Path)
    (outcome : PutOutcome) : Prop where
  committed : ∃ content, blobs destination = some (.committed content)
  created : outcome = .created → call.accepted = true
  cleaned : call.Cleaned blobs

/-- What is known of a put at each of its stages. -/
def PutCall.Facts (destination : Path) (blobs : Objects Path) (call : PutCall Path) : Prop :=
  match call.stage with
  | .starting => call.upload = none
  | .copying upload => call.upload = some upload ∧ blobs upload = none
  | .written upload | .losing upload | .failing upload _ => call.upload = some upload
  | .waiting outcome _ => call.digest.size ≠ 0 ∧ (outcome = .created → call.accepted = true) ∧
      call.Cleaned blobs
  | .returned (.error _) => call.Cleaned blobs
  | .returned (.ok outcome) | .registered outcome => call.Answered destination blobs outcome

theorem PutCall.Facts.own {destination : Path} {blobs : Objects Path} {call : PutCall Path}
    (h : call.Facts destination blobs) {upload : Path}
    (hstage : call.stage.upload = some upload) : call.upload = some upload := by
  unfold PutCall.Facts at h
  unfold PutStage.upload at hstage
  split at hstage
  case h_1 held hcopying =>
    rw [hcopying] at h
    exact h.1.trans hstage
  case h_2 held hwritten =>
    rw [hwritten] at h
    exact h.trans hstage
  case h_3 held hlosing =>
    rw [hlosing] at h
    exact h.trans hstage
  case h_4 held error hfailing =>
    rw [hfailing] at h
    exact h.trans hstage
  case h_5 => cases hstage

/-- Facts about a put outlast changes elsewhere. -/
theorem PutCall.Facts.mono {destination : Path} {blobs blobs' : Objects Path}
    {call : PutCall Path} (h : call.Facts destination blobs)
    (habsent : ∀ upload, call.upload = some upload → blobs upload = none → blobs' upload = none)
    (hpresent : ∀ content, blobs destination = some (.committed content) →
      blobs' destination = some (.committed content)) : call.Facts destination blobs' := by
  have hcleaned : call.Cleaned blobs → call.Cleaned blobs' := by
    rintro (haccepted | hfailed | hnone)
    · exact .inl haccepted
    · exact .inr (.inl hfailed)
    · exact .inr (.inr fun upload hmine => habsent upload hmine (hnone upload hmine))
  have hanswered : ∀ outcome, call.Answered destination blobs outcome →
      call.Answered destination blobs' outcome := by
    intro outcome hans
    obtain ⟨content, hcommitted⟩ := hans.committed
    exact ⟨⟨content, hpresent content hcommitted⟩, hans.created, hcleaned hans.cleaned⟩
  unfold PutCall.Facts at h ⊢
  split
  case h_1 hstage =>
    rw [hstage] at h
    exact h
  case h_2 upload hstage =>
    rw [hstage] at h
    exact ⟨h.1, habsent upload h.1 h.2⟩
  case h_3 upload hstage =>
    rw [hstage] at h
    exact h
  case h_4 upload hstage =>
    rw [hstage] at h
    exact h
  case h_5 upload error hstage =>
    rw [hstage] at h
    exact h
  case h_6 outcome polls hstage =>
    rw [hstage] at h
    exact ⟨h.1, h.2.1, hcleaned h.2.2⟩
  case h_7 error hstage =>
    rw [hstage] at h
    exact hcleaned h
  case h_8 outcome hstage =>
    rw [hstage] at h
    exact hanswered outcome h
  case h_9 outcome hstage =>
    rw [hstage] at h
    exact hanswered outcome h

namespace Running

variable (names store rules)

/-- The source of the put that created the destination of a digest. -/
def Won (s : Running Path) (digest : Digest) (content : Bytes) : Prop :=
  ∃ put ∈ s.puts, put.digest = digest ∧ put.accepted = true ∧ put.source = content

/-- The invariant of all runs. -/
structure Consistent (s : Running Path) : Prop where
  distinct : (s.puts.filterMap PutCall.upload).Nodup
  called : ∀ call ∈ s.puts, rules.validate call.digest = true ∧
    call.source.length = call.digest.size.toNat
  staged : ∀ call ∈ s.puts, ∀ upload, call.upload = some upload →
    call.digest.size ≠ 0 ∧ (∃ uuid, upload = uploadKey names store uuid) ∧
      ∀ blob, s.blobs upload = some blob → blob = .committed call.source
  objects : ∀ digest blob, rules.validate digest = true →
    s.blobs (key names store digest) = some blob → ∃ call ∈ s.puts, call.digest = digest ∧
      call.accepted = true ∧ (blob = .committed call.source ∨
        ∃ upload, call.upload = some upload ∧ blob = .pending upload)
  reserved : ∀ call ∈ s.puts, call.accepted = true →
    s.blobs (key names store call.digest) ≠ none
  once : (s.puts.filterMap PutCall.winner).Nodup
  facts : ∀ call ∈ s.puts, call.Facts (key names store call.digest) s.blobs

variable {names store rules} [DecidableEq Path]

section

variable {s : Running Path} {before after : List (PutCall Path)} {call call' : PutCall Path}
  {blobs : Objects Path} (h : Consistent names store rules s)
  (hputs : s.puts = before ++ call :: after)

omit h [DecidableEq Path] in
include hputs in
theorem mem_moving : call ∈ s.puts := by
  rw [hputs]
  exact List.mem_append_right before List.mem_cons_self

omit h [DecidableEq Path] in
include hputs in
theorem mem_puts {other : PutCall Path} (hother : other ∈ before ++ after) : other ∈ s.puts := by
  rw [hputs]
  exact List.perm_middle.mem_iff.mpr (List.mem_cons_of_mem call hother)

/-! ## A put takes a step -/

variable (hnames : Documented names rules)
  (hstep : PutStep (key names store call.digest) (s.Staging names store) s.blobs call blobs call')

include h hputs hstep

theorem Consistent.effect :
    Effect (key names store call.digest) (s.Staging names store) s.blobs call blobs call' := by
  have hfacts := h.facts call (mem_moving hputs)
  apply hstep.effect
  · intro upload hstage
    exact hfacts.own hstage
  · intro hstage
    rw [PutCall.Facts, hstage] at hfacts
    exact hfacts

include hnames

/-- What is at a destination stays as it is. -/
theorem Consistent.keeps_object {digest : Digest} {blob : Blob Path}
    (hblob : s.blobs (key names store digest) = some blob) :
    blobs (key names store digest) = some blob := by
  cases h.effect hputs hstep with
  | idle _ same accepted => exact hblob
  | chosen _ upload size fresh vacant first mine accepted => exact hblob
  | staged _ upload left mine content same accepted =>
      obtain ⟨-, ⟨uuid, rfl⟩, -⟩ := h.staged call (mem_moving hputs) upload mine
      rw [Function.update_of_ne (hnames.upload store digest uuid), hblob]
  | created _ left vacant content same accepted =>
      rw [Function.update_of_ne, hblob]
      intro hsame
      rw [hsame, vacant] at hblob
      cases hblob

/-- The staging objects of others stay as they are. -/
theorem Consistent.keeps_upload {other : PutCall Path} (hother : other ∈ before ++ after)
    {upload : Path} (hupload : other.upload = some upload) : blobs upload = s.blobs upload := by
  cases h.effect hputs hstep with
  | idle _ same accepted => rfl
  | chosen _ chosen size fresh vacant first mine accepted => rfl
  | staged _ staged left mine content same accepted =>
      have hdistinct := h.distinct
      rw [hputs] at hdistinct
      rw [Function.update_of_ne (ne_of_nodup hdistinct hother mine hupload)]
  | created _ left vacant content same accepted =>
      obtain ⟨-, ⟨uuid, rfl⟩, -⟩ := h.staged other (mem_puts hputs hother) upload hupload
      rw [Function.update_of_ne (hnames.upload store call.digest uuid).symm]

omit hnames in
theorem Consistent.put_distinct :
    ((before ++ call' :: after).filterMap PutCall.upload).Nodup := by
  have hdistinct := h.distinct
  rw [hputs] at hdistinct
  apply nodup_moved hdistinct
  intro upload hnew
  cases h.effect hputs hstep with
  | idle _ same accepted => exact .inl (same ▸ hnew)
  | chosen _ chosen size fresh vacant first mine accepted =>
      apply Or.inr
      intro hmem
      obtain ⟨other, hother, hupload⟩ := List.mem_filterMap.mp hmem
      rw [← hputs] at hother
      apply fresh.2 other hother
      rw [hupload, ← hnew, mine]
  | staged _ staged left mine content same accepted => exact .inl (same ▸ hnew)
  | created _ left vacant content same accepted => exact .inl (same ▸ hnew)

theorem Consistent.put_staged {upload : Path} (hupload : call'.upload = some upload) :
    call'.digest.size ≠ 0 ∧ (∃ uuid, upload = uploadKey names store uuid) ∧
      ∀ blob, blobs upload = some blob → blob = .committed call'.source := by
  obtain ⟨hdigest, hsource⟩ := hstep.same
  have hold := h.staged call (mem_moving hputs) upload
  rw [hdigest, hsource]
  cases h.effect hputs hstep with
  | idle _ same accepted => exact hold (same ▸ hupload)
  | chosen _ chosen size fresh vacant first mine accepted =>
      obtain rfl : chosen = upload := Option.some.inj (mine.symm.trans hupload)
      refine ⟨size, fresh.1, fun blob hblob => ?_⟩
      rw [vacant] at hblob
      cases hblob
  | staged _ staged left mine content same accepted =>
      obtain ⟨hsize, huuid, -⟩ := hold (same ▸ hupload)
      refine ⟨hsize, huuid, fun blob hblob => ?_⟩
      obtain rfl : upload = staged := Option.some.inj ((same ▸ hupload).symm.trans mine)
      rw [Function.update_self] at hblob
      obtain hnone | hcommitted := content
      · rw [hnone] at hblob
        cases hblob
      · rw [hcommitted] at hblob
        exact (Option.some.inj hblob).symm
  | created _ left vacant content same accepted =>
      obtain ⟨hsize, ⟨uuid, rfl⟩, hblobs⟩ := hold (same ▸ hupload)
      refine ⟨hsize, ⟨uuid, rfl⟩, fun blob hblob => hblobs blob ?_⟩
      rwa [Function.update_of_ne (hnames.upload store call.digest uuid).symm] at hblob

theorem Consistent.put_objects {digest : Digest} {blob : Blob Path}
    (hvalid : rules.validate digest = true) (hblob : blobs (key names store digest) = some blob) :
    ∃ put ∈ before ++ call' :: after, put.digest = digest ∧ put.accepted = true ∧
      (blob = .committed put.source ∨
        ∃ upload, put.upload = some upload ∧ blob = .pending upload) := by
  obtain ⟨hdigest, hsource⟩ := hstep.same
  have hkept : (∀ upload, call.upload = some upload → call'.upload = some upload) →
      call'.accepted = call.accepted → s.blobs (key names store digest) = some blob →
      ∃ put ∈ before ++ call' :: after, put.digest = digest ∧ put.accepted = true ∧
        (blob = .committed put.source ∨
          ∃ upload, put.upload = some upload ∧ blob = .pending upload) := by
    intro hupload haccepted hbefore
    obtain ⟨put, hput, hname, hwinner, hcontent⟩ := h.objects digest blob hvalid hbefore
    rw [hputs] at hput
    obtain rfl | hother := List.mem_cons.mp (List.perm_middle.mem_iff.mp hput)
    · refine ⟨call', List.mem_append_right before List.mem_cons_self, hdigest.trans hname,
        haccepted.trans hwinner, ?_⟩
      rw [hsource]
      apply hcontent.imp_right
      rintro ⟨upload, hmine, hpending⟩
      exact ⟨upload, hupload upload hmine, hpending⟩
    · exact ⟨put, List.perm_middle.mem_iff.mpr (List.mem_cons_of_mem call' hother), hname, hwinner,
        hcontent⟩
  cases h.effect hputs hstep with
  | idle _ same accepted => exact hkept (fun _ hmine => same.trans hmine) accepted hblob
  | chosen _ upload size fresh vacant first mine accepted =>
      refine hkept (fun other hmine => ?_) accepted hblob
      rw [first] at hmine
      cases hmine
  | staged _ upload left mine content same accepted =>
      obtain ⟨-, ⟨uuid, rfl⟩, -⟩ := h.staged call (mem_moving hputs) upload mine
      rw [Function.update_of_ne (hnames.upload store digest uuid)] at hblob
      exact hkept (fun _ hmine => same.trans hmine) accepted hblob
  | created _ left vacant content same accepted =>
      obtain ⟨hcalled, hdeclared⟩ := h.called call (mem_moving hputs)
      by_cases hname : digest = call.digest
      · rw [hname, Function.update_self] at hblob
        obtain rfl := Option.some.inj hblob
        refine ⟨call', List.mem_append_right before List.mem_cons_self, hdigest.trans hname.symm,
          accepted, ?_⟩
        obtain ⟨hsize, rfl⟩ | ⟨upload, hmine, rfl⟩ := content
        · apply Or.inl
          rw [hsize] at hdeclared
          rw [hsource, List.length_eq_zero_iff.mp hdeclared]
        · exact .inr ⟨upload, same.trans hmine, rfl⟩
      · have hkey : key names store digest ≠ key names store call.digest := fun hsame =>
          hname (hnames.digest store digest call.digest hvalid hcalled hsame)
        rw [Function.update_of_ne hkey] at hblob
        obtain ⟨put, hput, hother, hwinner, hcontent⟩ := h.objects digest blob hvalid hblob
        rw [hputs] at hput
        obtain rfl | hput := List.mem_cons.mp (List.perm_middle.mem_iff.mp hput)
        · exact absurd hother.symm hname
        · exact ⟨put, List.perm_middle.mem_iff.mpr (List.mem_cons_of_mem call' hput), hother,
            hwinner, hcontent⟩

theorem Consistent.put_reserved (haccepted : call'.accepted = true) :
    blobs (key names store call'.digest) ≠ none := by
  rw [hstep.same.1]
  have hkept : call.accepted = true → blobs (key names store call.digest) ≠ none := by
    intro hbefore
    obtain ⟨blob, hblob⟩ :=
      Option.ne_none_iff_exists'.mp (h.reserved call (mem_moving hputs) hbefore)
    rw [h.keeps_object hputs hnames hstep hblob]
    exact Option.some_ne_none blob
  cases h.effect hputs hstep with
  | idle _ same accepted => exact hkept (accepted ▸ haccepted)
  | chosen _ upload size fresh vacant first mine accepted => exact hkept (accepted ▸ haccepted)
  | staged _ upload left mine content same accepted => exact hkept (accepted ▸ haccepted)
  | created _ left vacant content same accepted =>
      rw [Function.update_self]
      exact Option.some_ne_none left

omit hnames in
theorem Consistent.put_once :
    ((before ++ call' :: after).filterMap PutCall.winner).Nodup := by
  have honce := h.once
  rw [hputs] at honce
  apply nodup_moved honce
  intro digest hnew
  obtain ⟨hwinner, hdigest⟩ := PutCall.winner_eq_some.mp hnew
  rw [hstep.same.1] at hdigest
  have hkept : call'.accepted = call.accepted → call.winner = some digest := fun haccepted =>
    PutCall.winner_eq_some.mpr ⟨haccepted ▸ hwinner, hdigest⟩
  cases h.effect hputs hstep with
  | idle _ same accepted => exact .inl (hkept accepted)
  | chosen _ upload size fresh vacant first mine accepted => exact .inl (hkept accepted)
  | staged _ upload left mine content same accepted => exact .inl (hkept accepted)
  | created _ left vacant content same accepted =>
      apply Or.inr
      intro hmem
      obtain ⟨other, hother, hearlier⟩ := List.mem_filterMap.mp hmem
      rw [← hputs] at hother
      obtain ⟨hfirst, hname⟩ := PutCall.winner_eq_some.mp hearlier
      apply h.reserved other hother hfirst
      rw [hname, ← hdigest, vacant]

omit hnames in
/-- The put itself: the stages one after another. -/
theorem Consistent.put_facts : call'.Facts (key names store call'.digest) blobs := by
  have hmem := mem_moving hputs
  have hfacts := h.facts call hmem
  have hstaged := h.staged call hmem
  rw [hstep.same.1]
  unfold PutCall.Facts at hfacts
  cases hstep with
  | emptyCreated size stage vacant =>
      exact ⟨⟨[], Function.update_self ..⟩, fun _ => rfl, .inl rfl⟩
  | emptyExists size stage there =>
      rw [stage] at hfacts
      obtain ⟨blob, hblob⟩ := Option.ne_none_iff_exists'.mp there
      obtain ⟨put, hput, hdigest, -, hcontent⟩ :=
        h.objects call.digest blob (h.called call hmem).1 hblob
      obtain rfl | ⟨upload, hmine, rfl⟩ := hcontent
      · refine ⟨⟨put.source, hblob⟩, nofun, .inr (.inr fun upload hmine => ?_)⟩
        exact nomatch hfacts.symm.trans hmine
      · exact absurd (hdigest ▸ size) (h.staged put hput upload hmine).1
  | emptyLost error size stage vacant => exact .inl rfl
  | failed error early =>
      apply Or.inr
      apply Or.inr
      intro upload hmine
      obtain hstage | ⟨copying, hstage⟩ := early
      · rw [hstage] at hfacts
        exact nomatch hfacts.symm.trans hmine
      · rw [hstage] at hfacts
        obtain rfl : copying = upload := Option.some.inj (hfacts.1.symm.trans hmine)
        exact hfacts.2
  | opened upload size stage fresh vacant => exact ⟨rfl, vacant⟩
  | shutdown upload stage =>
      rw [stage] at hfacts
      exact hfacts.1
  | shutdownFailed upload error left stage effect =>
      rw [stage] at hfacts
      exact hfacts.1
  | accepted upload stage vacant =>
      rw [stage] at hfacts
      exact ⟨(hstaged upload hfacts).1, fun _ => rfl, .inl rfl⟩
  | occupied upload stage there =>
      rw [stage] at hfacts
      exact hfacts
  | copyFailed upload error stage =>
      rw [stage] at hfacts
      exact hfacts
  | copyLost upload error stage vacant =>
      rw [stage] at hfacts
      exact hfacts
  | deleted upload next stage =>
      have hcleaned : ∀ stage, PutCall.Cleaned (Function.update s.blobs upload none)
          { call with stage } := by
        intro stage'
        apply Or.inr
        apply Or.inr
        intro other hother
        have hown := (h.facts call hmem).own (PutStage.upload_of_afterDelete stage)
        rw [Option.some.inj (hother.symm.trans hown), Function.update_self]
      have hown := (h.facts call hmem).own (PutStage.upload_of_afterDelete stage)
      unfold PutStage.afterDelete at stage
      split at stage
      · cases stage
        exact ⟨(hstaged upload hown).1, nofun, hcleaned _⟩
      · cases stage
        exact hcleaned _
      · cases stage
  | deleteFailed upload next left stage effect =>
      have hown := (h.facts call hmem).own (PutStage.upload_of_afterDelete stage)
      unfold PutStage.afterDelete at stage
      split at stage
      · cases stage
        exact ⟨(hstaged upload hown).1, nofun, .inr (.inl rfl)⟩
      · cases stage
        exact .inr (.inl rfl)
      · cases stage
  | readable outcome polls blob content stage more there read =>
      rw [stage] at hfacts
      obtain ⟨held, rfl⟩ := Blob.committed_of_getRange read
      exact ⟨⟨held, there⟩, hfacts.2.1, hfacts.2.2⟩
  | unreadable outcome polls stage more =>
      rw [stage] at hfacts
      exact hfacts
  | gaveUp outcome error stage =>
      rw [stage] at hfacts
      exact hfacts.2.2
  | registered outcome stage =>
      rw [stage] at hfacts
      exact ⟨hfacts.committed, hfacts.created, hfacts.cleaned⟩

/-- The step lemma for a put. -/
theorem Consistent.put :
    Consistent names store rules { s with blobs, puts := before ++ call' :: after } where
  distinct := h.put_distinct hputs hstep
  called := by
    apply forall_mem_moved
    · intro other hother
      exact h.called other (mem_puts hputs hother)
    · obtain ⟨hdigest, hsource⟩ := hstep.same
      rw [hdigest, hsource]
      exact h.called call (mem_moving hputs)
  staged := by
    apply forall_mem_moved
    · intro other hother upload hupload
      show _ ∧ _ ∧ ∀ blob, blobs upload = some blob → _
      rw [h.keeps_upload hputs hnames hstep hother hupload]
      exact h.staged other (mem_puts hputs hother) upload hupload
    · intro upload hupload
      exact h.put_staged hputs hnames hstep hupload
  objects _ _ hvalid hblob := h.put_objects hputs hnames hstep hvalid hblob
  reserved := by
    apply forall_mem_moved
    · intro other hother haccepted
      obtain ⟨blob, hblob⟩ :=
        Option.ne_none_iff_exists'.mp (h.reserved other (mem_puts hputs hother) haccepted)
      show blobs _ ≠ none
      rw [h.keeps_object hputs hnames hstep hblob]
      exact Option.some_ne_none blob
    · exact h.put_reserved hputs hnames hstep
  once := h.put_once hputs hstep
  facts := by
    apply forall_mem_moved
    · intro other hother
      apply (h.facts other (mem_puts hputs hother)).mono
      · intro upload hupload hnone
        exact (h.keeps_upload hputs hnames hstep hother hupload).trans hnone
      · intro content hcontent
        exact h.keeps_object hputs hnames hstep hcontent
    · exact h.put_facts hputs hstep

end

/-! ## The service moves -/

variable {s t : Running Path}

/-- A copy ends: the object is the source of the put whose staging object was copied. -/
theorem Consistent.completed (h : Consistent names store rules s) {destination upload : Path}
    {content : Bytes} (hpending : s.blobs destination = some (.pending upload))
    (hstaged : s.blobs upload = some (.committed content)) :
    Consistent names store rules
      { s with blobs := Function.update s.blobs destination (some (.committed content)) } := by
  have hother : ∀ call ∈ s.puts, ∀ mine, call.upload = some mine → mine ≠ destination := by
    rintro call hcall mine hmine rfl
    cases (h.staged call hcall mine hmine).2.2 _ hpending
  refine ⟨h.distinct, h.called, ?_, ?_, ?_, h.once, ?_⟩
  · intro call hcall mine hmine
    show _ ∧ _ ∧ ∀ blob, Function.update s.blobs destination _ mine = some blob → _
    rw [Function.update_of_ne (hother call hcall mine hmine)]
    exact h.staged call hcall mine hmine
  · intro digest blob hvalid hblob
    dsimp only at hblob
    by_cases hkey : key names store digest = destination
    · rw [hkey, Function.update_self] at hblob
      obtain rfl := Option.some.inj hblob
      obtain ⟨put, hput, hdigest, haccepted, hcontent⟩ :=
        h.objects digest (.pending upload) hvalid (hkey ▸ hpending)
      refine ⟨put, hput, hdigest, haccepted, .inl ?_⟩
      obtain hsource | ⟨mine, hmine, hsame⟩ := hcontent
      · cases hsource
      · cases hsame
        exact (h.staged put hput upload hmine).2.2 _ hstaged
    · rw [Function.update_of_ne hkey] at hblob
      exact h.objects digest blob hvalid hblob
  · intro call hcall haccepted
    show Function.update s.blobs destination _ _ ≠ none
    rw [Function.update_apply]
    split
    · exact Option.some_ne_none _
    · exact h.reserved call hcall haccepted
  · intro call hcall
    apply (h.facts call hcall).mono
    · intro mine hmine hnone
      exact (Function.update_of_ne (hother call hcall mine hmine) ..).trans hnone
    · intro held hheld
      apply (Function.update_of_ne _ ..).trans hheld
      intro hsame
      rw [hsame, hpending] at hheld
      cases hheld

/-- A staging object vanishes. -/
theorem Consistent.expired (hnames : Documented names rules) (h : Consistent names store rules s)
    (uuid : String) :
    Consistent names store rules
      { s with blobs := Function.update s.blobs (uploadKey names store uuid) none } := by
  have hkey : ∀ digest, Function.update s.blobs (uploadKey names store uuid) none
      (key names store digest) = s.blobs (key names store digest) := fun digest =>
    Function.update_of_ne (hnames.upload store digest uuid) ..
  have hupload : ∀ {mine blob}, Function.update s.blobs (uploadKey names store uuid) none mine =
      some blob → s.blobs mine = some blob := by
    intro mine blob hblob
    rw [Function.update_apply] at hblob
    split at hblob
    · cases hblob
    · exact hblob
  refine ⟨h.distinct, h.called, ?_, ?_, ?_, h.once, ?_⟩
  · intro call hcall mine hmine
    obtain ⟨hsize, huuid, hblobs⟩ := h.staged call hcall mine hmine
    exact ⟨hsize, huuid, fun blob hblob => hblobs blob (hupload hblob)⟩
  · intro digest blob hvalid hblob
    exact h.objects digest blob hvalid ((hkey digest).symm.trans hblob)
  · intro call hcall haccepted hnone
    exact h.reserved call hcall haccepted ((hkey call.digest).symm.trans hnone)
  · intro call hcall
    apply (h.facts call hcall).mono
    · intro mine hmine hnone
      show Function.update s.blobs _ none mine = none
      rw [Function.update_apply, hnone]
      exact ite_self _
    · intro content hcontent
      exact (hkey call.digest).trans hcontent

omit [DecidableEq Path] in
theorem Consistent.called_put (h : Consistent names store rules s) {digest : Digest}
    {source : Bytes} (hvalid : rules.validate digest = true)
    (hdeclared : source.length = digest.size.toNat) :
    Consistent names store rules
      { s with puts := s.puts ++ [⟨digest, source, .starting, none, false, false⟩] } := by
  have hall : ∀ {p : PutCall Path → Prop}, (∀ call ∈ s.puts, p call) →
      p ⟨digest, source, .starting, none, false, false⟩ →
      ∀ call ∈ s.puts ++ [⟨digest, source, .starting, none, false, false⟩], p call := by
    intro p hp hnew call hcall
    obtain hcall | hcall := List.mem_append.mp hcall
    · exact hp call hcall
    · exact List.mem_singleton.mp hcall ▸ hnew
  refine ⟨?_, hall h.called ⟨hvalid, hdeclared⟩, hall h.staged nofun, ?_, hall h.reserved nofun, ?_,
    hall h.facts rfl⟩
  · rw [List.filterMap_append]
    exact (List.append_nil _).symm ▸ h.distinct
  · intro digest' blob hvalid' hblob
    obtain ⟨put, hput, hwon⟩ := h.objects digest' blob hvalid' hblob
    exact ⟨put, List.mem_append_left _ hput, hwon⟩
  · rw [List.filterMap_append]
    exact (List.append_nil _).symm ▸ h.once

/-! ## Runs -/

omit [DecidableEq Path] in
theorem Consistent.start {blobs : Objects Path} (h : Fresh names store rules blobs) :
    Consistent names store rules ⟨blobs, []⟩ where
  distinct := List.nodup_nil
  called := nofun
  staged := nofun
  objects digest blob hvalid hblob := by
    exact nomatch (h digest hvalid).symm.trans hblob
  reserved := nofun
  once := List.nodup_nil
  facts := nofun

/-- The step lemma. -/
theorem Consistent.step (hnames : Documented names rules) (h : Consistent names store rules s)
    (hstep : Step names store rules s t) : Consistent names store rules t := by
  cases hstep with
  | called digest source valid declared => exact h.called_put valid declared
  | put before after call call' blobs puts taken => exact h.put puts hnames taken
  | completed destination upload content pending staged => exact h.completed pending staged
  | expired uuid => exact h.expired hnames uuid

/-- The run lemma. -/
theorem Reachable.consistent (hnames : Documented names rules)
    (h : Reachable names store rules s) : Consistent names store rules s := by
  induction h with
  | start blobs fresh => exact Consistent.start fresh
  | step prior taken ih => exact ih.step hnames taken

/-- A step fills a pending blob at most. -/
theorem Consistent.object_step (hnames : Documented names rules)
    (h : Consistent names store rules s) (hstep : Step names store rules s t) {digest : Digest}
    {blob : Blob Path} (hblob : s.blobs (key names store digest) = some blob) :
    t.blobs (key names store digest) = some blob ∨ ∃ upload content, blob = .pending upload ∧
      t.blobs (key names store digest) = some (.committed content) := by
  cases hstep with
  | called digest source valid declared => exact .inl hblob
  | put before after call call' blobs puts taken =>
      exact .inl (h.keeps_object puts hnames taken hblob)
  | completed destination upload content pending staged =>
      dsimp only
      by_cases hkey : key names store digest = destination
      · rw [hkey, Function.update_self]
        rw [hkey, pending] at hblob
        exact .inr ⟨upload, content, (Option.some.inj hblob).symm, rfl⟩
      · rw [Function.update_of_ne hkey]
        exact .inl hblob
  | expired uuid =>
      apply Or.inl
      exact (Function.update_of_ne (hnames.upload store digest uuid) ..).trans hblob

theorem won_step (hstep : Step names store rules s t) {digest : Digest} {content : Bytes}
    (h : s.Won digest content) : t.Won digest content := by
  obtain ⟨put, hput, hdigest, haccepted, hsource⟩ := h
  cases hstep with
  | called digest source valid declared =>
      exact ⟨put, List.mem_append_left _ hput, hdigest, haccepted, hsource⟩
  | put before after call call' blobs puts taken =>
      rw [puts] at hput
      obtain rfl | hother := List.mem_cons.mp (List.perm_middle.mem_iff.mp hput)
      · exact ⟨call', List.mem_append_right before List.mem_cons_self,
          taken.same.1.trans hdigest, taken.accepted_of_accepted haccepted,
          taken.same.2.trans hsource⟩
      · exact ⟨put, List.perm_middle.mem_iff.mpr (List.mem_cons_of_mem call' hother), hdigest,
          haccepted, hsource⟩
  | completed destination upload content pending staged =>
      exact ⟨put, hput, hdigest, haccepted, hsource⟩
  | expired uuid => exact ⟨put, hput, hdigest, haccepted, hsource⟩

omit [DecidableEq Path] in
theorem Consistent.won_unique (h : Consistent names store rules s) {digest : Digest}
    {content content' : Bytes} (hwon : s.Won digest content) (hwon' : s.Won digest content') :
    content' = content := by
  obtain ⟨put, hput, hdigest, haccepted, rfl⟩ := hwon
  obtain ⟨put', hput', hdigest', haccepted', rfl⟩ := hwon'
  rw [eq_of_nodup h.once hput hput' (PutCall.winner_eq_some.mpr ⟨haccepted, hdigest⟩)
    (PutCall.winner_eq_some.mpr ⟨haccepted', hdigest'⟩)]

omit [DecidableEq Path] in
/-- What can be read under a key is the source of the put that created it. -/
theorem Consistent.won_of_committed (h : Consistent names store rules s) {digest : Digest}
    (hvalid : rules.validate digest = true) {content : Bytes}
    (hblob : s.blobs (key names store digest) = some (.committed content)) :
    s.Won digest content := by
  obtain ⟨put, hput, hdigest, haccepted, hsource | ⟨upload, -, hpending⟩⟩ :=
    h.objects digest _ hvalid hblob
  · cases hsource
    exact ⟨put, hput, hdigest, haccepted, rfl⟩
  · cases hpending

variable (names store rules) in
/-- What is under a key stays, until the service completes it. -/
structure Lasts (digest : Digest) (blob : Blob Path) (s t : Running Path) : Prop where
  consistent : Consistent names store rules t
  object : t.blobs (key names store digest) = some blob ∨ ∃ upload content,
    blob = .pending upload ∧ t.blobs (key names store digest) = some (.committed content)
  won : ∀ content, s.Won digest content → t.Won digest content

theorem Consistent.lasts (hnames : Documented names rules) (h : Consistent names store rules s)
    (hrun : Relation.ReflTransGen (Step names store rules) s t) {digest : Digest}
    {blob : Blob Path} (hblob : s.blobs (key names store digest) = some blob) :
    Lasts names store rules digest blob s t := by
  induction hrun with
  | refl => exact ⟨h, .inl hblob, fun _ hwon => hwon⟩
  | tail hearlier hlast ih =>
      obtain ⟨hconsistent, hobject, hwon⟩ := ih
      refine ⟨hconsistent.step hnames hlast, ?_, fun content hwinner =>
        won_step hlast (hwon content hwinner)⟩
      obtain hsame | ⟨upload, content, rfl, hcommitted⟩ := hobject
      · exact hconsistent.object_step hnames hlast hsame
      · obtain hstill | ⟨other, filled, hpending, -⟩ :=
          hconsistent.object_step hnames hlast hcommitted
        · exact .inr ⟨upload, content, rfl, hstill⟩
        · cases hpending

variable (names store rules) in
/-- What the store guarantees in every state of a run. -/
structure Guaranteed (s : Running Path) : Prop where
  /-- A put that returned without an error, or whose caller registered the blob, left
  a destination that can be read, with the whole source of one put of the digest. -/
  readable : ∀ call ∈ s.puts, ∀ outcome, call.stage = .returned (.ok outcome) ∨
    call.stage = .registered outcome → ∃ put ∈ s.puts, put.digest = call.digest ∧
      s.blobs (key names store call.digest) = some (.committed put.source) ∧
        put.source.length = call.digest.size.toNat
  /-- If one put of a digest answered that it created the object, no other one did. -/
  once : ∀ before call after, s.puts = before ++ call :: after →
    (call.stage = .returned (.ok .created) ∨ call.stage = .registered .created) →
      ∀ other ∈ before ++ after, other.digest = call.digest → ∀ outcome,
        (other.stage = .returned (.ok outcome) ∨ other.stage = .registered outcome) →
          outcome = .alreadyExists
  /-- What is under the key of a digest is never replaced: a pending blob is filled
  with the source of the put that created it. -/
  kept : ∀ digest blob, rules.validate digest = true →
    s.blobs (key names store digest) = some blob →
      ∀ t, Relation.ReflTransGen (Step names store rules) s t →
        t.blobs (key names store digest) = some blob ∨ ∃ upload content,
          blob = .pending upload ∧ s.Won digest content ∧
            t.blobs (key names store digest) = some (.committed content)
  /-- A put that ended without having its copy accepted leaves no staging object,
  unless it failed to delete it. -/
  cleaned : ∀ call ∈ s.puts, ((∃ answer, call.stage = .returned answer) ∨
    ∃ outcome, call.stage = .registered outcome) → call.accepted = false →
      call.deleteFailed = false → ∀ upload, call.upload = some upload → s.blobs upload = none
  /-- The range that is asked for starts at the last byte. -/
  range : ∀ call ∈ s.puts, ∀ outcome polls, call.stage = .waiting outcome polls →
    1 ≤ call.digest.size.toNat ∧
      (lastByte call.digest.size).1.toNat = call.digest.size.toNat - 1 ∧
        (lastByte call.digest.size).2 = call.digest.size

omit [DecidableEq Path] in
theorem Consistent.answered (h : Consistent names store rules s) {call : PutCall Path}
    (hcall : call ∈ s.puts) {outcome : PutOutcome}
    (hstage : call.stage = .returned (.ok outcome) ∨ call.stage = .registered outcome) :
    call.Answered (key names store call.digest) s.blobs outcome := by
  have hfacts := h.facts call hcall
  unfold PutCall.Facts at hfacts
  obtain hstage | hstage := hstage
  · rw [hstage] at hfacts
    exact hfacts
  · rw [hstage] at hfacts
    exact hfacts

omit [DecidableEq Path] in
theorem Consistent.cleaned (h : Consistent names store rules s) {call : PutCall Path}
    (hcall : call ∈ s.puts) (hstage : (∃ answer, call.stage = .returned answer) ∨
      ∃ outcome, call.stage = .registered outcome) : call.Cleaned s.blobs := by
  obtain ⟨answer, hstage⟩ | ⟨outcome, hstage⟩ := hstage
  · cases answer with
    | ok outcome => exact (h.answered hcall (.inl hstage)).cleaned
    | error error =>
        have hfacts := h.facts call hcall
        unfold PutCall.Facts at hfacts
        rw [hstage] at hfacts
        exact hfacts
  · exact (h.answered hcall (.inr hstage)).cleaned

theorem Consistent.guaranteed (hnames : Documented names rules)
    (h : Consistent names store rules s) : Guaranteed names store rules s where
  readable call hcall outcome hstage := by
    have hvalid := (h.called call hcall).1
    obtain ⟨content, hcommitted⟩ := (h.answered hcall hstage).committed
    obtain ⟨put, hput, hdigest, -, rfl⟩ := h.won_of_committed hvalid hcommitted
    exact ⟨put, hput, hdigest, hcommitted, hdigest ▸ (h.called put hput).2⟩
  once before call after hputs hstage other hother hdigest outcome hanswer := by
    cases outcome with
    | alreadyExists => rfl
    | created =>
        have honce := h.once
        rw [hputs] at honce
        have hfirst := (h.answered (mem_moving hputs) hstage).created rfl
        have hsecond := (h.answered (mem_puts hputs hother) hanswer).created rfl
        exact absurd hdigest (ne_of_nodup honce hother
          (PutCall.winner_eq_some.mpr ⟨hfirst, rfl⟩)
          (PutCall.winner_eq_some.mpr ⟨hsecond, rfl⟩))
  kept digest blob hvalid hblob t hrun := by
    obtain ⟨hconsistent, hobject, hwon⟩ := h.lasts hnames hrun hblob
    apply hobject.imp_right
    rintro ⟨upload, content, rfl, hcommitted⟩
    obtain ⟨put, hput, hdigest, haccepted, -⟩ := h.objects digest _ hvalid hblob
    have hfirst : s.Won digest put.source := ⟨put, hput, hdigest, haccepted, rfl⟩
    obtain rfl := hconsistent.won_unique (hwon put.source hfirst)
      (hconsistent.won_of_committed hvalid hcommitted)
    exact ⟨upload, put.source, rfl, hfirst, hcommitted⟩
  cleaned call hcall hstage haccepted hdeleted upload hupload := by
    obtain hyes | hyes | hnone := h.cleaned hcall hstage
    · cases haccepted.symm.trans hyes
    · cases hdeleted.symm.trans hyes
    · exact hnone upload hupload
  range call hcall outcome polls hstage := by
    have hfacts := h.facts call hcall
    unfold PutCall.Facts at hfacts
    rw [hstage] at hfacts
    have hsize : 1 ≤ call.digest.size.toNat := by
      apply Nat.one_le_iff_ne_zero.mpr
      intro hzero
      exact hfacts.1 (UInt64.toNat_inj.mp hzero)
    refine ⟨hsize, ?_, rfl⟩
    exact UInt64.toNat_sub_of_le _ _ hsize

theorem Reachable.alone {blobs blobs' : Objects Path} {call call' : PutCall Path}
    (h : Reachable names store rules ⟨blobs, [call]⟩)
    (hstep : PutStep (key names store call.digest) (Staging names store ⟨blobs, [call]⟩) blobs call
      blobs' call') : Reachable names store rules ⟨blobs', [call']⟩ :=
  h.step (.put [] [] call call' blobs' rfl hstep)

/-- A put that runs alone gets its object created, completed and registered. -/
theorem reachable_registered (hnames : Documented names rules) (store : AzureStore) {digest : Digest}
    (hvalid : rules.validate digest = true) (hsize : digest.size ≠ 0) {source : Bytes}
    (hdeclared : source.length = digest.size.toNat) (uuid : String) :
    ∃ s, Reachable names store rules s ∧ s.puts = [⟨digest, source, .registered .created,
      some (uploadKey names store uuid), true, false⟩] := by
  have hkey := hnames.upload store digest uuid
  have hempty : Reachable names store rules ⟨fun _ => none, []⟩ := .start _ fun _ _ => rfl
  have hcalled := hempty.step (.called digest source hvalid hdeclared)
  have hfresh : Staging names store ⟨fun _ => none, [⟨digest, source, .starting, none, false, false⟩]⟩
      (uploadKey names store uuid) := by
    refine ⟨⟨uuid, rfl⟩, fun call hcall => ?_⟩
    rw [List.mem_singleton.mp hcall]
    nofun
  have hopened := Reachable.alone hcalled (.opened _ hsize rfl hfresh rfl)
  have hwritten := hopened.alone (.shutdown _ rfl)
  have haccepted := hwritten.alone (.accepted _ rfl (Function.update_of_ne hkey ..))
  have hpolled := haccepted.alone (.unreadable .created 0 rfl (by decide))
  have hcompleted := hpolled.step (.completed (key names store digest) (uploadKey names store uuid)
    source (Function.update_self ..)
    ((Function.update_of_ne hkey.symm ..).trans (Function.update_self ..)))
  have hlast : ∃ content, Blob.getRange (.committed source : Blob Path) (lastByte digest.size) =
      some content := by
    have hone : (1 : UInt64) ≤ digest.size := by
      apply Nat.one_le_iff_ne_zero.mpr
      intro hzero
      exact hsize (UInt64.toNat_inj.mp hzero)
    refine ⟨_, if_pos ?_⟩
    show (digest.size - 1).toNat < source.length
    rw [UInt64.toNat_sub_of_le _ _ hone, hdeclared]
    exact Nat.sub_lt hone Nat.one_pos
  obtain ⟨content, hcontent⟩ := hlast
  have hreturned := Reachable.alone hcompleted
    (.readable .created 1 (.committed source) content rfl (by decide) (Function.update_self ..)
      hcontent)
  have hregistered := hreturned.alone (.registered .created rfl)
  exact ⟨_, hregistered, rfl⟩

end Running

/-- A put reports success only for an object that can be read, whatever the
interleaving of the puts with each other and with the service. -/
theorem put_readable [DecidableEq Path] (names : ObjectNames Path) (rules : DigestRules)
    (hnames : Documented names rules) (store : AzureStore) (s : Running Path)
    (h : Running.Reachable names store rules s) : Running.Guaranteed names store rules s :=
  (h.consistent hnames).guaranteed hnames

/-- Keys that spell a digest by its three parts. -/
def spelledNames : ObjectNames String where
  objectPath path := path
  digestKey digest :=
    "/".intercalate [digest.algorithm, digest.hash, toString digest.size.toNat]

theorem slash_notMem_parts {digest : Digest} (h : digest.WellFormed) :
    ∀ part ∈ [digest.algorithm, digest.hash, toString digest.size.toNat], '/' ∉ part.toList := by
  obtain ⟨algorithm, halgorithm⟩ := h.algorithm
  simp only [List.forall_mem_cons, List.not_mem_nil, false_implies, implies_true, and_true]
  refine ⟨?_, ?_, ?_⟩
  · rw [halgorithm]
    cases algorithm <;> decide
  · intro hslash
    exact absurd (h.hash_lower '/' hslash) (by decide)
  · intro hslash
    have hdigit : '/' ∈ Nat.toDigits 10 digest.size.toNat := by
      rw [← Nat.toList_repr]
      exact hslash
    exact absurd (Nat.isDigit_of_mem_toDigits (by decide) (by decide) hdigit) (by decide)

theorem documented_spelled : Documented spelledNames Sample.digestRules where
  digest store digest digest' hvalid hvalid' hkey := by
    have hparts := slash_notMem_parts ((Sample.documented.validate_iff digest).mp hvalid)
    have hparts' := slash_notMem_parts ((Sample.documented.validate_iff digest').mp hvalid')
    have hjoined := String.append_right_inj _ |>.mp hkey
    have hlists := ((Server.components_eq_iff (List.cons_ne_nil _ _) hparts).mpr rfl).symm.trans
      ((Server.components_eq_iff (List.cons_ne_nil _ _) hparts').mpr hjoined)
    obtain ⟨algorithm, hash, size⟩ := digest
    obtain ⟨algorithm', hash', size'⟩ := digest'
    simp only [List.cons.injEq, and_true] at hlists
    obtain ⟨rfl, rfl, hsizes⟩ := hlists
    rw [UInt64.toNat_inj.mp (toString_injective hsizes)]
  upload store digest uuid hkey := by
    have hlists := congrArg String.toList hkey
    simp only [key, uploadKey, spelledNames, String.toList_append, List.append_assoc] at hlists
    have htails := List.append_cancel_left hlists
    exact absurd (List.cons.inj (List.cons.inj htails).2).1 (by decide)

/-- Where a put registered a directory, the directory can be read. -/
theorem put_readable_registered : ∃ s : Running String,
    Running.Reachable spelledNames ⟨"v1"⟩ Sample.digestRules s ∧
      Running.Guaranteed spelledNames ⟨"v1"⟩ Sample.digestRules s ∧
        s.blobs (key spelledNames ⟨"v1"⟩ Sample.directoryDigest) =
          some (.committed Sample.directoryText) := by
  have hvalid : Sample.digestRules.validate Sample.directoryDigest = true := by
    decide +kernel
  have hdeclared : Sample.directoryText.length = Sample.directoryDigest.size.toNat := by
    decide +kernel
  obtain ⟨s, hreach, hputs⟩ := Running.reachable_registered documented_spelled ⟨"v1"⟩
    hvalid (by decide) hdeclared "67e55044-10b1-426f-9247-bb680e5fe0c8"
  have hguaranteed := put_readable spelledNames Sample.digestRules documented_spelled ⟨"v1"⟩ s hreach
  obtain ⟨put, hput, -, hblob, -⟩ :=
    hguaranteed.readable _ (hputs ▸ List.mem_singleton_self _) .created (.inr rfl)
  rw [hputs] at hput
  rw [List.mem_singleton.mp hput] at hblob
  exact ⟨s, hreach, hguaranteed, hblob⟩

end MbxCache.AzureStore
