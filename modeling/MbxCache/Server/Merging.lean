/-
# Clients that merge manifests

Any number of clients ask for action manifests, add predictions to what they were
shown, and write the result back under the entity tag they were shown, in any
order and against either metadata store. The system refines writes that name what
they replace, so no prediction that was ever stored is lost again.

The entity tag is a hash of the manifest and no counter: a tag may come back, and
then it stands for the same manifest.
-/

import MbxCache.Foundation.CompareAndSet
import MbxCache.Foundation.Effects
import MbxCache.Metadata.Equivalence
import MbxCache.Server.Refusals

namespace MbxCache

open Foundation Program

/-! ## What the stores keep -/

/-- The manifest under a key, as the in-memory store has it. -/
def MemoryMetadata.stored (store : MemoryMetadata) (key : MetadataKey) : Option ManifestRecord :=
  store.getManifest key.1 key.2

/-- The manifest under a key, as the row about it reads. -/
def PostgresMetadata.stored (crates : Crates) (db : Database) (key : MetadataKey) :
    Option ManifestRecord :=
  (decodeManifest crates ((db.actionManifests.find (rowKey key.1 key.2)).map fun row =>
    (row.etag, row.manifest))).toOption.join

namespace Server

/-! ## The system -/

section

variable (crates : Crates)

/-- The manifest a body parses to. -/
def Submits (body : ByteStream) (manifest : TaskActionManifest) : Prop :=
  ∃ bytes, readStream body = .ok bytes ∧ crates.manifestFromSlice bytes = .ok manifest

/-- What a client knows from asking: where it asked, and the entity tag and the
manifest it was shown, if there was one. -/
structure Reading where
  ns : Option String
  parts : DigestParts
  found : Option (String × TaskActionManifest)

/-- What a client knows after an answer. A body is read as the manifest it is the
canonical JSON of. -/
inductive Learns (headers : HeaderMap) (parts : DigestParts) (known : Option Reading) :
    Except ApiError ManifestResponse → Option Reading → Prop where
  | shown (response : ManifestResponse) (manifest : TaskActionManifest)
      (body : crates.canonicalJson manifest = .ok response.body) :
      Learns headers parts known (.ok response)
        (some ⟨namespaceHeader headers, parts, some (response.etag, manifest)⟩)
  | missing (error : ApiError) (status : error.status = 404) :
      Learns headers parts known (.error error) (some ⟨namespaceHeader headers, parts, none⟩)
  | failed (error : ApiError) (status : error.status ≠ 404) :
      Learns headers parts known (.error error) known

namespace Reading

/-- A write asks for the entity tag that was read, or for there to be none. -/
def Guards (reading : Reading) (headers : HeaderMap) : Prop :=
  match reading.found with
  | none => headers.get "if-none-match" = some "*"
  | some (etag, _) =>
      headers.get "if-none-match" ≠ some "*" ∧ headers.get "if-match" = some etag

/-- A write of a manifest that was read, with at least the predictions it had. -/
structure Merges (reading : Reading) (headers : HeaderMap) (parts : DigestParts)
    (body : ByteStream) : Prop where
  ns : namespaceHeader headers = reading.ns
  parts : parts = reading.parts
  guards : reading.Guards headers
  keeps : ∀ manifest, Submits crates body manifest → ∀ etag base,
    reading.found = some (etag, base) → ∀ prediction ∈ base.predictions,
      prediction ∈ manifest.predictions

end Reading

/-- The stores, and what each client knows. -/
structure Merging (M : Type) where
  stores : Stores M
  readings : ℕ → Option Reading

/-- A request of a client with its answer. -/
inductive Exchange where
  | get (client : ℕ) (headers : HeaderMap) (parts : DigestParts)
      (answer : Except ApiError ManifestResponse)
  | put (client : ℕ) (headers : HeaderMap) (parts : DigestParts) (body : ByteStream)
      (answer : Except ApiError (StatusCode × String))

namespace Merging

variable {M : Type}

/-- Nothing is stored and nothing was asked. -/
def start (empty : M) : Merging M where
  stores := { blobs := fun _ => none, metadata := empty }
  readings _ := none

variable (state : AppState) (involved : Set TaskActionManifest)
  (exec : ℕ → (op : MetadataOp) → M → op.Answer × M)

/-- One exchange. The handlers make one store call, at any time, which may fail
with or without its effect. -/
inductive Step (s : Merging M) : Exchange → Merging M → Prop where
  | get (now : ℕ) (client : ℕ) (headers : HeaderMap) (parts : DigestParts)
      (answer : Except ApiError ManifestResponse) (stores : Stores M) (known : Option Reading)
      (executes : Executes (Stores.Answers (exec now))
        (getActionManifest crates state headers parts) s.stores answer stores)
      (learns : Learns crates headers parts (s.readings client) answer known) :
      Step s (.get client headers parts answer)
        ⟨stores, Function.update s.readings client known⟩
  | put (now : ℕ) (client : ℕ) (headers : HeaderMap) (parts : DigestParts) (body : ByteStream)
      (answer : Except ApiError (StatusCode × String)) (stores : Stores M) (reading : Reading)
      (known : s.readings client = some reading)
      (merges : reading.Merges crates headers parts body)
      (submitted : ∀ manifest, Submits crates body manifest → manifest ∈ involved)
      (executes : Executes (Stores.Answers (exec now))
        (putActionManifest crates state headers parts body) s.stores answer stores) :
      Step s (.put client headers parts body answer) { s with stores }

/-- The states a run goes on to. -/
abbrev Later : Merging M → Merging M → Prop :=
  Relation.ReflTransGen fun s t => ∃ exchange, Step crates state involved exec s exchange t

variable (stored : M → MetadataKey → Option ManifestRecord)

/-- The predictions stored under a key. -/
def predictions (s : Merging M) (key : MetadataKey) : Set ActionPrediction :=
  { prediction | ∃ record, stored s.stores.metadata key = some record ∧
    prediction ∈ record.manifest.predictions }

/-- No update is lost in the runs from an empty store. -/
structure NoLostUpdate (empty : M) : Prop where
  /-- The entity tag is that of the manifest, and the key the one it selects. -/
  consistent : ∀ s, Later crates state involved exec (start empty) s →
    ∀ ns key record, stored s.stores.metadata (ns, key) = some record →
      (∃ bytes, crates.canonicalJson record.manifest = .ok bytes ∧
        record.etag = crates.hashText .blake3 bytes) ∧
      crates.selectorDigest record.manifest = key
  grows : ∀ s t, Later crates state involved exec (start empty) s →
    Later crates state involved exec s t →
    ∀ key, s.predictions stored key ⊆ t.predictions stored key
  /-- A write answered with success replaced what its client had read, and what
  it wrote is kept. -/
  accepted : ∀ s t client headers parts body answer,
    Later crates state involved exec (start empty) s →
    Step crates state involved exec s (.put client headers parts body (.ok answer)) t →
    ∃ reading ns manifest, s.readings client = some reading ∧
      namespaceHeader headers = some ns ∧ Submits crates body manifest ∧
      (stored s.stores.metadata (ns, digestOf parts)).map ManifestRecord.manifest =
        reading.found.map Prod.snd ∧
      (stored t.stores.metadata (ns, digestOf parts)).map ManifestRecord.manifest =
        some manifest ∧
      ∀ u, Later crates state involved exec t u →
        ∀ prediction ∈ manifest.predictions,
          prediction ∈ u.predictions stored (ns, digestOf parts)
  refused : ∀ s t client headers parts body error,
    Later crates state involved exec (start empty) s →
    Step crates state involved exec s (.put client headers parts body (.error error)) t →
    error.status = 412 → t = s

end Merging

end

/-! ## Entity tags in headers -/

theorem unquote_quotedEtag (etag : String) : unquote (quotedEtag etag) = some etag := by
  have hlast : (etag.toList ++ ['"']).getLast? = some '"' := by simp
  rw [unquote, quotedEtag, String.toList_ofList]
  show (if (etag.toList ++ ['"']).getLast? = some '"' then _ else none) = some etag
  rw [if_pos hlast, List.dropLast_concat, String.ofList_toList]

/-- The entity tag that was read is the one a write expects. -/
theorem Reading.Guards.expects {reading : Reading} {headers : HeaderMap}
    (h : reading.Guards headers) {etag : String} {manifest : TaskActionManifest}
    (hfound : reading.found = some (quotedEtag etag, manifest)) (hlength : etag.length = 64)
    (hlower : LowerHex etag) : manifestPrecondition headers = .ok (some etag) := by
  rw [Guards, hfound] at h
  obtain ⟨hnone, hmatch⟩ := h
  have hshape : (etag.utf8ByteSize == 64 && etag.toList.all isLowerHex) = true := by
    rw [utf8ByteSize_of_lowerHex hlower, hlength, Bool.and_eq_true, List.all_eq_true]
    exact ⟨rfl, hlower⟩
  rw [manifestPrecondition, if_neg hnone, hmatch]
  dsimp only
  rw [unquote_quotedEtag, Option.filter_some, if_pos hshape]

theorem Reading.Guards.expects_none {reading : Reading} {headers : HeaderMap}
    (h : reading.Guards headers) (hfound : reading.found = none) :
    manifestPrecondition headers = .ok none := by
  rw [Guards, hfound] at h
  exact if_pos h

/-! ## Errors -/

/-- Errors that neither report a missing manifest nor a changed one. -/
def Unrelated (e : ApiError) : Prop := e.status ≠ 404 ∧ e.status ≠ 412

instance : DecidablePred Unrelated := fun _ => instDecidableAnd

theorem errs_authorizePatterns (patterns : List String) (ns : String) :
    Errs Unrelated (authorizePatterns patterns ns) := by
  intro e h
  unfold authorizePatterns at h
  split at h
  · cases h
  · obtain rfl := Except.error.inj h
    decide

theorem errs_authorizeToken (crates : Crates) (authorizer : Authorizer) (access : Access)
    (ns token : String) : Errs Unrelated (authorizeToken crates authorizer access ns token) := by
  intro e h
  unfold authorizeToken at h
  dsimp only at h
  split at h
  · exact errs_authorizePatterns _ _ e h
  · split at h
    · obtain rfl := Except.error.inj h
      decide
    · split at h
      · obtain rfl := Except.error.inj h
        decide
      · split at h
        · obtain rfl := Except.error.inj h
          decide
        · split at h
          · cases h
          · obtain rfl := Except.error.inj h
            decide

theorem errs_authorize (crates : Crates) (authorizer : Authorizer) (headers : HeaderMap)
    (access : Access) : Errs Unrelated (authorizer.authorize crates headers access) := by
  intro e h
  unfold Authorizer.authorize at h
  split at h
  · obtain rfl := Except.error.inj h
    decide
  · split at h
    · obtain rfl := Except.error.inj h
      decide
    · split at h
      · cases h
      · split at h
        · cases h
        · split at h
          · obtain rfl := Except.error.inj h
            decide
          · exact errs_authorizeToken _ _ _ _ _ e h

theorem errs_parseActionDigest (rules : DigestRules) (parts : DigestParts) :
    Errs Unrelated (parseActionDigest rules parts) := by
  have hvalidate : ∀ digest, Errs Unrelated (validateDigest rules digest) := by
    intro digest e h
    unfold validateDigest at h
    split at h
    · cases h
    · obtain rfl := Except.error.inj h
      decide
  have hparse : Errs Unrelated (parseDigest rules parts) :=
    (hvalidate _).bind fun _ => errs_ok _
  apply hparse.bind
  intro digest
  apply Errs.bind
  · apply errs_rejectIf
    decide
  · exact fun _ => errs_ok _

theorem errs_manifestPrecondition (headers : HeaderMap) :
    Errs Unrelated (manifestPrecondition headers) := by
  intro e h
  unfold manifestPrecondition at h
  split at h
  · cases h
  · split at h
    · obtain rfl := Except.error.inj h
      decide
    · split at h
      · obtain rfl := Except.error.inj h
        decide
      · cases h

theorem unrelated_internal (error : String) : Unrelated (.internal error) := by
  show (500 : StatusCode) ≠ 404 ∧ (500 : StatusCode) ≠ 412
  decide

theorem errs_toBytes (limit : ℕ) (body : ByteStream) : Errs Unrelated (toBytes limit body) := by
  apply Errs.bind
  · apply errs_mapError
    intro _
    decide
  · intro bytes
    apply Errs.bind
    · apply errs_rejectIf
      decide
    · exact fun _ => errs_ok _

theorem unrelated_badRequest (message : String) : Unrelated (.badRequest message) := by
  show (400 : StatusCode) ≠ 404 ∧ (400 : StatusCode) ≠ 412
  decide

theorem errs_acceptManifest (crates : Crates) (headers : HeaderMap) (parts : DigestParts)
    (body : ByteStream) : Errs Unrelated (acceptManifest crates headers parts body) := by
  apply (errs_toBytes _ body).bind
  intro bytes
  apply Errs.bind
  · apply errs_mapError
    exact fun _ => unrelated_badRequest _
  intro manifest
  apply (errs_parseActionDigest _ parts).bind
  intro key
  apply Errs.bind
  · apply errs_rejectIf
    decide
  intro _
  apply (errs_manifestPrecondition headers).bind
  exact fun _ => errs_ok _

theorem errs_manifestEtag (crates : Crates) (manifest : TaskActionManifest) :
    Errs Unrelated (manifestEtag crates manifest) := by
  apply Errs.bind
  · exact errs_mapError unrelated_internal
  · exact fun _ => errs_ok _

/-! ## What the handlers do -/

section Handlers

variable {M : Type} {crates : Crates} {state : AppState}
  {metadata : (op : MetadataOp) → M → op.Answer × M} {holds : M → MetadataView → Prop}
  {stores later : Stores M} {view : MetadataView} {headers : HeaderMap} {parts : DigestParts}

/-- A metadata call on a store that meets its purpose: answered, it has its
effect and the right answer; failed, it may still have its effect. -/
theorem answers_meets (hmeets : MeetsSpec metadata holds) (hview : holds stores.metadata view)
    {op : MetadataOp} {answer : op.Answer}
    (h : Stores.Answers metadata (.metadata op) stores answer later) :
    (∃ error, answer = .error error ∧
        (holds later.metadata view ∨ holds later.metadata (view.perform op).2)) ∨
      answer = .ok (view.perform op).1 ∧ holds later.metadata (view.perform op).2 := by
  have hcases := hmeets op stores.metadata view hview
  cases h with
  | refused _ _ error => exact .inl ⟨error, rfl, .inl hview⟩
  | lost _ _ error =>
      refine .inl ⟨error, rfl, ?_⟩
      show holds (metadata op stores.metadata).2 view ∨ holds (metadata op stores.metadata).2 _
      rcases hcases with ⟨_, hfailed⟩ | ⟨_, hdone⟩
      · rw [hfailed]
        exact .inl hview
      · exact .inr hdone
  | answered chunking =>
      show (∃ error, (metadata op stores.metadata).1 = .error error ∧
          (holds (metadata op stores.metadata).2 view ∨ _)) ∨
        (metadata op stores.metadata).1 = _ ∧ holds (metadata op stores.metadata).2 _
      rcases hcases with ⟨error, hfailed⟩ | hdone
      · rw [hfailed]
        exact .inl ⟨error, rfl, .inl hview⟩
      · exact .inr hdone

theorem executes_callMetadata (hmeets : MeetsSpec metadata holds)
    (hview : holds stores.metadata view) {α : Type} {op : MetadataOp} {f : op.Value → Handler α}
    {outcome : Except ApiError α}
    (h : Executes (Stores.Answers metadata) (callMetadata op >>= f) stores outcome later) :
    (∃ error, outcome = .error (.internal error) ∧
        (holds later.metadata view ∨ holds later.metadata (view.perform op).2)) ∨
      ∃ middle, holds middle.metadata (view.perform op).2 ∧
        Executes (Stores.Answers metadata) (f (view.perform op).1) middle outcome later := by
  obtain ⟨answer, middle, hanswer, hrest⟩ := executes_call.mp h
  rcases answers_meets hmeets hview hanswer with ⟨error, rfl, hlater⟩ | ⟨rfl, hlater⟩
  · obtain ⟨houtcome, rfl⟩ := executes_done.mp hrest
    exact .inl ⟨error, houtcome, hlater⟩
  · exact .inr ⟨middle, hlater, hrest⟩

/-- A local check that fails answers with its error. -/
theorem executes_check {α β : Type} {exec : (op : StoreOp) → Stores M → op.Answer → Stores M → Prop}
    {checked : Except ApiError α} {f : α → Handler β} {outcome : Except ApiError β}
    (h : Executes exec ((Program.done checked : Handler α) >>= f) stores outcome later) :
    (∃ e, checked = .error e ∧ outcome = .error e ∧ later = stores) ∨
      ∃ a, checked = .ok a ∧ Executes exec (f a) stores outcome later := by
  cases checked with
  | error e =>
      obtain ⟨houtcome, hlater⟩ := executes_done.mp h
      exact .inl ⟨e, rfl, houtcome, hlater⟩
  | ok a => exact .inr ⟨a, rfl, h⟩

/-- What the answer to a question tells about the contents. -/
inductive Told (crates : Crates) (view : MetadataView) (headers : HeaderMap)
    (parts : DigestParts) : Except ApiError ManifestResponse → Prop where
  | shown (ns : String) (record : ManifestRecord) (response : ManifestResponse)
      (named : namespaceHeader headers = some ns)
      (there : view.manifest (ns, digestOf parts) = some record)
      (etag : response.etag = quotedEtag record.etag)
      (body : crates.canonicalJson record.manifest = .ok response.body) :
      Told crates view headers parts (.ok response)
  | missing (ns : String) (error : ApiError) (named : namespaceHeader headers = some ns)
      (absent : view.manifest (ns, digestOf parts) = none) :
      Told crates view headers parts (.error error)
  | failed (error : ApiError) (unrelated : Unrelated error) :
      Told crates view headers parts (.error error)

theorem parseActionDigest_eq_ok {rules : DigestRules} {key : Digest}
    (h : parseActionDigest rules parts = .ok key) : key = digestOf parts := by
  obtain ⟨digest, hdigest, h⟩ := bind_eq_ok.mp h
  obtain ⟨_, _, h⟩ := bind_eq_ok.mp h
  obtain rfl := Except.ok.inj h
  exact ((parseDigest_eq_ok rules).mp hdigest).1

theorem getActionManifest_spec (hmeets : MeetsSpec metadata holds)
    (hview : holds stores.metadata view) {answer : Except ApiError ManifestResponse}
    (h : Executes (Stores.Answers metadata) (getActionManifest crates state headers parts) stores
      answer later) :
    holds later.metadata view ∧ Told crates view headers parts answer := by
  rcases executes_check h with ⟨e, hcheck, rfl, rfl⟩ | ⟨ns, hns, h⟩
  · exact ⟨hview, .failed e (errs_authorize _ _ _ _ e hcheck)⟩
  rcases executes_check h with ⟨e, hcheck, rfl, rfl⟩ | ⟨key, hkey, h⟩
  · exact ⟨hview, .failed e (errs_parseActionDigest _ _ e hcheck)⟩
  have hnamed := Authorizer.authorize_eq_ok hns
  obtain rfl := parseActionDigest_eq_ok hkey
  rcases executes_callMetadata hmeets hview h with ⟨e, rfl, hlater⟩ | ⟨middle, hlater, h⟩
  · exact ⟨hlater.elim id id, .failed _ (unrelated_internal e)⟩
  rcases executes_check h with ⟨e, hcheck, rfl, rfl⟩ | ⟨record, hrecord, h⟩
  · obtain ⟨hnone, rfl⟩ := okOr_eq_error.mp hcheck
    exact ⟨hlater, .missing ns _ hnamed hnone⟩
  rcases executes_check h with ⟨e, hcheck, rfl, rfl⟩ | ⟨body, hbody, h⟩
  · exact ⟨hlater, .failed e (errs_mapError unrelated_internal e hcheck)⟩
  obtain ⟨rfl, rfl⟩ := executes_done.mp h
  exact ⟨hlater, .shown ns record _ hnamed (okOr_eq_ok.mp hrecord) rfl (mapError_eq_ok.mp hbody)⟩

/-- What a write did to the contents. -/
inductive Wrote (crates : Crates) (view : MetadataView) (headers : HeaderMap)
    (parts : DigestParts) (body : ByteStream) :
    Except ApiError (StatusCode × String) → MetadataView → Prop where
  | nothing (error : ApiError) : Wrote crates view headers parts body (.error error) view
  | replaced (answer : Except ApiError (StatusCode × String)) (ns : String)
      (manifest : TaskActionManifest) (expected : Option String) (etag : String)
      (named : namespaceHeader headers = some ns) (submitted : Submits crates body manifest)
      (selects : crates.selectorDigest manifest = digestOf parts)
      (guarded : manifestPrecondition headers = .ok expected)
      (tagged : manifestEtag crates manifest = .ok etag)
      (expects : view.expects (ns, digestOf parts) expected) :
      Wrote crates view headers parts body answer
        { view with
          manifest := Function.update view.manifest (ns, digestOf parts) (some ⟨etag, manifest⟩) }

theorem acceptManifest_eq_ok {body : ByteStream} {manifest : TaskActionManifest} {key : Digest}
    {expected : Option String}
    (h : acceptManifest crates headers parts body = .ok (manifest, key, expected)) :
    Submits crates body manifest ∧ key = digestOf parts ∧ crates.selectorDigest manifest = key ∧
      manifestPrecondition headers = .ok expected := by
  obtain ⟨bytes, hbytes, h⟩ := bind_eq_ok.mp h
  obtain ⟨parsed, hparsed, h⟩ := bind_eq_ok.mp h
  obtain ⟨path, hpath, h⟩ := bind_eq_ok.mp h
  obtain ⟨_, hchecks, h⟩ := bind_eq_ok.mp h
  obtain ⟨expectedEtag, hguard, h⟩ := bind_eq_ok.mp h
  obtain ⟨rfl, hrest⟩ := Prod.mk.inj (Except.ok.inj h)
  obtain ⟨rfl, rfl⟩ := Prod.mk.inj hrest
  have hread : readStream body = .ok bytes := by
    obtain ⟨all, hall, hbytes⟩ := bind_eq_ok.mp hbytes
    obtain ⟨_, _, hbytes⟩ := bind_eq_ok.mp hbytes
    rw [← Except.ok.inj hbytes]
    exact mapError_eq_ok.mp hall
  have hselects := (Bool.or_eq_false_iff.mp (rejectIf_eq_ok.mp hchecks)).2
  exact ⟨⟨bytes, hread, mapError_eq_ok.mp hparsed⟩, parseActionDigest_eq_ok hpath,
    by simpa using hselects, hguard⟩

theorem putActionManifest_spec (hmeets : MeetsSpec metadata holds)
    (hview : holds stores.metadata view) {body : ByteStream}
    {answer : Except ApiError (StatusCode × String)}
    (h : Executes (Stores.Answers metadata) (putActionManifest crates state headers parts body)
      stores answer later) :
    ∃ view', holds later.metadata view' ∧ Wrote crates view headers parts body answer view' := by
  rcases executes_check h with ⟨e, hcheck, rfl, rfl⟩ | ⟨ns, hns, h⟩
  · exact ⟨view, hview, .nothing e⟩
  rcases executes_check h with ⟨e, hcheck, rfl, rfl⟩ | ⟨⟨manifest, key, expected⟩, haccept, h⟩
  · exact ⟨view, hview, .nothing e⟩
  rcases executes_check h with ⟨e, hcheck, rfl, rfl⟩ | ⟨etag, hetag, h⟩
  · exact ⟨view, hview, .nothing e⟩
  obtain ⟨hsubmits, rfl, hselects, hguard⟩ := acceptManifest_eq_ok haccept
  have hnamed := Authorizer.authorize_eq_ok hns
  by_cases hexpects : view.expects (ns, digestOf parts) expected
  · have hperform : view.commitManifest _ _ (⟨etag, manifest⟩ : ManifestRecord) = _ :=
      MetadataView.commitManifest_of_expects hexpects
    have hwrote : Wrote crates view headers parts body answer _ :=
      .replaced answer ns manifest expected etag hnamed hsubmits hselects hguard hetag hexpects
    rcases executes_callMetadata hmeets hview h with ⟨e, rfl, hsame | hdone⟩ | ⟨_, hdone, h⟩
    · exact ⟨view, hsame, .nothing _⟩
    · rw [MetadataView.perform, hperform] at hdone
      exact ⟨_, hdone, hwrote⟩
    · rw [MetadataView.perform, hperform] at hdone
      rcases executes_check h with ⟨e, _, _, rfl⟩ | ⟨status, _, h⟩
      · exact ⟨_, hdone, hwrote⟩
      · obtain ⟨_, rfl⟩ := executes_done.mp h
        exact ⟨_, hdone, hwrote⟩
  · have hperform : view.commitManifest _ _ (⟨etag, manifest⟩ : ManifestRecord) = _ :=
      MetadataView.commitManifest_of_not_expects hexpects
    rcases executes_callMetadata hmeets hview h with ⟨e, rfl, hsame | hsame⟩ | ⟨_, hsame, h⟩
    · exact ⟨view, hsame, .nothing _⟩
    · rw [MetadataView.perform, hperform] at hsame
      exact ⟨view, hsame, .nothing _⟩
    · rw [MetadataView.perform, hperform] at hsame h
      rcases executes_check h with ⟨e, _, rfl, rfl⟩ | ⟨status, hstatus, h⟩
      · exact ⟨view, hsame, .nothing e⟩
      · cases hstatus

/-- A write that is answered with a failed precondition leaves a store as it was,
if refusing the call does. -/
theorem putActionManifest_refused_same {body : ByteStream} {error : ApiError}
    (hsame : ∀ ns key expected etag manifest m,
      (metadata (.commitManifest ns key expected etag manifest) m).1 = .ok .preconditionFailed →
        (metadata (.commitManifest ns key expected etag manifest) m).2 = m)
    (h : Executes (Stores.Answers metadata) (putActionManifest crates state headers parts body)
      stores (.error error) later) (hstatus : error.status = 412) : later = stores := by
  have hno : ∀ {e : ApiError}, Unrelated e → Except.error error ≠
      (.error e : Except ApiError (StatusCode × String)) := by
    intro e hkind heq
    exact hkind.2 (Except.error.inj heq ▸ hstatus)
  rcases executes_check h with ⟨e, hcheck, heq, _⟩ | ⟨ns, _, h⟩
  · exact absurd heq (hno (errs_authorize _ _ _ _ e hcheck))
  rcases executes_check h with ⟨e, hcheck, heq, _⟩ | ⟨⟨manifest, key, expected⟩, _, h⟩
  · exact absurd heq (hno (errs_acceptManifest _ _ _ _ e hcheck))
  rcases executes_check h with ⟨e, hcheck, heq, _⟩ | ⟨etag, _, h⟩
  · exact absurd heq (hno (errs_manifestEtag _ _ e hcheck))
  obtain ⟨reply, middle, hreply, h⟩ := executes_call.mp h
  have hanswered := (Stores.answers_metadata hreply).2
  rcases executes_check h with ⟨e, hcheck, heq, _⟩ | ⟨outcome, hvalue, h⟩
  · exact absurd heq (hno (errs_mapError unrelated_internal e hcheck))
  obtain ⟨hrefused, rfl⟩ := hanswered outcome (mapError_eq_ok.mp hvalue)
  rcases executes_check h with ⟨e, hcheck, _, rfl⟩ | ⟨status, _, h⟩
  · cases outcome with
    | created => cases hcheck
    | updated => cases hcheck
    | preconditionFailed =>
        rw [Stores.afterMetadata, hsame _ _ _ _ _ _ hrefused]
  · obtain ⟨heq, _⟩ := executes_done.mp h
    cases heq

end Handlers

/-! ## The refinement -/

section Refinement

variable {M : Type} {crates : Crates} {state : AppState} {involved : Set TaskActionManifest}
  {exec : ℕ → (op : MetadataOp) → M → op.Answer × M} {holds : M → MetadataView → Prop}

/-- The manifests and the readings, without tags and errors. -/
def shared (view : MetadataView) (readings : ℕ → Option Reading) :
    CompareAndSet.Shared ℕ MetadataKey TaskActionManifest where
  held key := (view.manifest key).map ManifestRecord.manifest
  seen client := (readings client).bind fun reading =>
    reading.ns.map fun ns => ((ns, digestOf reading.parts), reading.found.map Prod.snd)

/-- The involved manifests that have an entity tag. -/
def taggable (crates : Crates) (involved : Set TaskActionManifest) : Set TaskActionManifest :=
  { manifest | manifest ∈ involved ∧ ∃ tag, manifestEtag crates manifest = .ok tag }

def predicted (manifest : TaskActionManifest) : Set ActionPrediction :=
  { prediction | prediction ∈ manifest.predictions }

/-- The invariant: whatever is stored or known carries its own entity tag. -/
structure Tracked (crates : Crates) (involved : Set TaskActionManifest)
    (holds : M → MetadataView → Prop) (s : Merging M) (view : MetadataView) : Prop where
  holds : holds s.stores.metadata view
  records : ∀ key record, view.manifest key = some record →
    record.manifest ∈ involved ∧ manifestEtag crates record.manifest = .ok record.etag ∧
      crates.selectorDigest record.manifest = key.2
  readings : ∀ client reading, s.readings client = some reading →
    ∀ etag manifest, reading.found = some (etag, manifest) →
      manifest ∈ involved ∧ ∃ tag, manifestEtag crates manifest = .ok tag ∧ etag = quotedEtag tag

theorem shared_update (view : MetadataView) (readings : ℕ → Option Reading) (client : ℕ)
    (ns : String) (parts : DigestParts) (found : Option (String × TaskActionManifest)) :
    shared view (Function.update readings client (some ⟨some ns, parts, found⟩)) =
      { shared view readings with
        seen := Function.update (shared view readings).seen client
          (some ((ns, digestOf parts), found.map Prod.snd)) } := by
  unfold shared
  congr
  funext other
  by_cases hclient : other = client
  · subst hclient
    rw [Function.update_self, Function.update_self]
    rfl
  · rw [Function.update_of_ne hclient, Function.update_of_ne hclient]

theorem shared_write (view : MetadataView) (readings : ℕ → Option Reading) (key : MetadataKey)
    (record : ManifestRecord) :
    shared { view with manifest := Function.update view.manifest key (some record) } readings =
      { shared view readings with
        held := Function.update (shared view readings).held key (some record.manifest) } := by
  unfold shared
  congr
  funext other
  by_cases hkey : other = key
  · subst hkey
    show (Function.update view.manifest other (some record) other).map _ = _
    rw [Function.update_self, Function.update_self]
    rfl
  · show (Function.update view.manifest key (some record) other).map _ = _
    rw [Function.update_of_ne hkey, Function.update_of_ne hkey]

theorem Tracked.within {s : Merging M} {view : MetadataView} (h : Tracked crates involved holds s view) :
    (shared view s.readings).Within (taggable crates involved) where
  held key manifest hheld := by
    obtain ⟨record, hrecord, rfl⟩ := Option.map_eq_some_iff.mp hheld
    obtain ⟨hinvolved, htag, _⟩ := h.records key record hrecord
    exact ⟨hinvolved, _, htag⟩
  seen client key manifest hseen := by
    obtain ⟨reading, hreading, hmap⟩ := Option.bind_eq_some_iff.mp hseen
    obtain ⟨ns, _, hkey⟩ := Option.map_eq_some_iff.mp hmap
    obtain ⟨⟨etag, _⟩, hfound, rfl⟩ := Option.map_eq_some_iff.mp (Prod.mk.inj hkey).2
    obtain ⟨hinvolved, tag, htag, _⟩ := h.readings client reading hreading etag _ hfound
    exact ⟨hinvolved, tag, htag⟩

/-- An entity tag is a hash in hexadecimal. -/
theorem manifestEtag_eq_ok {manifest : TaskActionManifest} {tag : String}
    (h : manifestEtag crates manifest = .ok tag) :
    ∃ bytes, crates.canonicalJson manifest = .ok bytes ∧ tag = crates.hashText .blake3 bytes := by
  obtain ⟨bytes, hbytes, htag⟩ := bind_eq_ok.mp h
  exact ⟨bytes, mapError_eq_ok.mp hbytes, (Except.ok.inj htag).symm⟩

/-- The guard of a write that is taken compares the tags of what is there and of
what its client read. -/
theorem Tracked.current {s : Merging M} {view : MetadataView}
    (h : Tracked crates involved holds s view) {client : ℕ} {reading : Reading}
    (hreading : s.readings client = some reading) {headers : HeaderMap}
    (hguards : reading.Guards headers) {expected : Option String}
    (hguarded : manifestPrecondition headers = .ok expected) {key : MetadataKey}
    (hexpects : view.expects key expected) :
    ((view.manifest key).map ManifestRecord.manifest).map (manifestEtag crates) =
      (reading.found.map Prod.snd).map (manifestEtag crates) := by
  cases hfound : reading.found with
  | none =>
      obtain rfl := Except.ok.inj ((hguards.expects_none hfound).symm.trans hguarded)
      rw [Option.map_eq_none_iff.mp hexpects]
      rfl
  | some shown =>
      obtain ⟨etag, base⟩ := shown
      obtain ⟨_, tag, htag, rfl⟩ := h.readings client reading hreading etag base hfound
      obtain ⟨bytes, _, hhash⟩ := manifestEtag_eq_ok htag
      have hlength : tag.length = 64 := by rw [hhash, Crates.hashText_length]
      have hlower : LowerHex tag := hhash ▸ crates.lowerHex_hashText .blake3 bytes
      have hexpected := hguards.expects hfound hlength hlower
      obtain rfl := Except.ok.inj (hexpected.symm.trans hguarded)
      obtain ⟨record, hrecord, rfl⟩ := Option.map_eq_some_iff.mp hexpects
      obtain ⟨_, hetag, _⟩ := h.records key record hrecord
      rw [hrecord, Option.map_some, Option.map_some, Option.map_some, Option.map_some, htag, hetag]

/-- The steps of the system as writes that name what they replace. -/
abbrev Replaces (crates : Crates) (involved : Set TaskActionManifest) :
    CompareAndSet.Shared ℕ MetadataKey TaskActionManifest →
      CompareAndSet.Shared ℕ MetadataKey TaskActionManifest → Prop :=
  CompareAndSet.Step (manifestEtag crates) predicted (taggable crates involved)

theorem replaces_read {view : MetadataView} {readings : ℕ → Option Reading} {client : ℕ}
    {ns : String} {parts : DigestParts} {found : Option (String × TaskActionManifest)}
    (hfound : found.map Prod.snd =
      (view.manifest (ns, digestOf parts)).map ManifestRecord.manifest) :
    Replaces crates involved (shared view readings)
      (shared view (Function.update readings client (some ⟨some ns, parts, found⟩))) := by
  rw [shared_update, hfound]
  exact .read client (ns, digestOf parts)

variable (hcanonical : ∀ first second bytes, crates.canonicalJson first = .ok bytes →
  crates.canonicalJson second = .ok bytes → first = second)

include hcanonical in
/-- A question that is answered is a read. -/
theorem Tracked.get {s : Merging M} {view : MetadataView} (h : Tracked crates involved holds s view)
    {client : ℕ} {headers : HeaderMap} {parts : DigestParts}
    {answer : Except ApiError ManifestResponse} {known : Option Reading} {stores : Stores M}
    (hview : holds stores.metadata view) (htold : Told crates view headers parts answer)
    (hlearns : Learns crates headers parts (s.readings client) answer known) :
    Tracked crates involved holds ⟨stores, Function.update s.readings client known⟩ view ∧
      Replaces crates involved (shared view s.readings)
        (shared view (Function.update s.readings client known)) := by
  have htracked : (∀ reading, known = some reading → ∀ etag manifest,
      reading.found = some (etag, manifest) → manifest ∈ involved ∧
        ∃ tag, manifestEtag crates manifest = .ok tag ∧ etag = quotedEtag tag) →
      Tracked crates involved holds ⟨stores, Function.update s.readings client known⟩ view := by
    intro hknown
    refine ⟨hview, h.records, fun other reading hreading => ?_⟩
    dsimp only at hreading
    by_cases hclient : other = client
    · rw [hclient, Function.update_self] at hreading
      exact hknown reading hreading
    · rw [Function.update_of_ne hclient] at hreading
      exact h.readings other reading hreading
  cases htold with
  | shown ns record response named there etag body =>
      cases hlearns with
      | shown _ manifest hbody =>
          obtain rfl := hcanonical _ _ _ body hbody
          obtain ⟨hinvolved, htag, _⟩ := h.records _ record there
          constructor
          · apply htracked
            intro reading hreading other base hfound
            obtain rfl := Option.some.inj hreading
            obtain ⟨rfl, rfl⟩ := Prod.mk.inj (Option.some.inj hfound)
            exact ⟨hinvolved, record.etag, htag, etag⟩
          · rw [named]
            apply replaces_read
            rw [there]
            rfl
  | missing ns error named absent =>
      cases hlearns with
      | missing _ _ =>
          constructor
          · apply htracked
            intro reading hreading other base hfound
            obtain rfl := Option.some.inj hreading
            cases hfound
          · rw [named]
            apply replaces_read
            rw [absent]
            rfl
      | failed _ _ =>
          rw [Function.update_eq_self]
          exact ⟨⟨hview, h.records, h.readings⟩, .idle⟩
  | failed error unrelated =>
      cases hlearns with
      | missing _ hstatus => exact absurd hstatus unrelated.1
      | failed _ _ =>
          rw [Function.update_eq_self]
          exact ⟨⟨hview, h.records, h.readings⟩, .idle⟩

theorem seen_of_merges {view : MetadataView} {readings : ℕ → Option Reading} {client : ℕ}
    {reading : Reading} (hreading : readings client = some reading) {headers : HeaderMap}
    {parts : DigestParts} {body : ByteStream}
    (hmerges : reading.Merges crates headers parts body) {ns : String}
    (hnamed : namespaceHeader headers = some ns) :
    (shared view readings).seen client =
      some ((ns, digestOf parts), reading.found.map Prod.snd) := by
  show (readings client).bind _ = _
  rw [hreading, Option.bind_some, ← hmerges.ns, hnamed, ← hmerges.parts]
  rfl

/-- A write that takes effect replaces what its client had read. -/
theorem Tracked.put {s : Merging M} {view view' : MetadataView}
    (h : Tracked crates involved holds s view) {client : ℕ} {headers : HeaderMap}
    {parts : DigestParts} {body : ByteStream} {answer : Except ApiError (StatusCode × String)}
    {stores : Stores M} (hview : holds stores.metadata view') {reading : Reading}
    (hreading : s.readings client = some reading)
    (hmerges : reading.Merges crates headers parts body)
    (hsubmitted : ∀ manifest, Submits crates body manifest → manifest ∈ involved)
    (hwrote : Wrote crates view headers parts body answer view') :
    Tracked crates involved holds { s with stores } view' ∧
      Replaces crates involved (shared view s.readings) (shared view' s.readings) := by
  cases hwrote with
  | nothing error => exact ⟨⟨hview, h.records, h.readings⟩, .idle⟩
  | replaced _ ns manifest expected etag named submitted selects guarded tagged expects =>
      constructor
      · refine ⟨hview, fun key record hrecord => ?_, h.readings⟩
        dsimp only at hrecord
        by_cases hkey : key = (ns, digestOf parts)
        · rw [hkey, Function.update_self] at hrecord
          obtain rfl := Option.some.inj hrecord
          exact ⟨hsubmitted manifest submitted, tagged, by rw [hkey, selects]⟩
        · rw [Function.update_of_ne hkey] at hrecord
          exact h.records key record hrecord
      · rw [shared_write]
        have hallowed : manifest ∈ taggable crates involved :=
          ⟨hsubmitted manifest submitted, etag, tagged⟩
        apply CompareAndSet.Step.write client (ns, digestOf parts) (reading.found.map Prod.snd)
          manifest hallowed
        · constructor
          · exact seen_of_merges hreading hmerges named
          · intro base hbase prediction hprediction
            obtain ⟨⟨etag', _⟩, hfound, rfl⟩ := Option.map_eq_some_iff.mp hbase
            exact hmerges.keeps manifest submitted etag' _ hfound prediction hprediction
        · exact h.current hreading hmerges.guards guarded expects

variable (hmeets : ∀ now, MeetsSpec (exec now) holds)

include hcanonical hmeets in
/-- One exchange is one step of the abstract system. -/
theorem Tracked.step {s t : Merging M} {view : MetadataView} (h : Tracked crates involved holds s view)
    {exchange : Exchange} (hstep : Merging.Step crates state involved exec s exchange t) :
    ∃ view', Tracked crates involved holds t view' ∧
      Replaces crates involved (shared view s.readings) (shared view' t.readings) := by
  cases hstep with
  | get now client headers parts answer stores known executes learns =>
      obtain ⟨hview, htold⟩ := getActionManifest_spec (hmeets now) h.holds executes
      exact ⟨view, h.get hcanonical hview htold learns⟩
  | put now client headers parts body answer stores reading known merges submitted executes =>
      obtain ⟨view', hview, hwrote⟩ := putActionManifest_spec (hmeets now) h.holds executes
      exact ⟨view', h.put hview known merges submitted hwrote⟩

include hcanonical hmeets in
theorem Tracked.later {s t : Merging M} {view : MetadataView}
    (h : Tracked crates involved holds s view)
    (hlater : Merging.Later crates state involved exec s t) :
    ∃ view', Tracked crates involved holds t view' ∧
      Relation.ReflTransGen (Replaces crates involved) (shared view s.readings)
        (shared view' t.readings) := by
  induction hlater with
  | refl => exact ⟨view, h, .refl⟩
  | tail _ hstep ih =>
      obtain ⟨exchange, hstep⟩ := hstep
      obtain ⟨middle, hmiddle, hrun⟩ := ih
      obtain ⟨view', htracked, hreplaces⟩ := hmiddle.step hcanonical hmeets hstep
      exact ⟨view', htracked, hrun.tail hreplaces⟩

theorem tracked_start {empty : M} (hempty : holds empty MetadataView.empty) :
    Tracked crates involved holds (Merging.start empty) MetadataView.empty where
  holds := hempty
  records _ _ hrecord := by cases hrecord
  readings _ _ hreading := by cases hreading

variable {stored : M → MetadataKey → Option ManifestRecord}
  (hstored : ∀ m view, holds m view → ∀ key, stored m key = view.manifest key)

include hstored in
theorem Tracked.predictions {s : Merging M} {view : MetadataView}
    (h : Tracked crates involved holds s view) (key : MetadataKey) :
    s.predictions stored key = (shared view s.readings).items predicted key := by
  ext prediction
  constructor
  · rintro ⟨record, hrecord, hmem⟩
    rw [hstored _ view h.holds] at hrecord
    exact ⟨record.manifest, Option.map_eq_some_iff.mpr ⟨record, hrecord, rfl⟩, hmem⟩
  · rintro ⟨manifest, hheld, hmem⟩
    obtain ⟨record, hrecord, rfl⟩ := Option.map_eq_some_iff.mp hheld
    exact ⟨record, by rw [hstored _ view h.holds, hrecord], hmem⟩

variable (hcollision : ∀ first ∈ involved, ∀ second ∈ involved, ∀ bytes bytes',
  crates.canonicalJson first = .ok bytes → crates.canonicalJson second = .ok bytes' →
    crates.hashText .blake3 bytes = crates.hashText .blake3 bytes' → bytes = bytes')

include hcanonical hcollision in
/-- Entity tags tell the involved manifests apart. -/
theorem injOn_manifestEtag : Set.InjOn (manifestEtag crates) (taggable crates involved) := by
  intro first hfirst second hsecond heq
  obtain ⟨hfirst, tag, htag⟩ := hfirst
  obtain ⟨bytes, hbytes, hhash⟩ := manifestEtag_eq_ok htag
  obtain ⟨bytes', hbytes', hhash'⟩ := manifestEtag_eq_ok (heq ▸ htag)
  have hsame := hcollision first hfirst second hsecond.1 bytes bytes' hbytes hbytes'
    (hhash.symm.trans hhash')
  exact hcanonical first second bytes hbytes (hsame ▸ hbytes')

include hcanonical hmeets hstored hcollision in
/-- What is stored along a run of the system only grows. -/
theorem Tracked.grows {s t : Merging M} {view : MetadataView} (h : Tracked crates involved holds s view)
    (hlater : Merging.Later crates state involved exec s t) (key : MetadataKey) :
    s.predictions stored key ⊆ t.predictions stored key := by
  obtain ⟨view', htracked, hrun⟩ := h.later hcanonical hmeets hlater
  rw [h.predictions hstored, htracked.predictions hstored]
  exact (CompareAndSet.grows_of_run (injOn_manifestEtag hcanonical hcollision) hrun h.within).2 key

include hcanonical hmeets hstored hcollision in
/-- A store that meets its purpose loses no update. -/
theorem noLostUpdate {empty : M} (hempty : holds empty MetadataView.empty)
    (hsame : ∀ now ns key expected etag manifest m,
      (exec now (.commitManifest ns key expected etag manifest) m).1 = .ok .preconditionFailed →
        (exec now (.commitManifest ns key expected etag manifest) m).2 = m) :
    Merging.NoLostUpdate crates state involved exec stored empty where
  consistent s hs ns key record hrecord := by
    obtain ⟨view, htracked, _⟩ := (tracked_start hempty).later hcanonical hmeets hs
    rw [hstored _ view htracked.holds] at hrecord
    obtain ⟨_, htag, hselects⟩ := htracked.records _ record hrecord
    exact ⟨manifestEtag_eq_ok htag, hselects⟩
  grows s t hs hlater key := by
    obtain ⟨view, htracked, _⟩ := (tracked_start hempty).later hcanonical hmeets hs
    exact htracked.grows hcanonical hmeets hstored hcollision hlater key
  accepted s t client headers parts body answer hs hstep := by
    obtain ⟨view, htracked, _⟩ := (tracked_start hempty).later hcanonical hmeets hs
    cases hstep with
    | put now _ _ _ _ _ stores reading known merges submitted executes =>
        obtain ⟨view', hview, hwrote⟩ := putActionManifest_spec (hmeets now) htracked.holds executes
        have hlater := (htracked.put hview known merges submitted hwrote).1
        cases hwrote with
        | replaced _ ns manifest expected etag named submits selects guarded tagged expects =>
            have hbase := htracked.within.held_eq (injOn_manifestEtag hcanonical hcollision)
              (seen_of_merges known merges named)
              (htracked.current known merges.guards guarded expects)
            have hafter : stored stores.metadata (ns, digestOf parts) = some ⟨etag, manifest⟩ := by
              rw [hstored _ _ hview]
              exact Function.update_self ..
            refine ⟨reading, ns, manifest, known, named, submits, ?_, ?_, ?_⟩
            · rw [hstored _ view htracked.holds]
              exact hbase
            · exact congrArg (Option.map ManifestRecord.manifest) hafter
            · intro u hu prediction hmem
              apply hlater.grows hcanonical hmeets hstored hcollision hu
              exact ⟨⟨etag, manifest⟩, hafter, hmem⟩
  refused s t client headers parts body error hs hstep hstatus := by
    cases hstep with
    | put now _ _ _ _ _ stores reading known merges submitted executes =>
        obtain rfl := putActionManifest_refused_same (hsame now) executes hstatus
        rfl

end Refinement

/-! ## Both stores -/

theorem memory_stored {crates : Crates} (store : MemoryMetadata) (view : MetadataView)
    (h : MemoryMetadata.Holds crates store view) (key : MetadataKey) :
    store.stored key = view.manifest key :=
  (h.manifest key).symm

theorem postgres_stored {crates : Crates} (htrips : crates.RoundTrips) (db : Database)
    (view : MetadataView) (h : PostgresMetadata.Holds crates db view) (key : MetadataKey) :
    PostgresMetadata.stored crates db key = view.manifest key := by
  rw [PostgresMetadata.stored, h.find_manifest htrips]
  rfl

theorem memory_commitManifest_refused {crates : Crates} (ns : String) (key : Digest)
    (expected : Option String) (etag : String) (manifest : TaskActionManifest)
    (store : MemoryMetadata)
    (h : (MemoryMetadata.exec crates (.commitManifest ns key expected etag manifest) store).1 =
      .ok .preconditionFailed) :
    (MemoryMetadata.exec crates (.commitManifest ns key expected etag manifest) store).2 =
      store :=
  commitManifest_unchanged (Except.ok.inj h)

/-- A manifest statement that affects no row leaves the tables as they were. -/
theorem execute_writeManifest_zero {now : ℕ} {ns : String} {key : Digest}
    {expected : Option String} {etag : String} {manifest : Json} {db later : Database}
    (h : run (Database.execute now)
      (PostgresMetadata.writeManifest ns key expected etag manifest) db = (.ok 0, later)) :
    later = db := by
  cases expected with
  | none =>
      have h : db.execute now (.insertManifest (rowKey ns key) etag manifest) = (.ok 0, later) := h
      rw [Database.execute] at h
      split at h
      · rw [Database.perform] at h
        split at h
        · obtain ⟨hrows, rfl⟩ := Prod.mk.inj h
          rw [Table.insertNew_of_affected_zero (Except.ok.inj hrows)]
        · cases h
      · cases h
  | some expected =>
      have h : db.execute now (.updateManifest (rowKey ns key) etag manifest expected) =
        (.ok 0, later) := h
      rw [Database.execute] at h
      split at h
      · rw [Database.perform, Database.updateManifest] at h
        obtain ⟨hrows, rfl⟩ := Prod.mk.inj h
        dsimp only at hrows ⊢
        rw [Table.updateWhere_of_affected_zero (Except.ok.inj hrows)]
      · cases h

theorem postgres_commitManifest_refused {crates : Crates} (now : ℕ) (ns : String) (key : Digest)
    (expected : Option String) (etag : String) (manifest : TaskActionManifest) (db : Database)
    (h : (PostgresMetadata.exec crates now (.commitManifest ns key expected etag manifest) db).1 =
      .ok .preconditionFailed) :
    (PostgresMetadata.exec crates now (.commitManifest ns key expected etag manifest) db).2 =
      db := by
  cases hexec :
      PostgresMetadata.exec crates now (.commitManifest ns key expected etag manifest) db with
  | mk answer later =>
  rw [hexec] at h
  obtain rfl : answer = .ok .preconditionFailed := h
  obtain ⟨encoded, _, hrest⟩ := exists_of_run_lift_ok _ hexec
  obtain ⟨rows, middle, hwrite, hrest⟩ := exists_of_run_bind_ok _ hrest
  obtain ⟨hanswer, rfl⟩ := Prod.mk.inj hrest
  have hzero : rows = 0 := by
    by_contra hne
    rw [if_neg hne] at hanswer
    split at hanswer <;> cases hanswer
  subst hzero
  exact execute_writeManifest_zero hwrite

/-- No update of an action manifest is lost, whichever store keeps it. -/
theorem manifest_updates_kept (crates : Crates) (state : AppState)
    (involved : Set TaskActionManifest) (hrules : crates.digests.Documented)
    (htrips : crates.RoundTrips)
    (hcanonical : ∀ first second bytes, crates.canonicalJson first = .ok bytes →
      crates.canonicalJson second = .ok bytes → first = second)
    (hcollision : ∀ first ∈ involved, ∀ second ∈ involved, ∀ bytes bytes',
      crates.canonicalJson first = .ok bytes → crates.canonicalJson second = .ok bytes' →
        crates.hashText .blake3 bytes = crates.hashText .blake3 bytes' → bytes = bytes') :
    Merging.NoLostUpdate crates state involved (fun _ => MemoryMetadata.exec crates)
        MemoryMetadata.stored MemoryMetadata.empty ∧
      Merging.NoLostUpdate crates state involved (PostgresMetadata.exec crates)
        (PostgresMetadata.stored crates) Database.empty := by
  constructor
  · exact noLostUpdate hcanonical (fun _ => MemoryMetadata.meetsSpec htrips) memory_stored
      hcollision MemoryMetadata.holds_empty fun _ => memory_commitManifest_refused
  · exact noLostUpdate hcanonical (PostgresMetadata.meetsSpec hrules htrips)
      (postgres_stored htrips) hcollision PostgresMetadata.holds_empty
      postgres_commitManifest_refused

/-- A client that is told there is no manifest may write one. -/
theorem exists_created {crates : Crates} {state : AppState} {involved : Set TaskActionManifest}
    {headers : HeaderMap} {parts : DigestParts} {body : ByteStream} {error : ApiError}
    (hmissing : (run (Stores.exec .whole (MemoryMetadata.exec crates))
      (getActionManifest crates state headers parts)
      (Merging.start MemoryMetadata.empty).stores).1 = .error error)
    (hstatus : error.status = 404)
    (hwritten : (run (Stores.exec .whole (MemoryMetadata.exec crates))
      (putActionManifest crates state headers parts body)
      (run (Stores.exec .whole (MemoryMetadata.exec crates))
        (getActionManifest crates state headers parts)
        (Merging.start MemoryMetadata.empty).stores).2).1.isOk = true)
    (hguard : headers.get "if-none-match" = some "*")
    (hinvolved : ∀ manifest, Submits crates body manifest → manifest ∈ involved) :
    ∃ s t answer, Merging.Later crates state involved (fun _ => MemoryMetadata.exec crates)
        (Merging.start MemoryMetadata.empty) s ∧
      Merging.Step crates state involved (fun _ => MemoryMetadata.exec crates) s
        (.put 0 headers parts body (.ok answer)) t := by
  have hdet : ∀ op stores, Stores.Answers (MemoryMetadata.exec crates) op stores
      (Stores.exec .whole (MemoryMetadata.exec crates) op stores).1
      (Stores.exec .whole (MemoryMetadata.exec crates) op stores).2 :=
    fun op stores => .answered .whole op stores
  have hasked := executes_run hdet (getActionManifest crates state headers parts)
    (Merging.start MemoryMetadata.empty).stores
  rw [hmissing] at hasked
  obtain ⟨answer, hanswer⟩ := exists_of_isOk hwritten
  have hput := executes_run hdet (putActionManifest crates state headers parts body)
    (run (Stores.exec .whole (MemoryMetadata.exec crates))
      (getActionManifest crates state headers parts) (Merging.start MemoryMetadata.empty).stores).2
  rw [hanswer] at hput
  have hmerges : (⟨namespaceHeader headers, parts, none⟩ : Reading).Merges crates headers parts
      body :=
    ⟨rfl, rfl, hguard, fun _ _ _ _ hfound => by cases hfound⟩
  have hknown : Function.update (fun _ => none) 0
      (some (⟨namespaceHeader headers, parts, none⟩ : Reading)) 0 = some _ :=
    Function.update_self 0 _ _
  exact ⟨_, _, answer, .single ⟨_, .get 0 0 _ _ _ _ _ hasked (.missing _ hstatus)⟩,
    .put 0 0 _ _ _ _ _ _ hknown hmerges hinvolved hput⟩

/-- Two manifests of one task, and a client that is told there is none and writes
the first. -/
theorem manifest_updates_kept_sample :
    let involved : Set TaskActionManifest :=
      { manifest | manifest ∈ Sample.manifestTable.map Prod.fst }
    let first := Sample.manifest [Sample.taskActionDigest]
    (Merging.NoLostUpdate Sample.crates Sample.state involved
        (fun _ => MemoryMetadata.exec Sample.crates) MemoryMetadata.stored MemoryMetadata.empty ∧
      Merging.NoLostUpdate Sample.crates Sample.state involved
        (PostgresMetadata.exec Sample.crates) (PostgresMetadata.stored Sample.crates)
        Database.empty) ∧
      ∃ s t answer, Merging.Later Sample.crates Sample.state involved
          (fun _ => MemoryMetadata.exec Sample.crates) (Merging.start MemoryMetadata.empty) s ∧
        Merging.Step Sample.crates Sample.state involved (fun _ => MemoryMetadata.exec Sample.crates)
          s (.put 0 Sample.headers (partsOf (Sample.selectorDigest first))
            [.ok (Sample.manifestText first)] (.ok answer)) t := by
  intro involved first
  constructor
  · apply manifest_updates_kept Sample.crates Sample.state involved Sample.documented
      Sample.roundTrips
    · intro manifest manifest' bytes hbytes hbytes'
      have hsame : Sample.toVec Sample.manifestTable manifest =
          Sample.toVec Sample.manifestTable manifest' :=
        Except.ok.inj (hbytes.trans hbytes'.symm)
      apply Option.some.inj
      rw [← Sample.fromSlice_toVec Sample.distinct_manifestTable manifest, hsame,
        Sample.fromSlice_toVec Sample.distinct_manifestTable manifest']
    · intro manifest hmanifest manifest' hmanifest' bytes bytes' hbytes hbytes'
      obtain rfl : Sample.toVec Sample.manifestTable manifest = bytes := Except.ok.inj hbytes
      obtain rfl : Sample.toVec Sample.manifestTable manifest' = bytes' := Except.ok.inj hbytes'
      have hdistinct : ∀ manifest ∈ Sample.manifestTable.map Prod.fst,
          ∀ manifest' ∈ Sample.manifestTable.map Prod.fst,
          Sample.crates.hashText .blake3 (Sample.toVec Sample.manifestTable manifest) =
              Sample.crates.hashText .blake3 (Sample.toVec Sample.manifestTable manifest') →
            Sample.toVec Sample.manifestTable manifest =
              Sample.toVec Sample.manifestTable manifest' := by
        decide +kernel
      exact hdistinct manifest hmanifest manifest' hmanifest'
  · have hmissing : (run (Stores.exec .whole (MemoryMetadata.exec Sample.crates))
        (getActionManifest Sample.crates Sample.state Sample.headers
          (partsOf (Sample.selectorDigest first)))
        (Merging.start MemoryMetadata.empty).stores).1 =
          .error (.notFound "action manifest not found") := by
      decide +kernel
    apply exists_created hmissing rfl
    · decide +kernel
    · decide
    · rintro manifest ⟨bytes, hread, hparse⟩
      obtain rfl : Sample.manifestText first ++ [] = bytes := Except.ok.inj hread
      have htext : Sample.manifestText first = Sample.toVec Sample.manifestTable first := by
        decide +kernel
      have hfirst := Sample.fromSlice_toVec Sample.distinct_manifestTable first
      have hreader : ∀ bytes, Sample.crates.manifestFromSlice bytes =
          Sample.found (Sample.fromSlice Sample.manifestTable bytes) := fun _ => rfl
      rw [List.append_nil, htext, hreader, hfirst] at hparse
      have hmem : first ∈ Sample.manifestTable.map Prod.fst := by decide +kernel
      exact Except.ok.inj hparse ▸ hmem

end Server

end MbxCache
