/-
# The Azure store

Objects as blobs under a key that spells their digest. An empty object is created
with one request. Any other is first written to a staging object under a random key
and then copied by the service, which may answer while the destination is still an
empty pending blob; so a put asks for the last byte of the destination before it
returns, whether it was the one that created it or not.

Callers move in any order. The service completes a copy it has accepted at any later
time if the staging object is still there, and may remove staging objects on its own.
-/

import MbxCache.Crates
import MbxCache.Foundation.PutIfAbsent
import MbxCache.Metadata.Store

namespace MbxCache

open Foundation

/-- Names in the object store, and how a digest spells its own. -/
structure ObjectNames (Path : Type) where
  objectPath : String → Path
  digestKey : Digest → String

structure AzureStore where
  storePrefix : String

namespace AzureStore

variable {Path : Type}

section

variable (names : ObjectNames Path) (store : AzureStore)

def key (digest : Digest) : Path :=
  names.objectPath (store.storePrefix ++ "/blobs/" ++ names.digestKey digest)

def uploadKey (uuid : String) : Path :=
  names.objectPath (store.storePrefix ++ "/uploads/" ++ uuid)

end

/-- A path spells its components: digests the service accepts have different keys,
and none of them is a key of a staging object. -/
structure Documented (names : ObjectNames Path) (rules : DigestRules) : Prop where
  digest : ∀ store digest digest', rules.validate digest = true → rules.validate digest' = true →
    key names store digest = key names store digest' → digest = digest'
  upload : ∀ store digest uuid, key names store digest ≠ uploadKey names store uuid

/-- What is under a key. A pending blob is empty until the service has copied the
staging object to it. -/
inductive Blob (Path : Type) where
  | committed (content : Bytes)
  | pending (upload : Path)

/-- The bytes from the first position up to the second, if the first one is there. -/
def Blob.getRange : Blob Path → UInt64 × UInt64 → Option Bytes
  | .committed content, range =>
      if range.1.toNat < content.length then
        some ((content.drop range.1.toNat).take (range.2.toNat - range.1.toNat))
      else none
  | .pending _, _ => none

/-- Only committed content is read. -/
theorem Blob.committed_of_getRange {blob : Blob Path} {range : UInt64 × UInt64} {read : Bytes}
    (h : blob.getRange range = some read) : ∃ content, blob = .committed content := by
  cases blob with
  | committed content => exact ⟨content, rfl⟩
  | pending upload => cases h

/-- The range `wait_until_readable` asks for. -/
def lastByte (size : UInt64) : UInt64 × UInt64 := (size - 1, size)

/-- How many times it asks. -/
def ATTEMPTS : ℕ := 120

/-! ## Calls -/

/-- Where a put stands. The last stage is after its caller has registered the blob. -/
inductive PutStage (Path : Type) where
  | starting
  | copying (upload : Path)
  | written (upload : Path)
  | losing (upload : Path)
  | failing (upload : Path) (error : String)
  | waiting (outcome : PutOutcome) (polls : ℕ)
  | returned (answer : Except String PutOutcome)
  | registered (outcome : PutOutcome)

/-- A put with what is known about it: the key it stages under once it has chosen
one, whether its request to create the destination took effect, and whether it failed
to delete its staging object. -/
structure PutCall (Path : Type) where
  digest : Digest
  source : Bytes
  stage : PutStage Path
  upload : Option Path
  accepted : Bool
  deleteFailed : Bool

abbrev Objects (Path : Type) := Path → Option (Blob Path)

/-- What a put does once it has tried to delete its staging object. -/
def PutStage.afterDelete : PutStage Path → Option (Path × PutStage Path)
  | .losing upload => some (upload, .waiting .alreadyExists 0)
  | .failing upload error => some (upload, .returned (.error error))
  | _ => none

/-- The key of the staging object a stage is about. -/
def PutStage.upload : PutStage Path → Option Path
  | .copying upload | .written upload | .losing upload | .failing upload _ => some upload
  | _ => none

theorem PutStage.upload_of_afterDelete {stage next : PutStage Path} {upload : Path}
    (h : stage.afterDelete = some (upload, next)) : stage.upload = some upload := by
  cases stage with
  | losing held =>
      cases h
      rfl
  | failing held error =>
      cases h
      rfl
  | _ => cases h

variable [DecidableEq Path]

/-- One step of a put. A request that reports an error may have taken effect. -/
inductive PutStep (destination : Path) (staging : Path → Prop) (blobs : Objects Path)
    (call : PutCall Path) : Objects Path → PutCall Path → Prop where
  | emptyCreated (size : call.digest.size = 0) (stage : call.stage = .starting)
      (vacant : blobs destination = none) :
      PutStep destination staging blobs call
        (Function.update blobs destination (some (.committed [])))
        { call with stage := .returned (.ok .created), accepted := true }
  | emptyExists (size : call.digest.size = 0) (stage : call.stage = .starting)
      (there : blobs destination ≠ none) :
      PutStep destination staging blobs call blobs
        { call with stage := .returned (.ok .alreadyExists) }
  | emptyLost (error : String) (size : call.digest.size = 0) (stage : call.stage = .starting)
      (vacant : blobs destination = none) :
      PutStep destination staging blobs call
        (Function.update blobs destination (some (.committed [])))
        { call with stage := .returned (.error error), accepted := true }
  | failed (error : String)
      (early : call.stage = .starting ∨ ∃ upload, call.stage = .copying upload) :
      PutStep destination staging blobs call blobs { call with stage := .returned (.error error) }
  | opened (upload : Path) (size : call.digest.size ≠ 0) (stage : call.stage = .starting)
      (fresh : staging upload) (vacant : blobs upload = none) :
      PutStep destination staging blobs call blobs
        { call with stage := .copying upload, upload := some upload }
  | shutdown (upload : Path) (stage : call.stage = .copying upload) :
      PutStep destination staging blobs call
        (Function.update blobs upload (some (.committed call.source)))
        { call with stage := .written upload }
  | shutdownFailed (upload : Path) (error : String) (left : Objects Path)
      (stage : call.stage = .copying upload)
      (effect : left = blobs ∨
        left = Function.update blobs upload (some (.committed call.source))) :
      PutStep destination staging blobs call left { call with stage := .failing upload error }
  | accepted (upload : Path) (stage : call.stage = .written upload)
      (vacant : blobs destination = none) :
      PutStep destination staging blobs call
        (Function.update blobs destination (some (.pending upload)))
        { call with stage := .waiting .created 0, accepted := true }
  | occupied (upload : Path) (stage : call.stage = .written upload)
      (there : blobs destination ≠ none) :
      PutStep destination staging blobs call blobs { call with stage := .losing upload }
  | copyFailed (upload : Path) (error : String) (stage : call.stage = .written upload) :
      PutStep destination staging blobs call blobs { call with stage := .failing upload error }
  | copyLost (upload : Path) (error : String) (stage : call.stage = .written upload)
      (vacant : blobs destination = none) :
      PutStep destination staging blobs call
        (Function.update blobs destination (some (.pending upload)))
        { call with stage := .failing upload error, accepted := true }
  | deleted (upload : Path) (next : PutStage Path)
      (stage : call.stage.afterDelete = some (upload, next)) :
      PutStep destination staging blobs call (Function.update blobs upload none)
        { call with stage := next }
  | deleteFailed (upload : Path) (next : PutStage Path) (left : Objects Path)
      (stage : call.stage.afterDelete = some (upload, next))
      (effect : left = blobs ∨ left = Function.update blobs upload none) :
      PutStep destination staging blobs call left
        { call with stage := next, deleteFailed := true }
  | readable (outcome : PutOutcome) (polls : ℕ) (blob : Blob Path) (content : Bytes)
      (stage : call.stage = .waiting outcome polls) (more : polls < ATTEMPTS)
      (there : blobs destination = some blob)
      (read : blob.getRange (lastByte call.digest.size) = some content) :
      PutStep destination staging blobs call blobs { call with stage := .returned (.ok outcome) }
  | unreadable (outcome : PutOutcome) (polls : ℕ) (stage : call.stage = .waiting outcome polls)
      (more : polls < ATTEMPTS) :
      PutStep destination staging blobs call blobs
        { call with stage := .waiting outcome (polls + 1) }
  | gaveUp (outcome : PutOutcome) (error : String)
      (stage : call.stage = .waiting outcome ATTEMPTS) :
      PutStep destination staging blobs call blobs { call with stage := .returned (.error error) }
  | registered (outcome : PutOutcome) (stage : call.stage = .returned (.ok outcome)) :
      PutStep destination staging blobs call blobs { call with stage := .registered outcome }

/-! ## What one step does -/

/-- The effect of a step on the objects, and on the two facts about the call that
others depend on. -/
inductive Effect (destination : Path) (staging : Path → Prop) (blobs : Objects Path)
    (call : PutCall Path) : Objects Path → PutCall Path → Prop where
  | idle (call' : PutCall Path) (same : call'.upload = call.upload)
      (accepted : call'.accepted = call.accepted) :
      Effect destination staging blobs call blobs call'
  | chosen (call' : PutCall Path) (upload : Path) (size : call.digest.size ≠ 0)
      (fresh : staging upload) (vacant : blobs upload = none) (first : call.upload = none)
      (mine : call'.upload = some upload) (accepted : call'.accepted = call.accepted) :
      Effect destination staging blobs call blobs call'
  | staged (call' : PutCall Path) (upload : Path) (blob : Option (Blob Path))
      (mine : call.upload = some upload) (content : blob = none ∨ blob = some (.committed call.source))
      (same : call'.upload = call.upload) (accepted : call'.accepted = call.accepted) :
      Effect destination staging blobs call (Function.update blobs upload blob) call'
  | created (call' : PutCall Path) (blob : Blob Path) (vacant : blobs destination = none)
      (content : call.digest.size = 0 ∧ blob = .committed [] ∨
        ∃ upload, call.upload = some upload ∧ blob = .pending upload)
      (same : call'.upload = call.upload) (accepted : call'.accepted = true) :
      Effect destination staging blobs call (Function.update blobs destination (some blob)) call'

section

variable {destination : Path} {staging : Path → Prop} {blobs blobs' : Objects Path}
  {call call' : PutCall Path}

theorem PutStep.effect (h : PutStep destination staging blobs call blobs' call')
    (hown : ∀ upload, call.stage.upload = some upload → call.upload = some upload)
    (hfirst : call.stage = .starting → call.upload = none) :
    Effect destination staging blobs call blobs' call' := by
  cases h with
  | emptyCreated size stage vacant => exact .created _ _ vacant (.inl ⟨size, rfl⟩) rfl rfl
  | emptyExists size stage there => exact .idle _ rfl rfl
  | emptyLost error size stage vacant => exact .created _ _ vacant (.inl ⟨size, rfl⟩) rfl rfl
  | failed error early => exact .idle _ rfl rfl
  | opened upload size stage fresh vacant => exact .chosen _ upload size fresh vacant (hfirst stage) rfl rfl
  | shutdown upload stage =>
      exact .staged _ upload _ (hown upload (stage ▸ rfl)) (.inr rfl) rfl rfl
  | shutdownFailed upload error left stage effect =>
      obtain rfl | rfl := effect
      · exact .idle _ rfl rfl
      · exact .staged _ upload _ (hown upload (stage ▸ rfl)) (.inr rfl) rfl rfl
  | accepted upload stage vacant =>
      exact .created _ _ vacant (.inr ⟨upload, hown upload (stage ▸ rfl), rfl⟩) rfl rfl
  | occupied upload stage there => exact .idle _ rfl rfl
  | copyFailed upload error stage => exact .idle _ rfl rfl
  | copyLost upload error stage vacant =>
      exact .created _ _ vacant (.inr ⟨upload, hown upload (stage ▸ rfl), rfl⟩) rfl rfl
  | deleted upload next stage =>
      have hmine := hown upload (PutStage.upload_of_afterDelete stage)
      exact .staged _ upload none hmine (.inl rfl) rfl rfl
  | deleteFailed upload next left stage effect =>
      have hmine := hown upload (PutStage.upload_of_afterDelete stage)
      obtain rfl | rfl := effect
      · exact .idle _ rfl rfl
      · exact .staged _ upload none hmine (.inl rfl) rfl rfl
  | readable outcome polls blob content stage more there read => exact .idle _ rfl rfl
  | unreadable outcome polls stage more => exact .idle _ rfl rfl
  | gaveUp outcome error stage => exact .idle _ rfl rfl
  | registered outcome stage => exact .idle _ rfl rfl

theorem PutStep.same (h : PutStep destination staging blobs call blobs' call') :
    call'.digest = call.digest ∧ call'.source = call.source := by
  cases h <;> exact ⟨rfl, rfl⟩

theorem PutStep.accepted_of_accepted (h : PutStep destination staging blobs call blobs' call')
    (haccepted : call.accepted = true) : call'.accepted = true := by
  cases h with
  | emptyCreated size stage vacant => rfl
  | emptyLost error size stage vacant => rfl
  | accepted upload stage vacant => rfl
  | copyLost upload error stage vacant => rfl
  | _ => exact haccepted

end

/-! ## The system -/

/-- The objects and every put that was ever called. -/
structure Running (Path : Type) where
  blobs : Objects Path
  puts : List (PutCall Path)

namespace Running

variable (names : ObjectNames Path) (store : AzureStore) (rules : DigestRules)

/-- A key for a staging object that nobody has chosen before. -/
def Staging (s : Running Path) (upload : Path) : Prop :=
  (∃ uuid, upload = uploadKey names store uuid) ∧ ∀ call ∈ s.puts, call.upload ≠ some upload

/-- A put is called with a source of the declared size, takes a step, or the service
completes a copy or removes a staging object. -/
inductive Step (s : Running Path) : Running Path → Prop where
  | called (digest : Digest) (source : Bytes) (valid : rules.validate digest = true)
      (declared : source.length = digest.size.toNat) :
      Step s { s with puts := s.puts ++ [⟨digest, source, .starting, none, false, false⟩] }
  | put (before after : List (PutCall Path)) (call call' : PutCall Path) (blobs : Objects Path)
      (puts : s.puts = before ++ call :: after)
      (taken : PutStep (key names store call.digest) (s.Staging names store) s.blobs call
        blobs call') :
      Step s { s with blobs, puts := before ++ call' :: after }
  | completed (destination upload : Path) (content : Bytes)
      (pending : s.blobs destination = some (.pending upload))
      (staged : s.blobs upload = some (.committed content)) :
      Step s
        { s with blobs := Function.update s.blobs destination (some (.committed content)) }
  | expired (uuid : String) :
      Step s { s with blobs := Function.update s.blobs (uploadKey names store uuid) none }

/-- A container in which nothing has been put. -/
def Fresh (blobs : Objects Path) : Prop :=
  ∀ digest, rules.validate digest = true → blobs (key names store digest) = none

/-- The states of all runs in such a container. -/
inductive Reachable : Running Path → Prop where
  | start (blobs : Objects Path) (fresh : Fresh names store rules blobs) : Reachable ⟨blobs, []⟩
  | step {s t : Running Path} (prior : Reachable s) (taken : Step names store rules s t) :
      Reachable t

end Running

end AzureStore

end MbxCache
