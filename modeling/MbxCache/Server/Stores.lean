/-
# The stores behind the handlers

Objects by digest, put if absent, and a metadata store beside them. `exec` is what
the stores do while nothing fails. `Answers` is what a handler may see of one
call: besides the right answer a failure, with or without the effect of the call,
and an object whose stream breaks off.

Nothing is ever removed, so the stores are ordered by what they hold.
-/

import Mathlib.Logic.Function.Basic
import Mathlib.Order.Basic
import MbxCache.Metadata.Memory
import MbxCache.Server.Operations

namespace MbxCache.Server

open Foundation

/-- Objects by digest, and the metadata of all namespaces. -/
structure Stores (M : Type) where
  blobs : Digest → Option Bytes
  metadata : M

/-- How a store cuts an object into chunks. -/
structure Chunking where
  chunks : Bytes → List Bytes
  flatten_chunks : ∀ content, (chunks content).flatten = content

/-- One chunk for the whole object. -/
def Chunking.whole : Chunking where
  chunks content := [content]
  flatten_chunks := by simp

namespace Stores

variable {M : Type}

/-- Put-if-absent. -/
def putObject (stores : Stores M) (digest : Digest) (source : Bytes) : PutOutcome × Stores M :=
  match stores.blobs digest with
  | some _ => (.alreadyExists, stores)
  | none => (.created, { stores with blobs := Function.update stores.blobs digest (some source) })

/-- A stored object as it is served. -/
def blobOf (chunking : Chunking) (content : Bytes) : Blob where
  size := content.length
  stream := (chunking.chunks content).map .ok

/-- The stores while nothing fails. -/
def exec (chunking : Chunking) (metadata : (op : MetadataOp) → M → op.Answer × M) :
    (op : StoreOp) → Stores M → op.Answer × Stores M
  | .blobs (.get digest), stores =>
      (.ok ((stores.blobs digest).map (blobOf chunking)), stores)
  | .blobs (.put digest source), stores =>
      (.ok (stores.putObject digest source).1, (stores.putObject digest source).2)
  | .metadata op, stores =>
      ((metadata op stores.metadata).1, { stores with metadata := (metadata op stores.metadata).2 })

/-- One call as a handler may see it. -/
inductive Answers (metadata : (op : MetadataOp) → M → op.Answer × M) :
    (op : StoreOp) → Stores M → op.Answer → Stores M → Prop where
  | answered (chunking : Chunking) (op : StoreOp) (stores : Stores M) :
      Answers metadata op stores (exec chunking metadata op stores).1
        (exec chunking metadata op stores).2
  | refused (op : StoreOp) (stores : Stores M) (error : String) :
      Answers metadata op stores (.error error) stores
  | lost (op : StoreOp) (stores : Stores M) (error : String) :
      Answers metadata op stores (.error error) (exec .whole metadata op stores).2
  | interrupted (stores : Stores M) (digest : Digest) (content : Bytes) (chunks : List Bytes)
      (error : String) (held : stores.blobs digest = some content)
      (sent : chunks.flatten <+: content) :
      Answers metadata (.blobs (.get digest)) stores
        (.ok (some { size := content.length, stream := chunks.map .ok ++ [.error error] })) stores

/-! ## What one call can do -/

section Call

variable {metadata : (op : MetadataOp) → M → op.Answer × M} {stores later : Stores M}

/-- The object behind a served blob: its length is the reported size, and its
stream is all of it or breaks off inside it. -/
structure Serves (blob : Blob) (content : Bytes) : Prop where
  size : blob.size = content.length
  stream : (∃ chunks : List Bytes, blob.stream = chunks.map .ok ∧ chunks.flatten = content) ∨
    ∃ (chunks : List Bytes) (error : String),
      blob.stream = chunks.map .ok ++ [.error error] ∧ chunks.flatten <+: content

theorem serves_blobOf (chunking : Chunking) (content : Bytes) :
    Serves (blobOf chunking content) content :=
  ⟨rfl, .inl ⟨chunking.chunks content, rfl, chunking.flatten_chunks content⟩⟩

/-- A stream that is read to its end is the whole object. -/
theorem Serves.readStream {blob : Blob} {content bytes : Bytes} (h : Serves blob content)
    (hread : Server.readStream blob.stream = .ok bytes) : bytes = content := by
  obtain ⟨chunks, hstream, hbytes⟩ := readStream_eq_ok hread
  rcases h.stream with ⟨chunks', hstream', hcontent⟩ | ⟨chunks', error, hstream', _⟩
  · have heq : chunks = chunks' := by
      apply List.map_injective_iff.mpr fun first second h => Except.ok.inj h
      rw [← hstream, hstream']
    rw [← hbytes, heq, hcontent]
  · have hmem : (Except.error error : Except String Bytes) ∈ chunks.map .ok := by
      rw [← hstream, hstream']
      simp
    obtain ⟨chunk, _, hchunk⟩ := List.mem_map.mp hmem
    cases hchunk

theorem answers_get {digest : Digest} {answer : Except String (Option Blob)}
    (h : Answers metadata (.blobs (.get digest)) stores answer later) :
    later = stores ∧ ∀ blob, answer = .ok (some blob) →
      ∃ content, stores.blobs digest = some content ∧ Serves blob content := by
  cases h with
  | answered chunking =>
      refine ⟨rfl, fun blob hblob => ?_⟩
      obtain ⟨content, hcontent, hof⟩ := Option.map_eq_some_iff.mp (Except.ok.inj hblob)
      exact ⟨content, hcontent, hof ▸ serves_blobOf chunking content⟩
  | refused => exact ⟨rfl, fun blob hblob => by cases hblob⟩
  | lost => exact ⟨rfl, fun blob hblob => by cases hblob⟩
  | interrupted _ _ content chunks error held sent =>
      refine ⟨rfl, fun blob hblob => ⟨content, held, ?_⟩⟩
      rw [← Option.some.inj (Except.ok.inj hblob)]
      exact ⟨rfl, .inr ⟨chunks, error, rfl, sent⟩⟩

/-- A put takes effect or does not; when it is acknowledged it did. -/
theorem answers_put {digest : Digest} {source : Bytes} {answer : Except String PutOutcome}
    (h : Answers metadata (.blobs (.put digest source)) stores answer later) :
    (later = stores ∨ later = (stores.putObject digest source).2) ∧
      ∀ outcome, answer = .ok outcome → later = (stores.putObject digest source).2 := by
  cases h with
  | answered chunking => exact ⟨.inr rfl, fun _ _ => rfl⟩
  | refused => exact ⟨.inl rfl, fun outcome houtcome => by cases houtcome⟩
  | lost => exact ⟨.inr rfl, fun outcome houtcome => by cases houtcome⟩

/-- The effect of a metadata call on the stores. -/
def afterMetadata (metadata : (op : MetadataOp) → M → op.Answer × M) (op : MetadataOp)
    (stores : Stores M) : Stores M :=
  { stores with metadata := (metadata op stores.metadata).2 }

/-- A metadata call takes effect or does not; when it is answered it did, and the
answer is the right one. -/
theorem answers_metadata {op : MetadataOp} {answer : op.Answer}
    (h : Answers metadata (.metadata op) stores answer later) :
    (later = stores ∨ later = afterMetadata metadata op stores) ∧
      ∀ value, answer = .ok value →
        (metadata op stores.metadata).1 = .ok value ∧ later = afterMetadata metadata op stores := by
  cases h with
  | answered chunking => exact ⟨.inr rfl, fun value hvalue => ⟨hvalue, rfl⟩⟩
  | refused => exact ⟨.inl rfl, fun value hvalue => by cases hvalue⟩
  | lost => exact ⟨.inr rfl, fun value hvalue => by cases hvalue⟩

end Call

/-! ## Order -/

@[simp]
theorem putObject_metadata (stores : Stores M) (digest : Digest) (source : Bytes) :
    (stores.putObject digest source).2.metadata = stores.metadata := by
  unfold putObject
  split <;> rfl

/-- After a put, an object is an old one or the one put where there was none. -/
theorem putObject_blobs_eq_some {stores : Stores M} {digest other : Digest}
    {source content : Bytes}
    (h : (stores.putObject digest source).2.blobs other = some content) :
    stores.blobs other = some content ∨ other = digest ∧ content = source := by
  unfold putObject at h
  split at h
  · exact .inl h
  · by_cases heq : other = digest
    · subst heq
      exact .inr ⟨rfl, by simpa using h.symm⟩
    · exact .inl (by simpa [heq] using h)

theorem putObject_blobs_of_held {stores : Stores M} {digest other : Digest}
    {source content : Bytes} (h : stores.blobs other = some content) :
    (stores.putObject digest source).2.blobs other = some content := by
  unfold putObject
  split
  · exact h
  · rename_i hnone
    have hne : other ≠ digest := by
      rintro rfl
      rw [hnone] at h
      cases h
    simpa [hne] using h

/-- After a put there is an object. -/
theorem putObject_blobs_isSome (stores : Stores M) (digest : Digest) (source : Bytes) :
    ((stores.putObject digest source).2.blobs digest).isSome = true := by
  unfold putObject
  split
  · rename_i content hcontent
    simp [hcontent]
  · simp

/-- Objects stay what they are, and what a namespace can see it keeps seeing. -/
instance : Preorder (Stores MemoryMetadata) where
  le stores later :=
    (∀ digest content, stores.blobs digest = some content →
      later.blobs digest = some content) ∧
    stores.metadata.blobs ⊆ later.metadata.blobs
  le_refl stores := ⟨fun _ _ h => h, Finset.Subset.refl _⟩
  le_trans _ _ _ first second :=
    ⟨fun digest content h => second.1 digest content (first.1 digest content h),
      first.2.trans second.2⟩

end Stores

end MbxCache.Server
