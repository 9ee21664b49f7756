/-
# Namespaces do not interfere

Objects are stored once for all namespaces; visibility, results and manifests are
kept for each. What a namespace can tell of the server is its own part of the
metadata and the objects it can see. Requests made in other namespaces leave that as
it is, so that its own requests are answered as if there were no others: with the
same status, the same headers and the same body. Only whether an upload was the
first of its object can be told.

Two contents of one digest are excluded, for the digests that are uploaded.
-/

import MbxCache.Foundation.Noninterference
import MbxCache.Server.Calls
import MbxCache.Server.ReadYourWrites

namespace MbxCache.Server

open Foundation Program Pack

/-! ## Calls -/

/-- How the stores treat a call. -/
inductive Treatment where
  | answered (chunking : Chunking)
  | refused (error : String)
  | lost (error : String)
  | interrupted (chunks : List Bytes) (error : String)

/-- A call that is treated in some way. -/
inductive Treats (crates : Crates) :
    Treatment → (op : StoreOp) → Held → op.Answer → Held → Prop where
  | answered (chunking : Chunking) (op : StoreOp) (stores : Held) :
      Treats crates (.answered chunking) op stores
        (Stores.exec chunking (MemoryMetadata.exec crates) op stores).1
        (Stores.exec chunking (MemoryMetadata.exec crates) op stores).2
  | refused (op : StoreOp) (stores : Held) (error : String) :
      Treats crates (.refused error) op stores (.error error) stores
  | lost (op : StoreOp) (stores : Held) (error : String) :
      Treats crates (.lost error) op stores (.error error)
        (Stores.exec .whole (MemoryMetadata.exec crates) op stores).2
  | interrupted (stores : Held) (digest : Digest) (content : Bytes) (chunks : List Bytes)
      (error : String) (held : stores.blobs digest = some content)
      (sent : chunks.flatten <+: content) :
      Treats crates (.interrupted chunks error) (.blobs (.get digest)) stores
        (.ok (some { size := content.length, stream := chunks.map .ok ++ [.error error] })) stores

/-- An upload puts the content that its digest stands for. -/
def Fits (chosen : Digest → Bytes) : StoreOp → Prop
  | .blobs (.put digest source) => source = chosen digest
  | _ => True

/-- One call that is treated in one of the ways that may occur. -/
def Served (crates : Crates) (treatments : Treatment → Prop) (chosen : Digest → Bytes)
    (op : StoreOp) (stores : Held) (answer : op.Answer) (later : Held) : Prop :=
  ∃ treatment, treatments treatment ∧ Treats crates treatment op stores answer later ∧
    Fits chosen op

section

variable {crates : Crates} {treatments : Treatment → Prop} {chosen : Digest → Bytes}
  {ns : String} {s t s' t' stores later : Held}

theorem answers_iff_treats {op : StoreOp} {answer : op.Answer} :
    HeldAnswers crates op stores answer later ↔
      ∃ treatment, Treats crates treatment op stores answer later := by
  apply Iff.intro
  · intro h
    cases h with
    | answered chunking => exact ⟨_, .answered chunking op stores⟩
    | refused _ _ error => exact ⟨_, .refused op stores error⟩
    | lost _ _ error => exact ⟨_, .lost op stores error⟩
    | interrupted _ digest content chunks error held sent =>
        exact ⟨_, .interrupted stores digest content chunks error held sent⟩
  · rintro ⟨treatment, h⟩
    cases h with
    | answered chunking => exact .answered chunking op stores
    | refused _ _ error => exact .refused op stores error
    | lost _ _ error => exact .lost op stores error
    | interrupted _ digest content chunks error held sent =>
        exact .interrupted stores digest content chunks error held sent

theorem Served.answers {op : StoreOp} {answer : op.Answer}
    (h : Served crates treatments chosen op stores answer later) :
    HeldAnswers crates op stores answer later := by
  obtain ⟨treatment, _, htreats, _⟩ := h
  exact answers_iff_treats.mpr ⟨treatment, htreats⟩

/-- Calls only add. -/
theorem le_exec (chunking : Chunking) (op : StoreOp) (stores : Held) :
    stores ≤ (Stores.exec chunking (MemoryMetadata.exec crates) op stores).2 := by
  cases op with
  | metadata op => exact ⟨fun _ _ h => h, blobs_subset_exec op stores.metadata⟩
  | blobs op =>
      cases op with
      | get digest => exact le_refl stores
      | put digest source =>
          apply And.intro
          · exact fun _ _ h => Stores.putObject_blobs_of_held h
          · show stores.metadata.blobs ⊆ (stores.putObject digest source).2.metadata.blobs
            rw [Stores.putObject_metadata]

theorem Served.le {op : StoreOp} {answer : op.Answer}
    (h : Served crates treatments chosen op stores answer later) : stores ≤ later := by
  obtain ⟨treatment, _, htreats, _⟩ := h
  cases htreats with
  | answered chunking => exact le_exec chunking op stores
  | refused => exact le_refl stores
  | lost => exact le_exec .whole op stores
  | interrupted => exact le_refl stores

/-! ## What a namespace can tell -/

/-- Two servers that look alike in one namespace. -/
structure SameView (ns : String) (chosen : Digest → Bytes) (s t : Held) : Prop where
  entries : ∀ action, s.metadata.entries (ns, action) = t.metadata.entries (ns, action)
  manifests : ∀ key, s.metadata.manifests (ns, key) = t.metadata.manifests (ns, key)
  sees : ∀ digest, Sees s ns digest ↔ Sees t ns digest
  held : ∀ digest, Sees s ns digest → (s.blobs digest).isSome = true ∧ (t.blobs digest).isSome = true
  genuine : ∀ digest content, s.blobs digest = some content → content = chosen digest
  genuineOther : ∀ digest content, t.blobs digest = some content → content = chosen digest

theorem sameView_empty : SameView ns chosen Held.empty Held.empty where
  entries _ := rfl
  manifests _ := rfl
  sees _ := Iff.rfl
  held _ h := absurd h (Finset.notMem_empty _)
  genuine _ _ h := by cases h
  genuineOther _ _ h := by cases h

/-- An object that both hold is the same. -/
theorem SameView.blobs_eq (h : SameView ns chosen s t) {digest : Digest}
    (hs : (s.blobs digest).isSome = true) (ht : (t.blobs digest).isSome = true) :
    s.blobs digest = t.blobs digest := by
  obtain ⟨content, hcontent⟩ := Option.isSome_iff_exists.mp hs
  obtain ⟨content', hcontent'⟩ := Option.isSome_iff_exists.mp ht
  rw [hcontent, hcontent', h.genuine digest content hcontent,
    h.genuineOther digest content' hcontent']

section Exec

variable (h : SameView ns chosen s t)

include h

theorem SameView.get (action : Digest) :
    s.metadata.get crates ns action = t.metadata.get crates ns action := by
  rw [MemoryMetadata.get, MemoryMetadata.get, h.entries action]

theorem SameView.getBatch (actions : List Digest) :
    s.metadata.getBatch crates ns actions = t.metadata.getBatch crates ns actions := by
  induction actions with
  | nil => rfl
  | cons action actions ih =>
      rw [MemoryMetadata.getBatch, MemoryMetadata.getBatch, h.get action, ih]

theorem SameView.visibleBlobs (digests : List Digest) :
    s.metadata.visibleBlobs ns digests = t.metadata.visibleBlobs ns digests := by
  unfold MemoryMetadata.visibleBlobs
  apply List.filter_congr
  intro digest _
  exact decide_eq_decide.mpr (h.sees digest)

/-- A result is committed the same on both sides. -/
theorem SameView.commit (action : Digest) (result : ActionResult) :
    (s.metadata.commit crates ns action result).1 = (t.metadata.commit crates ns action result).1 ∧
      SameView ns chosen
        { s with metadata := (s.metadata.commit crates ns action result).2 }
        { t with metadata := (t.metadata.commit crates ns action result).2 } := by
  unfold MemoryMetadata.commit
  cases crates.resultToVec result with
  | error error => exact ⟨rfl, h⟩
  | ok encoded =>
      dsimp only
      rw [← h.entries action]
      cases s.metadata.entries (ns, action) with
      | some existing => exact ⟨rfl, h⟩
      | none =>
          refine ⟨rfl, ⟨?_, h.manifests, h.sees, h.held, h.genuine, h.genuineOther⟩⟩
          intro other
          by_cases heq : other = action
          · subst heq
            simp
          · have hne : (ns, other) ≠ (ns, action) := fun hpair => heq (Prod.mk.inj hpair).2
            simp only [Function.update_of_ne hne]
            exact h.entries other

theorem SameView.commitManifest (key : Digest) (expectedEtag : Option String) (etag : String)
    (manifest : TaskActionManifest) :
    (s.metadata.commitManifest ns key expectedEtag etag manifest).1 =
        (t.metadata.commitManifest ns key expectedEtag etag manifest).1 ∧
      SameView ns chosen
        { s with metadata := (s.metadata.commitManifest ns key expectedEtag etag manifest).2 }
        { t with metadata := (t.metadata.commitManifest ns key expectedEtag etag manifest).2 } := by
  unfold MemoryMetadata.commitManifest
  dsimp only
  rw [← h.manifests key]
  split
  · exact ⟨rfl, h⟩
  · refine ⟨rfl, ⟨h.entries, ?_, h.sees, h.held, h.genuine, h.genuineOther⟩⟩
    intro other
    by_cases heq : other = key
    · subst heq
      simp
    · have hne : (ns, other) ≠ (ns, key) := fun hpair => heq (Prod.mk.inj hpair).2
      simp only [Function.update_of_ne hne]
      exact h.manifests other

theorem SameView.register {digest : Digest} (hs : (s.blobs digest).isSome = true)
    (ht : (t.blobs digest).isSome = true) (outcome outcome' : PutOutcome) :
    SameView ns chosen
      { s with metadata := s.metadata.registerBlob ns digest outcome }
      { t with metadata := t.metadata.registerBlob ns digest outcome' } := by
  refine ⟨h.entries, h.manifests, ?_, ?_, h.genuine, h.genuineOther⟩
  · intro other
    show (ns, other) ∈ insert (ns, digest) s.metadata.blobs ↔
      (ns, other) ∈ insert (ns, digest) t.metadata.blobs
    rw [Finset.mem_insert, Finset.mem_insert]
    exact or_congr Iff.rfl (h.sees other)
  · intro other hsees
    rcases Finset.mem_insert.mp hsees with heq | hold
    · obtain ⟨_, rfl⟩ := Prod.mk.inj heq
      exact ⟨hs, ht⟩
    · exact h.held other hold

theorem SameView.symm : SameView ns chosen t s where
  entries action := (h.entries action).symm
  manifests key := (h.manifests key).symm
  sees digest := (h.sees digest).symm
  held digest hsees := (h.held digest ((h.sees digest).mpr hsees)).symm
  genuine := h.genuineOther
  genuineOther := h.genuine

/-- An object that is put is not seen before it is registered. -/
theorem SameView.putObject {digest : Digest} {source : Bytes} (hfits : source = chosen digest) :
    SameView ns chosen (s.putObject digest source).2 t := by
  have hmetadata : (s.putObject digest source).2.metadata = s.metadata :=
    Stores.putObject_metadata s digest source
  refine ⟨?_, ?_, ?_, ?_, ?_, h.genuineOther⟩
  · rw [hmetadata]
    exact h.entries
  · rw [hmetadata]
    exact h.manifests
  · intro other
    rw [Sees, hmetadata]
    exact h.sees other
  · intro other hsees
    rw [Sees, hmetadata] at hsees
    obtain ⟨hs, ht⟩ := h.held other hsees
    obtain ⟨content, hcontent⟩ := Option.isSome_iff_exists.mp hs
    exact ⟨Option.isSome_iff_exists.mpr ⟨content, Stores.putObject_blobs_of_held hcontent⟩, ht⟩
  · intro other content hcontent
    rcases Stores.putObject_blobs_eq_some hcontent with hold | ⟨rfl, rfl⟩
    · exact h.genuine other content hold
    · exact hfits

end Exec

/-! ## Foreign calls -/

/-- A call of another namespace, or of none. -/
def Foreign (ns : String) (op : StoreOp) : Prop := op.ns ≠ some ns

/-- A foreign call of the metadata leaves the view as it is. -/
theorem SameView.foreign (h : SameView ns chosen s t) {op : MetadataOp}
    (hforeign : Foreign ns (.metadata op)) :
    SameView ns chosen { s with metadata := (MemoryMetadata.exec crates op s.metadata).2 } t := by
  have hns : ∀ {other : String}, (StoreOp.metadata op).ns = some other → ns ≠ other := by
    rintro other hop rfl
    exact hforeign hop
  cases op with
  | registerBlob other digest stored =>
      have hne := hns rfl
      have hsees : ∀ d, (ns, d) ∈ insert (other, digest) s.metadata.blobs ↔ Sees s ns d := by
        intro d
        rw [Finset.mem_insert, or_iff_right]
        · rfl
        · exact fun heq => hne (Prod.mk.inj heq).1
      refine ⟨h.entries, h.manifests, ?_, ?_, h.genuine, h.genuineOther⟩
      · exact fun d => (hsees d).trans (h.sees d)
      · exact fun d hd => h.held d ((hsees d).mp hd)
  | commit other action result =>
      have hne := hns rfl
      show SameView ns chosen
        { s with metadata := (s.metadata.commit crates other action result).2 } t
      unfold MemoryMetadata.commit
      cases crates.resultToVec result with
      | error error => exact h
      | ok encoded =>
          dsimp only
          cases s.metadata.entries (other, action) with
          | some existing => exact h
          | none =>
              refine ⟨?_, h.manifests, h.sees, h.held, h.genuine, h.genuineOther⟩
              intro found
              have hpair : (ns, found) ≠ (other, action) := fun heq => hne (Prod.mk.inj heq).1
              simp only [Function.update_of_ne hpair]
              exact h.entries found
  | commitManifest other key expectedEtag etag manifest =>
      have hne := hns rfl
      show SameView ns chosen
        { s with
          metadata := (s.metadata.commitManifest other key expectedEtag etag manifest).2 } t
      unfold MemoryMetadata.commitManifest
      dsimp only
      split
      · exact h
      · refine ⟨h.entries, ?_, h.sees, h.held, h.genuine, h.genuineOther⟩
        intro found
        have hpair : (ns, found) ≠ (other, key) := fun heq => hne (Prod.mk.inj heq).1
        simp only [Function.update_of_ne hpair]
        exact h.manifests found
  | visibleBlobs other digests => exact h
  | blobVisible other digest => exact h
  | touchBlobs other digests => exact h
  | get other action => exact h
  | getBatch other actions => exact h
  | getManifest other key => exact h

theorem SameView.foreignExec (h : SameView ns chosen s t) (chunking : Chunking) {op : StoreOp}
    (hforeign : Foreign ns op) (hfits : Fits chosen op) :
    SameView ns chosen (Stores.exec chunking (MemoryMetadata.exec crates) op s).2 t := by
  cases op with
  | metadata op => exact h.foreign hforeign
  | blobs op =>
      cases op with
      | get digest => exact h
      | put digest source => exact h.putObject hfits

theorem SameView.foreignServed (h : SameView ns chosen s t) {op : StoreOp} {answer : op.Answer}
    (hforeign : Foreign ns op) (hserved : Served crates treatments chosen op s answer later) :
    SameView ns chosen later t := by
  obtain ⟨treatment, _, htreats, hfits⟩ := hserved
  cases htreats with
  | answered chunking => exact h.foreignExec chunking hforeign hfits
  | refused => exact h
  | lost => exact h.foreignExec .whole hforeign hfits
  | interrupted => exact h

/-! ## Own calls -/

/-- Two handlers that run alike beside each other. -/
abbrev Paired (crates : Crates) (treatments : Treatment → Prop) (chosen : Digest → Bytes)
    (ns : String) {α β : Type} (same : Held → Held → α → β → Prop) (s t : Held)
    (first : Handler α) (second : Handler β) : Prop :=
  Alike (Served crates treatments chosen) (SameView ns chosen) same s t first second

/-- A handler that gives the same on both sides. -/
abbrev Confined (crates : Crates) (treatments : Treatment → Prop) (chosen : Digest → Bytes)
    (ns : String) {α : Type} (s t : Held) (handler : Handler α) : Prop :=
  Paired crates treatments chosen ns (fun _ _ a b => a = b) s t handler handler

theorem isSome_mono {digest : Digest} (h : (s.blobs digest).isSome = true) (hle : s ≤ s') :
    (s'.blobs digest).isSome = true := by
  obtain ⟨content, hcontent⟩ := Option.isSome_iff_exists.mp h
  exact Option.isSome_iff_exists.mpr ⟨content, hle.1 digest content hcontent⟩

/-- An operation that both sides answer the same, however it is treated. -/
theorem alike_call {α β : Type} {same : Held → Held → α → β → Prop} {op : StoreOp}
    {next : op.Answer → Handler α} {next' : op.Answer → Handler β}
    (hsame : ∀ s' t', s ≤ s' → t ≤ t' → SameView ns chosen s' t' → ∀ chunking,
      (Stores.exec chunking (MemoryMetadata.exec crates) op s').1 =
          (Stores.exec chunking (MemoryMetadata.exec crates) op t').1 ∧
        SameView ns chosen (Stores.exec chunking (MemoryMetadata.exec crates) op s').2
          (Stores.exec chunking (MemoryMetadata.exec crates) op t').2)
    (hget : ∀ s' t', s ≤ s' → t ≤ t' → SameView ns chosen s' t' → ∀ digest,
      op = .blobs (.get digest) → s'.blobs digest = t'.blobs digest)
    (hnext : ∀ s' t' answer later later', s ≤ s' → t ≤ t' → SameView ns chosen s' t' →
      HeldAnswers crates op s' answer later → HeldAnswers crates op t' answer later' →
      Paired crates treatments chosen ns same later later' (next answer) (next' answer)) :
    Paired crates treatments chosen ns same s t (.call op next) (.call op next') := by
  rintro s' t' hs ht hview answer later ⟨treatment, hallowed, htreats, hfits⟩
  have hboth : ∃ later', Treats crates treatment op t' answer later' ∧
      SameView ns chosen later later' := by
    cases htreats with
    | answered chunking =>
        obtain ⟨heq, hlater⟩ := hsame s' t' hs ht hview chunking
        rw [heq]
        exact ⟨_, .answered chunking op t', hlater⟩
    | refused _ _ error => exact ⟨t', .refused op t' error, hview⟩
    | lost _ _ error => exact ⟨_, .lost op t' error, (hsame s' t' hs ht hview .whole).2⟩
    | interrupted _ digest content chunks error held sent =>
        have hother : t'.blobs digest = some content :=
          (hget s' t' hs ht hview digest rfl).symm.trans held
        exact ⟨t', .interrupted t' digest content chunks error hother sent, hview⟩
  obtain ⟨later', htreats', hlater⟩ := hboth
  refine ⟨answer, later', ⟨treatment, hallowed, htreats', hfits⟩, hlater, ?_⟩
  exact hnext s' t' answer later later' hs ht hview (answers_iff_treats.mpr ⟨_, htreats⟩)
    (answers_iff_treats.mpr ⟨_, htreats'⟩)

/-- A metadata call of the namespace itself, except for a registration. -/
theorem SameView.own (h : SameView ns chosen s t) {op : MetadataOp}
    (hns : (StoreOp.metadata op).ns = some ns)
    (hop : ∀ other digest stored, op ≠ .registerBlob other digest stored) :
    (MemoryMetadata.exec crates op s.metadata).1 = (MemoryMetadata.exec crates op t.metadata).1 ∧
      SameView ns chosen { s with metadata := (MemoryMetadata.exec crates op s.metadata).2 }
        { t with metadata := (MemoryMetadata.exec crates op t.metadata).2 } := by
  cases op with
  | registerBlob other digest stored => exact absurd rfl (hop other digest stored)
  | commit other action result =>
      obtain rfl := Option.some.inj hns
      exact h.commit action result
  | commitManifest other key expectedEtag etag manifest =>
      obtain rfl := Option.some.inj hns
      obtain ⟨hvalue, hview⟩ := h.commitManifest key expectedEtag etag manifest
      exact ⟨congrArg Except.ok hvalue, hview⟩
  | visibleBlobs other digests =>
      obtain rfl := Option.some.inj hns
      exact ⟨congrArg Except.ok (h.visibleBlobs digests), h⟩
  | blobVisible other digest =>
      obtain rfl := Option.some.inj hns
      refine ⟨congrArg Except.ok ?_, h⟩
      rw [MemoryMetadata.blobVisible, MemoryMetadata.blobVisible, h.visibleBlobs]
  | touchBlobs other digests => exact ⟨rfl, h⟩
  | get other action =>
      obtain rfl := Option.some.inj hns
      exact ⟨h.get action, h⟩
  | getBatch other actions =>
      obtain rfl := Option.some.inj hns
      exact ⟨h.getBatch actions, h⟩
  | getManifest other key =>
      obtain rfl := Option.some.inj hns
      refine ⟨congrArg Except.ok ?_, h⟩
      rw [MemoryMetadata.getManifest, MemoryMetadata.getManifest, h.manifests key]

/-- What a metadata call gives is the same on both sides, and tells of the first. -/
theorem alike_callMetadata (op : MetadataOp) (hns : (StoreOp.metadata op).ns = some ns)
    (hop : ∀ other digest stored, op ≠ .registerBlob other digest stored)
    (good : op.Value → Held → Prop)
    (hgood : ∀ stores value, (MemoryMetadata.exec crates op stores.metadata).1 = .ok value →
      good value (Stores.afterMetadata (MemoryMetadata.exec crates) op stores)) :
    Paired crates treatments chosen ns (fun s _ a b => a = b ∧ good a s) s t (callMetadata op)
      (callMetadata op) := by
  apply alike_call
  · exact fun s' t' _ _ hview _ => hview.own hns hop
  · exact fun _ _ _ _ _ digest heq => by cases heq
  · intro s' t' answer later later' _ _ _ hanswers _
    cases answer with
    | error error => rfl
    | ok value =>
        obtain ⟨hvalue, rfl⟩ := (Stores.answers_metadata hanswers).2 value rfl
        exact ⟨rfl, hgood s' value hvalue⟩

/-- One whose value only matters. -/
theorem confined_callMetadata (op : MetadataOp) (hns : (StoreOp.metadata op).ns = some ns)
    (hop : ∀ other digest stored, op ≠ .registerBlob other digest stored) :
    Confined crates treatments chosen ns s t (callMetadata op) :=
  (alike_callMetadata op hns hop (fun _ _ => True) fun _ _ _ => trivial).imp
    fun _ _ _ _ h => h.1

theorem alike_blobVisible (digest : Digest) :
    Paired crates treatments chosen ns
      (fun s _ (a b : Bool) => a = b ∧ (a = true → Sees s ns digest)) s t
      (callMetadata (.blobVisible ns digest)) (callMetadata (.blobVisible ns digest)) := by
  apply alike_callMetadata (.blobVisible ns digest) rfl (by simp)
    fun (visible : Bool) s => visible = true → Sees s ns digest
  intro stores visible hvalue hvisible
  obtain rfl := Except.ok.inj hvalue
  exact MemoryMetadata.blobVisible_eq_true.mp hvisible

theorem alike_visibleBlobs (digests : List Digest) :
    Paired crates treatments chosen ns
      (fun s _ (a b : List Digest) => a = b ∧ ∀ digest ∈ a, Sees s ns digest) s t
      (callMetadata (.visibleBlobs ns digests)) (callMetadata (.visibleBlobs ns digests)) := by
  apply alike_callMetadata (.visibleBlobs ns digests) rfl (by simp)
    fun (visible : List Digest) s => ∀ digest ∈ visible, Sees s ns digest
  intro stores visible hvalue digest hmem
  obtain rfl := Except.ok.inj hvalue
  exact (MemoryMetadata.mem_visibleBlobs.mp hmem).2

theorem confined_recordBlobAccess (digests : List Digest) :
    Confined crates treatments chosen ns s t (recordBlobAccess ns digests) := by
  apply alike_call
  · exact fun s' t' _ _ hview _ => ⟨rfl, hview⟩
  · exact fun _ _ _ _ _ digest heq => by cases heq
  · exact fun _ _ _ _ _ _ _ _ _ _ => rfl

/-- An object that the namespace sees is read alike. -/
theorem alike_readBlob {α : Type} {digest : Digest} (hsees : Sees s ns digest)
    {next : (StoreOp.blobs (.get digest)).Answer → Handler α}
    (hnext : ∀ answer, ∃ outcome, next answer = done outcome) :
    Confined crates treatments chosen ns s t (.call (.blobs (.get digest)) next) := by
  have hblobs : ∀ s' t', s ≤ s' → SameView ns chosen s' t' →
      s'.blobs digest = t'.blobs digest := by
    intro s' t' hs hview
    obtain ⟨hheld, hother⟩ := hview.held digest (hsees.mono hs)
    exact hview.blobs_eq hheld hother
  apply alike_call
  · intro s' t' hs _ hview chunking
    refine ⟨?_, hview⟩
    show Except.ok ((s'.blobs digest).map _) = Except.ok ((t'.blobs digest).map _)
    rw [hblobs s' t' hs hview]
  · intro s' t' hs _ hview other heq
    cases heq
    exact hblobs s' t' hs hview
  · intro s' t' answer later later' _ _ _ _ _
    obtain ⟨outcome, houtcome⟩ := hnext answer
    rw [houtcome]
    cases outcome <;> rfl

/-! ## The handlers -/

theorem served_le (op : StoreOp) (stores : Held) (answer : op.Answer) (later : Held)
    (h : Served crates treatments chosen op stores answer later) : stores ≤ later :=
  h.le

theorem paired_bind {α β γ δ : Type} {same : Held → Held → α → β → Prop}
    {same' : Held → Held → γ → δ → Prop} {p : Handler α} {q : Handler β} {f : α → Handler γ}
    {g : β → Handler δ} (h : Paired crates treatments chosen ns same s t p q)
    (hnext : ∀ s' t' a b, s ≤ s' → t ≤ t' → same s' t' a b →
      Paired crates treatments chosen ns same' s' t' (f a) (g b)) :
    Paired crates treatments chosen ns same' s t (p >>= f) (q >>= g) :=
  h.bind served_le hnext

theorem confined_bind {α β : Type} {p : Handler α} {f : α → Handler β}
    (h : Confined crates treatments chosen ns s t p)
    (hnext : ∀ s' t' a, s ≤ s' → t ≤ t' → Confined crates treatments chosen ns s' t' (f a)) :
    Confined crates treatments chosen ns s t (p >>= f) := by
  apply paired_bind h
  rintro s' t' a _ hs ht rfl
  exact hnext s' t' a hs ht

/-- A check, or another computation without a call. -/
theorem confined_check {α β : Type} {outcome : Except ApiError α} {f : α → Handler β}
    (hnext : ∀ a, outcome = .ok a → Confined crates treatments chosen ns s t (f a)) :
    Confined crates treatments chosen ns s t ((done outcome : Handler α) >>= f) :=
  alike_lift hnext

theorem confined_done {α : Type} (outcome : Except ApiError α) :
    Confined crates treatments chosen ns s t (done outcome) := by
  cases outcome <;> rfl

/-! ### References -/

theorem confined_requireBlob (digest : Digest) (label : String) :
    Confined crates treatments chosen ns s t (requireBlob crates ns digest label) := by
  apply confined_check
  intro _ _
  apply confined_bind (confined_callMetadata (.blobVisible ns digest) rfl (by simp))
  exact fun _ _ visible _ _ => confined_done _

theorem confined_readVisibleObject (digest : Digest) (missing : String) :
    Confined crates treatments chosen ns s t (readVisibleObject ns digest missing) := by
  apply paired_bind (alike_blobVisible digest)
  rintro s' t' visible _ _ _ ⟨rfl, hsees⟩
  apply confined_check
  intro _ hvisible
  have hvisible : visible = true := by simpa using rejectIf_eq_ok.mp hvisible
  apply confined_bind (alike_readBlob (hsees hvisible) fun answer => ⟨_, rfl⟩)
  intro s₂ t₂ found _ _
  apply confined_check
  exact fun blob _ => confined_done _

theorem confined_readCanonicalObject (digest : Digest) (label : String) :
    Confined crates treatments chosen ns s t (readCanonicalObject crates ns digest label) := by
  apply confined_check
  intro _ _
  apply confined_check
  intro _ _
  apply confined_bind (confined_readVisibleObject digest _)
  exact fun _ _ bytes _ _ => confined_done _

theorem confined_validateClientMetadata (digest : Digest) (kind : ActionKind) :
    Confined crates treatments chosen ns s t (validateClientMetadata crates ns digest kind) := by
  apply confined_bind (confined_readCanonicalObject digest _)
  intro s' t' value _ _
  apply confined_check
  intro streams _
  cases streams with
  | none => rfl
  | some pair =>
      apply confined_bind (confined_requireBlob pair.1 _)
      exact fun _ _ _ _ _ => confined_requireBlob pair.2 _

theorem confined_readDirectory (digest : Digest) :
    Confined crates treatments chosen ns s t (readDirectory crates ns digest) := by
  apply confined_check
  intro _ _
  apply confined_bind (confined_readVisibleObject digest _)
  intro s' t' bytes _ _
  apply confined_check
  intro directory _
  have hfiles : Confined crates treatments chosen ns s' t' (directory.files.forM fun file =>
      requireBlob crates ns file.digest "file blob") := by
    have hfile : ∀ (file : FileNode) (s t : Held), Paired crates treatments chosen ns
        (fun _ _ _ _ => True) s t (requireBlob crates ns file.digest "file blob")
        (requireBlob crates ns file.digest "file blob") :=
      fun file s t => (confined_requireBlob file.digest "file blob").imp fun _ _ _ _ _ => trivial
    exact (alike_forM served_le hfile directory.files s' t').imp fun _ _ _ _ _ => rfl
  apply confined_bind hfiles
  exact fun _ _ _ _ _ => rfl

theorem confined_visitTree (pending : List Visit) (visiting seen : Finset Digest) :
    Confined crates treatments chosen ns s t (visitTree crates ns pending visiting seen) := by
  induction pending, visiting, seen using visitTree.induct generalizing s t with
  | case1 visiting seen =>
      rw [visitTree]
      rfl
  | case2 visiting seen digest pending ih =>
      rw [visitTree]
      exact ih
  | case3 visiting seen digest pending hseen ih =>
      rw [visitTree, dif_pos hseen]
      exact ih
  | case4 visiting seen digest pending hseen hvisiting =>
      rw [visitTree, dif_neg hseen, dif_pos hvisiting]
      rfl
  | case5 visiting seen digest pending hseen hvisiting hbound =>
      rw [visitTree, dif_neg hseen, dif_neg hvisiting, dif_pos hbound]
      rfl
  | case6 visiting seen digest pending hseen hvisiting hbound ih =>
      rw [visitTree, dif_neg hseen, dif_neg hvisiting, dif_neg hbound]
      apply confined_bind (confined_readDirectory digest)
      exact fun _ _ directory _ _ => ih directory

theorem confined_validateResult (action : Digest) (result : ActionResult) :
    Confined crates treatments chosen ns s t (validateResult crates ns action result) := by
  have hdescriptor : Confined crates treatments chosen ns s t
      (validateActionDescriptor crates ns action) := by
    apply confined_bind (confined_readCanonicalObject action _)
    exact fun _ _ value _ _ => confined_done _
  have hpresent : ∀ (s t : Held) (reference : Option Digest) (check : Digest → Handler Unit),
      (∀ digest, Confined crates treatments chosen ns s t (check digest)) →
      Confined crates treatments chosen ns s t (whenPresent reference check) := by
    intro s t reference check hcheck
    cases reference with
    | none => rfl
    | some digest => exact hcheck digest
  apply confined_bind hdescriptor
  intro s₁ t₁ kind _ _
  apply confined_check
  intro _ _
  apply confined_bind (hpresent s₁ t₁ _ _ fun metadata =>
    confined_validateClientMetadata metadata kind)
  intro s₂ t₂ _ _ _
  exact hpresent s₂ t₂ _ _ fun root => confined_visitTree [.enter root] ∅ ∅

/-! ### Uploads -/

/-- Both sides hold the object afterwards, whichever of them had it before. -/
theorem alike_put (digest : Digest) (source : Bytes) :
    Paired crates treatments chosen ns
      (fun s t _ _ => (s.blobs digest).isSome = true ∧ (t.blobs digest).isSome = true) s t
      (callBlobs (.put digest source)) (callBlobs (.put digest source)) := by
  rintro s' t' _ _ hview answer later ⟨treatment, hallowed, htreats, hfits⟩
  have hput : SameView ns chosen (s'.putObject digest source).2 (t'.putObject digest source).2 :=
    ((hview.putObject hfits).symm.putObject hfits).symm
  cases htreats with
  | answered chunking =>
      refine ⟨_, _, ⟨_, hallowed, .answered chunking (.blobs (.put digest source)) t', hfits⟩,
        hput, ?_⟩
      exact ⟨Stores.putObject_blobs_isSome s' digest source,
        Stores.putObject_blobs_isSome t' digest source⟩
  | refused _ _ error =>
      exact ⟨_, _, ⟨_, hallowed, .refused (.blobs (.put digest source)) t' error, hfits⟩, hview,
        rfl⟩
  | lost _ _ error =>
      exact ⟨_, _, ⟨_, hallowed, .lost (.blobs (.put digest source)) t' error, hfits⟩, hput, rfl⟩

theorem alike_register {digest : Digest} (hs : (s.blobs digest).isSome = true)
    (ht : (t.blobs digest).isSome = true) (outcome outcome' : PutOutcome) :
    Paired crates treatments chosen ns (fun _ _ _ _ => True) s t
      (callMetadata (.registerBlob ns digest outcome))
      (callMetadata (.registerBlob ns digest outcome')) := by
  rintro s' t' hs' ht' hview answer later ⟨treatment, hallowed, htreats, _⟩
  have hregister := hview.register (isSome_mono hs hs') (isSome_mono ht ht') outcome outcome'
  cases htreats with
  | answered chunking =>
      exact ⟨_, _, ⟨_, hallowed,
        .answered chunking (.metadata (.registerBlob ns digest outcome')) t', trivial⟩,
        hregister, trivial⟩
  | refused _ _ error =>
      exact ⟨_, _, ⟨_, hallowed,
        .refused (.metadata (.registerBlob ns digest outcome')) t' error, trivial⟩, hview, rfl⟩
  | lost _ _ error =>
      exact ⟨_, _, ⟨_, hallowed,
        .lost (.metadata (.registerBlob ns digest outcome')) t' error, trivial⟩, hregister, rfl⟩

/-- An upload succeeds on both sides or fails alike; only its outcome may differ. -/
theorem alike_publishBlob (digest : Digest) (source : Bytes) :
    Paired crates treatments chosen ns (fun _ _ _ _ => True) s t (publishBlob ns digest source)
      (publishBlob ns digest source) := by
  apply paired_bind (alike_put digest source)
  rintro s' t' outcome outcome' _ _ ⟨hs, ht⟩
  apply paired_bind (alike_register hs ht outcome outcome')
  exact fun _ _ _ _ _ _ _ => trivial

/-- Two uploads of a pack that differ in how many objects were new. -/
structure SameUpload (first second : PackUpload crates) : Prop where
  reader : first.reader = second.reader
  frame : first.frame = second.frame
  counted : first.created + first.existing = second.created + second.existing

theorem SameUpload.count {first second : PackUpload crates} (h : SameUpload first second)
    (outcome outcome' : PutOutcome) : SameUpload (first.count outcome) (second.count outcome') := by
  have hcounted := h.counted
  refine ⟨?_, ?_, ?_⟩
  · rw [PackUpload.count_reader, PackUpload.count_reader, h.reader]
  · rw [PackUpload.count_frame, PackUpload.count_frame, h.frame]
  · cases outcome <;> cases outcome' <;> simp only [PackUpload.count] <;> omega

theorem alike_handleEvent {first second : PackUpload crates} (h : SameUpload first second)
    (event : PackEvent) :
    Paired crates treatments chosen ns (fun _ _ => SameUpload) s t (first.handleEvent ns event)
      (second.handleEvent ns event) := by
  cases event with
  | started digest => exact ⟨h.reader, rfl, h.counted⟩
  | payload payload =>
      unfold PackUpload.handleEvent
      rw [← h.frame]
      apply alike_lift
      intro frame _
      apply alike_lift
      exact fun _ _ => ⟨h.reader, rfl, h.counted⟩
  | complete =>
      unfold PackUpload.handleEvent
      rw [← h.frame]
      apply alike_lift
      intro frame _
      have hstore : Paired crates treatments chosen ns (fun _ _ _ _ => True) s t (frame.store ns)
          (frame.store ns) := alike_lift fun _ _ => alike_publishBlob _ _
      apply paired_bind hstore
      intro s' t' outcome outcome' _ _ _
      have hclosed : SameUpload ({ first with frame := none } : PackUpload crates)
          ({ second with frame := none } : PackUpload crates) := ⟨h.reader, rfl, h.counted⟩
      exact hclosed.count outcome outcome'

theorem alike_handleChunk {first second : PackUpload crates} (h : SameUpload first second)
    (chunk : Except String Bytes) :
    Paired crates treatments chosen ns (fun _ _ => SameUpload) s t (first.handleChunk ns chunk)
      (second.handleChunk ns chunk) := by
  apply alike_lift
  intro piece _
  rw [← h.reader]
  apply alike_lift
  intro events _
  exact alike_foldlM served_le (fun _ _ _ => SameUpload)
    (fun event _ s t first second h => alike_handleEvent h event) events s t _ _
    ⟨rfl, h.frame, h.counted⟩

/-! ### Requests -/

/-- Two replies that a client can only tell apart by which upload came first. -/
inductive SameReply : Reply → Reply → Prop where
  | same (reply : Reply) : SameReply reply reply
  | stored (outcome outcome' : PutOutcome) :
      SameReply (.stored (putStatus outcome)) (.stored (putStatus outcome'))
  | receipt {first second : BlobPackReceipt}
      (counted : first.created + first.existing = second.created + second.existing) :
      SameReply (.receipt first) (.receipt second)

theorem confined_streamEntries :
    ∀ (entries : List (Bytes × Digest)) {s t : Held},
      (∀ entry ∈ entries, Sees s ns entry.2) →
      Confined crates treatments chosen ns s t (streamEntries entries)
  | [], _, _, _ => rfl
  | (header, digest) :: entries, s, t, hsees => by
      rw [streamEntries]
      have hread : Confined crates treatments chosen ns s t (readObject digest) :=
        alike_readBlob (hsees (header, digest) List.mem_cons_self) fun answer => ⟨_, rfl⟩
      apply confined_bind hread
      intro s' t' answer hs _
      cases openEntry digest answer with
      | error error => rfl
      | ok blob =>
          dsimp only
          split
          · rfl
          · apply confined_bind (confined_streamEntries entries fun entry hmem =>
              (hsees entry (List.mem_cons_of_mem _ hmem)).mono hs)
            exact fun _ _ _ _ _ => rfl

section Handle

variable {state : AppState} {headers : HeaderMap} {parts : DigestParts}

/-- The namespace of a handler is the one its request names. -/
theorem confined_authorize {α β : Type} {same : Held → Held → α → β → Prop} {access : Access}
    {f : String → Handler α} {g : String → Handler β} (hns : namespaceHeader headers = some ns)
    (hnext : Paired crates treatments chosen ns same s t (f ns) (g ns)) :
    Paired crates treatments chosen ns same s t
      ((done (state.auth.authorize crates headers access) : Handler String) >>= f)
      ((done (state.auth.authorize crates headers access) : Handler String) >>= g) := by
  apply alike_lift
  intro ns' hauth
  obtain rfl : ns = ns' := Option.some.inj (hns.symm.trans (Authorizer.authorize_eq_ok hauth))
  exact hnext

theorem confined_getBlob (hns : namespaceHeader headers = some ns) :
    Confined crates treatments chosen ns s t (getBlob crates state headers parts) := by
  apply confined_authorize hns
  apply confined_check
  intro digest _
  apply paired_bind (alike_blobVisible digest)
  rintro s₁ t₁ visible _ _ _ ⟨rfl, hsees⟩
  apply confined_check
  intro _ hvisible
  have hvisible : visible = true := by simpa using rejectIf_eq_ok.mp hvisible
  apply confined_bind (confined_recordBlobAccess [digest])
  intro s₂ t₂ _ hs₂ _
  apply confined_bind (alike_readBlob ((hsees hvisible).mono hs₂) fun answer => ⟨_, rfl⟩)
  intro s₃ t₃ found _ _
  apply confined_check
  exact fun blob _ => rfl

theorem confined_packBlobs {digests : List Digest} (hns : namespaceHeader headers = some ns) :
    Confined crates treatments chosen ns s t (packBlobs crates state headers digests) := by
  apply confined_authorize hns
  apply confined_check
  intro request _
  apply paired_bind (alike_visibleBlobs request.requested)
  rintro s₁ t₁ visible _ _ _ ⟨rfl, hsees⟩
  apply confined_bind (confined_recordBlobAccess visible)
  intro s₂ t₂ _ hs₂ _
  apply confined_check
  intro pack hpack
  obtain ⟨added, hentries, hdigests, _⟩ := packEntries_foldlM hpack
  rw [List.nil_append] at hentries
  have hadded : ∀ entry ∈ pack.entries, Sees s₂ ns entry.2 := by
    intro entry hmem
    rw [hentries] at hmem
    apply (hsees entry.2 _).mono hs₂
    rw [← hdigests]
    exact List.mem_map_of_mem hmem
  apply confined_bind (confined_streamEntries pack.entries hadded)
  exact fun _ _ _ _ _ => rfl

theorem alike_putBlob {body : ByteStream} (hns : namespaceHeader headers = some ns) :
    Paired crates treatments chosen ns (fun _ _ status status' => ∃ outcome outcome',
        status = putStatus outcome ∧ status' = putStatus outcome') s t
      (putBlob crates state headers parts body) (putBlob crates state headers parts body) := by
  apply confined_authorize hns
  apply alike_lift
  intro _ _
  apply alike_lift
  intro digest _
  apply alike_lift
  intro spool _
  apply paired_bind (alike_publishBlob digest spool.bytes)
  exact fun _ _ outcome outcome' _ _ _ => ⟨outcome, outcome', rfl, rfl⟩

theorem alike_putBlobPack {body : ByteStream} (hns : namespaceHeader headers = some ns) :
    Paired crates treatments chosen ns (fun _ _ (first second : BlobPackReceipt) =>
        first.created + first.existing = second.created + second.existing) s t
      (putBlobPack crates state headers body) (putBlobPack crates state headers body) := by
  apply confined_authorize hns
  apply alike_lift
  intro declared _
  apply paired_bind (alike_foldlM served_le (fun _ _ _ => SameUpload)
    (fun chunk _ s t first second h => alike_handleChunk h chunk) body s t _ _ ⟨rfl, rfl, rfl⟩)
  rintro s' t' first second _ _ hsame
  rw [← hsame.reader]
  apply alike_lift
  intro _ _
  apply alike_lift
  exact fun _ _ => hsame.counted

/-- Every request of the namespace is answered alike. -/
theorem alike_handle {request : Request} (hns : request.ns = some ns) :
    Paired crates treatments chosen ns (fun _ _ => SameReply) s t (handle crates state request)
      (handle crates state request) := by
  have hconfined : ∀ {α : Type} {handler : Handler α} (reply : α → Reply),
      Confined crates treatments chosen ns s t handler →
      Paired crates treatments chosen ns (fun _ _ => SameReply) s t (reply <$> handler)
        (reply <$> handler) := by
    intro α handler reply h
    apply Alike.map served_le
    apply h.imp
    rintro _ _ a _ rfl
    exact .same (reply a)
  cases request with
  | getBlob headers parts => exact hconfined _ (confined_getBlob hns)
  | putBlob headers parts body =>
      apply Alike.map served_le
      apply (alike_putBlob hns).imp
      rintro _ _ _ _ ⟨outcome, outcome', rfl, rfl⟩
      exact .stored outcome outcome'
  | putBlobPack headers body =>
      apply Alike.map served_le
      exact (alike_putBlobPack hns).imp fun _ _ _ _ hcounted => .receipt hcounted
  | missingBlobs headers digests =>
      apply hconfined
      apply confined_authorize hns
      apply confined_check
      intro _ _
      apply confined_bind (confined_callMetadata (.visibleBlobs ns digests) rfl (by simp))
      exact fun _ _ _ _ _ => rfl
  | packBlobs headers digests => exact hconfined _ (confined_packBlobs hns)
  | getActionResult headers parts =>
      apply hconfined
      apply confined_authorize hns
      apply confined_check
      intro action _
      apply confined_bind (confined_callMetadata (.get ns action) rfl (by simp))
      exact fun _ _ _ _ _ => confined_done _
  | batchActionResults headers digests =>
      apply hconfined
      apply confined_authorize hns
      apply confined_check
      exact fun requested _ => confined_callMetadata (.getBatch ns requested) rfl (by simp)
  | putActionResult headers parts result =>
      apply hconfined
      apply confined_authorize hns
      apply confined_check
      intro _ _
      apply confined_check
      intro action _
      apply confined_check
      intro _ _
      apply confined_bind (confined_validateResult action result)
      intro s' t' _ _ _
      apply confined_bind (confined_callMetadata (.commit ns action result) rfl (by simp))
      exact fun _ _ _ _ _ => confined_done _
  | getActionManifest headers parts =>
      apply hconfined
      apply confined_authorize hns
      apply confined_check
      intro key _
      apply confined_bind (confined_callMetadata (.getManifest ns key) rfl (by simp))
      intro s' t' found _ _
      apply confined_check
      intro record _
      apply confined_check
      exact fun _ _ => rfl
  | putActionManifest headers parts body =>
      apply hconfined
      apply confined_authorize hns
      apply confined_check
      rintro ⟨manifest, key, expectedEtag⟩ _
      apply confined_check
      intro etag _
      apply confined_bind (confined_callMetadata
        (.commitManifest ns key expectedEtag etag manifest) rfl (by simp))
      intro s' t' outcome _ _
      apply confined_check
      exact fun _ _ => rfl

end Handle

/-! ## Foreign requests -/

/-- A request that names another namespace, or none, is not seen. -/
theorem unseen_handle {state : AppState} {request : Request} (hns : request.ns ≠ some ns) :
    Unseen (Served crates treatments chosen) (SameView ns chosen)
      (handle crates state request) := by
  apply unseen_of_calls _ (inside_handle request)
  intro op s t answer later hinside hview hserved
  apply hview.foreignServed _ hserved
  exact fun hop => hns (hinside.ns ns hop)

/-! ## The runs -/

/-- Calls that are treated in one of the ways that may occur. -/
def Treated (crates : Crates) (treatments : Treatment → Prop) (op : StoreOp) (stores : Held)
    (answer : op.Answer) (later : Held) : Prop :=
  ∃ treatment, treatments treatment ∧ Treats crates treatment op stores answer later

/-- No two uploads of the requests have the digest in common and not the content. -/
def CollisionFree (crates : Crates) (state : AppState) (requests : List Request) : Prop :=
  ∀ first ∈ requests, ∀ second ∈ requests, ∀ digest content content',
    MayCall (.blobs (.put digest content)) (handle crates state first) →
    MayCall (.blobs (.put digest content')) (handle crates state second) → content = content'

section Runs

variable {state : AppState}
  {pool : Pool Held Request StoreOp StoreOp.Answer ApiError Reply}

theorem CollisionFree.exists_chosen {requests : List Request}
    (h : CollisionFree crates state requests) :
    ∃ chosen, ∀ request ∈ requests, Calls (Fits chosen) (handle crates state request) := by
  classical
  have hchoose : ∀ digest, ∃ content, ∀ request ∈ requests, ∀ source,
      MayCall (.blobs (.put digest source)) (handle crates state request) → source = content := by
    intro digest
    by_cases hput : ∃ content, ∃ request ∈ requests,
        MayCall (.blobs (.put digest content)) (handle crates state request)
    · obtain ⟨content, first, hfirst, hcontent⟩ := hput
      exact ⟨content, fun second hsecond source hsource =>
        h second hsecond first hfirst digest source content hsource hcontent⟩
    · exact ⟨[], fun request hmem source hsource => absurd ⟨source, request, hmem, hsource⟩ hput⟩
  choose chosen hchosen using hchoose
  refine ⟨chosen, fun request hmem => calls_of_mayCall fun op hop => ?_⟩
  match op, hop with
  | .metadata op, _ => trivial
  | .blobs (.get digest), _ => trivial
  | .blobs (.put digest source), hop => exact hchosen digest request hmem source hop

/-- The object that a single upload puts is the body it came with. -/
theorem put_of_putBlob {headers : HeaderMap} {parts : DigestParts} {body : ByteStream}
    {digest : Digest} {content : Bytes}
    (h : MayCall (.blobs (.put digest content))
      (handle crates state (.putBlob headers parts body))) : content = contents body := by
  have hcalls : Calls (fun op => ∀ digest content, op = .blobs (.put digest content) →
      content = contents body) (handle crates state (.putBlob headers parts body)) := by
    apply Calls.map
    apply Calls.lift
    intro ns _
    apply Calls.lift
    intro _ _
    apply Calls.lift
    intro named _
    apply Calls.lift
    intro spool hspool
    obtain ⟨pieces, hbody, hbytes, _⟩ := receiveBlob_eq_ok hspool
    have hsource : spool.bytes = contents body := by
      rw [hbytes, hbody]
      simp [contents, List.flatMap_map, List.flatMap_id']
    have hput : Calls (fun op => ∀ digest content, op = .blobs (.put digest content) →
        content = contents body) (callBlobs (.put named spool.bytes)) := by
      apply And.intro
      · intro digest content heq
        cases heq
        exact hsource
      · exact fun _ => trivial
    have hregister : ∀ outcome, Calls (fun op => ∀ digest content,
        op = .blobs (.put digest content) → content = contents body)
        (callMetadata (.registerBlob ns named outcome)) :=
      fun outcome => ⟨fun _ _ heq => (by cases heq), fun _ => trivial⟩
    have hpublish := hput.bind fun outcome => (hregister outcome).bind fun _ =>
      calls_done (.ok outcome)
    exact hpublish.bind fun _ => trivial
  exact mayCall_of_calls hcalls h digest content rfl

/-- Uploads of one content do not collide. -/
theorem collisionFree_of_contents {requests : List Request} {content : Bytes}
    (h : ∀ request ∈ requests, ∃ headers parts body,
      request = .putBlob headers parts body ∧ contents body = content) :
    CollisionFree crates state requests := by
  have hput : ∀ request ∈ requests, ∀ digest source,
      MayCall (.blobs (.put digest source)) (handle crates state request) → source = content := by
    intro request hmem digest source hcall
    obtain ⟨headers, parts, body, rfl, hbody⟩ := h request hmem
    exact (put_of_putBlob hcall).trans hbody
  intro first hfirst second hsecond digest source source' hcall hcall'
  rw [hput first hfirst digest source hcall, hput second hsecond digest source' hcall']

/-- The requests of one namespace. -/
def inNamespace (ns : String) (request : Request) : Bool := decide (request.ns = some ns)

/-- The requests of a pool beside those of another one, each answered as a client of
the namespace can tell, or not answered yet on either side. -/
def AnsweredAlike (threads others : List (Request × Handler Reply)) : Prop :=
  List.Forall₂ (fun thread other => thread.1 = other.1 ∧
    Pool.SameProgress SameReply thread.2 other.2) threads others

/-- Whatever other namespaces do, and however its calls are treated, the requests of a
namespace could have been answered alike in a run that has no other requests. -/
theorem noninterference
    (hreach : Pool.Reachable (Treated crates treatments) (handle crates state) Held.empty pool)
    (hfree : CollisionFree crates state (pool.threads.map Prod.fst)) (ns : String) :
    ∃ purged, Pool.Reachable (Treated crates treatments) (handle crates state) Held.empty purged ∧
      AnsweredAlike (Pool.ownThreads (inNamespace ns) pool.threads) purged.threads := by
  obtain ⟨chosen, hchosen⟩ := hfree.exists_chosen
  have hrestricted : Pool.Reachable (Served crates treatments chosen) (handle crates state)
      Held.empty pool := by
    have hfits : ∀ thread ∈ pool.threads, Calls (Fits chosen) (handle crates state thread.1) :=
      fun thread hmem => hchosen thread.1 (List.mem_map_of_mem hmem)
    apply Pool.Reachable.weaken _ (hreach.restrict hfits)
    rintro op stores answer later ⟨⟨treatment, hallowed, htreats⟩, hop⟩
    exact ⟨treatment, hallowed, htreats, hop⟩
  obtain ⟨purged, hpurged, hpurges⟩ := Pool.Reachable.purges served_le
    (fun request hown s t => alike_handle (of_decide_eq_true hown))
    (fun request hforeign => unseen_handle (of_decide_eq_false hforeign)) sameView_empty
    hrestricted
  refine ⟨purged, ?_, hpurges.outcomes⟩
  apply Pool.Reachable.weaken _ hpurged
  rintro op stores answer later ⟨treatment, hallowed, htreats, _⟩
  exact ⟨treatment, hallowed, htreats⟩

/-- Two namespaces that upload the same descriptor, the foreign one first. -/
def sharedUploads : List Request :=
  [.putBlob [("mbx-cache-protocol", "1"), ("mbx-cache-namespace", "other/app"),
      ("if-none-match", "*")] (partsOf Sample.taskActionDigest) [.ok Sample.taskActionText],
    Sample.upload Sample.taskActionDigest Sample.taskActionText]

theorem collisionFree_sharedUploads :
    CollisionFree Sample.crates Sample.state sharedUploads := by
  apply collisionFree_of_contents
  intro request hmem
  rcases List.mem_cons.mp hmem with rfl | hrest
  · exact ⟨_, _, _, rfl, rfl⟩
  · obtain rfl := List.mem_singleton.mp hrest
    exact ⟨_, _, _, rfl, rfl⟩

/-- The upload of the second namespace could have been answered alike without the first. -/
theorem noninterference_shared :
    ∃ purged, Pool.Reachable (Treated Sample.crates (· = .answered .whole))
        (handle Sample.crates Sample.state) Held.empty purged ∧
      AnsweredAlike (Pool.ownThreads (inNamespace "acme/app")
        (sharedUploads.foldl (Pool.serve (alone Sample.crates .whole)
          (handle Sample.crates Sample.state)) ⟨Held.empty, []⟩).threads) purged.threads := by
  have hreach : Pool.Reachable (Treated Sample.crates (· = .answered .whole))
      (handle Sample.crates Sample.state) Held.empty
      (sharedUploads.foldl (Pool.serve (alone Sample.crates .whole)
        (handle Sample.crates Sample.state)) ⟨Held.empty, []⟩) :=
    Pool.reachable_start.serveAll (fun op s => ⟨_, rfl, .answered .whole op s⟩) sharedUploads
  exact noninterference hreach collisionFree_sharedUploads "acme/app"

/-- The threads of requests that are served one after another. -/
def servedAll (crates : Crates) (state : AppState) (chunking : Chunking)
    (requests : List Request) : List (Request × Handler Reply) :=
  (requests.foldl (Pool.serve (alone crates chunking) (handle crates state))
    ⟨Held.empty, []⟩).threads

end Runs

end

end MbxCache.Server
