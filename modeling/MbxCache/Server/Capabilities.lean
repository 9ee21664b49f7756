/-
# What the service advertises

The capabilities name the digest algorithms, the action kinds with their schema
versions and the limits of the service. They are a promise in both directions: what a
client stores within them is not refused for its kind or version, and nothing that is
stored or answered is outside of them, whatever requests run beside each other.
-/

import MbxCache.Server.Calls
import MbxCache.Server.Descriptors
import MbxCache.Server.ReadYourWrites

namespace MbxCache.Server

open Foundation Program Pack

/-! ## The document -/

structure ActionKindCapability where
  actionSchema : UInt64
  metadataSchema : UInt64
  deriving DecidableEq, Repr

structure CapabilityFeatures where
  actionManifests : Bool
  batch : Bool
  actionBatch : Bool
  blobPacks : Bool
  blobPackUploads : Bool

structure CapabilityLimits where
  maxBatchItems : UInt64
  maxInlineBlobBytes : UInt64
  maxBlobBytes : UInt64
  maxPackBytes : UInt64

structure Capabilities where
  digestAlgorithms : List String
  compressors : List String
  actionKinds : List (String × ActionKindCapability)
  features : CapabilityFeatures
  limits : CapabilityLimits

/-- The action kinds are in the order of their names, as the map of the source holds
them. -/
def capabilities (state : AppState) : Capabilities where
  digestAlgorithms := ["blake3", "sha256"]
  compressors := ["identity", "zstd"]
  actionKinds :=
    [("build-script", ⟨2, 1⟩), ("cc", ⟨1, 1⟩), ("rustc", ⟨1, 1⟩), ("task", ⟨1, 1⟩)]
  features :=
    { actionManifests := true
      batch := true
      actionBatch := true
      blobPacks := true
      blobPackUploads := true }
  limits :=
    { maxBatchItems := MAX_BATCH_ITEMS.toUInt64
      maxInlineBlobBytes := 1048576
      maxBlobBytes := state.maxBlobBytes
      maxPackBytes := state.maxBlobBytes }

theorem capabilities_maxBatchItems (state : AppState) :
    (capabilities state).limits.maxBatchItems.toNat = MAX_BATCH_ITEMS := by
  show MAX_BATCH_ITEMS.toUInt64.toNat = MAX_BATCH_ITEMS
  decide +kernel

/-- A kind of action at a schema version. -/
def Capabilities.Offers (caps : Capabilities) (kind : String) (version : UInt64) : Prop :=
  ∃ capability, (kind, capability) ∈ caps.actionKinds ∧ capability.actionSchema = version

/-- Metadata of a kind at a schema version. -/
def Capabilities.OffersMetadata (caps : Capabilities) (kind : String) (version : UInt64) : Prop :=
  ∃ capability, (kind, capability) ∈ caps.actionKinds ∧ capability.metadataSchema = version

/-! ## Kinds and versions -/

section Kinds

variable {crates : Crates} {state : AppState}

theorem supportedVersion_eq_ok {what : String} {supported version : UInt64} {u : Unit} :
    supportedVersion what supported version = .ok u ↔ version = supported := by
  simp [supportedVersion]

/-- The text of a refusal that is about the kind or the version, not about the record. -/
def Unsupported (e : ApiError) : Prop := "unsupported".toList <+: e.message.toList

theorem not_unsupported {e : ApiError} {letter : Char} {letters : List Char}
    (h : e.message.toList = letter :: letters) (hne : letter ≠ 'u') : ¬ Unsupported e := by
  intro hstarts
  unfold Unsupported at hstarts
  rw [h] at hstarts
  exact hne (List.cons_prefix_cons.mp hstarts).1.symm

theorem unsupported_append (rest : String) :
    Unsupported (.unprocessable ("unsupported" ++ rest)) := by
  show "unsupported".toList <+: ("unsupported" ++ rest).toList
  rw [String.toList_append]
  exact List.prefix_append _ _

theorem errs_error {α : Type} {kind : ApiError → Prop} {e : ApiError} (h : kind e) :
    Errs kind (.error e : Except ApiError α) := by
  intro e' heq
  cases heq
  exact h

/-- A record that is not accepted is called invalid. -/
theorem not_unsupported_parseRecord {α : Type} {what : String} {parse : Json → Except String α}
    {validate : α → Bool} {value : Json} :
    Errs (fun e => ¬ Unsupported e) (parseRecord what parse validate value) := by
  have hinvalid : ∀ rest : String, ¬ Unsupported (.unprocessable ("invalid " ++ rest)) := by
    intro rest
    have hletters : ("invalid " ++ rest).toList = 'i' :: ("nvalid ".toList ++ rest.toList) := by
      rw [String.toList_append]
      rfl
    exact not_unsupported hletters (by decide)
  apply Errs.bind
  · apply errs_mapError
    intro error
    have htext : s!"invalid {what}: {error}" = "invalid " ++ (what ++ ": " ++ error) := by
      simp [String.append_assoc]
      rfl
    rw [htext]
    exact hinvalid _
  · intro record
    apply Errs.bind
    · apply errs_rejectIf
      have htext : s!"invalid {what} values" = "invalid " ++ (what ++ " values") := by
        simp [String.append_assoc]
        rfl
      rw [htext]
      exact hinvalid _
    · exact fun _ => errs_ok _

theorem not_unsupported_record {α : Type} {what : String} {parse : Json → Except String α}
    {validate : α → Bool} {value : Json} {kind : ActionKind} :
    Errs (fun e => ¬ Unsupported e)
      (discard (parseRecord what parse validate value) >>= fun _ => Except.ok kind) := by
  apply Errs.bind
  · exact not_unsupported_parseRecord.bind fun _ => errs_ok _
  · exact fun _ => errs_ok _

/-- What a check of one version refuses as unsupported. -/
theorem unsupported_checked {α : Type} {what : String} {supported version : UInt64}
    {rest : Except ApiError α} (hrest : Errs (fun e => ¬ Unsupported e) rest) :
    (∃ e, (supportedVersion what supported version >>= fun _ => rest) = .error e ∧
      Unsupported e) ↔ supported ≠ version := by
  constructor
  · rintro ⟨e, hrefused, hunsupported⟩ rfl
    have hsupported : supportedVersion what supported supported = .ok () :=
      supportedVersion_eq_ok.mpr rfl
    rw [hsupported] at hrefused
    exact hrest e hrefused hunsupported
  · intro hne
    have htext : s!"unsupported {what} schema {version}" =
        "unsupported" ++ (" " ++ what ++ " schema " ++ toString version) := by
      simp [String.append_assoc]
      rfl
    refine ⟨.unprocessable s!"unsupported {what} schema {version}", ?_, ?_⟩
    · have hrefused : (version != supported) = true := bne_iff_ne.mpr hne.symm
      rw [supportedVersion, hrefused]
      rfl
    · rw [htext]
      exact unsupported_append _

theorem offers_iff {kind : String} {version : UInt64} :
    (capabilities state).Offers kind version ↔
      (kind = "build-script" ∧ 2 = version) ∨ (kind = "cc" ∧ 1 = version) ∨
        (kind = "rustc" ∧ 1 = version) ∨ (kind = "task" ∧ 1 = version) := by
  simp only [Capabilities.Offers, capabilities, List.mem_cons, List.not_mem_nil, or_false,
    Prod.mk.injEq]
  constructor
  · rintro ⟨_, ⟨rfl, rfl⟩ | ⟨rfl, rfl⟩ | ⟨rfl, rfl⟩ | ⟨rfl, rfl⟩, rfl⟩ <;> simp
  · rintro (⟨rfl, rfl⟩ | ⟨rfl, rfl⟩ | ⟨rfl, rfl⟩ | ⟨rfl, rfl⟩) <;> simp

/-- A descriptor is refused for its kind or its version exactly when these are not
advertised. -/
theorem unsupported_iff {value : Json} {kind : String} {version : UInt64}
    (h : kindAndVersion "action descriptor" value = .ok (kind, version)) :
    (∃ e, acceptDescriptor crates value = .error e ∧ Unsupported e) ↔
      ¬ (capabilities state).Offers kind version := by
  rw [offers_iff, acceptDescriptor, h]
  dsimp only [Bind.bind, Except.bind]
  split
  · apply (unsupported_checked _).trans
    · simp
    · exact not_unsupported_record
  · apply (unsupported_checked _).trans
    · simp
    · exact not_unsupported_record
  · apply (unsupported_checked _).trans
    · simp
    · dsimp only
      split
      · rename_i field _
        apply errs_error
        have htext : s!"task action field {field.quote} is required" =
            "task action field " ++ (field.quote ++ " is required") := by
          simp [String.append_assoc]
          rfl
        have hletters : ("task action field " ++ (field.quote ++ " is required")).toList =
            't' :: ("ask action field ".toList ++ (field.quote ++ " is required").toList) := by
          rw [String.toList_append]
          rfl
        rw [htext]
        exact not_unsupported hletters (by decide)
      · exact not_unsupported_record
  · apply (unsupported_checked _).trans
    · simp
    · exact not_unsupported_record
  · rename_i hbuild hcc htask hrustc
    have htext : s!"unsupported action kind {kind.quote}" =
        "unsupported" ++ (" action kind " ++ kind.quote) := by
      have htext' : "unsupported action kind " = "unsupported" ++ " action kind " := by decide
      show "unsupported action kind " ++ kind.quote = _
      rw [htext', String.append_assoc]
    constructor
    · rintro _ (⟨rfl, _⟩ | ⟨rfl, _⟩ | ⟨rfl, _⟩ | ⟨rfl, _⟩)
      · exact hbuild rfl
      · exact hcc rfl
      · exact hrustc rfl
      · exact htask rfl
    · intro _
      refine ⟨.unprocessable s!"unsupported action kind {kind.quote}", rfl, ?_⟩
      rw [htext]
      exact unsupported_append _

/-- An accepted descriptor is of an advertised kind and version. -/
theorem offers_of_acceptDescriptor {value : Json} {kind : ActionKind}
    (h : acceptDescriptor crates value = .ok kind) :
    ∃ version, kindAndVersion "action descriptor" value = .ok (kind.name, version) ∧
      (capabilities state).Offers kind.name version := by
  obtain ⟨⟨name, version⟩, hnamed, hkind⟩ := bind_eq_ok.mp h
  have hoffers : (capabilities state).Offers name version := by
    by_contra hnot
    obtain ⟨e, hrefused, _⟩ := (unsupported_iff hnamed).mpr hnot
    rw [h] at hrefused
    cases hrefused
  have hname : kind.name = name := by
    dsimp only at hkind
    split at hkind
    · obtain ⟨_, _, hrecord⟩ := bind_eq_ok.mp hkind
      obtain ⟨_, _, _, rfl⟩ := exists_of_validator hrecord
      rfl
    · obtain ⟨_, _, hrecord⟩ := bind_eq_ok.mp hkind
      obtain ⟨_, _, _, rfl⟩ := exists_of_validator hrecord
      rfl
    · obtain ⟨_, _, hrecord⟩ := bind_eq_ok.mp hkind
      dsimp only at hrecord
      split at hrecord
      · cases hrecord
      · obtain ⟨_, _, _, rfl⟩ := exists_of_validator hrecord
        rfl
    · obtain ⟨_, _, hrecord⟩ := bind_eq_ok.mp hkind
      obtain ⟨_, _, _, rfl⟩ := exists_of_validator hrecord
      rfl
    · cases hkind
  exact ⟨version, hname ▸ hnamed, hname ▸ hoffers⟩

theorem offersMetadata_name (kind : ActionKind) :
    (capabilities state).OffersMetadata kind.name 1 := by
  cases kind with
  | buildScript => exact ⟨⟨2, 1⟩, by simp [capabilities, ActionKind.name], rfl⟩
  | cc => exact ⟨⟨1, 1⟩, by simp [capabilities, ActionKind.name], rfl⟩
  | rustc => exact ⟨⟨1, 1⟩, by simp [capabilities, ActionKind.name], rfl⟩
  | task => exact ⟨⟨1, 1⟩, by simp [capabilities, ActionKind.name], rfl⟩

/-- Accepted metadata is of the kind of its action and of an advertised version. -/
theorem offers_of_acceptMetadata {value : Json} {kind : ActionKind}
    {streams : Option (Digest × Digest)} (h : acceptMetadata crates kind value = .ok streams) :
    ∃ version, kindAndVersion "client metadata" value = .ok (kind.name, version) ∧
      (capabilities state).OffersMetadata kind.name version := by
  obtain ⟨⟨named, version⟩, hnamed, h⟩ := bind_eq_ok.mp h
  obtain ⟨_, hsame, hstreams⟩ := bind_eq_ok.mp h
  have hname : named = kind.name := by
    rw [rejectIf_eq_ok] at hsame
    simpa using hsame
  subst hname
  have hversion : version = 1 := by
    unfold metadataStreams at hstreams
    cases kind with
    | task =>
        obtain ⟨_, htask, _⟩ := bind_eq_ok.mp hstreams
        obtain ⟨_, hsupported, _⟩ := bind_eq_ok.mp htask
        exact supportedVersion_eq_ok.mp hsupported
    | _ =>
        obtain ⟨_, hsupported, _⟩ := bind_eq_ok.mp hstreams
        exact supportedVersion_eq_ok.mp hsupported
  exact ⟨version, hnamed, hversion ▸ offersMetadata_name kind⟩

end Kinds

/-! ## What is visible -/

section Visible

variable {crates : Crates} {state : AppState}
  {pool : Pool Held Request StoreOp StoreOp.Answer ApiError Reply}

/-- A call makes visible only the digest that it registers. -/
theorem sees_exec {op : StoreOp} {stores : Held} {ns : String} {digest : Digest}
    (h : Sees (Stores.exec .whole (MemoryMetadata.exec crates) op stores).2 ns digest) :
    Sees stores ns digest ∨ op.registered = some digest := by
  cases op with
  | blobs op =>
      cases op with
      | get other => exact .inl h
      | put other source =>
          have hput : Sees (stores.putObject other source).2 ns digest := h
          rw [Sees, Stores.putObject_metadata] at hput
          exact .inl hput
  | metadata op =>
      cases op with
      | registerBlob ns' other outcome =>
          rcases Finset.mem_insert.mp h with heq | hold
          · obtain ⟨_, rfl⟩ := Prod.mk.inj heq
            exact .inr rfl
          · exact .inl hold
      | commit ns' action result =>
          have hcommit : (ns, digest) ∈ (stores.metadata.commit crates ns' action result).2.blobs := h
          unfold MemoryMetadata.commit at hcommit
          cases hencoded : crates.resultToVec result with
          | error error =>
              rw [hencoded] at hcommit
              exact .inl hcommit
          | ok encoded =>
              rw [hencoded] at hcommit
              dsimp only at hcommit
              cases hentry : stores.metadata.entries (ns', action) with
              | none =>
                  rw [hentry] at hcommit
                  exact .inl hcommit
              | some existing =>
                  rw [hentry] at hcommit
                  exact .inl hcommit
      | commitManifest ns' key expectedEtag etag manifest =>
          have hframe := MemoryMetadata.commitManifest_frame stores.metadata ns' key expectedEtag
            etag manifest
          have hmanifest : (ns, digest) ∈ (stores.metadata.commitManifest ns' key expectedEtag etag
            manifest).2.blobs := h
          rw [hframe.1] at hmanifest
          exact .inl hmanifest
      | visibleBlobs | blobVisible | touchBlobs | get | getBatch | getManifest => exact .inl h

/-- Everything that can be seen was let through. -/
theorem ReachablePool.admitted (hreach : ReachablePool crates state pool) {ns : String}
    {digest : Digest} (hsees : Sees pool.state ns digest) : Admitted crates state digest := by
  let inv : Held → Prop := fun stores =>
    ∀ ns digest, Sees stores ns digest → Admitted crates state digest
  have hinit : inv Held.empty := by
    intro ns digest hnone
    cases Finset.notMem_empty _ hnone
  have hexec : ∀ op stores answer later,
      (∀ digest, op.registered = some digest → Admitted crates state digest) →
      HeldAnswers crates op stores answer later → inv stores → inv later := by
    intro op stores answer later hallowed hanswers hbefore ns digest hlater
    rcases later_of_answers hanswers with rfl | rfl
    · exact hbefore ns digest hlater
    · rcases sees_exec hlater with hold | hnew
      · exact hbefore ns digest hold
      · exact hallowed digest hnew
  exact Pool.Reachable.inv_of_calls hinit
    (fun request => (inside_handle request).imp fun _ hinside => hinside.registered) hexec hreach
    ns digest hsees

theorem Admitted.validate (hrules : crates.digests.Documented) {digest : Digest}
    (h : Admitted crates state digest) : crates.digests.validate digest = true :=
  h.formed.elim id (hrules.validate_iff digest).mpr

theorem algorithm_mem_capabilities {digest : Digest} (h : digest.WellFormed) :
    digest.algorithm ∈ (capabilities state).digestAlgorithms := by
  obtain ⟨algorithm, hname⟩ := h.algorithm
  rw [hname]
  cases algorithm with
  | blake3 => exact List.mem_cons_self
  | sha256 => exact List.mem_cons_of_mem _ List.mem_cons_self

end Visible

/-! ## What is answered -/

/-- A request within the limits. -/
def Capabilities.Within (caps : Capabilities) : Request → Prop
  | .putBlob _ parts _ => (digestOf parts).size ≤ caps.limits.maxBlobBytes
  | .putBlobPack headers _ => ∃ blobs bytes,
      requiredU64Header headers "mbx-cache-pack-blobs" = .ok blobs ∧
      requiredU64Header headers "mbx-cache-pack-bytes" = .ok bytes ∧
      blobs ≤ caps.limits.maxBatchItems.toNat ∧ bytes ≤ caps.limits.maxPackBytes.toNat
  | .missingBlobs _ digests | .batchActionResults _ digests =>
      digests.length ≤ caps.limits.maxBatchItems.toNat
  | .packBlobs _ digests => digests.length ≤ caps.limits.maxBatchItems.toNat ∧
      (digests.eraseDups.map fun digest => digest.size.toNat).sum ≤ caps.limits.maxPackBytes.toNat
  | _ => True

section Answered

variable {crates : Crates} {state : AppState}
  {pool : Pool Held Request StoreOp StoreOp.Answer ApiError Reply}

theorem length_le_of_rejectIf {digests : List Digest} {e : ApiError} {u : Unit}
    (h : rejectIf (decide (digests.length > MAX_BATCH_ITEMS)) e = .ok u) :
    digests.length ≤ (capabilities state).limits.maxBatchItems.toNat := by
  rw [capabilities_maxBatchItems]
  simpa using h

/-- A request that succeeds is within the limits. -/
theorem ReachablePool.within (hreach : ReachablePool crates state pool) {request : Request}
    {reply : Reply} (hmem : (request, done (.ok reply)) ∈ pool.threads) :
    (capabilities state).Within request := by
  cases request with
  | putBlob headers parts body =>
      apply hreach.of_success hmem
      apply Attains.map
      apply attains_lift
      intro _ _
      apply attains_lift
      intro _ _
      apply attains_lift
      intro digest hdigest
      apply attains_checked
      intro spool hspool
      obtain ⟨_, hlimit, _⟩ := bind_eq_ok.mp hspool
      obtain ⟨rfl, _⟩ := (parseDigest_eq_ok _).mp hdigest
      have hsize : parts.2.2 ≤ state.maxBlobBytes := by simpa using hlimit
      exact hsize
  | putBlobPack headers body =>
      apply hreach.of_success hmem
      apply Attains.map
      apply attains_lift
      intro _ _
      apply attains_checked
      intro declared hdeclared
      obtain ⟨hblobs, hbytes, hblobsLe, hbytesLe⟩ := packDeclaration_eq_ok.mp hdeclared
      exact ⟨declared.1, declared.2, hblobs, hbytes,
        (capabilities_maxBatchItems state).symm ▸ hblobsLe, hbytesLe⟩
  | missingBlobs headers digests =>
      apply hreach.of_success hmem
      apply Attains.map
      apply attains_lift
      intro _ _
      apply attains_checked
      intro _ hchecked
      obtain ⟨_, hlimit, _⟩ := bind_eq_ok.mp hchecked
      exact length_le_of_rejectIf hlimit
  | batchActionResults headers digests =>
      apply hreach.of_success hmem
      apply Attains.map
      apply attains_lift
      intro _ _
      apply attains_checked
      intro requested hrequested
      obtain ⟨_, hlimit, _⟩ := bind_eq_ok.mp hrequested
      exact length_le_of_rejectIf hlimit
  | packBlobs headers digests =>
      apply hreach.of_success hmem
      apply Attains.map
      apply attains_lift
      intro _ _
      apply attains_checked
      intro request hrequest
      obtain ⟨_, hlimit, hadded⟩ := bind_eq_ok.mp hrequest
      obtain ⟨_, htotal, hbound, _⟩ := packRequest_foldlM digests hadded
      exact ⟨length_le_of_rejectIf hlimit, htotal ▸ hbound⟩
  | _ => trivial

/-- A stored result whose descriptor and metadata are of a kind and of versions that are
advertised. -/
structure Offered (crates : Crates) (caps : Capabilities) (stores : Held) (ns : String)
    (action : Digest) (result : ActionResult) (kind : String) : Prop where
  descriptor : ∃ value version, HoldsObject crates stores ns action "action descriptor" value ∧
    kindAndVersion "action descriptor" value = .ok (kind, version) ∧ caps.Offers kind version
  metadata : ∀ digest, result.metadata = some digest → ∃ value version,
    HoldsObject crates stores ns digest "client metadata" value ∧
    kindAndVersion "client metadata" value = .ok (kind, version) ∧
    caps.OffersMetadata kind version

theorem Published.offered {stores : Held} {ns : String} {action : Digest} {result : ActionResult}
    (h : Published crates stores ns action result) :
    ∃ kind, Offered crates (capabilities state) stores ns action result kind := by
  obtain ⟨kind, value, hobject, haccept, _, hmetadata⟩ := h.kind
  have hdescriptor : ∃ version, kindAndVersion "action descriptor" value = .ok (kind.name, version) ∧
      (capabilities state).Offers kind.name version := offers_of_acceptDescriptor haccept
  obtain ⟨version, hnamed, hoffers⟩ := hdescriptor
  refine ⟨kind.name, ⟨value, version, hobject, hnamed, hoffers⟩, ?_⟩
  intro digest hdigest
  obtain ⟨value', streams, hobject', haccept', _⟩ := hmetadata digest hdigest
  have hclient : ∃ version, kindAndVersion "client metadata" value' = .ok (kind.name, version) ∧
      (capabilities state).OffersMetadata kind.name version := offers_of_acceptMetadata haccept'
  obtain ⟨version', hnamed', hoffers'⟩ := hclient
  exact ⟨value', version', hobject', hnamed', hoffers'⟩

/-- The advertised capabilities are exact in every run: what can be seen is of an
advertised algorithm and within the size limit, what is committed is of an advertised
kind and of advertised schema versions, what succeeds is within the limits, and a
descriptor is refused as unsupported only if its kind or version is not advertised. -/
theorem capabilities_hold (hrules : crates.digests.Documented)
    (hreach : ReachablePool crates state pool) :
    (∀ ns digest, Sees pool.state ns digest →
      digest.algorithm ∈ (capabilities state).digestAlgorithms ∧
        digest.size ≤ (capabilities state).limits.maxBlobBytes) ∧
    (∀ ns action bytes, pool.state.metadata.entries (ns, action) = some bytes →
      ∃ result kind, crates.resultToVec result = .ok bytes ∧
        Offered crates (capabilities state) pool.state ns action result kind) ∧
    (∀ request reply, (request, done (.ok reply)) ∈ pool.threads →
      (capabilities state).Within request) ∧
    ∀ value kind version, kindAndVersion "action descriptor" value = .ok (kind, version) →
      ((∃ e, acceptDescriptor crates value = .error e ∧ Unsupported e) ↔
        ¬ (capabilities state).Offers kind version) := by
  refine ⟨?_, ?_, fun _ _ hmem => hreach.within hmem, fun _ _ _ hnamed => unsupported_iff hnamed⟩
  · intro ns digest hsees
    have hadmitted := hreach.admitted hsees
    exact ⟨algorithm_mem_capabilities ((hrules.validate_iff digest).mp (hadmitted.validate hrules)),
      hadmitted.limited⟩
  · intro ns action bytes hentry
    obtain ⟨result, hencoded, hpublished⟩ := hreach.checked.1.complete ns action bytes hentry
    obtain ⟨kind, hoffered⟩ := hpublished.offered
    exact ⟨result, kind, hencoded, hoffered⟩

/-- Of the session that uploads an action and publishes its result: the uploaded action
can be seen, and everything that can be seen is within what the sample server
advertises. -/
theorem capabilities_hold_session :
    Sees sessionPool.state "acme/app" Sample.taskActionDigest ∧
      ∀ ns digest, Sees sessionPool.state ns digest →
        digest.algorithm ∈ (capabilities Sample.state).digestAlgorithms ∧
          digest.size ≤ (capabilities Sample.state).limits.maxBlobBytes := by
  have hholds := capabilities_hold Sample.documented reachable_sessionPool
  refine ⟨?_, hholds.1⟩
  rw [Sees]
  decide +kernel

end Answered

end MbxCache.Server
