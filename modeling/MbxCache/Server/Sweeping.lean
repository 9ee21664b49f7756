/-
# Sweeps beside requests

The service over Postgres while sweeps of the same database run. A result is checked
against the blobs of its namespace some time before its row goes in, and a sweep looks
for results without their blobs some time before it commits, so either may miss the
other.

What a sweep has seen it does not miss: a blob that it took is referred to afterwards
only by a result whose upload was under way after the sweep had looked and before it
committed.
-/

import MbxCache.Foundation.Background
import MbxCache.Metadata.Transactions
import MbxCache.Server.Calls
import MbxCache.Server.Deployment

namespace MbxCache.Server

open Foundation Program PostgresMetadata

/-! ## The system -/

/-- The stores of a deployment, and the sweeps that have begun. -/
structure Shared where
  stores : Stores Database
  sweeps : List Sweeping

def Shared.postgres (s : Shared) : Postgres := ⟨s.stores.metadata, s.sweeps⟩

/-- A deployment that has just started. -/
def Shared.empty : Shared := ⟨Deployed.empty, []⟩

/-- One call of a request. A statement that has an effect waits for no sweep. -/
inductive SharedAnswers : (op : BackendOp) → Shared → op.Answer → Shared → Prop where
  | blobs {op : BlobOp} {stores later : Stores Database} {answer : (BackendOp.blobs op).Answer}
      (sweeps : List Sweeping) (answers : DeployedAnswers (.blobs op) stores answer later)
      (kept : later.metadata = stores.metadata) :
      SharedAnswers (.blobs op) ⟨stores, sweeps⟩ answer ⟨later, sweeps⟩
  | answered (now : ℕ) (statement : Statement) (stores : Stores Database)
      (sweeps : List Sweeping) (free : Postgres.Free ⟨stores.metadata, sweeps⟩ now statement) :
      SharedAnswers (.database statement) ⟨stores, sweeps⟩
        (stores.metadata.execute now statement).1
        ⟨{ stores with metadata := (stores.metadata.execute now statement).2 }, sweeps⟩
  | refused (statement : Statement) (s : Shared) (error : String) :
      SharedAnswers (.database statement) s (.error error) s
  | lost (now : ℕ) (statement : Statement) (stores : Stores Database) (sweeps : List Sweeping)
      (error : String) (free : Postgres.Free ⟨stores.metadata, sweeps⟩ now statement) :
      SharedAnswers (.database statement) ⟨stores, sweeps⟩ (.error error)
        ⟨{ stores with metadata := (stores.metadata.execute now statement).2 }, sweeps⟩

/-- A step of a sweep, which leaves the objects as they are. -/
structure Sweeps (event : Postgres.SweepEvent) (s t : Shared) : Prop where
  blobs : t.stores.blobs = s.stores.blobs
  step : Postgres.SweepStep s.postgres event t.postgres

/-- Some step of some sweep. -/
def AnySweep (s t : Shared) : Prop := ∃ event, Sweeps event s t

/-- A handler of the deployment. -/
abbrev deployedHandler (crates : Crates) (state : AppState) (request : Request) :
    Program BackendOp BackendOp.Answer ApiError Reply :=
  (handle crates state request).interpret (implementation crates)

abbrev SharedPool : Type := Pool Shared Request BackendOp BackendOp.Answer ApiError Reply

/-- What any requests and sweeps may come to, in any order of their steps. -/
abbrev ReachableShared (crates : Crates) (state : AppState) (pool : SharedPool) : Prop :=
  Pool.ReachableBeside SharedAnswers (deployedHandler crates state) AnySweep Shared.empty pool

abbrev LeadsShared (crates : Crates) (state : AppState) : SharedPool → SharedPool → Prop :=
  Pool.LeadsBeside SharedAnswers (deployedHandler crates state) AnySweep

/-! ## References -/

/-- A top-level reference. -/
def Refers (result : ActionResult) (digest : Digest) : Prop :=
  result.metadata = some digest ∨ result.outputRoot = some digest

/-- An upload of a result of the namespace that refers to the digest. -/
def RefersIn (ns : String) (digest : Digest) (request : Request) : Prop :=
  request.ns = some ns ∧ ∃ headers parts result,
    request = .putActionResult headers parts result ∧ Refers result digest

/-- A row that was written for a result which refers to the digest. -/
def RefersTo (crates : Crates) (value : Json) (digest : Digest) : Prop :=
  ∃ result, crates.resultToValue result = .ok value ∧ Refers result digest

/-- A digest as the derived serializer writes it. -/
structure WrittenAs (written : Json) (digest : Digest) : Prop where
  object : written.asObject.isSome = true
  algorithm : jsonText written "algorithm" = some digest.algorithm
  hash : jsonText written "hash" = some digest.hash
  size : jsonBigint written "size" = bigint digest.size.toNat

/-- The derived serializer of a result writes its references under their names. -/
structure WritesReferences (crates : Crates) : Prop where
  metadata : ∀ result value digest, crates.resultToValue result = .ok value →
    result.metadata = some digest →
    ∃ written, jsonMember value "metadata" = some written ∧ WrittenAs written digest
  outputRoot : ∀ result value digest, crates.resultToValue result = .ok value →
    result.outputRoot = some digest →
    ∃ written, jsonMember value "output_root" = some written ∧ WrittenAs written digest

/-- The blob has no row in the namespace. -/
def Absent (ns : String) (digest : Digest) (s : Shared) : Prop :=
  s.stores.metadata.namespaceBlobs.find (rowKey ns digest) = none

/-- Every result of the namespace that refers to the digest is one of these rows. -/
def OnlyIn (crates : Crates) (ns : String) (digest : Digest) (keys : Finset RowKey)
    (s : Shared) : Prop :=
  ∀ action value, s.stores.metadata.actionResults.find (rowKey ns action) = some value →
    RefersTo crates value digest → rowKey ns action ∈ keys

section

variable {crates : Crates} {ns : String} {digest : Digest} {value : Json}

/-- What is written for a reference names the row of its digest. -/
theorem exists_names (hwrites : WritesReferences crates) (hrefers : RefersTo crates value digest)
    (hchecked : (rowKey ns digest).Checked) :
    ∃ written, Database.References value written ∧ Database.Names written (rowKey ns digest) := by
  obtain ⟨result, hvalue, hreference⟩ := hrefers
  have hsize : digest.size.toNat < 2 ^ 63 := asI64_nonneg.mp hchecked.2
  have hbigint : bigint digest.size.toNat = .ok (some (rowKey ns digest).size) := by
    have hvalue : (rowKey ns digest).size = digest.size.toNat := by
      show asI64 digest.size = _
      rw [asI64, if_pos hsize]
    rw [bigint, if_pos, hvalue]
    omega
  have hnames : ∀ {written}, WrittenAs written digest →
      Database.Names written (rowKey ns digest) :=
    fun h => ⟨h.algorithm, h.hash, h.size.trans hbigint⟩
  rcases hreference with hmetadata | houtputRoot
  · obtain ⟨written, hmember, has⟩ := hwrites.metadata result value digest hvalue hmetadata
    exact ⟨written, ⟨.inl hmember, has.object⟩, hnames has⟩
  · obtain ⟨written, hmember, has⟩ := hwrites.outputRoot result value digest hvalue houtputRoot
    exact ⟨written, ⟨.inr hmember, has.object⟩, hnames has⟩

/-! ## The calls of a request -/

/-- The only results a request may insert are the one it came with. -/
def Inserts (crates : Crates) (request : Request) (op : BackendOp) : Prop :=
  ∀ key value, op = .database (.insertResult key value) →
    ∃ headers parts result ns action, request = .putActionResult headers parts result ∧
      request.ns = some ns ∧ key = rowKey ns action ∧ crates.resultToValue result = .ok value

theorem calls_viaStatements {allowed : Statement → Prop} {allowed' : BackendOp → Prop}
    (hallowed : ∀ statement, allowed statement → allowed' (.database statement)) {α : Type}
    {query : Query α} (h : Calls allowed query) : Calls allowed' (viaStatements query) := by
  induction query with
  | done outcome => trivial
  | call statement next ih => exact ⟨hallowed statement h.1, fun answer => ih answer (h.2 answer)⟩

/-- A statement that inserts a result is one of a commit. -/
def InsertsFor (crates : Crates) (op : MetadataOp) (statement : Statement) : Prop :=
  ∀ key value, statement = .insertResult key value → ∃ ns action result,
    op = .commit ns action result ∧ key = rowKey ns action ∧
      crates.resultToValue result = .ok value

theorem calls_send {op : MetadataOp} {statement : Statement}
    (h : ∀ key value, statement ≠ .insertResult key value) :
    Calls (InsertsFor crates op) (send statement) :=
  ⟨fun key value heq => absurd heq (h key value), fun _ => trivial⟩

theorem calls_get (op : MetadataOp) (ns : String) (action : Digest) :
    Calls (InsertsFor crates op) (get crates ns action) :=
  (calls_send (by simp)).bind fun _ => trivial

theorem calls_visibleBlobs (op : MetadataOp) (ns : String) (digests : List Digest) :
    Calls (InsertsFor crates op) (visibleBlobs ns digests) := by
  unfold visibleBlobs
  dsimp only
  split
  · trivial
  · exact (calls_send (by simp)).bind fun rows => calls_done _

theorem calls_method (op : MetadataOp) : Calls (InsertsFor crates op) (method crates op) := by
  cases op with
  | visibleBlobs ns digests => exact calls_visibleBlobs _ ns digests
  | blobVisible ns digest => exact (calls_visibleBlobs _ ns [digest]).bind fun _ => trivial
  | registerBlob ns digest stored => exact (calls_send (by simp)).bind fun _ => trivial
  | touchBlobs ns digests =>
      show Calls _ (touchBlobs ns digests)
      unfold touchBlobs
      dsimp only
      split
      · trivial
      · exact (calls_send (by simp)).bind fun _ => trivial
  | get ns action => exact calls_get _ ns action
  | getBatch ns actions =>
      show Calls _ (getBatch crates ns actions)
      unfold getBatch
      dsimp only
      split
      · trivial
      · apply (calls_send (by simp)).bind
        intro rows
        apply Calls.lift
        exact fun _ _ => trivial
  | commit ns action result =>
      apply Calls.lift
      intro encoded hencoded
      have hinsert : Calls (InsertsFor crates (.commit ns action result))
          (send (.insertResult (rowKey ns action) encoded)) := by
        apply And.intro _ fun _ => trivial
        intro key value heq
        obtain ⟨rfl, rfl⟩ := Statement.insertResult.inj heq
        exact ⟨ns, action, result, rfl, rfl, hencoded⟩
      apply hinsert.bind
      intro inserted
      split
      · trivial
      · apply (calls_get _ ns action).bind
        intro found
        apply Calls.lift
        intro existing _
        apply Calls.lift
        exact fun _ _ => trivial
  | getManifest ns key => exact (calls_send (by simp)).bind fun _ => trivial
  | commitManifest ns key expectedEtag etag manifest =>
      apply Calls.lift
      intro encoded _
      have hwrite : Calls (InsertsFor crates (.commitManifest ns key expectedEtag etag manifest))
          (writeManifest ns key expectedEtag etag encoded) := by
        cases expectedEtag with
        | none => exact calls_send (by simp)
        | some expected => exact calls_send (by simp)
      exact hwrite.bind fun _ => trivial

theorem calls_deployedHandler (state : AppState) (request : Request) :
    Calls (Inserts crates request) (deployedHandler crates state request) := by
  apply Calls.interpret _ (inside_handle request)
  intro op hinside
  cases op with
  | blobs op => exact ⟨fun _ _ heq => (by cases heq), fun _ => trivial⟩
  | metadata op =>
      apply calls_viaStatements _ (calls_method op)
      intro statement hstatement key value heq
      obtain ⟨ns, action, result, rfl, hkey, hvalue⟩ :=
        hstatement key value (BackendOp.database.inj heq)
      obtain ⟨headers, parts, hrequest⟩ := hinside.committed result rfl
      exact ⟨headers, parts, result, ns, action, hrequest, hinside.ns ns rfl, hkey, hvalue⟩

/-! ## The database -/

theorem SharedAnswers.postgres {op : BackendOp} {answer : op.Answer} {s t : Shared}
    (h : SharedAnswers op s answer t) :
    t.postgres = s.postgres ∨ Postgres.Step s.postgres t.postgres := by
  cases h with
  | blobs sweeps answers kept =>
      left
      unfold Shared.postgres
      rw [kept]
  | answered now statement stores sweeps free => exact .inr (.sent _ now statement free)
  | refused => exact .inl rfl
  | lost now statement stores sweeps error free => exact .inr (.sent _ now statement free)

theorem SharedAnswers.sweeps {op : BackendOp} {answer : op.Answer} {s t : Shared}
    (h : SharedAnswers op s answer t) : t.sweeps = s.sweeps := by
  cases h <;> rfl

theorem postgres_reachable {state : AppState} {pool : SharedPool}
    (h : ReachableShared crates state pool) : pool.state.postgres.Reachable := by
  unfold ReachableShared Pool.ReachableBeside Pool.LeadsBeside Pool.LeadsWhile at h
  induction h with
  | refl => exact .refl
  | tail _ taken ih =>
      apply taken.1.keeps fun s => s.postgres.Reachable
      · intro request op next answer t _ hexec hreach
        rcases hexec.postgres with hsame | hstep
        · exact hsame ▸ hreach
        · exact hreach.tail hstep
      · rintro t ⟨event, hsweeps⟩ hreach
        exact hreach.tail (.swept hsweeps.step)
      · exact ih

/-- A result that is there was there, or has just been inserted. -/
theorem SharedAnswers.results {op : BackendOp} {answer : op.Answer} {s t : Shared} {key : RowKey}
    (h : SharedAnswers op s answer t)
    (hfind : t.stores.metadata.actionResults.find key = some value) :
    s.stores.metadata.actionResults.find key = some value ∨
      op = .database (.insertResult key value) := by
  cases h with
  | blobs sweeps answers kept =>
      dsimp only at hfind ⊢
      rw [kept] at hfind
      exact .inl hfind
  | refused => exact .inl hfind
  | answered | lost =>
      exact (Database.actionResults_execute hfind).imp_right (congrArg BackendOp.database)

/-- Every row of a result was written for one. -/
def Encoded (crates : Crates) (s : Shared) : Prop :=
  ∀ key value, s.stores.metadata.actionResults.find key = some value →
    ∃ result, crates.resultToValue result = .ok value

theorem encoded_of_reachable {state : AppState} {pool : SharedPool}
    (h : ReachableShared crates state pool) : Encoded crates pool.state := by
  unfold ReachableShared Pool.ReachableBeside Pool.LeadsBeside Pool.LeadsWhile at h
  induction h with
  | refl =>
      intro key value hfind
      cases hfind
  | tail prior taken ih =>
      have hcalls := Pool.ReachableBeside.calls (calls_deployedHandler state) prior
      apply taken.1.keeps (Encoded crates)
      · intro request op next answer t hmem hexec hencoded key value hfind
        rcases hexec.results hfind with hold | hinsert
        · exact hencoded key value hold
        · obtain ⟨_, _, result, _, _, _, _, _, hvalue⟩ := (hcalls _ hmem).1 key value hinsert
          exact ⟨result, hvalue⟩
      · rintro t ⟨event, hsweeps⟩ hencoded key value hfind
        exact hencoded key value (hsweeps.step.actionResults hfind)
      · exact ih

/-! ## References to a blob that is gone -/

theorem OnlyIn.sweeps {keys : Finset RowKey} {event : Postgres.SweepEvent} {s t : Shared}
    (h : OnlyIn crates ns digest keys s) (hsweeps : Sweeps event s t) :
    OnlyIn crates ns digest keys t :=
  fun action value hfind => h action value (hsweeps.step.actionResults hfind)

/-- A thread that inserts a result which refers to the digest is an upload of one. -/
theorem refersIn_of_inserts (htrips : crates.RoundTrips) {request : Request} {op : BackendOp}
    {action : Digest} (h : Inserts crates request op)
    (hinsert : op = .database (.insertResult (rowKey ns action) value))
    (hrefers : RefersTo crates value digest) : RefersIn ns digest request := by
  obtain ⟨headers, parts, result, ns', action', hrequest, hns, hkey, hvalue⟩ :=
    h _ value hinsert
  obtain ⟨result', hvalue', hreference⟩ := hrefers
  obtain ⟨rfl, _⟩ := rowKey_inj.mp hkey
  obtain ⟨_, hto, hfrom⟩ := htrips.result_value result
  obtain ⟨_, hto', hfrom'⟩ := htrips.result_value result'
  rw [hvalue] at hto
  rw [hvalue'] at hto'
  obtain rfl := Except.ok.inj hto
  obtain rfl := Except.ok.inj hto'
  obtain rfl : result = result' := Except.ok.inj (hfrom.symm.trans hfrom')
  exact ⟨hns, headers, parts, result, hrequest, hreference⟩

/-- A call that inserts no such result. -/
theorem OnlyIn.call {keys : Finset RowKey} {op : BackendOp} {answer : op.Answer} {s t : Shared}
    (h : OnlyIn crates ns digest keys s) (hexec : SharedAnswers op s answer t)
    (hnot : ∀ action value, op = .database (.insertResult (rowKey ns action) value) →
      ¬ RefersTo crates value digest) : OnlyIn crates ns digest keys t := by
  intro action value hfind hrefers
  rcases hexec.results hfind with hold | hinsert
  · exact h action value hold hrefers
  · exact absurd hrefers (hnot action value hinsert)

/-- Right after a sweep has looked for them, the results that refer to a blob it took
are among those it took. -/
theorem onlyIn_looked (hwrites : WritesReferences crates) {s t : Shared} {index : ℕ}
    {blobs results : Deletion} (horderly : s.postgres.Orderly)
    (hlooked : Sweeps (.deleted index) s t)
    (hprogress : (t.sweeps[index]?).map Sweeping.progress =
      some (.resultsDeleted blobs results))
    (htaken : rowKey ns digest ∈ blobs.keys) : OnlyIn crates ns digest results.keys t := by
  obtain ⟨stores, sweeps⟩ := s
  obtain ⟨stores', sweeps'⟩ := t
  have hstep := hlooked.step
  unfold Shared.postgres at hstep horderly
  dsimp only at hstep horderly hprogress
  generalize hdb : stores.metadata = db at hstep horderly
  generalize hdb' : stores'.metadata = db' at hstep
  cases hstep with
  | delete db before after sweeping progress deleted free =>
      rw [Postgres.getElem?_middle, if_pos rfl] at hprogress
      obtain rfl := Option.some.inj hprogress
      rcases Sweeping.next_eq_ok deleted with ⟨_, hnone⟩ | ⟨blobs', results', hblobs, hresults, heq⟩ |
        ⟨_, _, _, hnone⟩
      · cases hnone
      · obtain ⟨rfl, rfl⟩ := Progress.resultsDeleted.inj heq
        have hheld := (Postgres.forall_mem_middle.mp horderly.present).1
        rw [hblobs] at hheld
        obtain ⟨row, hrow, _⟩ := hheld.blobs _ htaken
        have hchecked : (rowKey ns digest).Checked := by
          by_contra hunchecked
          rw [Table.find_of_not_check hunchecked] at hrow
          cases hrow
        intro action value hfind hrefers
        dsimp only at hfind
        rw [hdb'] at hfind
        obtain ⟨written, hreferences, hnames⟩ := exists_names hwrites hrefers hchecked
        unfold Sweeping.view at hresults
        rw [hblobs] at hresults
        exact Postgres.mem_results_of_names hresults hfind hreferences hnames rfl htaken
      · cases hnone

/-! ## An upload that comes too late -/

/-- While the blob has no row, no one is told that it is visible. -/
def Denies (ns : String) (digest : Digest) : (op : StoreOp) → op.Answer → Prop
  | .metadata (.blobVisible ns' digest'), answer =>
      ns' = ns → digest' = digest → answer ≠ .ok true
  | _, _ => True

/-- No result is committed unless someone is told so. -/
abbrev CommitsNothing (ns : String) (digest : Digest) {α : Type} (good : α → Prop)
    (handler : Handler α) : Prop :=
  Heeds (Denies ns digest) (fun op => op.committed = none) good handler

theorem stops_readVisibleObject (missing : String) :
    CommitsNothing ns digest (fun _ => False) (readVisibleObject ns digest missing) := by
  refine ⟨rfl, fun answer hdenies => ?_⟩
  cases answer with
  | error error => trivial
  | ok visible =>
      cases visible with
      | true => exact absurd rfl (hdenies rfl rfl)
      | false => trivial

theorem stops_validateClientMetadata (kind : ActionKind) :
    CommitsNothing ns digest (fun _ => False) (validateClientMetadata crates ns digest kind) := by
  have hread : CommitsNothing ns digest (fun _ => False)
      (readCanonicalObject crates ns digest "client metadata") := by
    apply Heeds.lift
    intro _ _
    apply Heeds.lift
    intro _ _
    exact (stops_readVisibleObject _).stops
  exact hread.stops

theorem stops_validateTree :
    CommitsNothing ns digest (fun _ => False) (validateTree crates ns digest) := by
  have hbound : ¬ (∅ : Finset Digest).card + (insert digest (∅ : Finset Digest)).card >
      maxDirectories := by
    simp [maxDirectories]
  rw [validateTree, visitTree, dif_neg (Finset.notMem_empty digest),
    dif_neg (Finset.notMem_empty digest), dif_neg hbound]
  have hread : CommitsNothing ns digest (fun _ => False) (readDirectory crates ns digest) := by
    apply Heeds.lift
    intro _ _
    exact (stops_readVisibleObject _).stops
  exact hread.stops

/-- A handler that may be part of a request which uploads no result. -/
theorem commitsNothing_of_inside {α : Type} {state : AppState} {headers : HeaderMap} {handler : Handler α}
    (h : Calls (Inside crates state (.missingBlobs headers [])) handler) :
    CommitsNothing ns digest (fun _ => True) handler := by
  apply heeds_of_calls
  apply h.imp
  intro op hinside
  cases hcommitted : op.committed with
  | none => rfl
  | some result =>
      obtain ⟨_, _, hrequest⟩ := hinside.committed result hcommitted
      cases hrequest

/-- A result that refers to the blob is refused. -/
theorem stops_validateResult (state : AppState) {headers : HeaderMap} {result : ActionResult}
    (hns : namespaceHeader headers = some ns) (hrefers : Refers result digest) (action : Digest) :
    CommitsNothing ns digest (fun _ => False) (validateResult crates ns action result) := by
  have hrequest : (Request.missingBlobs headers []).ns = some ns := hns
  have hdescriptor : CommitsNothing ns digest (fun _ => True)
      (validateActionDescriptor crates ns action) :=
    by
    have hinside : Calls (Inside crates state (.missingBlobs headers []))
        (validateActionDescriptor crates ns action) :=
      (inside_readCanonicalObject hrequest action _).bind fun _ => trivial
    exact commitsNothing_of_inside hinside
  apply hdescriptor.bind
  intro kind _
  apply Heeds.lift
  intro _ _
  rcases hrefers with hmetadata | houtputRoot
  · rw [hmetadata]
    exact (stops_validateClientMetadata kind).stops
  · have hmetadata : CommitsNothing ns digest (fun _ => True)
        (whenPresent result.metadata fun metadata =>
          validateClientMetadata crates ns metadata kind) := by
      cases result.metadata with
      | none => trivial
      | some metadata =>
          have hinside : Calls (Inside crates state (.missingBlobs headers []))
              (validateClientMetadata crates ns metadata kind) :=
            inside_validateClientMetadata hrequest metadata kind
          exact commitsNothing_of_inside hinside
    apply hmetadata.bind
    intro _ _
    rw [houtputRoot]
    exact stops_validateTree

/-- An upload of one that arrives while the blob has no row. -/
theorem commitsNothing_handle (state : AppState) {request : Request}
    (hrefers : RefersIn ns digest request) :
    CommitsNothing ns digest (fun _ => True) (handle crates state request) := by
  obtain ⟨hns, headers, parts, result, rfl, hreference⟩ := hrefers
  apply Heeds.map
  apply Heeds.lift
  intro ns' hauth
  obtain rfl : ns' = ns :=
    Option.some.inj ((Authorizer.authorize_eq_ok hauth).symm.trans hns)
  apply Heeds.lift
  intro _ _
  apply Heeds.lift
  intro action _
  apply Heeds.lift
  intro _ _
  exact (stops_validateResult state hns hreference action).stops

/-! ### Statements -/

/-- An answer that a statement may get while the blob has no row. -/
def Unfound (ns : String) (digest : Digest) (op : BackendOp) (answer : op.Answer) : Prop :=
  ∃ s t, Absent ns digest s ∧ SharedAnswers op s answer t

/-- No result goes in. -/
def NoInsert (op : BackendOp) : Prop :=
  ∀ key value, op ≠ .database (.insertResult key value)

theorem noInsert_implementation {op : StoreOp} (h : op.committed = none) :
    Calls NoInsert (implementation crates op) := by
  cases op with
  | blobs op => exact ⟨fun _ _ heq => (by cases heq), fun _ => trivial⟩
  | metadata op =>
      apply calls_viaStatements _ (calls_method op)
      intro statement hstatement key value heq
      obtain ⟨ns, action, result, rfl, _⟩ := hstatement key value (BackendOp.database.inj heq)
      cases h

/-- The lookup of a blob without a row finds nothing. -/
theorem selectVisible_of_absent {s t : Shared} {size : ℤ}
    {answer : (BackendOp.database (.selectVisible ns [columns (digest, size)])).Answer}
    (habsent : Absent ns digest s) (hsize : i64TryFrom digest.size = some size)
    (hexec : SharedAnswers (.database (.selectVisible ns [columns (digest, size)])) s answer t)
    {rows : List ℤ} (hrows : answer = .ok rows) : rows = [] := by
  have hcolumns : (columns (digest, size)).at ns = rowKey ns digest := by
    rw [i64TryFrom_eq] at hsize
    split at hsize
    · obtain rfl := Option.some.inj hsize
      rfl
    · cases hsize
  cases hexec with
  | refused => cases hrows
  | lost => cases hrows
  | answered now _ stores sweeps free =>
      unfold Database.execute at hrows
      split at hrows
      · have hfound : stores.metadata.selectVisible ns [columns (digest, size)] = [] := by
          rw [Database.selectVisible_eq]
          have hnone : stores.metadata.namespaceBlobs.find (rowKey ns digest) = none := habsent
          simp [unnest, hcolumns, hnone]
        exact (Except.ok.inj hrows).symm.trans hfound
      · cases hrows

theorem heeds_blobVisible : Heeds (Unfound ns digest) NoInsert
    (fun answer => answer ≠ .ok true)
    (implementation crates (.metadata (.blobVisible ns digest))) := by
  have hdigests : representableDigests [digest] =
      (i64TryFrom digest.size).toList.map (digest, ·) := by
    cases hsize : i64TryFrom digest.size <;> simp [representableDigests, hsize]
  show Heeds _ _ _ (viaStatements (visibleBlobs ns [digest] >>= fun visible =>
    pure (!visible.isEmpty)))
  unfold visibleBlobs
  rw [hdigests]
  cases hsize : i64TryFrom digest.size with
  | none =>
      intro heq
      cases heq
  | some size =>
      refine ⟨fun _ _ heq => (by cases heq), ?_⟩
      rintro answer ⟨s, t, habsent, hexec⟩
      cases answer with
      | error error =>
          intro heq
          cases heq
      | ok rows =>
          obtain rfl := selectVisible_of_absent habsent hsize hexec rfl
          intro heq
          cases heq

/-- What the statements of a call find is what the call is told. -/
theorem heeds_implementation (op : StoreOp) (h : op.committed = none) :
    Heeds (Unfound ns digest) NoInsert (Denies ns digest op) (implementation crates op) := by
  by_cases hsame : op = .metadata (.blobVisible ns digest)
  · subst hsame
    exact heeds_blobVisible.imp fun _ hanswer _ _ => hanswer
  · apply (heeds_of_calls (noInsert_implementation h)).imp
    intro answer _
    match op, hsame, answer with
    | .metadata (.blobVisible ns' digest'), hsame, _ =>
        rintro rfl rfl
        exact absurd rfl hsame
    | .blobs _, _, _ | .metadata (.visibleBlobs _ _), _, _ | .metadata (.registerBlob _ _ _), _, _
    | .metadata (.touchBlobs _ _), _, _ | .metadata (.get _ _), _, _
    | .metadata (.getBatch _ _), _, _ | .metadata (.commit _ _ _), _, _
    | .metadata (.getManifest _ _), _, _ | .metadata (.commitManifest _ _ _ _ _), _, _ => trivial

theorem heeds_deployedHandler (state : AppState) {request : Request}
    (hrefers : RefersIn ns digest request) :
    Heeds (Unfound ns digest) NoInsert (fun _ => True) (deployedHandler crates state request) :=
  (commitsNothing_handle state hrefers).interpret heeds_implementation

/-! ## Runs -/

section Runs

variable {state : AppState} {looked committed later : SharedPool}

/-- A sweep that took these blobs has just looked for the results that refer to them. -/
def Looked (crates : Crates) (state : AppState) (index : ℕ) (blobs : Deletion)
    (looked : SharedPool) : Prop :=
  ∃ looking results, ReachableShared crates state looking ∧ looked.threads = looking.threads ∧
    Sweeps (.deleted index) looking.state looked.state ∧
    (looked.state.sweeps[index]?).map Sweeping.progress = some (.resultsDeleted blobs results)

/-- The sweep has just committed. -/
def Committed (crates : Crates) (state : AppState) (index : ℕ)
    (looked committed : SharedPool) : Prop :=
  ∃ committing, LeadsShared crates state looked committing ∧
    committed.threads = committing.threads ∧
    Sweeps (.committed index) committing.state committed.state

/-- No upload of a result that refers to the blob was under way in between. -/
def QuietBetween (ns : String) (digest : Digest) (looked committed : SharedPool) : Prop :=
  ∀ (index : ℕ) request program, committed.threads[index]? = some (request, program) →
    RefersIn ns digest request → ∃ outcome, looked.threads[index]? = some (request, .done outcome)

/-- While it is quiet, no result that refers to the blob goes in. -/
theorem onlyIn_of_quiet (htrips : crates.RoundTrips) {keys : Finset RowKey}
    (hcalls : ∀ thread ∈ looked.threads, Calls (Inserts crates thread.1) thread.2)
    (honly : OnlyIn crates ns digest keys looked.state)
    (hleads : LeadsShared crates state looked later) (hquiet : QuietBetween ns digest looked later) :
    OnlyIn crates ns digest keys later.state := by
  unfold LeadsShared Pool.LeadsBeside Pool.LeadsWhile at hleads
  have hboth : (∀ thread ∈ later.threads, Calls (Inserts crates thread.1) thread.2) ∧
      OnlyIn crates ns digest keys later.state := by
    induction hleads with
    | refl => exact ⟨hcalls, honly⟩
    | @tail middle later hbefore taken ih =>
        have hfollows := taken.1.follows
        have hmiddle : QuietBetween ns digest looked middle := by
          intro index request program hthread hrefers
          obtain ⟨program', hthread', _⟩ := hfollows index request program hthread
          exact hquiet index request program' hthread' hrefers
        obtain ⟨hinserts, hkept⟩ := ih hmiddle
        apply And.intro
        · apply taken.1.threads (calls_deployedHandler state) _ hinserts
          exact fun request op next answer t hprogram _ => hprogram.2 answer
        · apply taken.1.keeps (OnlyIn crates ns digest keys)
          · intro request op next answer t hmem hexec hearlier
            apply hearlier.call hexec
            intro action value hinsert hrefersTo
            have hrefers := refersIn_of_inserts htrips (hinserts _ hmem).1 hinsert hrefersTo
            obtain ⟨index, hindex⟩ := List.mem_iff_getElem?.mp hmem
            obtain ⟨outcome, hdone⟩ := hmiddle index request _ hindex hrefers
            have hleads : LeadsShared crates state looked middle := hbefore
            obtain ⟨program', hthread', hstopped⟩ := hleads.follows index request _ hdone
            rw [hindex, hstopped outcome rfl] at hthread'
            cases hthread'
          · rintro t ⟨event, hsweeps⟩ hearlier
            exact hearlier.sweeps hsweeps
          · exact hkept
  exact hboth.2

/-- What is left of a request inserts no result that refers to the blob while that has
no row. -/
def Barred (crates : Crates) (ns : String) (digest : Digest) (request : Request)
    (program : Program BackendOp BackendOp.Answer ApiError Reply) : Prop :=
  Calls (Inserts crates request) program ∧
    (RefersIn ns digest request → Heeds (Unfound ns digest) NoInsert (fun _ => True) program)

/-- While the blob has no row, no upload that arrives puts such a result in. -/
theorem onlyIn_of_absent (htrips : crates.RoundTrips) {keys : Finset RowKey}
    (hbarred : ∀ thread ∈ committed.threads, Barred crates ns digest thread.1 thread.2)
    (honly : OnlyIn crates ns digest keys committed.state)
    (habsent : Absent ns digest committed.state)
    (hlater : Pool.LeadsWhile SharedAnswers (deployedHandler crates state) AnySweep
      (Absent ns digest) committed later) : OnlyIn crates ns digest keys later.state := by
  have hall : (∀ thread ∈ later.threads, Barred crates ns digest thread.1 thread.2) ∧
      Absent ns digest later.state ∧ OnlyIn crates ns digest keys later.state := by
    unfold Pool.LeadsWhile at hlater
    induction hlater with
    | refl => exact ⟨hbarred, habsent, honly⟩
    | tail _ taken ih =>
        obtain ⟨hthreads, hmiddle, hkept⟩ := ih
        refine ⟨?_, taken.2, ?_⟩
        · apply taken.1.threads _ _ hthreads
          · exact fun request => ⟨calls_deployedHandler state request,
              heeds_deployedHandler state⟩
          · intro request op next answer t hprogram hexec
            exact ⟨hprogram.1.2 answer,
              fun hrefers => (hprogram.2 hrefers).2 answer ⟨_, _, hmiddle, hexec⟩⟩
        · apply taken.1.keeps (OnlyIn crates ns digest keys)
          · intro request op next answer t hmem hexec hearlier
            apply hearlier.call hexec
            intro action value hinsert hrefersTo
            have hthread := hthreads _ hmem
            have hrefers := refersIn_of_inserts htrips hthread.1.1 hinsert hrefersTo
            exact (hthread.2 hrefers).1 _ value hinsert
          · rintro t ⟨event, hsweeps⟩ hearlier
            exact hearlier.sweeps hsweeps
          · exact hkept
  exact hall.2.2

/-- The sweep goes on to its commit with what it has deleted. -/
theorem pastDangling_of_leads {index : ℕ} {blobs results : Deletion}
    (h : looked.state.postgres.PastDangling index blobs results)
    (hleads : LeadsShared crates state looked later) :
    later.state.postgres.PastDangling index blobs results := by
  unfold LeadsShared Pool.LeadsBeside Pool.LeadsWhile at hleads
  induction hleads with
  | refl => exact h
  | tail _ taken ih =>
      apply taken.1.keeps fun s => s.postgres.PastDangling index blobs results
      · rintro request op next answer t _ hexec ⟨sweeping, hsweeping, hpast⟩
        refine ⟨sweeping, ?_, hpast⟩
        show t.sweeps[index]? = some sweeping
        rw [hexec.sweeps]
        exact hsweeping
      · rintro t ⟨event, hsweeps⟩ hpast
        exact hpast.sweepStep hsweeps.step
      · exact ih

theorem Looked.reachable {index : ℕ} {blobs : Deletion}
    (h : Looked crates state index blobs looked) : ReachableShared crates state looked := by
  obtain ⟨looking, results, hreach, hthreads, hstep, _⟩ := h
  exact hreach.leads (Pool.leadsBeside_changed hthreads ⟨_, hstep⟩)

theorem Looked.pastDangling {index : ℕ} {blobs : Deletion}
    (h : Looked crates state index blobs looked) :
    ∃ results, looked.state.postgres.PastDangling index blobs results := by
  obtain ⟨_, results, _, _, _, hprogress⟩ := h
  obtain ⟨sweeping, hsweeping, heq⟩ := Option.map_eq_some_iff.mp hprogress
  exact ⟨results, sweeping, hsweeping, heq ▸ ⟨rfl, rfl⟩⟩

theorem Committed.leads {index : ℕ} (h : Committed crates state index looked committed) :
    LeadsShared crates state looked committed := by
  obtain ⟨committing, hleads, hsame, hcommit⟩ := h
  exact hleads.trans (Pool.leadsBeside_changed hsame ⟨_, hcommit⟩)

/-- What the sweep took is gone once it has committed. -/
theorem Looked.absent {index : ℕ} {blobs : Deletion} (h : Looked crates state index blobs looked)
    (hcommitted : Committed crates state index looked committed)
    (htaken : rowKey ns digest ∈ blobs.keys) : Absent ns digest committed.state := by
  obtain ⟨_, hpast⟩ := h.pastDangling
  obtain ⟨committing, hleads, _, hcommit⟩ := hcommitted
  exact ((pastDangling_of_leads hpast hleads).committed hcommit.step).2 _ htaken

end Runs

end

/-! ### The sample session -/

/-- A deployment without failures, at one moment. What would have to wait is given up. -/
def sharedExec (crates : Crates) (now : ℕ) : (op : BackendOp) → Shared → op.Answer × Shared
  | .blobs op, s =>
      ((deployedExec crates now (.blobs op) s.stores).1,
        { s with stores := (deployedExec crates now (.blobs op) s.stores).2 })
  | .database statement, s =>
      if s.postgres.Free now statement then
        ((deployedExec crates now (.database statement) s.stores).1,
          { s with stores := (deployedExec crates now (.database statement) s.stores).2 })
      else (.error "canceling statement due to lock timeout", s)

theorem sharedAnswers_exec (crates : Crates) (now : ℕ) (op : BackendOp) (s : Shared) :
    SharedAnswers op s (sharedExec crates now op s).1 (sharedExec crates now op s).2 := by
  cases op with
  | blobs op =>
      apply SharedAnswers.blobs s.sweeps (deployedAnswers_exec now (.blobs op) s.stores)
      cases op with
      | get digest => rfl
      | put digest source => exact Stores.putObject_metadata s.stores digest source
  | database statement =>
      rw [sharedExec]
      split
      · rename_i hfree
        exact .answered now statement s.stores s.sweeps hfree
      · exact .refused statement s _

/-- The session of the sample server, beside which a sweep may run. -/
def sharedSession : SharedPool :=
  Sample.session.foldl
    (Pool.serve (sharedExec Sample.crates 0) (deployedHandler Sample.crates Sample.state))
    ⟨Shared.empty, []⟩

theorem reachable_sharedSession : ReachableShared Sample.crates Sample.state sharedSession :=
  (Pool.reachable_start.serveAll (sharedAnswers_exec Sample.crates 0) Sample.session).beside

theorem writesReferences_sample : WritesReferences Sample.crates where
  metadata result value digest hvalue hmetadata := by
    obtain rfl := Except.ok.inj hvalue
    refine ⟨Sample.digestToValue digest, ?_, ⟨rfl, rfl, rfl, rfl⟩⟩
    show some (Sample.referenceToValue result.metadata) = _
    rw [hmetadata]
    rfl
  outputRoot result value digest hvalue houtputRoot := by
    obtain rfl := Except.ok.inj hvalue
    refine ⟨Sample.digestToValue digest, ?_, ⟨rfl, rfl, rfl, rfl⟩⟩
    show some (Sample.referenceToValue result.outputRoot) = _
    rw [houtputRoot]
    rfl

/-- A statement of the only sweep. -/
theorem sweeps_delete {stores : Stores Database} {sweeping : Sweeping} {progress : Progress}
    (h : sweeping.next stores.metadata = .ok progress) :
    Sweeps (.deleted 0) ⟨stores, [sweeping]⟩ ⟨stores, [{ sweeping with progress }]⟩ where
  blobs := rfl
  step := .delete stores.metadata [] [] sweeping progress h (by simp)

/-- A sweep may run while all requests wait. -/
theorem exists_looked_committed {crates : Crates} {state : AppState} {pool : SharedPool}
    (hreach : ReachableShared crates state pool) (hsweeps : pool.state.sweeps = [])
    (now olderThanDays : ℕ) {results : Deletion}
    (hresults : Sweeping.deleteDangling (pool.state.stores.metadata.without
      ⟨Sweeping.deleteBlobs now (Database.sweepAge olderThanDays) pool.state.stores.metadata,
        .none, .none⟩) = .ok results) :
    ∃ looked committed, Looked crates state 0 (Sweeping.deleteBlobs now
        (Database.sweepAge olderThanDays) pool.state.stores.metadata) looked ∧
      Committed crates state 0 looked committed ∧ looked.threads = pool.threads ∧
      committed.threads = pool.threads := by
  obtain ⟨⟨stores, sweeps⟩, threads⟩ := pool
  dsimp only at hsweeps hresults ⊢
  subst hsweeps
  let age := Database.sweepAge olderThanDays
  let blobs := Sweeping.deleteBlobs now age stores.metadata
  let manifests := Sweeping.deleteManifests now age
    (stores.metadata.without ⟨blobs, results, .none⟩)
  have hfirst := Sweeping.next_begun now olderThanDays stores.metadata
  have hsecond : Sweeping.next ⟨now, olderThanDays, .blobsDeleted blobs⟩ stores.metadata =
      .ok (.resultsDeleted blobs results) := Sweeping.next_blobsDeleted hresults
  have hthird : Sweeping.next ⟨now, olderThanDays, .resultsDeleted blobs results⟩
      stores.metadata = .ok (.manifestsDeleted ⟨blobs, results, manifests⟩) := rfl
  have hstart : Sweeps .started ⟨stores, []⟩ ⟨stores, [⟨now, olderThanDays, .begun⟩]⟩ :=
    ⟨rfl, .start stores.metadata [] now olderThanDays⟩
  have hcommit : Sweeps (.committed 0)
      ⟨stores, [⟨now, olderThanDays, .manifestsDeleted ⟨blobs, results, manifests⟩⟩]⟩
      ⟨{ stores with metadata := stores.metadata.without ⟨blobs, results, manifests⟩ },
        [⟨now, olderThanDays, .committed ⟨blobs, results, manifests⟩⟩]⟩ :=
    ⟨rfl, .commit stores.metadata [] [] _ _ rfl⟩
  refine ⟨⟨⟨stores, [⟨now, olderThanDays, .resultsDeleted blobs results⟩]⟩, threads⟩,
    ⟨⟨{ stores with metadata := stores.metadata.without ⟨blobs, results, manifests⟩ },
      [⟨now, olderThanDays, .committed ⟨blobs, results, manifests⟩⟩]⟩, threads⟩,
    ⟨⟨⟨stores, [⟨now, olderThanDays, .blobsDeleted blobs⟩]⟩, threads⟩, results, ?_, rfl,
      sweeps_delete hsecond, rfl⟩,
    ⟨⟨⟨stores, [⟨now, olderThanDays, .manifestsDeleted ⟨blobs, results, manifests⟩⟩]⟩, threads⟩,
      Pool.leadsBeside_changed rfl ⟨_, sweeps_delete hthird⟩, rfl, hcommit⟩, rfl, rfl⟩
  have hbegun : LeadsShared crates state ⟨⟨stores, []⟩, threads⟩
      ⟨⟨stores, [⟨now, olderThanDays, .begun⟩]⟩, threads⟩ :=
    Pool.leadsBeside_changed rfl ⟨_, hstart⟩
  have hdeleted : LeadsShared crates state ⟨⟨stores, [⟨now, olderThanDays, .begun⟩]⟩, threads⟩
      ⟨⟨stores, [⟨now, olderThanDays, .blobsDeleted blobs⟩]⟩, threads⟩ :=
    Pool.leadsBeside_changed rfl ⟨_, sweeps_delete hfirst⟩
  exact hreach.leads (hbegun.trans hdeleted)

end MbxCache.Server
