/-
# The service over Postgres

A deployment keeps its metadata in Postgres. Its handlers then suspend on every
statement, not on every call of the metadata store, and a commit that finds its
insertion kept out has the statements of other requests before its comparison.

Whatever such a deployment does to its clients, a service that keeps its metadata
in memory may do too, and the two hold the same contents at that moment. What
holds in every run of the latter therefore holds here.
-/

import MbxCache.Foundation.Refinement
import MbxCache.Metadata.Commits
import MbxCache.Server.Runs

namespace MbxCache.Server

open Foundation Program PostgresMetadata

/-! ## Calls of a deployment -/

/-- One call of the blob store, or one statement. -/
inductive BackendOp where
  | blobs (op : BlobOp)
  | database (statement : Statement)

@[reducible]
def BackendOp.Value : BackendOp → Type
  | .blobs op => op.Value
  | .database statement => statement.Value

abbrev BackendOp.Answer (op : BackendOp) : Type := Except String op.Value

/-- A method of the Postgres store inside a handler, which is handed its outcome. -/
def viaStatements {α : Type} :
    Query α → Program BackendOp BackendOp.Answer ApiError (Except String α)
  | .done outcome => .done (.ok outcome)
  | .call statement next => .call (.database statement) fun answer => viaStatements (next answer)

def implementation (crates : Crates) :
    (op : StoreOp) → Program BackendOp BackendOp.Answer ApiError op.Answer
  | .blobs op => perform (BackendOp.blobs op)
  | .metadata op => viaStatements (method crates op)

/-- One call, at any time. Each of them may fail, with or without its effect; a call
of the blob store has nothing to do with the metadata. -/
inductive DeployedAnswers : (op : BackendOp) → Stores Database → op.Answer → Stores Database → Prop where
  | blobs (metadata : (op : MetadataOp) → Database → op.Answer × Database) {op : BlobOp}
      {stores later : Stores Database} {answer : (BackendOp.blobs op).Answer}
      (answers : Stores.Answers metadata (.blobs op) stores answer later) :
      DeployedAnswers (.blobs op) stores answer later
  | answered (now : ℕ) (statement : Statement) (stores : Stores Database) :
      DeployedAnswers (.database statement) stores (stores.metadata.execute now statement).1
        { stores with metadata := (stores.metadata.execute now statement).2 }
  | refused (statement : Statement) (stores : Stores Database) (error : String) :
      DeployedAnswers (.database statement) stores (.error error) stores
  | lost (now : ℕ) (statement : Statement) (stores : Stores Database) (error : String) :
      DeployedAnswers (.database statement) stores (.error error)
        { stores with metadata := (stores.metadata.execute now statement).2 }

/-- A deployment that has just started. -/
def Deployed.empty : Stores Database where
  blobs _ := none
  metadata := Database.empty

/-- The requests of any number of clients, interleaved at their statements. -/
abbrev DeployedPool (crates : Crates) (state : AppState)
    (pool : Pool (Stores Database) Request BackendOp BackendOp.Answer ApiError Reply) : Prop :=
  Pool.Reachable DeployedAnswers
    (fun request => (handle crates state request).interpret (implementation crates))
    Deployed.empty pool

/-- Results are kept. -/
instance : Preorder (Stores Database) where
  le stores later := stores.metadata ≤ later.metadata
  le_refl stores := le_refl stores.metadata
  le_trans _ _ _ first second := le_trans (α := Database) first second

/-- The same objects, and the same contents of the metadata. -/
structure SameStores (crates : Crates) (stores : Stores Database) (held : Held) : Prop where
  blobs : held.blobs = stores.blobs
  metadata : SameContents crates stores.metadata held.metadata

section

variable {crates : Crates}

/-- The operation of the in-memory service may take effect now. -/
abbrev Effect (crates : Crates) (op : StoreOp) (answer : op.Answer) (stores : Stores Database)
    (held : Held) : Prop :=
  Pool.TakesEffect (Stores.Answers (MemoryMetadata.exec crates)) (SameStores crates) op answer
    stores held

abbrev RealizesOp (crates : Crates) (op : StoreOp) (stores : Stores Database)
    (program : Program BackendOp BackendOp.Answer ApiError op.Answer) : Prop :=
  Pool.Realizes DeployedAnswers (Stores.Answers (MemoryMetadata.exec crates)) (SameStores crates) op stores
    program

variable {stores later : Stores Database} {held : Held}

/-! ## Objects -/

/-- A call of the blob store is the same call beside other metadata. -/
theorem effect_blobs {metadata : (op : MetadataOp) → Database → op.Answer × Database} {op : BlobOp}
    {answer : (StoreOp.blobs op).Answer} (hsame : SameStores crates stores held)
    (h : Stores.Answers metadata (.blobs op) stores answer later) :
    stores ≤ later ∧ Effect crates (.blobs op) answer later held := by
  obtain ⟨blobs, db⟩ := stores
  obtain ⟨heldBlobs, memory⟩ := held
  obtain ⟨hblobs, hmetadata⟩ := hsame
  obtain rfl : heldBlobs = blobs := hblobs
  have hput : ∀ digest source, SameStores crates
      (Stores.putObject ⟨heldBlobs, db⟩ digest source).2
      (Stores.putObject ⟨heldBlobs, memory⟩ digest source).2 ∧
        (Stores.putObject ⟨heldBlobs, db⟩ digest source).1 =
          (Stores.putObject ⟨heldBlobs, memory⟩ digest source).1 := by
    intro digest source
    unfold Stores.putObject
    dsimp only
    cases heldBlobs digest with
    | none => exact ⟨⟨rfl, hmetadata⟩, rfl⟩
    | some content => exact ⟨⟨rfl, hmetadata⟩, rfl⟩
  cases h with
  | answered chunking =>
      cases op with
      | get digest =>
          exact ⟨le_refl db, _, .answered chunking (.blobs (.get digest)) _, rfl, hmetadata⟩
      | put digest source =>
          obtain ⟨hsame, houtcome⟩ := hput digest source
          refine ⟨?_, _, ?_, hsame⟩
          · show db ≤ (Stores.putObject ⟨heldBlobs, db⟩ digest source).2.metadata
            rw [Stores.putObject_metadata]
          · show Stores.Answers _ (.blobs (.put digest source)) _
              (.ok (Stores.putObject ⟨heldBlobs, db⟩ digest source).1) _
            rw [houtcome]
            exact .answered chunking (.blobs (.put digest source)) _
  | refused _ _ error => exact ⟨le_refl db, _, .refused _ _ error, rfl, hmetadata⟩
  | lost _ _ error =>
      cases op with
      | get digest => exact ⟨le_refl db, _, .lost (.blobs (.get digest)) _ error, rfl, hmetadata⟩
      | put digest source =>
          refine ⟨?_, _, .lost (.blobs (.put digest source)) _ error, (hput digest source).1⟩
          show db ≤ (Stores.putObject ⟨heldBlobs, db⟩ digest source).2.metadata
          rw [Stores.putObject_metadata]
  | interrupted _ digest content chunks error inStore sent =>
      exact ⟨le_refl db, _, .interrupted _ digest content chunks error inStore sent, rfl, hmetadata⟩

/-! ## Metadata -/

theorem effect_refused {op : MetadataOp} (hsame : SameStores crates stores held) (error : String) :
    Effect crates (.metadata op) (.error error) stores held :=
  ⟨held, .refused _ held error, hsame⟩

theorem effect_answered {op : MetadataOp} {answer : op.Answer} (hblobs : held.blobs = later.blobs)
    (hanswer : (MemoryMetadata.exec crates op held.metadata).1 = answer)
    (hafter : SameContents crates later.metadata (MemoryMetadata.exec crates op held.metadata).2) :
    Effect crates (.metadata op) answer later held := by
  refine ⟨Stores.afterMetadata (MemoryMetadata.exec crates) op held, ?_, hblobs, hafter⟩
  rw [← hanswer]
  exact .answered .whole (.metadata op) held

/-- The effect without the answer. -/
theorem effect_unanswered {op : MetadataOp} (hblobs : held.blobs = later.blobs) (error : String)
    (hafter : SameContents crates later.metadata (MemoryMetadata.exec crates op held.metadata).2) :
    Effect crates (.metadata op) (.error error) later held :=
  ⟨Stores.afterMetadata (MemoryMetadata.exec crates) op held, .lost (.metadata op) held error,
    hblobs, hafter⟩

variable (hrules : crates.digests.Documented) (htrips : crates.RoundTrips)
include hrules htrips

/-- What the Postgres store does to a call, the in-memory store does, or the call
fails and changes nothing. -/
theorem effect_exec (op : MetadataOp) (now : ℕ) (hsame : SameStores crates stores held) :
    Effect crates (.metadata op) (PostgresMetadata.exec crates now op stores.metadata).1
      { stores with metadata := (PostgresMetadata.exec crates now op stores.metadata).2 } held := by
  obtain ⟨hblobs, view, hdb, hmemory⟩ := hsame
  obtain ⟨hanswer, hafter⟩ := hmemory.exec htrips op
  rcases hdb.exec now hrules htrips op with ⟨hanswer', hafter'⟩ | ⟨_, error, hrefused⟩
  · exact effect_answered hblobs (hanswer.trans hanswer'.symm) ⟨_, hafter', hafter⟩
  · rw [hrefused]
    exact effect_refused ⟨hblobs, view, hdb, hmemory⟩ error

/-- A call whose answer is lost on the way back may have been made. -/
theorem effect_lost (op : MetadataOp) (now : ℕ) (error : String)
    (hsame : SameStores crates stores held) : Effect crates (.metadata op) (.error error)
      { stores with metadata := (PostgresMetadata.exec crates now op stores.metadata).2 } held := by
  obtain ⟨hblobs, view, hdb, hmemory⟩ := hsame
  obtain ⟨_, hafter⟩ := hmemory.exec htrips op
  rcases hdb.exec now hrules htrips op with ⟨_, hafter'⟩ | ⟨_, error', hrefused⟩
  · apply effect_unanswered
    · exact hblobs
    · exact ⟨_, hafter', hafter⟩
  · rw [hrefused]
    exact effect_refused ⟨hblobs, view, hdb, hmemory⟩ error

omit hrules htrips

/-! ## Methods of one statement -/

/-- A method that sends one statement at most and gives up when it fails. -/
def Brief {α : Type} (query : Query α) : Prop :=
  (∃ outcome, query = .done outcome) ∨
    ∃ statement f, query = .call statement fun answer => .done (answer >>= f)

/-- A computation without a statement. -/
def Local {α : Type} (query : Query α) : Prop := ∃ outcome, query = .done outcome

theorem Local.bind {α β : Type} {query : Query α} {next : α → Query β} (h : Local query)
    (hnext : ∀ value, Local (next value)) : Local (query >>= next) := by
  obtain ⟨outcome, rfl⟩ := h
  cases outcome with
  | ok value => exact hnext value
  | error error => exact ⟨.error error, rfl⟩

theorem Brief.bind {α β : Type} {query : Query α} {next : α → Query β} (h : Brief query)
    (hnext : ∀ value, Local (next value)) : Brief (query >>= next) := by
  choose rest hrest using hnext
  obtain rfl : next = fun value => .done (rest value) := funext hrest
  rcases h with ⟨outcome, rfl⟩ | ⟨statement, f, rfl⟩
  · cases outcome with
    | ok value => exact .inl ⟨rest value, rfl⟩
    | error error => exact .inl ⟨.error error, rfl⟩
  · right
    refine ⟨statement, fun value => f value >>= rest, ?_⟩
    rw [call_bind]
    congr
    funext answer
    cases answer with
    | error error => rfl
    | ok value =>
        show (Program.done (f value) >>= _) = Program.done (f value >>= rest)
        cases f value <;> rfl

theorem brief_send (statement : Statement) : Brief (send statement) := by
  refine .inr ⟨statement, .ok, ?_⟩
  rw [send]
  congr
  funext answer
  cases answer <;> rfl

theorem local_done {α : Type} (outcome : Except String α) : Local (.done outcome) :=
  ⟨outcome, rfl⟩

theorem brief_visibleBlobs (ns : String) (digests : List Digest) :
    Brief (visibleBlobs ns digests) := by
  unfold visibleBlobs
  dsimp only
  split
  · exact .inl (local_done _)
  · exact (brief_send _).bind fun rows => local_done _

theorem brief_touchBlobs (ns : String) (digests : List Digest) : Brief (touchBlobs ns digests) := by
  unfold touchBlobs
  dsimp only
  split
  · exact .inl (local_done _)
  · exact (brief_send _).bind fun _ => local_done _

theorem brief_getBatch (ns : String) (actions : List Digest) :
    Brief (getBatch crates ns actions) := by
  unfold getBatch
  dsimp only
  split
  · exact .inl (local_done _)
  · exact (brief_send _).bind fun rows => (local_done _).bind fun results => local_done _

theorem brief_commitManifest (ns : String) (key : Digest) (expectedEtag : Option String)
    (etag : String) (manifest : TaskActionManifest) :
    Brief (commitManifest crates ns key expectedEtag etag manifest) := by
  unfold commitManifest
  cases crates.manifestToValue manifest with
  | error error => exact .inl (local_done _)
  | ok encoded =>
      show Brief (writeManifest ns key expectedEtag etag encoded >>= _)
      cases expectedEtag with
      | none => exact (brief_send _).bind fun rows => local_done _
      | some expected => exact (brief_send _).bind fun rows => local_done _

/-- All but a commit. -/
theorem brief_method (op : MetadataOp) (hop : ∀ ns action result, op ≠ .commit ns action result) :
    Brief (method crates op) := by
  cases op with
  | visibleBlobs ns digests => exact brief_visibleBlobs ns digests
  | blobVisible ns digest =>
      exact (brief_visibleBlobs ns [digest]).bind fun visible => local_done _
  | registerBlob ns digest stored => exact (brief_send _).bind fun _ => local_done _
  | touchBlobs ns digests => exact brief_touchBlobs ns digests
  | get ns action => exact (brief_send _).bind fun row => local_done _
  | getBatch ns actions => exact brief_getBatch ns actions
  | commit ns action result => exact absurd rfl (hop ns action result)
  | getManifest ns key => exact (brief_send _).bind fun row => local_done _
  | commitManifest ns key expectedEtag etag manifest =>
      exact brief_commitManifest ns key expectedEtag etag manifest

include hrules htrips

/-- Such a method takes effect with its statement, or at once. -/
theorem Brief.realizes {op : MetadataOp} (h : Brief (method crates op)) :
    RealizesOp crates (.metadata op) stores (viaStatements (method crates op)) := by
  have hexec : ∀ now db, PostgresMetadata.exec crates now op db =
      (method crates op).run (Database.execute now) db := fun _ _ => rfl
  rcases h with ⟨outcome, hmethod⟩ | ⟨statement, f, hmethod⟩
  · rw [hmethod] at hexec ⊢
    refine ⟨outcome, rfl, fun stores held _ hsame => ?_⟩
    have heffect := effect_exec hrules htrips op 0 hsame
    rwa [hexec] at heffect
  · rw [hmethod] at hexec ⊢
    intro stores held answer later _ hsame hserves
    cases hserves with
    | answered now =>
        refine ⟨sends_le ⟨now, rfl⟩, .inr ⟨_, rfl, ?_⟩⟩
        have heffect := effect_exec hrules htrips op now hsame
        rwa [hexec] at heffect
    | refused _ _ error => exact ⟨le_rfl, .inr ⟨.error error, rfl, effect_refused hsame error⟩⟩
    | lost now _ _ error =>
        refine ⟨sends_le ⟨now, rfl⟩, .inr ⟨.error error, rfl, ?_⟩⟩
        have heffect := effect_lost hrules htrips op now error hsame
        rwa [hexec] at heffect

/-! ## Commits -/

omit hrules in
/-- The comparison is where a commit that was kept out takes effect: the row it reads
back is the one that kept it out, whatever ran since. -/
theorem realizes_compareExisting {ns : String} {action : Digest} {result : ActionResult}
    {encoded row : Json} (hencoded : crates.resultToValue result = .ok encoded)
    (haccepted : (rowKey ns action).accepted = true)
    (hrow : stores.metadata.actionResults.find (rowKey ns action) = some row) :
    RealizesOp crates (.metadata (.commit ns action result)) stores
      (viaStatements (compareExisting crates ns action encoded)) := by
  show RealizesOp crates _ _ (.call (.database (.selectResult (rowKey ns action))) _)
  intro later held answer after hle hsame hserves
  have haccepts : (Statement.selectResult (rowKey ns action)).accepted = true := haccepted
  cases hserves with
  | answered now =>
      refine ⟨sends_le ⟨now, rfl⟩, .inr ?_⟩
      obtain ⟨hblobs, view, hdb, hmemory⟩ := hsame
      have hfind := hle _ _ hrow
      rw [Database.execute_of_accepted haccepts, Database.perform, hfind]
      cases hresult : view.result (ns, action) with
      | none =>
          rw [hdb.find_eq_none.mpr hresult] at hfind
          cases hfind
      | some existing =>
          obtain ⟨value, hvalue, hto, hdecode⟩ := hdb.exists_row htrips hresult
          obtain rfl : value = row := Option.some.inj (hvalue.symm.trans hfind)
          refine ⟨.ok (if existing = result then .alreadyExists else .conflict), ?_, ?_⟩
          · show viaStatements (Program.done (decodeResult crates (some value)) >>= _) = _
            rw [hdecode]
            show viaStatements (Program.done (crates.resultToValue existing) >>= _) = _
            rw [hto]
            have hsame := encoded_inj htrips hto hencoded
            by_cases heq : existing = result
            · rw [if_pos heq, ok_bind, if_pos (hsame.mpr heq)]
              rfl
            · rw [if_neg heq, ok_bind, if_neg (mt hsame.mp heq)]
              rfl
          · obtain ⟨hanswer, hafter⟩ := hmemory.exec htrips (.commit ns action result)
            rw [MetadataView.perform, MetadataView.commit_of_some hresult] at hanswer hafter
            exact effect_answered hblobs hanswer ⟨view, hdb, hafter⟩
  | refused _ _ error => exact ⟨le_rfl, .inr ⟨.error error, rfl, effect_refused hsame error⟩⟩
  | lost now _ _ error =>
      refine ⟨sends_le ⟨now, rfl⟩, .inr ⟨.error error, rfl, ?_⟩⟩
      rw [Database.execute_of_accepted haccepts, Database.perform]
      exact effect_refused hsame error

/-- A commit takes effect when its row goes in, or with the comparison. -/
theorem realizes_commit (ns : String) (action : Digest) (result : ActionResult) :
    RealizesOp crates (.metadata (.commit ns action result)) stores
      (viaStatements (method crates (.commit ns action result))) := by
  obtain ⟨encoded, hencoded, _⟩ := htrips.result_value result
  have hmethod : method crates (.commit ns action result) =
      .call (.insertResult (rowKey ns action) encoded) fun answer =>
        Program.done answer >>= fun inserted =>
          if inserted = 1 then pure .created else compareExisting crates ns action encoded := by
    rw [method, commit, hencoded]
    rfl
  rw [hmethod]
  intro stores held answer later _ hsame hserves
  obtain ⟨hblobs, view, hdb, hmemory⟩ := hsame
  obtain ⟨hanswer, hafter⟩ := hmemory.exec htrips (.commit ns action result)
  cases hserves with
  | refused _ _ error =>
      exact ⟨le_rfl, .inr ⟨.error error, rfl, effect_refused ⟨hblobs, view, hdb, hmemory⟩ error⟩⟩
  | answered now =>
      refine ⟨sends_le ⟨now, rfl⟩, ?_⟩
      rcases hdb.insertResult_cases now hrules ns action hencoded with
        ⟨hnone, after, hinsert, hholds, _⟩ | ⟨existing, hsome, hkey, hinsert⟩ |
          ⟨_, error, hinsert⟩
      · rw [hinsert]
        right
        rw [MetadataView.perform, MetadataView.commit_of_none hnone] at hanswer
        exact ⟨.ok .created, rfl, effect_answered hblobs hanswer ⟨_, hholds, hafter⟩⟩
      · rw [hinsert]
        left
        obtain ⟨row, hrow⟩ := hdb.find_eq_some hsome
        exact ⟨⟨hblobs, view, hdb, hmemory⟩,
          realizes_compareExisting htrips hencoded hkey hrow⟩
      · rw [hinsert]
        exact .inr ⟨.error error, rfl, effect_refused ⟨hblobs, view, hdb, hmemory⟩ error⟩
  | lost now _ _ error =>
      refine ⟨sends_le ⟨now, rfl⟩, .inr ⟨.error error, rfl, ?_⟩⟩
      rcases hdb.insertResult_cases now hrules ns action hencoded with
        ⟨hnone, after, hinsert, hholds, _⟩ | ⟨existing, hsome, hkey, hinsert⟩ |
          ⟨_, _, hinsert⟩
      · rw [hinsert]
        apply effect_unanswered
        · exact hblobs
        · exact ⟨_, hholds, hafter⟩
      · rw [hinsert]
        exact effect_refused ⟨hblobs, view, hdb, hmemory⟩ error
      · rw [hinsert]
        exact effect_refused ⟨hblobs, view, hdb, hmemory⟩ error

theorem realizes_implementation (op : StoreOp) (stores : Stores Database) :
    RealizesOp crates op stores (implementation crates op) := by
  cases op with
  | blobs op =>
      intro stores held answer later _ hsame hserves
      cases hserves with
      | blobs metadata answers =>
          obtain ⟨hle, heffect⟩ := effect_blobs hsame answers
          exact ⟨hle, .inr ⟨answer, rfl, heffect⟩⟩
  | metadata op =>
      by_cases hop : ∃ ns action result, op = .commit ns action result
      · obtain ⟨ns, action, result, rfl⟩ := hop
        exact realizes_commit hrules htrips ns action result
      · apply (brief_method op fun ns action result heq => hop ⟨ns, action, result, heq⟩).realizes
          hrules htrips

end

/-! ## Every run -/

section

variable {crates : Crates} {state : AppState}
  {pool : Pool (Stores Database) Request BackendOp BackendOp.Answer ApiError Reply}

theorem sameStores_empty : SameStores crates Deployed.empty Held.empty where
  blobs := rfl
  metadata := ⟨_, PostgresMetadata.holds_empty, MemoryMetadata.holds_empty⟩

/-- A deployment without failures, at one moment. -/
def deployedExec (crates : Crates) (now : ℕ) :
    (op : BackendOp) → Stores Database → op.Answer × Stores Database
  | .blobs op, stores => Stores.exec .whole (PostgresMetadata.exec crates now) (.blobs op) stores
  | .database statement, stores =>
      ((stores.metadata.execute now statement).1,
        { stores with metadata := (stores.metadata.execute now statement).2 })

theorem deployedAnswers_exec (now : ℕ) (op : BackendOp) (stores : Stores Database) :
    DeployedAnswers op stores (deployedExec crates now op stores).1
      (deployedExec crates now op stores).2 := by
  cases op with
  | blobs op => exact .blobs _ (.answered .whole (.blobs op) stores)
  | database statement => exact .answered now statement stores

/-- The session of the sample server, with its metadata in Postgres. -/
def deployedSession :
    Pool (Stores Database) Request BackendOp BackendOp.Answer ApiError Reply :=
  Sample.session.foldl
    (Pool.serve (deployedExec Sample.crates 0) fun request =>
      (handle Sample.crates Sample.state request).interpret (implementation Sample.crates))
    ⟨Deployed.empty, []⟩

theorem reachable_deployedSession :
    DeployedPool Sample.crates Sample.state deployedSession :=
  Pool.reachable_start.serveAll (deployedAnswers_exec 0) Sample.session

/-- What a row says a namespace sees, and what the in-memory store says. -/
theorem SameStores.sees_iff {stores : Stores Database} {held : Held}
    (h : SameStores crates stores held) {ns : String} {digest : Digest} :
    (stores.metadata.namespaceBlobs.find (rowKey ns digest)).isSome = true ↔
      Sees held ns digest := by
  obtain ⟨view, hdb, hmemory⟩ := h.metadata
  rw [hdb.visible, Sees, hmemory.visible]

/-- Services with one deployment's stores hold the same. -/
theorem SameStores.le {stores : Stores Database} {first second : Held}
    (hfirst : SameStores crates stores first) (hsecond : SameStores crates stores second) :
    first ≤ second := by
  constructor
  · intro digest content hheld
    rw [hsecond.blobs, ← hfirst.blobs]
    exact hheld
  · rintro ⟨ns, digest⟩ hsees
    exact hsecond.sees_iff.mp (hfirst.sees_iff.mpr hsees)

/-- A row of a result has the document of what the in-memory store has as bytes. -/
theorem SameStores.entry {stores : Stores Database} {held : Held}
    (h : SameStores crates stores held) {ns : String} {action : Digest} {row : Json}
    (hrow : stores.metadata.actionResults.find (rowKey ns action) = some row) :
    ∃ result bytes, crates.resultToValue result = .ok row ∧
      crates.resultToVec result = .ok bytes ∧ held.metadata.entries (ns, action) = some bytes := by
  obtain ⟨view, hdb, hmemory⟩ := h.metadata
  have hresult := hdb.result ns action
  rw [hrow] at hresult
  cases hview : view.result (ns, action) with
  | none =>
      rw [hview] at hresult
      exact absurd hresult not_false
  | some result =>
      rw [hview] at hresult
      obtain ⟨bytes, hentry, hencoded⟩ := hmemory.entries_eq_some hview
      exact ⟨result, bytes, hresult, hencoded, hentry⟩

end

end MbxCache.Server
