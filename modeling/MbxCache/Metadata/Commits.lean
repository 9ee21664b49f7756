/-
# Concurrent commits

Any number of commits and lookups of action results against the Postgres store,
each a sequence of statements with the statements of the others between them. A
commit that finds its insertion kept out reads the row that kept it out, which
stays there, so that its answer was decided when it tried to insert.

The answers are those of the in-memory store for the calls one after another.
-/

import MbxCache.Foundation.Linearizable
import MbxCache.Metadata.Equivalence

namespace MbxCache

open Foundation Program

/-- The calls about action results. -/
inductive ResultCall where
  | commit (ns : String) (action : Digest) (result : ActionResult)
  | get (ns : String) (action : Digest)
  | getBatch (ns : String) (actions : List Digest)
  deriving DecidableEq, Repr

inductive ResultAnswer where
  | committed (outcome : CommitOutcome)
  | found (result : Option ActionResult)
  | results (results : List ActionResult)
  deriving DecidableEq, Repr

namespace ResultCall

variable (crates : Crates)

def op : ResultCall → MetadataOp
  | commit ns action result => .commit ns action result
  | get ns action => .get ns action
  | getBatch ns actions => .getBatch ns actions

/-- A call as the Postgres store makes it. -/
def method : ResultCall → Query ResultAnswer
  | commit ns action result => .committed <$> PostgresMetadata.commit crates ns action result
  | get ns action => .found <$> PostgresMetadata.get crates ns action
  | getBatch ns actions => .results <$> PostgresMetadata.getBatch crates ns actions

/-- A call as the in-memory store answers it. -/
def perform : ResultCall → MemoryMetadata → Except String ResultAnswer × MemoryMetadata
  | commit ns action result, store =>
      ((store.commit crates ns action result).1.map .committed,
        (store.commit crates ns action result).2)
  | get ns action, store => ((store.get crates ns action).map .found, store)
  | getBatch ns actions, store => ((store.getBatch crates ns actions).map .results, store)

end ResultCall

/-- One statement, at some time. -/
def Sends (statement : Statement) (db : Database) (answer : statement.Answer)
    (later : Database) : Prop :=
  ∃ now, db.execute now statement = (answer, later)

/-- Results are kept. -/
instance : Preorder Database where
  le db later := ∀ key value, db.actionResults.find key = some value →
    later.actionResults.find key = some value
  le_refl _ _ _ h := h
  le_trans _ _ _ first second key value h := second key value (first key value h)

namespace PostgresMetadata

variable {crates : Crates} {db : Database} {view : MetadataView}

/-! ## Statements -/

/-- What a stored row reads back as is what the contents hold. -/
theorem Holds.exists_row (htrips : crates.RoundTrips) (h : Holds crates db view) {ns : String}
    {action : Digest} {existing : ActionResult}
    (hresult : view.result (ns, action) = some existing) :
    ∃ value, db.actionResults.find (rowKey ns action) = some value ∧
      crates.resultToValue existing = .ok value ∧
      decodeResult crates (some value) = .ok (some existing) := by
  obtain ⟨value, hfind⟩ := h.find_eq_some hresult
  have hrow := h.result ns action
  have hdecode := h.find_result htrips ns action
  rw [hfind, hresult] at hrow hdecode
  exact ⟨value, hfind, hrow, hdecode⟩

theorem method_commit {ns : String} {action : Digest} {result : ActionResult} {encoded : Json}
    (hencoded : crates.resultToValue result = .ok encoded) :
    (ResultCall.commit ns action result).method crates =
      .call (.insertResult (rowKey ns action) encoded) fun answer =>
        ResultAnswer.committed <$> (Program.done answer >>= fun inserted =>
          if inserted = 1 then pure .created else compareExisting crates ns action encoded) := by
  rw [ResultCall.method, commit, hencoded]
  rfl

/-- Once there is a row, what reads it back later is decided. -/
theorem settled_compareExisting (htrips : crates.RoundTrips) (h : Holds crates db view)
    {inv : Database → Prop} {ns : String} {action : Digest} {existing result : ActionResult}
    {encoded : Json} (hresult : view.result (ns, action) = some existing)
    (hencoded : crates.resultToValue result = .ok encoded)
    (haccepted : (rowKey ns action).accepted = true) :
    Pool.Settled Sends inv
      (.ok (.committed (if existing = result then .alreadyExists else .conflict))) db
      (ResultAnswer.committed <$> compareExisting crates ns action encoded) := by
  obtain ⟨value, hfind, hvalue, hdecode⟩ := h.exists_row htrips hresult
  show Pool.Settled Sends inv _ db (.call (.selectResult (rowKey ns action)) _)
  rintro later hle _ answer after ⟨now, hexec⟩
  have hselect : (Statement.selectResult (rowKey ns action)).accepted = true := haccepted
  rw [Database.execute_of_accepted hselect, Database.perform, hle _ _ hfind] at hexec
  obtain ⟨rfl, rfl⟩ := Prod.mk.inj hexec
  refine ⟨rfl, ?_⟩
  show Pool.Settled Sends inv _ _ (ResultAnswer.committed <$>
    (Program.done (decodeResult crates (some value)) >>= _))
  rw [hdecode]
  show Pool.Settled Sends inv _ _ (ResultAnswer.committed <$>
    (Program.done (crates.resultToValue existing) >>= _))
  rw [hvalue]
  have hsame := encoded_inj htrips hvalue hencoded
  by_cases heq : existing = result
  · rw [if_pos heq, ok_bind, if_pos (hsame.mpr heq)]
    rfl
  · rw [if_neg heq, ok_bind, if_neg (mt hsame.mp heq)]
    rfl

/-! ## First statements -/

variable (hrules : crates.digests.Documented) (htrips : crates.RoundTrips)
include hrules htrips

/-- A commit takes effect with its insertion. -/
theorem takeEffect_commit {ns : String} {action : Digest} {result : ActionResult}
    {op : Statement} {next : op.Answer → Query ResultAnswer}
    (hmethod : (ResultCall.commit ns action result).method crates = .call op next)
    {store : MemoryMetadata} {answer : op.Answer} {later : Database}
    (h : SameContents crates db store) (hsent : Sends op db answer later) :
    (db ≤ later ∧
      SameContents crates later ((ResultCall.commit ns action result).perform crates store).2 ∧
      Pool.Settled Sends (fun db => ∃ store, SameContents crates db store)
        ((ResultCall.commit ns action result).perform crates store).1 later (next answer)) ∨
    (later = db ∧ ¬ Storable crates (.commit ns action result) ∧
      ∃ e, next answer = .done (.error e)) := by
  obtain ⟨view, hdb, hstore⟩ := h
  obtain ⟨encoded, hencoded, _⟩ := htrips.result_value result
  obtain ⟨hanswer, hafter⟩ := hstore.commit htrips ns action result
  rw [method_commit hencoded] at hmethod
  cases hmethod
  obtain ⟨now, hexec⟩ := hsent
  have hperform : ((ResultCall.commit ns action result).perform crates store).1 =
      .ok (.committed (view.commit (ns, action) result).1) := by
    rw [ResultCall.perform, hanswer]
    rfl
  rw [hperform]
  rcases hdb.insertResult_cases now hrules ns action hencoded with
    ⟨hnone, after, hinsert, hholds, hkept⟩ | ⟨existing, hsome, hkey, hinsert⟩ |
      ⟨hnot, error, hinsert⟩
  · obtain ⟨rfl, rfl⟩ := Prod.mk.inj (hexec.symm.trans hinsert)
    left
    refine ⟨hkept, ⟨_, hholds, hafter⟩, ?_⟩
    rw [MetadataView.commit_of_none hnone]
    rfl
  · obtain ⟨rfl, rfl⟩ := Prod.mk.inj (hexec.symm.trans hinsert)
    left
    refine ⟨le_rfl, ⟨_, ?_, hafter⟩, ?_⟩
    · rw [MetadataView.commit_of_some hsome]
      exact hdb
    · rw [MetadataView.commit_of_some hsome]
      exact settled_compareExisting htrips hdb hsome hencoded hkey
  · obtain ⟨rfl, rfl⟩ := Prod.mk.inj (hexec.symm.trans hinsert)
    exact .inr ⟨rfl, hnot, error, rfl⟩

theorem takeEffect_get {ns : String} {action : Digest} {op : Statement}
    {next : op.Answer → Query ResultAnswer}
    (hmethod : (ResultCall.get ns action).method crates = .call op next)
    {store : MemoryMetadata} {answer : op.Answer} {later : Database}
    (h : SameContents crates db store) (hsent : Sends op db answer later) :
    (db ≤ later ∧ SameContents crates later ((ResultCall.get ns action).perform crates store).2 ∧
      Pool.Settled Sends (fun db => ∃ store, SameContents crates db store)
        ((ResultCall.get ns action).perform crates store).1 later (next answer)) ∨
    (later = db ∧ ¬ Storable crates (.get ns action) ∧ ∃ e, next answer = .done (.error e)) := by
  obtain ⟨view, hdb, hstore⟩ := h
  obtain ⟨now, hexec⟩ := hsent
  have hperform : ((ResultCall.get ns action).perform crates store).1 =
      .ok (.found (view.result (ns, action))) := by
    rw [ResultCall.perform, hstore.get htrips]
    rfl
  rw [hperform]
  cases hmethod
  by_cases haccepted : (Statement.selectResult (rowKey ns action)).accepted = true
  · rw [Database.execute_of_accepted haccepted] at hexec
    obtain ⟨rfl, rfl⟩ := Prod.mk.inj hexec
    left
    refine ⟨le_rfl, ⟨view, hdb, hstore⟩, ?_⟩
    show Pool.Settled Sends _ _ _ (ResultAnswer.found <$>
      Program.done (decodeResult crates (db.actionResults.find (rowKey ns action))))
    rw [hdb.find_result htrips]
    rfl
  · right
    obtain ⟨error, herror⟩ := execute_of_not_accepted now db haccepted
    obtain ⟨rfl, rfl⟩ := Prod.mk.inj (hexec.symm.trans herror)
    refine ⟨rfl, ?_, error, rfl⟩
    rintro ⟨hns, hvalid⟩
    exact haccepted (rowKey_accepted hrules hns hvalid)

omit hrules in
/-- What the in-memory store answers to a batch is what the rows asked for hold. -/
theorem perform_getBatch {store : MemoryMetadata} (hdb : Holds crates db view)
    (hstore : MemoryMetadata.Holds crates store view) (ns : String) (actions : List Digest) :
    ((ResultCall.getBatch ns actions).perform crates store) =
      (.ok (.results ((representableDigests actions).filterMap fun entry =>
        view.result (ns, entry.1))), store) := by
  have hfilter := filterMap_representableDigests
    (f := fun action => view.result (ns, action)) (fun _ hsize => hdb.result_eq_none hsize) actions
  rw [ResultCall.perform, hstore.getBatch htrips, hfilter]
  rfl

theorem takeEffect_getBatch {ns : String} {actions : List Digest} {op : Statement}
    {next : op.Answer → Query ResultAnswer}
    (hmethod : (ResultCall.getBatch ns actions).method crates = .call op next)
    {store : MemoryMetadata} {answer : op.Answer} {later : Database}
    (h : SameContents crates db store) (hsent : Sends op db answer later) :
    (db ≤ later ∧
      SameContents crates later ((ResultCall.getBatch ns actions).perform crates store).2 ∧
      Pool.Settled Sends (fun db => ∃ store, SameContents crates db store)
        ((ResultCall.getBatch ns actions).perform crates store).1 later (next answer)) ∨
    (later = db ∧ ¬ Storable crates (.getBatch ns actions) ∧
      ∃ e, next answer = .done (.error e)) := by
  obtain ⟨view, hdb, hstore⟩ := h
  obtain ⟨now, hexec⟩ := hsent
  rw [perform_getBatch htrips hdb hstore]
  rw [ResultCall.method, getBatch] at hmethod
  by_cases hempty : (representableDigests actions).isEmpty = true
  · rw [if_pos hempty] at hmethod
    cases hmethod
  · rw [if_neg hempty] at hmethod
    cases hmethod
    by_cases haccepted :
        (Statement.selectResults ns ((representableDigests actions).map columns)).accepted = true
    · rw [Database.execute_of_accepted haccepted, Database.perform, Database.selectResults_eq,
        List.map_map] at hexec
      obtain ⟨rfl, rfl⟩ := Prod.mk.inj hexec
      left
      refine ⟨le_rfl, ⟨view, hdb, hstore⟩, ?_⟩
      show Pool.Settled Sends _ _ _ (ResultAnswer.results <$>
        (Program.done (((representableDigests actions).map fun entry =>
          db.actionResults.find ((columns entry).at ns)).mapM (decodeResult crates)) >>= _))
      rw [hdb.selectResults htrips]
      show Except.ok (ResultAnswer.results (List.reduceOption _)) = _
      rw [reduceOption_map]
    · right
      obtain ⟨error, herror⟩ := execute_of_not_accepted now db haccepted
      obtain ⟨rfl, rfl⟩ := Prod.mk.inj (hexec.symm.trans herror)
      refine ⟨rfl, ?_, error, rfl⟩
      rintro ⟨hns, hvalid⟩
      apply haccepted
      rw [Statement.accepted, hns, columns_accepted hrules hvalid]
      rfl

omit hrules in
/-- Only a batch without a representable digest sends nothing. -/
theorem perform_of_method_done {call : ResultCall} {outcome : Except String ResultAnswer}
    (hmethod : call.method crates = .done outcome) {store : MemoryMetadata}
    (h : SameContents crates db store) : call.perform crates store = (outcome, store) := by
  obtain ⟨view, hdb, hstore⟩ := h
  cases call with
  | commit ns action result =>
      obtain ⟨encoded, hencoded, _⟩ := htrips.result_value result
      rw [method_commit hencoded] at hmethod
      cases hmethod
  | get ns action => cases hmethod
  | getBatch ns actions =>
      rw [perform_getBatch htrips hdb hstore]
      rw [ResultCall.method, getBatch] at hmethod
      by_cases hempty : (representableDigests actions).isEmpty = true
      · rw [if_pos hempty] at hmethod
        rw [List.isEmpty_iff.mp hempty]
        cases hmethod
        rfl
      · rw [if_neg hempty] at hmethod
        cases hmethod

theorem takeEffect : Pool.TakeEffect Sends (ResultCall.method crates)
    (ResultCall.perform crates) (fun call => ¬ Storable crates call.op) (SameContents crates) where
  immediate call outcome hmethod db store h :=
    perform_of_method_done htrips hmethod h
  first call op next hmethod db store answer later h hsent := by
    cases call with
    | commit ns action result => exact takeEffect_commit hrules htrips hmethod h hsent
    | get ns action => exact takeEffect_get hrules htrips hmethod h hsent
    | getBatch ns actions => exact takeEffect_getBatch hrules htrips hmethod h hsent

omit hrules htrips

/-! ## The sequential store -/

/-- What a call leaves stored, and what a commit that is answered says of it. -/
theorem entries_perform (call : ResultCall) (store : MemoryMetadata) {key : MetadataKey}
    {bytes : Bytes} (h : store.entries key = some bytes) :
    (call.perform crates store).2.entries key = some bytes := by
  cases call with
  | get ns action => exact h
  | getBatch ns actions => exact h
  | commit ns action result =>
      show (store.commit crates ns action result).2.entries key = some bytes
      unfold MemoryMetadata.commit
      cases crates.resultToVec result with
      | error e => exact h
      | ok encoded =>
          cases hentry : store.entries (ns, action) with
          | some existing => exact h
          | none =>
              have hne : key ≠ (ns, action) := by
                rintro rfl
                rw [hentry] at h
                cases h
              show Function.update store.entries (ns, action) (some encoded) key = some bytes
              rw [Function.update_of_ne hne]
              exact h

theorem entries_replay (calls : List ResultCall) (store : MemoryMetadata) {key : MetadataKey}
    {bytes : Bytes} (h : store.entries key = some bytes) :
    (Pool.replay (ResultCall.perform crates) store calls).entries key = some bytes := by
  induction calls generalizing store with
  | nil => exact h
  | cons call calls ih => exact ih _ (entries_perform call store h)

/-- What an answered commit says about the entry there is after it. -/
structure Explains (crates : Crates) (result : ActionResult) (outcome : CommitOutcome)
    (before : Option Bytes) (entry : Bytes) : Prop where
  created : outcome = .created → before = none ∧ crates.resultToVec result = .ok entry
  alreadyExists : outcome = .alreadyExists → crates.resultToVec result = .ok entry
  conflict : outcome = .conflict → crates.resultToVec result ≠ .ok entry

theorem explains_commit {ns : String} {action : Digest} {result : ActionResult}
    {store : MemoryMetadata} {outcome : CommitOutcome}
    (h : (store.commit crates ns action result).1 = .ok outcome) :
    ∃ entry, (store.commit crates ns action result).2.entries (ns, action) = some entry ∧
      Explains crates result outcome (store.entries (ns, action)) entry := by
  unfold MemoryMetadata.commit at h ⊢
  cases hencode : crates.resultToVec result with
  | error e =>
      rw [hencode] at h
      cases h
  | ok encoded =>
      rw [hencode] at h
      cases hentry : store.entries (ns, action) with
      | none =>
          rw [hentry] at h
          obtain rfl := Except.ok.inj h
          refine ⟨encoded, Function.update_self .., fun _ => ⟨rfl, hencode⟩, ?_, ?_⟩
          · exact fun h => by cases h
          · exact fun h => by cases h
      | some existing =>
          rw [hentry] at h
          obtain rfl := Except.ok.inj h
          refine ⟨existing, hentry, ?_⟩
          by_cases heq : existing = encoded
          · rw [if_pos heq, heq]
            exact ⟨(fun h => by cases h), (fun _ => hencode), fun h => by cases h⟩
          · rw [if_neg heq]
            refine ⟨(fun h => by cases h), (fun h => by cases h), ?_⟩
            intro _ hsame
            rw [hencode] at hsame
            exact heq (Except.ok.inj hsame).symm

theorem exists_holds_replay (htrips : crates.RoundTrips) (calls : List ResultCall)
    {store : MemoryMetadata} (h : ∃ view, MemoryMetadata.Holds crates store view) :
    ∃ view, MemoryMetadata.Holds crates (Pool.replay (ResultCall.perform crates) store calls)
      view := by
  induction calls generalizing store with
  | nil => exact h
  | cons call calls ih =>
      obtain ⟨view, hview⟩ := h
      apply ih
      cases call with
      | commit ns action result => exact ⟨_, (hview.commit htrips ns action result).2⟩
      | get ns action => exact ⟨view, hview⟩
      | getBatch ns actions => exact ⟨view, hview⟩

/-- The in-memory store never fails. -/
theorem exists_perform_ok (htrips : crates.RoundTrips) (call : ResultCall)
    {store : MemoryMetadata} (h : ∃ view, MemoryMetadata.Holds crates store view) :
    ∃ answer, (call.perform crates store).1 = .ok answer := by
  obtain ⟨view, hview⟩ := h
  cases call with
  | commit ns action result =>
      refine ⟨.committed (view.commit (ns, action) result).1, ?_⟩
      rw [ResultCall.perform, (hview.commit htrips ns action result).1]
      rfl
  | get ns action =>
      refine ⟨.found (view.result (ns, action)), ?_⟩
      rw [ResultCall.perform, hview.get htrips]
      rfl
  | getBatch ns actions =>
      refine ⟨.results (actions.filterMap fun action => view.result (ns, action)), ?_⟩
      rw [ResultCall.perform, hview.getBatch htrips]
      rfl

/-! ## Runs -/

/-- Nothing the service sends removes a result. -/
theorem sends_le {statement : Statement} {answer : statement.Answer} {later : Database}
    (h : Sends statement db answer later) : db ≤ later := by
  obtain ⟨now, hexec⟩ := h
  have hlater : later = (db.execute now statement).2 := by rw [hexec]
  rw [hlater]
  intro key value hfind
  by_cases haccepted : statement.accepted = true
  · rw [Database.execute_of_accepted haccepted]
    cases statement with
    | insertResult other result =>
        by_cases hcheck : other.Checked
        · cases hother : db.actionResults.find other with
          | some row => rwa [Database.perform_insertResult_of_some hcheck hother]
          | none =>
              have hne : key ≠ other := by
                rintro rfl
                rw [hother] at hfind
                cases hfind
              rw [Database.perform_insertResult_of_none hcheck hother]
              dsimp only
              rw [(Table.insertNew_of_none hother).2, if_neg hne]
              exact hfind
        · rwa [Database.perform, dif_neg hcheck]
    | upsertBlob other created =>
        rw [Database.perform]
        split <;> exact hfind
    | insertManifest other etag manifest =>
        rw [Database.perform]
        split <;> exact hfind
    | selectVisible ns requested => exact hfind
    | touchBlobs ns requested => exact hfind
    | selectResult other => exact hfind
    | selectResults ns requested => exact hfind
    | selectManifest other => exact hfind
    | updateManifest other etag manifest expectedEtag => exact hfind
  · rwa [Database.execute, if_neg haccepted]

theorem step_le {pool later : Pool Database ResultCall Statement Statement.Answer String ResultAnswer}
    {event : Pool.Event ResultCall Statement Statement.Answer}
    (h : Pool.Step Sends (ResultCall.method crates) pool event later) :
    pool.state ≤ later.state := by
  cases h with
  | arrive s threads request => exact le_rfl
  | advance s t before after request op next answer realized => exact sends_le realized

/-- A commit that has been answered. -/
def answered (ns : String) (action : Digest) (result : ActionResult) (outcome : CommitOutcome) :
    ResultCall × Query ResultAnswer :=
  (.commit ns action result, .done (.ok (.committed outcome)))

/-- What holds of concurrent calls about results. -/
structure CommitsLinearize (crates : Crates) (store : MemoryMetadata)
    (events : List (Pool.Event ResultCall Statement Statement.Answer))
    (pool : Pool Database ResultCall Statement Statement.Answer String ResultAnswer) : Prop where
  /-- The answers are those of the in-memory store for the calls in some order that
  keeps real time. Only calls that were refused have no place in it. -/
  linearized : ∃ order, Pool.Linearizes (ResultCall.perform crates)
    (fun call => ¬ Storable crates call.op) store events pool order
  once : ∀ ns action result result' (first second : ℕ),
    pool.threads[first]? = some (answered ns action result .created) →
    pool.threads[second]? = some (answered ns action result' .created) → first = second
  /-- In every continuation of the run. -/
  kept : ∀ later, Relation.ReflTransGen (fun pool later => ∃ event,
      Pool.Step Sends (ResultCall.method crates) pool event later) pool later →
    ∀ key value, pool.state.actionResults.find key = some value →
      later.state.actionResults.find key = some value
  alreadyExists : ∀ ns action result,
    answered ns action result .alreadyExists ∈ pool.threads →
    decodeResult crates (pool.state.actionResults.find (rowKey ns action)) = .ok (some result)
  conflict : ∀ ns action result,
    answered ns action result .conflict ∈ pool.threads →
    ∃ existing, existing ≠ result ∧
      decodeResult crates (pool.state.actionResults.find (rowKey ns action)) =
        .ok (some existing)
  /-- A call fails only when a database cannot hold its parameters. -/
  failed : ∀ call error, (call, .done (.error error)) ∈ pool.threads → ¬ Storable crates call.op

section Runs

variable {store : MemoryMetadata}
variable {events : List (Pool.Event ResultCall Statement Statement.Answer)}
variable {pool : Pool Database ResultCall Statement Statement.Answer String ResultAnswer}
variable {order : List ℕ}

theorem called_split {requests : List ResultCall} {before after : List ℕ} {index : ℕ}
    {call : ResultCall} (h : requests[index]? = some call) :
    Pool.called requests (before ++ index :: after) =
      Pool.called requests before ++ call :: Pool.called requests after := by
  rw [Pool.called, List.filterMap_append, List.filterMap_cons, h]
  rfl

theorem replay_split (calls calls' : List ResultCall) (call : ResultCall) :
    Pool.replay (ResultCall.perform crates) store (calls ++ call :: calls') =
      Pool.replay (ResultCall.perform crates)
        (call.perform crates (Pool.replay (ResultCall.perform crates) store calls)).2 calls' := by
  rw [Pool.replay, List.foldl_append]
  rfl

theorem request_of_thread {index : ℕ} {call : ResultCall} {program : Query ResultAnswer}
    (h : pool.threads[index]? = some (call, program)) : pool.requests[index]? = some call := by
  rw [Pool.requests, List.getElem?_map, h]
  rfl

/-- An answered commit was served, and what it said of the entry is still true at any
later place of the order. -/
theorem explains_of_served
    (h : Pool.Linearizes (ResultCall.perform crates) (fun call => ¬ Storable crates call.op) store
      events pool order)
    {ns : String} {action : Digest} {result : ActionResult} {outcome : CommitOutcome} {index : ℕ}
    (hthread : pool.threads[index]? = some (answered ns action result outcome))
    {before after : List ℕ} (horder : order = before ++ index :: after) :
    ∃ entry, Explains crates result outcome
        ((Pool.replay (ResultCall.perform crates) store
          (Pool.called pool.requests before)).entries (ns, action)) entry ∧
      ∀ more, (Pool.replay (ResultCall.perform crates) store
        (Pool.called pool.requests (before ++ index :: more))).entries (ns, action) =
          some entry := by
  have hanswer := h.answers before index after _ _ horder hthread
  have hcommit : ((Pool.replay (ResultCall.perform crates) store
      (Pool.called pool.requests before)).commit crates ns action result).1 = .ok outcome := by
    rw [ResultCall.perform] at hanswer
    cases hresult : ((Pool.replay (ResultCall.perform crates) store
        (Pool.called pool.requests before)).commit crates ns action result).1 with
    | error e =>
        rw [hresult] at hanswer
        cases hanswer
    | ok other =>
        rw [hresult] at hanswer
        rw [ResultAnswer.committed.inj (Except.ok.inj hanswer)]
  obtain ⟨entry, hentry, hexplains⟩ := explains_commit hcommit
  refine ⟨entry, hexplains, fun more => ?_⟩
  rw [called_split (request_of_thread hthread), replay_split]
  exact entries_replay _ _ hentry

theorem mem_order
    (h : Pool.Linearizes (ResultCall.perform crates) (fun call => ¬ Storable crates call.op) store
      events pool order) {index : ℕ} {call : ResultCall} {answer : ResultAnswer}
    (hthread : pool.threads[index]? = some (call, .done (.ok answer))) : index ∈ order := by
  rcases h.complete index call _ hthread with hmem | ⟨_, e, herror⟩
  · exact hmem
  · cases herror

/-- What is stored after a run under the key of an answered commit. -/
theorem exists_stored (htrips : crates.RoundTrips)
    (h : Pool.Linearizes (ResultCall.perform crates) (fun call => ¬ Storable crates call.op) store
      events pool order)
    (hstate : SameContents crates pool.state
      (Pool.replay (ResultCall.perform crates) store (Pool.called pool.requests order)))
    {ns : String} {action : Digest} {result : ActionResult} {outcome : CommitOutcome}
    (hmem : answered ns action result outcome ∈ pool.threads) :
    ∃ existing,
      decodeResult crates (pool.state.actionResults.find (rowKey ns action)) =
        .ok (some existing) ∧
      (outcome = .alreadyExists → existing = result) ∧ (outcome = .conflict → existing ≠ result) := by
  obtain ⟨index, hthread⟩ := List.mem_iff_getElem?.mp hmem
  obtain ⟨before, after, horder⟩ := List.append_of_mem (mem_order h hthread)
  obtain ⟨entry, hexplains, hentry⟩ := explains_of_served h hthread horder
  obtain ⟨view, hdb, hstore⟩ := hstate
  have hfinal := hentry after
  rw [← horder] at hfinal
  have hrow := hstore.result (ns, action)
  rw [hfinal] at hrow
  cases hresult : view.result (ns, action) with
  | none =>
      rw [hresult] at hrow
      exact absurd hrow id
  | some existing =>
      rw [hresult] at hrow
      have hencoded : crates.resultToVec existing = .ok entry := hrow
      have hdecode := hdb.find_result htrips ns action
      rw [hresult] at hdecode
      refine ⟨existing, hdecode, ?_, ?_⟩
      · intro houtcome
        obtain ⟨bytes, hto, hfrom⟩ := htrips.result_slice existing
        obtain ⟨bytes', hto', hfrom'⟩ := htrips.result_slice result
        rw [hencoded] at hto
        rw [hexplains.alreadyExists houtcome] at hto'
        obtain rfl := Except.ok.inj hto
        obtain rfl := Except.ok.inj hto'
        rw [hfrom] at hfrom'
        exact Except.ok.inj hfrom'
      · rintro houtcome rfl
        exact hexplains.conflict houtcome hencoded

/-- The entry of a created result is not there before it is created. -/
theorem not_served_after
    (h : Pool.Linearizes (ResultCall.perform crates) (fun call => ¬ Storable crates call.op) store
      events pool order)
    {ns : String} {action : Digest} {result result' : ActionResult} {first second : ℕ}
    (hfirst : pool.threads[first]? = some (answered ns action result .created))
    (hsecond : pool.threads[second]? = some (answered ns action result' .created))
    {before after : List ℕ} (horder : order = before ++ first :: after) : second ∉ after := by
  intro hmem
  obtain ⟨middle, rest, rfl⟩ := List.append_of_mem hmem
  obtain ⟨entry, _, hentry⟩ := explains_of_served h hfirst horder
  have horder' : order = (before ++ first :: middle) ++ second :: rest := by
    rw [horder, List.append_assoc, List.cons_append]
  obtain ⟨entry', hexplains, _⟩ := explains_of_served h hsecond horder'
  have hnone := (hexplains.created rfl).1
  rw [hentry middle] at hnone
  cases hnone

/-- Any number of calls, with the statements of all of them in any order. -/
theorem commits_linearize (crates : Crates) (hrules : crates.digests.Documented)
    (htrips : crates.RoundTrips) (db : Database) (store : MemoryMetadata)
    (hsame : SameContents crates db store)
    (events : List (Pool.Event ResultCall Statement Statement.Answer))
    (pool : Pool Database ResultCall Statement Statement.Answer String ResultAnswer)
    (hrun : Pool.Run Sends (ResultCall.method crates) db events pool) :
    CommitsLinearize crates store events pool := by
  obtain ⟨order, hlinearizing⟩ := hrun.linearizing (takeEffect hrules htrips) hsame
  have h := hlinearizing.linearizes
  constructor
  case linearized => exact ⟨order, h⟩
  case once =>
    intro ns action result result' first second hfirst hsecond
    obtain ⟨before, after, horder⟩ := List.append_of_mem (mem_order h hfirst)
    have hmem := mem_order h hsecond
    rw [horder] at hmem
    rcases List.mem_append.mp hmem with hbefore | hrest
    · obtain ⟨start, middle, rfl⟩ := List.append_of_mem hbefore
      rw [List.append_assoc, List.cons_append] at horder
      have hafter : first ∈ middle ++ first :: after :=
        List.mem_append_right _ List.mem_cons_self
      exact absurd hafter (not_served_after h hsecond hfirst horder)
    · rcases List.mem_cons.mp hrest with heq | hafter
      · exact heq.symm
      · exact absurd hafter (not_served_after h hfirst hsecond horder)
  case kept =>
    intro later hlater
    have hle : pool.state ≤ later.state := by
      induction hlater with
      | refl => exact le_rfl
      | tail _ hstep ih =>
          obtain ⟨event, hstep⟩ := hstep
          exact ih.trans (step_le hstep)
    exact hle
  case alreadyExists =>
    intro ns action result hmem
    obtain ⟨existing, hstored, hequal, _⟩ := exists_stored htrips h hlinearizing.state hmem
    rw [hstored, hequal rfl]
  case conflict =>
    intro ns action result hmem
    obtain ⟨existing, hstored, _, hdifferent⟩ := exists_stored htrips h hlinearizing.state hmem
    exact ⟨existing, hdifferent rfl, hstored⟩
  case failed =>
    intro call error hmem
    obtain ⟨index, hthread⟩ := List.mem_iff_getElem?.mp hmem
    rcases h.complete index call _ hthread with hserved | ⟨hrefused, _⟩
    · obtain ⟨before, after, horder⟩ := List.append_of_mem hserved
      have hanswer := h.answers before index after _ _ horder hthread
      obtain ⟨view, _, hstore⟩ := hsame
      obtain ⟨answer, hok⟩ := exists_perform_ok htrips call
        (exists_holds_replay htrips (Pool.called pool.requests before) ⟨view, hstore⟩)
      rw [hok] at hanswer
      cases hanswer
    · exact hrefused

/-- What a call was answered, if it was. -/
def answerOf : Query ResultAnswer → Option ResultAnswer
  | .done (.ok answer) => some answer
  | .done (.error _) | .call _ _ => none

/-- Calls one after another, against empty tables. -/
def servedCalls (calls : List ResultCall) :
    Pool Database ResultCall Statement Statement.Answer String ResultAnswer :=
  calls.foldl (Pool.serve (Database.execute 0) (ResultCall.method Sample.crates))
    ⟨Database.empty, []⟩

theorem reachable_servedCalls (calls : List ResultCall) :
    Pool.Reachable Sends (ResultCall.method Sample.crates) Database.empty (servedCalls calls) := by
  apply Pool.Reachable.serveAll _ calls Pool.reachable_start
  exact fun statement db => ⟨0, rfl⟩

/-- A result is created, committed again and contradicted. -/
theorem commits_linearize_sample :
    let pool := servedCalls
      [.commit "acme" Sample.taskActionDigest Sample.taskResult,
        .commit "acme" Sample.taskActionDigest Sample.taskResult,
        .commit "acme" Sample.taskActionDigest Sample.bareResult,
        .get "acme" Sample.taskActionDigest]
    pool.threads.map (fun thread => answerOf thread.2) =
        [some (.committed .created), some (.committed .alreadyExists),
          some (.committed .conflict), some (.found (some Sample.taskResult))] ∧
      ∃ events, Pool.Run Sends (ResultCall.method Sample.crates) Database.empty events pool ∧
        CommitsLinearize Sample.crates MemoryMetadata.empty events pool := by
  intro pool
  refine ⟨by decide +kernel, ?_⟩
  obtain ⟨events, hrun⟩ := reachable_servedCalls
    [.commit "acme" Sample.taskActionDigest Sample.taskResult,
      .commit "acme" Sample.taskActionDigest Sample.taskResult,
      .commit "acme" Sample.taskActionDigest Sample.bareResult,
      .get "acme" Sample.taskActionDigest]
  exact ⟨events, hrun, commits_linearize Sample.crates Sample.documented Sample.roundTrips _ _
    ⟨_, holds_empty, MemoryMetadata.holds_empty⟩ events pool hrun⟩

/-- A size beyond `bigint` violates the check of the table, so this commit fails. -/
theorem oversized_commit_fails : ∃ events pool,
    Pool.Run Sends (ResultCall.method Sample.crates) Database.empty events pool ∧
      ∃ call error, (call, .done (.error error)) ∈ pool.threads := by
  let call : ResultCall :=
    .commit "acme" { Sample.taskActionDigest with size := 2 ^ 63 } Sample.taskResult
  obtain ⟨events, hrun⟩ := reachable_servedCalls [call]
  have hfails : ((call.method Sample.crates).run (Database.execute 0) Database.empty).1.toOption =
      none := by
    decide +kernel
  refine ⟨events, _, hrun, call, ?_⟩
  cases hanswer : ((call.method Sample.crates).run (Database.execute 0) Database.empty).1 with
  | ok answer =>
      rw [hanswer] at hfails
      cases hfails
  | error error =>
      refine ⟨error, ?_⟩
      rw [← hanswer]
      exact List.mem_singleton.mpr rfl

end Runs

end PostgresMetadata

end MbxCache
