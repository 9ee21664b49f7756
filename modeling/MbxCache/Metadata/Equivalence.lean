/-
# Two stores, one meaning

The Postgres store is related to the contents a metadata store is for, as the
in-memory store is. Where its statements are accepted it answers as the contents
do; where the database refuses a statement the call fails and changes nothing.

Both stores then give the same answers to any sequence of calls whose parameters
a database can hold.
-/

import Mathlib.Data.UInt
import MbxCache.Metadata.Postgres
import MbxCache.Metadata.Spec
import MbxCache.Sample

namespace MbxCache

open Foundation Program

namespace PostgresMetadata

section

variable (crates : Crates)

/-- The contents of the tables. Results and manifests are kept as the documents
they serialize to. -/
structure Holds (db : Database) (view : MetadataView) : Prop where
  visible : ∀ ns digest,
    (db.namespaceBlobs.find (rowKey ns digest)).isSome = true ↔ (ns, digest) ∈ view.visible
  result : ∀ ns digest,
    match db.actionResults.find (rowKey ns digest), view.result (ns, digest) with
    | none, none => True
    | some value, some result => crates.resultToValue result = .ok value
    | _, _ => False
  manifest : ∀ ns digest,
    match db.actionManifests.find (rowKey ns digest), view.manifest (ns, digest) with
    | none, none => True
    | some row, some record =>
        row.etag = record.etag ∧ crates.manifestToValue record.manifest = .ok row.manifest
    | _, _ => False

variable {crates}
variable {db : Database} {view : MetadataView}

theorem holds_empty : Holds crates Database.empty MetadataView.empty where
  visible _ _ := by simp [Database.empty, MetadataView.empty]
  result _ _ := trivial
  manifest _ _ := trivial

/-! ## Rows -/

theorem Holds.find_eq_none (h : Holds crates db view) {ns : String} {action : Digest} :
    db.actionResults.find (rowKey ns action) = none ↔ view.result (ns, action) = none := by
  have hrow := h.result ns action
  cases hfind : db.actionResults.find (rowKey ns action) <;>
    cases hresult : view.result (ns, action) <;> simp [hfind, hresult] at hrow ⊢

theorem Holds.find_eq_some (h : Holds crates db view) {ns : String} {action : Digest}
    {result : ActionResult} (hresult : view.result (ns, action) = some result) :
    ∃ value, db.actionResults.find (rowKey ns action) = some value := by
  cases hfind : db.actionResults.find (rowKey ns action) with
  | none => simp [h.find_eq_none.mp hfind] at hresult
  | some value => exact ⟨value, rfl⟩

theorem Holds.find_result (htrips : crates.RoundTrips) (h : Holds crates db view) (ns : String)
    (action : Digest) : decodeResult crates (db.actionResults.find (rowKey ns action)) =
      .ok (view.result (ns, action)) := by
  have hrow := h.result ns action
  cases hfind : db.actionResults.find (rowKey ns action) with
  | none =>
      cases hresult : view.result (ns, action) with
      | none => rfl
      | some result => simp [hfind, hresult] at hrow
  | some value =>
      cases hresult : view.result (ns, action) with
      | none => simp [hfind, hresult] at hrow
      | some result =>
          have hvalue : crates.resultToValue result = .ok value := by
            simpa [hfind, hresult] using hrow
          obtain ⟨value', hto, hfrom⟩ := htrips.result_value result
          rw [hvalue] at hto
          obtain rfl := Except.ok.inj hto
          rw [decodeResult, hfrom]
          rfl

theorem Holds.manifest_eq_none (h : Holds crates db view) {ns : String} {key : Digest} :
    db.actionManifests.find (rowKey ns key) = none ↔ view.manifest (ns, key) = none := by
  have hrow := h.manifest ns key
  cases hfind : db.actionManifests.find (rowKey ns key) <;>
    cases hmanifest : view.manifest (ns, key) <;> simp [hfind, hmanifest] at hrow ⊢

theorem Holds.manifest_eq_some (h : Holds crates db view) {ns : String} {key : Digest}
    {record : ManifestRecord} (hmanifest : view.manifest (ns, key) = some record) :
    ∃ row, db.actionManifests.find (rowKey ns key) = some row ∧ row.etag = record.etag := by
  have hrow := h.manifest ns key
  cases hfind : db.actionManifests.find (rowKey ns key) with
  | none => simp [hfind, hmanifest] at hrow
  | some row =>
      rw [hfind, hmanifest] at hrow
      exact ⟨row, rfl, hrow.1⟩

/-- The stored row has the expected entity tag where the contents do. -/
theorem Holds.expects_some (h : Holds crates db view) {ns : String} {key : Digest}
    {expected : String} : view.expects (ns, key) (some expected) ↔
      (db.actionManifests.find (rowKey ns key)).any (·.etag = expected) = true := by
  rw [MetadataView.expects]
  cases hmanifest : view.manifest (ns, key) with
  | none => simp [h.manifest_eq_none.mpr hmanifest]
  | some record =>
      obtain ⟨row, hfind, hetag⟩ := h.manifest_eq_some hmanifest
      simp [hfind, hetag]

theorem Holds.find_manifest (htrips : crates.RoundTrips) (h : Holds crates db view) (ns : String)
    (key : Digest) :
    decodeManifest crates ((db.actionManifests.find (rowKey ns key)).map fun row =>
        (row.etag, row.manifest)) = .ok (view.manifest (ns, key)) := by
  have hrow := h.manifest ns key
  cases hfind : db.actionManifests.find (rowKey ns key) with
  | none =>
      cases hmanifest : view.manifest (ns, key) with
      | none => rfl
      | some record => simp [hfind, hmanifest] at hrow
  | some row =>
      cases hmanifest : view.manifest (ns, key) with
      | none => simp [hfind, hmanifest] at hrow
      | some record =>
          obtain ⟨hetag, hvalue⟩ : row.etag = record.etag ∧
              crates.manifestToValue record.manifest = .ok row.manifest := by
            simpa [hfind, hmanifest] using hrow
          obtain ⟨value, hto, hfrom⟩ := htrips.manifest_value record.manifest
          rw [hvalue] at hto
          obtain rfl := Except.ok.inj hto
          rw [Option.map_some, decodeManifest, hfrom, hetag]
          rfl

/-- A digest without a `bigint` size is not in any table. -/
theorem Holds.not_visible (h : Holds crates db view) {ns : String} {digest : Digest}
    (hsize : ¬ digest.size.toNat < 2 ^ 63) : (ns, digest) ∉ view.visible := by
  have hcheck : ¬ (rowKey ns digest).Checked := fun hcheck => hsize (asI64_nonneg.mp hcheck.2)
  rw [← h.visible, Table.find_of_not_check hcheck]
  simp

theorem Holds.result_eq_none (h : Holds crates db view) {ns : String} {digest : Digest}
    (hsize : ¬ digest.size.toNat < 2 ^ 63) : view.result (ns, digest) = none := by
  have hcheck : ¬ (rowKey ns digest).Checked := fun hcheck => hsize (asI64_nonneg.mp hcheck.2)
  have hrow := h.result ns digest
  rw [Table.find_of_not_check hcheck] at hrow
  cases hresult : view.result (ns, digest) with
  | none => rfl
  | some result => simp [hresult] at hrow

/-! ## Lists -/

theorem mem_representableDigests {digests : List Digest} {entry : Digest × ℤ} :
    entry ∈ representableDigests digests ↔
      entry.1 ∈ digests ∧ entry.1.size.toNat < 2 ^ 63 ∧ entry.2 = asI64 entry.1.size := by
  obtain ⟨digest, size⟩ := entry
  simp only [representableDigests, List.mem_filterMap, i64TryFrom_eq, Option.map_eq_some_iff,
    Option.ite_none_right_eq_some, Option.some.injEq, Prod.mk.injEq]
  constructor
  · rintro ⟨other, hmem, size', ⟨hsize, rfl⟩, rfl, rfl⟩
    exact ⟨hmem, hsize, rfl⟩
  · rintro ⟨hmem, hsize, rfl⟩
    exact ⟨digest, hmem, _, ⟨hsize, rfl⟩, rfl, rfl⟩

/-- A requested row of a representable digest has the key of the digest. -/
theorem columns_at {digests : List Digest} {entry : Digest × ℤ}
    (h : entry ∈ representableDigests digests) (ns : String) :
    (columns entry).at ns = rowKey ns entry.1 := by
  obtain ⟨_, _, hsize⟩ := mem_representableDigests.mp h
  rw [Columns.at, columns, rowKey, hsize]

theorem representableDigests_cons (digest : Digest) (digests : List Digest) :
    representableDigests (digest :: digests) =
      if digest.size.toNat < 2 ^ 63 then
        (digest, asI64 digest.size) :: representableDigests digests
      else representableDigests digests := by
  rw [representableDigests, List.filterMap_cons, i64TryFrom_eq]
  by_cases hsize : digest.size.toNat < 2 ^ 63
  · rw [if_pos hsize, if_pos hsize]
    rfl
  · rw [if_neg hsize, if_neg hsize]
    rfl

/-- What no other digest has is found through both lists alike. -/
theorem filterMap_representableDigests {β : Type} {f : Digest → Option β}
    (hf : ∀ digest, ¬ digest.size.toNat < 2 ^ 63 → f digest = none) (digests : List Digest) :
    (representableDigests digests).filterMap (fun entry => f entry.1) = digests.filterMap f := by
  induction digests with
  | nil => rfl
  | cons digest digests ih =>
      rw [representableDigests_cons]
      by_cases hsize : digest.size.toNat < 2 ^ 63
      · rw [if_pos hsize, List.filterMap_cons, List.filterMap_cons, ih]
      · rw [if_neg hsize, ih, List.filterMap_cons, hf digest hsize]

theorem filter_representableDigests {p : Digest → Bool}
    (hp : ∀ digest, ¬ digest.size.toNat < 2 ^ 63 → p digest = false) (digests : List Digest) :
    ((representableDigests digests).filter fun entry => p entry.1).map Prod.fst =
      digests.filter p := by
  induction digests with
  | nil => rfl
  | cons digest digests ih =>
      rw [representableDigests_cons]
      by_cases hsize : digest.size.toNat < 2 ^ 63
      · rw [if_pos hsize]
        by_cases hdigest : p digest = true <;> simp [hdigest, ih]
      · rw [if_neg hsize, ih, List.filter_cons_of_neg (by simp [hp digest hsize])]

theorem reduceOption_map {α β : Type} (f : α → Option β) (items : List α) :
    (items.map f).reduceOption = items.filterMap f := by
  show (items.map f).filterMap id = items.filterMap f
  rw [List.filterMap_map, Function.id_comp]

theorem mapM_ok {α β ε : Type} {f : α → Except ε β} {g : α → β} :
    ∀ {items : List α}, (∀ item ∈ items, f item = .ok (g item)) →
      items.mapM f = .ok (items.map g)
  | [], _ => rfl
  | item :: items, h => by
      rw [List.mapM_cons, h item (by simp), mapM_ok fun other hmem => h other (by simp [hmem])]
      rfl

/-- Ordinalities are read back as the digests they stand for. -/
theorem mapM_requestedAt (digests : List (Digest × ℤ)) (p : Digest × ℤ → Bool) :
    (((unnest digests).filter fun row => p row.1).map fun row => (row.2 : ℤ)).mapM
        (requestedAt digests) =
      .ok ((digests.filter p).map Prod.fst) := by
  have hread : ∀ row ∈ (unnest digests).filter fun row => p row.1,
      requestedAt digests (row.2 : ℤ) = .ok row.1.1 := by
    intro row hmem
    obtain ⟨hrow, _⟩ := List.mem_filter.mp hmem
    obtain ⟨entry, ordinality⟩ := row
    obtain ⟨hle, hindex⟩ := List.mk_mem_zipIdx_iff_le_and_getElem?_sub.mp hrow
    have hnat : ((ordinality : ℤ) - 1).toNat? = some (ordinality - 1) := by
      have hcast : (ordinality : ℤ) - 1 = ((ordinality - 1 : ℕ) : ℤ) := by omega
      rw [hcast]
      rfl
    rw [requestedAt, hnat]
    show okOr (digests[ordinality - 1]?.map Prod.fst) _ = _
    rw [hindex]
    rfl
  have hdigests : ((unnest digests).filter fun row => p row.1).map Prod.fst =
      digests.filter p := by
    conv_rhs => rw [← List.zipIdx_map_fst 1 digests, List.filter_map]
    rfl
  rw [List.mapM_map, Function.comp_def, mapM_ok hread, ← hdigests, List.map_map]
  rfl

/-! ## Parameters -/

/-- The calls whose parameters a database can hold: digests that pass their
check, sizes of written rows that have a `bigint`, `blake3` for the keys of
manifests, and no NUL character. -/
def Storable (crates : Crates) : MetadataOp → Prop
  | .visibleBlobs ns digests | .touchBlobs ns digests | .getBatch ns digests =>
      textParameter ns = true ∧ ∀ digest ∈ digests, crates.digests.validate digest = true
  | .blobVisible ns digest | .get ns digest | .getManifest ns digest =>
      textParameter ns = true ∧ crates.digests.validate digest = true
  | .registerBlob ns digest _ =>
      textParameter ns = true ∧ crates.digests.validate digest = true ∧
        digest.size.toNat < 2 ^ 63
  | .commit ns action result =>
      textParameter ns = true ∧ crates.digests.validate action = true ∧
        action.size.toNat < 2 ^ 63 ∧
        (crates.resultToValue result).toOption.all jsonParameter = true
  | .commitManifest ns key expectedEtag etag manifest =>
      textParameter ns = true ∧ crates.digests.validate key = true ∧
        key.algorithm = "blake3" ∧ key.size.toNat < 2 ^ 63 ∧
        expectedEtag.all textParameter = true ∧ textParameter etag = true ∧
        (crates.manifestToValue manifest).toOption.all jsonParameter = true

instance : (op : MetadataOp) → Decidable (Storable crates op)
  | .visibleBlobs _ _ | .touchBlobs _ _ | .getBatch _ _ | .blobVisible _ _ | .get _ _
  | .getManifest _ _ | .registerBlob _ _ _ | .commit _ _ _ | .commitManifest _ _ _ _ _ =>
      inferInstanceAs (Decidable (_ ∧ _))

theorem textParameter_of_lowerHex {text : String} (h : LowerHex text) :
    textParameter text = true := by
  have hnot : '\x00' ∉ text.toList := by
    intro hmem
    have hlower := h '\x00' hmem
    revert hlower
    decide
  simpa [textParameter] using hnot

theorem textParameter_algorithm {digest : Digest} (h : digest.WellFormed) :
    textParameter digest.algorithm = true := by
  obtain ⟨algorithm, halgorithm⟩ := h.algorithm
  rw [halgorithm]
  cases algorithm <;> decide

theorem rowKey_accepted (hrules : crates.digests.Documented) {ns : String} {digest : Digest}
    (hns : textParameter ns = true) (hvalid : crates.digests.validate digest = true) :
    (rowKey ns digest).accepted = true := by
  have hwf := (hrules.validate_iff digest).mp hvalid
  rw [RowKey.accepted]
  simp only [rowKey, hns, textParameter_algorithm hwf, textParameter_of_lowerHex hwf.hash_lower,
    Bool.and_self]

theorem rowKey_checked (hrules : crates.digests.Documented) {ns : String} {digest : Digest}
    (hvalid : crates.digests.validate digest = true) (hsize : digest.size.toNat < 2 ^ 63) :
    (rowKey ns digest).Checked := by
  have hwf := (hrules.validate_iff digest).mp hvalid
  refine ⟨?_, asI64_nonneg.mpr hsize⟩
  obtain ⟨algorithm, halgorithm⟩ := hwf.algorithm
  cases algorithm with
  | blake3 => exact .inl halgorithm
  | sha256 => exact .inr halgorithm

theorem columns_accepted (hrules : crates.digests.Documented) {digests : List Digest}
    (hvalid : ∀ digest ∈ digests, crates.digests.validate digest = true) :
    ((representableDigests digests).map columns).all Columns.accepted = true := by
  rw [List.all_map, List.all_eq_true]
  intro entry hmem
  have hwf := (hrules.validate_iff entry.1).mp
    (hvalid entry.1 (mem_representableDigests.mp hmem).1)
  simp only [Function.comp_apply, Columns.accepted, columns, textParameter_algorithm hwf,
    textParameter_of_lowerHex hwf.hash_lower, Bool.and_self]

/-! ## Writes -/

theorem Holds.touch (h : Holds crates db view) (now : ℕ) (ns : String)
    (requested : List Columns) : Holds crates (db.touchBlobs now ns requested).2 view where
  visible ns' digest := by
    rw [← h.visible, Database.touchBlobs, Table.find_updateWhere, Option.isSome_map]
  result := h.result
  manifest := h.manifest

theorem Holds.upsert (h : Holds crates db view) (now : ℕ) {ns : String} {digest : Digest}
    (created : Bool) (hcheck : (rowKey ns digest).Checked) :
    Holds crates (db.upsertBlob now (rowKey ns digest) created hcheck)
      { view with visible := insert (ns, digest) view.visible } where
  visible ns' digest' := by
    show (Table.find (db.namespaceBlobs.upsert _ _ _ _) _).isSome = true ↔ _
    rw [Table.find_upsert, Set.mem_insert_iff, Prod.mk.injEq]
    by_cases heq : ns' = ns ∧ digest' = digest
    · rw [if_pos (rowKey_inj.mpr heq)]
      simp [heq]
    · rw [if_neg (mt rowKey_inj.mp heq), h.visible]
      simp [heq]
  result := h.result
  manifest := h.manifest

/-- A result that was inserted is stored. -/
theorem Holds.insertResult (h : Holds crates db view) {ns : String} {action : Digest}
    {result : ActionResult} {value : Json} (hvalue : crates.resultToValue result = .ok value)
    (hcheck : (rowKey ns action).Checked)
    (hnone : db.actionResults.find (rowKey ns action) = none) :
    Holds crates
      { db with
        actionResults := (db.actionResults.insertNew (rowKey ns action) value hcheck).2 }
      { view with result := Function.update view.result (ns, action) (some result) } where
  visible := h.visible
  result ns' action' := by
    dsimp only
    rw [(Table.insertNew_of_none hnone).2]
    by_cases heq : ns' = ns ∧ action' = action
    · obtain ⟨rfl, rfl⟩ := heq
      rw [if_pos rfl, Function.update_self]
      exact hvalue
    · rw [if_neg (mt rowKey_inj.mp heq), Function.update_of_ne (by simpa using heq)]
      exact h.result ns' action'
  manifest := h.manifest

/-- An update that matched no row changed no row. -/
theorem Holds.keepManifests (h : Holds crates db view)
    {actionManifests : Table RowKey ManifestRow RowKey.ManifestChecked}
    (hfind : ∀ other, actionManifests.find other = db.actionManifests.find other) :
    Holds crates { db with actionManifests } view where
  visible := h.visible
  result := h.result
  manifest ns key := by
    dsimp only
    rw [hfind]
    exact h.manifest ns key

/-- Whatever table a row was written to, what it holds under a key is what the
contents hold there. -/
theorem Holds.writeManifest (h : Holds crates db view) {ns : String} {key : Digest}
    (record : ManifestRecord) (row : ManifestRow)
    {actionManifests : Table RowKey ManifestRow RowKey.ManifestChecked}
    (hetag : row.etag = record.etag)
    (hvalue : crates.manifestToValue record.manifest = .ok row.manifest)
    (hfind : ∀ other, actionManifests.find other =
      if other = rowKey ns key then some row else db.actionManifests.find other) :
    Holds crates { db with actionManifests }
      { view with manifest := Function.update view.manifest (ns, key) (some record) } where
  visible := h.visible
  result := h.result
  manifest ns' key' := by
    dsimp only
    rw [hfind]
    by_cases heq : ns' = ns ∧ key' = key
    · obtain ⟨rfl, rfl⟩ := heq
      rw [if_pos rfl, Function.update_self]
      exact ⟨hetag, hvalue⟩
    · rw [if_neg (mt rowKey_inj.mp heq), Function.update_of_ne (by simpa using heq)]
      exact h.manifest ns' key'

/-! ## Calls -/

theorem run_send {α : Type} {now : ℕ} {statement : Statement} {value : statement.Value}
    {after : Database} {next : statement.Value → Query α} (haccepted : statement.accepted = true)
    (hperform : db.perform now statement = (.ok value, after)) :
    run (Database.execute now) (send statement >>= next) db =
      run (Database.execute now) (next value) after := by
  apply run_bind_ok
  show (Database.execute now statement db) = _
  rw [Database.execute_of_accepted haccepted, hperform]

theorem run_send_refused {α : Type} {now : ℕ} {statement : Statement} {error : String}
    {next : statement.Value → Query α}
    (hperform : db.execute now statement = (.error error, db)) :
    run (Database.execute now) (send statement >>= next) db = (.error error, db) :=
  run_bind_error _ hperform

theorem execute_of_not_accepted (now : ℕ) (db : Database) {statement : Statement}
    (h : ¬ statement.accepted = true) :
    ∃ error, db.execute now statement = (.error error, db) :=
  ⟨_, by rw [Database.execute, if_neg h]⟩

/-- The call is answered as the contents answer it. -/
def Follows (crates : Crates) (now : ℕ) (op : MetadataOp) (db : Database)
    (view : MetadataView) : Prop :=
  (exec crates now op db).1 = .ok (view.perform op).1 ∧
    Holds crates (exec crates now op db).2 (view.perform op).2

/-- The database refused the call, which no database could have taken. -/
def Refused (crates : Crates) (now : ℕ) (op : MetadataOp) (db : Database) : Prop :=
  ¬ Storable crates op ∧ ∃ error, exec crates now op db = (.error error, db)

section Call

open Classical in
/-- The ordinalities that come back are those of the visible digests. -/
theorem Holds.selectVisible (h : Holds crates db view) (ns : String) (digests : List Digest) :
    db.selectVisible ns ((representableDigests digests).map columns) =
      ((unnest (representableDigests digests)).filter fun row =>
        decide ((ns, row.1.1) ∈ view.visible)).map fun row => (row.2 : ℤ) := by
  rw [Database.selectVisible_eq, unnest, List.zipIdx_map, List.filter_map, List.map_map]
  have hsame : (unnest (representableDigests digests)).filter
      ((fun row => (db.namespaceBlobs.find (row.1.at ns)).isSome) ∘ Prod.map columns id) =
      (unnest (representableDigests digests)).filter fun row =>
        decide ((ns, row.1.1) ∈ view.visible) := by
    apply List.filter_congr
    intro row hmem
    have hentry : row.1 ∈ representableDigests digests := List.fst_mem_of_mem_zipIdx hmem
    rw [Bool.eq_iff_iff, decide_eq_true_eq, Function.comp_apply, Prod.map_fst,
      columns_at hentry ns]
    exact h.visible ns row.1.1
  exact congrArg _ hsame

theorem Holds.selectResults (htrips : crates.RoundTrips) (h : Holds crates db view)
    (ns : String) (actions : List Digest) :
    ((representableDigests actions).map fun entry =>
        db.actionResults.find ((columns entry).at ns)).mapM (decodeResult crates) =
      .ok ((representableDigests actions).map fun entry => view.result (ns, entry.1)) := by
  rw [List.mapM_map]
  apply mapM_ok
  intro entry hmem
  rw [Function.comp_apply, columns_at hmem ns, h.find_result htrips]

theorem Holds.run_get {now : ℕ} (htrips : crates.RoundTrips) (h : Holds crates db view) {ns : String}
    {action : Digest} (haccepted : (rowKey ns action).accepted = true) :
    run (Database.execute now) (get crates ns action) db =
      (.ok (view.result (ns, action)), db) := by
  have hselect : (Statement.selectResult (rowKey ns action)).accepted = true := haccepted
  rw [get, run_send hselect rfl, h.find_result htrips]
  rfl

/-- Two results are one exactly when the documents they serialize to are. -/
theorem encoded_inj (htrips : crates.RoundTrips) {first second : ActionResult} {value value' : Json}
    (hfirst : crates.resultToValue first = .ok value)
    (hsecond : crates.resultToValue second = .ok value') : value = value' ↔ first = second := by
  obtain ⟨_, hto, hfrom⟩ := htrips.result_value first
  obtain ⟨_, hto', hfrom'⟩ := htrips.result_value second
  rw [hfirst] at hto
  rw [hsecond] at hto'
  obtain rfl := Except.ok.inj hto
  obtain rfl := Except.ok.inj hto'
  constructor
  · rintro rfl
    rw [hfrom] at hfrom'
    exact Except.ok.inj hfrom'
  · rintro rfl
    rw [hfirst] at hsecond
    exact Except.ok.inj hsecond

/-- The row that kept the insertion out is still there, so its comparison decides. -/
theorem Holds.run_compareExisting {now : ℕ} (htrips : crates.RoundTrips) (h : Holds crates db view) {ns : String} {action : Digest}
    {existing result : ActionResult} {encoded : Json}
    (hresult : view.result (ns, action) = some existing)
    (hencoded : crates.resultToValue result = .ok encoded)
    (haccepted : (rowKey ns action).accepted = true) :
    run (Database.execute now) (compareExisting crates ns action encoded) db =
      (.ok (view.commit (ns, action) result).1, db) := by
  obtain ⟨value, hvalue, _⟩ := htrips.result_value existing
  rw [compareExisting, run_bind_ok _ (h.run_get htrips haccepted), hresult]
  show run (Database.execute now) (Program.done (crates.resultToValue existing) >>= _) db = _
  rw [hvalue, MetadataView.commit_of_some hresult]
  have hsame := encoded_inj htrips hvalue hencoded
  by_cases heq : existing = result
  · simp only [ok_bind, pure_eq, run_done, if_pos heq, if_pos (hsame.mpr heq)]
  · simp only [ok_bind, pure_eq, run_done, if_neg heq, if_neg (mt hsame.mp heq)]

variable (now : ℕ) (hrules : crates.digests.Documented)
include hrules

theorem Holds.run_visibleBlobs (h : Holds crates db view) (ns : String)
    (digests : List Digest) :
    run (Database.execute now) (visibleBlobs ns digests) db =
        (.ok (view.perform (.visibleBlobs ns digests)).1, db) ∨
      (¬ Storable crates (.visibleBlobs ns digests) ∧
        ∃ error, run (Database.execute now) (visibleBlobs ns digests) db = (.error error, db)) := by
  classical
  have hfilter := filter_representableDigests
    (fun digest hsize => decide_eq_false (h.not_visible hsize : (ns, digest) ∉ view.visible))
    digests
  unfold visibleBlobs
  dsimp only
  by_cases hempty : (representableDigests digests).isEmpty = true
  · left
    rw [if_pos hempty]
    rw [List.isEmpty_iff.mp hempty] at hfilter
    simp only [MetadataView.perform, ← hfilter]
    rfl
  · rw [if_neg hempty]
    by_cases haccepted :
        (Statement.selectVisible ns ((representableDigests digests).map columns)).accepted = true
    · left
      have hread := mapM_requestedAt (representableDigests digests)
        fun entry => decide ((ns, entry.1) ∈ view.visible)
      rw [hfilter] at hread
      rw [run_send haccepted rfl, h.selectVisible, hread]
      simp only [MetadataView.perform]
      rfl
    · right
      obtain ⟨error, herror⟩ := execute_of_not_accepted now db haccepted
      refine ⟨?_, error, run_send_refused herror⟩
      rintro ⟨hns, hvalid⟩
      apply haccepted
      rw [Statement.accepted, hns, columns_accepted hrules hvalid]
      rfl

theorem Holds.exec_blobVisible (h : Holds crates db view) (ns : String) (digest : Digest) :
    Follows crates now (.blobVisible ns digest) db view ∨
      Refused crates now (.blobVisible ns digest) db := by
  rcases h.run_visibleBlobs now hrules ns [digest] with hrun | ⟨hnot, error, hrun⟩
  · left
    have hexec : exec crates now (.blobVisible ns digest) db =
        (.ok (!(view.perform (.visibleBlobs ns [digest])).1.isEmpty), db) := by
      rw [exec, method, blobVisible, run_bind_ok _ hrun]
      rfl
    rw [Follows, hexec]
    refine ⟨congrArg Except.ok ?_, h⟩
    by_cases hvisible : (ns, digest) ∈ view.visible <;> simp [MetadataView.perform, hvisible]
  · refine .inr ⟨fun hstorable => hnot ⟨hstorable.1, ?_⟩, error, ?_⟩
    · intro other hmem
      rw [List.mem_singleton.mp hmem]
      exact hstorable.2
    · rw [exec, method, blobVisible, run_bind_error _ hrun]

theorem Holds.exec_touchBlobs (h : Holds crates db view) (ns : String) (digests : List Digest) :
    Follows crates now (.touchBlobs ns digests) db view ∨
      Refused crates now (.touchBlobs ns digests) db := by
  rw [Follows, Refused, exec, method, touchBlobs]
  by_cases hempty : (representableDigests digests).isEmpty = true
  · rw [if_pos hempty]
    exact .inl ⟨rfl, h⟩
  · rw [if_neg hempty]
    by_cases haccepted :
        (Statement.touchBlobs ns ((representableDigests digests).map columns)).accepted = true
    · left
      rw [run_send haccepted rfl]
      exact ⟨rfl, h.touch now ns _⟩
    · right
      obtain ⟨error, herror⟩ := execute_of_not_accepted now db haccepted
      refine ⟨?_, error, run_send_refused herror⟩
      rintro ⟨hns, hvalid⟩
      apply haccepted
      rw [Statement.accepted, hns, columns_accepted hrules hvalid]
      rfl

theorem Holds.exec_registerBlob (h : Holds crates db view) (ns : String) (digest : Digest)
    (stored : PutOutcome) :
    Follows crates now (.registerBlob ns digest stored) db view ∨
      Refused crates now (.registerBlob ns digest stored) db := by
  rw [Follows, Refused, exec, method, registerBlob]
  by_cases haccepted :
      (Statement.upsertBlob (rowKey ns digest) (stored == .created)).accepted = true
  · by_cases hcheck : (rowKey ns digest).Checked
    · left
      rw [run_send haccepted (dif_pos hcheck)]
      exact ⟨rfl, h.upsert now _ hcheck⟩
    · right
      refine ⟨?_, Database.violated, ?_⟩
      · rintro ⟨_, hvalid, hsize⟩
        exact hcheck (rowKey_checked hrules hvalid hsize)
      · apply run_send_refused
        rw [Database.execute_of_accepted haccepted]
        exact dif_neg hcheck
  · right
    obtain ⟨error, herror⟩ := execute_of_not_accepted now db haccepted
    refine ⟨?_, error, run_send_refused herror⟩
    rintro ⟨hns, hvalid, _⟩
    exact haccepted (rowKey_accepted hrules hns hvalid)

variable (htrips : crates.RoundTrips)
include htrips

theorem Holds.exec_getBatch (h : Holds crates db view) (ns : String) (actions : List Digest) :
    Follows crates now (.getBatch ns actions) db view ∨
      Refused crates now (.getBatch ns actions) db := by
  have hfilter := filterMap_representableDigests
    (f := fun action => view.result (ns, action)) (fun _ hsize => h.result_eq_none hsize) actions
  rw [Follows, Refused, exec, method, getBatch]
  by_cases hempty : (representableDigests actions).isEmpty = true
  · left
    rw [if_pos hempty]
    rw [List.isEmpty_iff.mp hempty] at hfilter
    exact ⟨congrArg Except.ok hfilter, h⟩
  · rw [if_neg hempty]
    by_cases haccepted :
        (Statement.selectResults ns ((representableDigests actions).map columns)).accepted = true
    · left
      have hperform : db.perform now (.selectResults ns ((representableDigests actions).map
          columns)) = (.ok ((representableDigests actions).map fun entry =>
            db.actionResults.find ((columns entry).at ns)), db) := by
        rw [Database.perform, Database.selectResults_eq, List.map_map]
        rfl
      rw [run_send haccepted hperform, h.selectResults htrips]
      refine ⟨congrArg Except.ok ?_, h⟩
      rw [MetadataView.perform, ← hfilter, reduceOption_map]
    · right
      obtain ⟨error, herror⟩ := execute_of_not_accepted now db haccepted
      refine ⟨?_, error, run_send_refused herror⟩
      rintro ⟨hns, hvalid⟩
      apply haccepted
      rw [Statement.accepted, hns, columns_accepted hrules hvalid]
      rfl

omit htrips in
/-- The insertion of a result goes through, is kept out by a row, or is refused. -/
theorem Holds.insertResult_cases (h : Holds crates db view) (ns : String) (action : Digest)
    {result : ActionResult} {encoded : Json} (hencoded : crates.resultToValue result = .ok encoded) :
    (view.result (ns, action) = none ∧ ∃ later,
        db.execute now (.insertResult (rowKey ns action) encoded) = (.ok 1, later) ∧
          Holds crates later (view.commit (ns, action) result).2 ∧
          ∀ key value, db.actionResults.find key = some value →
            later.actionResults.find key = some value) ∨
      (∃ existing, view.result (ns, action) = some existing ∧
        (rowKey ns action).accepted = true ∧
        db.execute now (.insertResult (rowKey ns action) encoded) = (.ok 0, db)) ∨
      (¬ Storable crates (.commit ns action result) ∧ ∃ error,
        db.execute now (.insertResult (rowKey ns action) encoded) = (.error error, db)) := by
  by_cases haccepted : (Statement.insertResult (rowKey ns action) encoded).accepted = true
  · rw [Database.execute_of_accepted haccepted]
    by_cases hcheck : (rowKey ns action).Checked
    · cases hresult : view.result (ns, action) with
      | none =>
          left
          have hfind := h.find_eq_none.mpr hresult
          refine ⟨rfl, _, Database.perform_insertResult_of_none hcheck hfind, ?_, ?_⟩
          · rw [MetadataView.commit_of_none hresult]
            exact h.insertResult hencoded hcheck hfind
          · intro key value hvalue
            have hne : key ≠ rowKey ns action := by
              rintro rfl
              rw [hfind] at hvalue
              cases hvalue
            dsimp only
            rw [(Table.insertNew_of_none hfind).2, if_neg hne]
            exact hvalue
      | some existing =>
          right
          left
          obtain ⟨value, hfind⟩ := h.find_eq_some hresult
          rw [Statement.accepted, Bool.and_eq_true] at haccepted
          exact ⟨existing, rfl, haccepted.1, Database.perform_insertResult_of_some hcheck hfind⟩
    · right
      right
      refine ⟨?_, Database.violated, dif_neg hcheck⟩
      rintro ⟨_, hvalid, hsize, _⟩
      exact hcheck (rowKey_checked hrules hvalid hsize)
  · right
    right
    obtain ⟨error, herror⟩ := execute_of_not_accepted now db haccepted
    refine ⟨?_, error, herror⟩
    rintro ⟨hns, hvalid, _, hjson⟩
    rw [hencoded] at hjson
    apply haccepted
    rw [Statement.accepted, rowKey_accepted hrules hns hvalid]
    exact hjson

theorem Holds.exec_commit (h : Holds crates db view) (ns : String) (action : Digest)
    (result : ActionResult) :
    Follows crates now (.commit ns action result) db view ∨
      Refused crates now (.commit ns action result) db := by
  obtain ⟨encoded, hencoded, _⟩ := htrips.result_value result
  have hrun : exec crates now (.commit ns action result) db =
      run (Database.execute now) (send (.insertResult (rowKey ns action) encoded) >>=
        fun inserted => if inserted = 1 then pure .created
          else compareExisting crates ns action encoded) db := by
    rw [exec, method, commit, hencoded]
    rfl
  rw [Follows, Refused, hrun, MetadataView.perform]
  rcases h.insertResult_cases now hrules ns action hencoded with
    ⟨hnone, later, hinsert, hlater, _⟩ | ⟨existing, hsome, hkey, hinsert⟩ |
      ⟨hnot, error, hinsert⟩
  · left
    rw [run_bind_ok (Database.execute now) (show run _ (send _) db = (.ok 1, later) from hinsert)]
    refine ⟨?_, hlater⟩
    rw [MetadataView.commit_of_none hnone]
    rfl
  · left
    rw [run_bind_ok (Database.execute now) (show run _ (send _) db = (.ok 0, db) from hinsert),
      if_neg Nat.zero_ne_one, h.run_compareExisting htrips hsome hencoded hkey]
    refine ⟨rfl, ?_⟩
    rw [MetadataView.commit_of_some hsome]
    exact h
  · exact .inr ⟨hnot, error, run_send_refused hinsert⟩

theorem Holds.exec_get (h : Holds crates db view) (ns : String) (action : Digest) :
    Follows crates now (.get ns action) db view ∨ Refused crates now (.get ns action) db := by
  rw [Follows, Refused, exec, method]
  by_cases haccepted : (rowKey ns action).accepted = true
  · left
    rw [h.run_get htrips haccepted]
    exact ⟨rfl, h⟩
  · right
    obtain ⟨error, herror⟩ := execute_of_not_accepted now db
      (show ¬ (Statement.selectResult (rowKey ns action)).accepted = true from haccepted)
    refine ⟨?_, error, run_send_refused herror⟩
    rintro ⟨hns, hvalid⟩
    exact haccepted (rowKey_accepted hrules hns hvalid)

theorem Holds.exec_getManifest (h : Holds crates db view) (ns : String) (key : Digest) :
    Follows crates now (.getManifest ns key) db view ∨
      Refused crates now (.getManifest ns key) db := by
  rw [Follows, Refused, exec, method, getManifest]
  by_cases haccepted : (Statement.selectManifest (rowKey ns key)).accepted = true
  · left
    rw [run_send haccepted rfl, h.find_manifest htrips]
    exact ⟨rfl, h⟩
  · right
    obtain ⟨error, herror⟩ := execute_of_not_accepted now db haccepted
    refine ⟨?_, error, run_send_refused herror⟩
    rintro ⟨hns, hvalid⟩
    exact haccepted (rowKey_accepted hrules hns hvalid)

/-- A write without an expected entity tag inserts. -/
theorem Holds.exec_createManifest (h : Holds crates db view) (ns : String) (key : Digest)
    (etag : String) (manifest : TaskActionManifest) :
    Follows crates now (.commitManifest ns key none etag manifest) db view ∨
      Refused crates now (.commitManifest ns key none etag manifest) db := by
  obtain ⟨encoded, hencoded, _⟩ := htrips.manifest_value manifest
  have hrun : exec crates now (.commitManifest ns key none etag manifest) db =
      run (Database.execute now) (send (.insertManifest (rowKey ns key) etag encoded) >>=
        fun rows => pure (if rows = 0 then .preconditionFailed else .created)) db := by
    rw [exec, method, commitManifest, hencoded]
    rfl
  rw [Follows, Refused, hrun]
  by_cases haccepted : (Statement.insertManifest (rowKey ns key) etag encoded).accepted = true
  · by_cases hcheck : (rowKey ns key).ManifestChecked
    · left
      rw [MetadataView.perform]
      cases hmanifest : view.manifest (ns, key) with
      | none =>
          have hfind := h.manifest_eq_none.mpr hmanifest
          have hexpects : view.expects (ns, key) none := by rw [MetadataView.expects, hmanifest]; rfl
          rw [run_send haccepted (Database.perform_insertManifest_of_none hcheck hfind),
            MetadataView.commitManifest_of_expects hexpects]
          exact ⟨rfl, h.writeManifest { etag, manifest } ⟨etag, encoded, now⟩ rfl hencoded
             (Table.insertNew_of_none hfind).2⟩
      | some record =>
          obtain ⟨row, hfind⟩ := h.manifest_eq_some hmanifest
          have hexpects : ¬ view.expects (ns, key) none := by
            rw [MetadataView.expects, hmanifest]
            simp
          rw [run_send haccepted (Database.perform_insertManifest_of_some hcheck hfind.1),
            MetadataView.commitManifest_of_not_expects hexpects]
          exact ⟨rfl, h⟩
    · right
      refine ⟨?_, Database.violated, ?_⟩
      · rintro ⟨_, hvalid, halgorithm, hsize, _⟩
        exact hcheck ⟨halgorithm, (rowKey_checked hrules hvalid hsize).2⟩
      · apply run_send_refused
        rw [Database.execute_of_accepted haccepted]
        exact dif_neg hcheck
  · right
    obtain ⟨error, herror⟩ := execute_of_not_accepted now db haccepted
    refine ⟨?_, error, run_send_refused herror⟩
    rintro ⟨hns, hvalid, _, _, _, hetag, hjson⟩
    rw [hencoded] at hjson
    apply haccepted
    rw [Statement.accepted, rowKey_accepted hrules hns hvalid, hetag]
    exact hjson

/-- A write with an expected entity tag updates the row that has it. -/
theorem Holds.exec_updateManifest (h : Holds crates db view) (ns : String) (key : Digest)
    (expected etag : String) (manifest : TaskActionManifest) :
    Follows crates now (.commitManifest ns key (some expected) etag manifest) db view ∨
      Refused crates now (.commitManifest ns key (some expected) etag manifest) db := by
  obtain ⟨encoded, hencoded, _⟩ := htrips.manifest_value manifest
  have hrun : exec crates now (.commitManifest ns key (some expected) etag manifest) db =
      run (Database.execute now) (send (.updateManifest (rowKey ns key) etag encoded expected) >>=
        fun rows => pure (if rows = 0 then .preconditionFailed else .updated)) db := by
    rw [exec, method, commitManifest, hencoded]
    rfl
  rw [Follows, Refused, hrun]
  by_cases haccepted :
      (Statement.updateManifest (rowKey ns key) etag encoded expected).accepted = true
  · left
    rw [run_send haccepted rfl, MetadataView.perform, Database.updateManifest_affected]
    by_cases hexpects : view.expects (ns, key) (some expected)
    · have hany := h.expects_some.mp hexpects
      rw [MetadataView.commitManifest_of_expects hexpects, if_pos hany]
      refine ⟨rfl, h.writeManifest { etag, manifest } ⟨etag, encoded, now⟩ rfl hencoded
        fun other => (Database.find_updateManifest _ other etag encoded expected).trans ?_⟩
      simp only [hany, and_true]
    · have hany := mt h.expects_some.mpr hexpects
      rw [MetadataView.commitManifest_of_not_expects hexpects, if_neg hany]
      refine ⟨rfl, h.keepManifests fun other => ?_⟩
      apply (Database.find_updateManifest _ other etag encoded expected).trans
      exact if_neg fun hupdated => hany hupdated.2
  · right
    obtain ⟨error, herror⟩ := execute_of_not_accepted now db haccepted
    refine ⟨?_, error, run_send_refused herror⟩
    rintro ⟨hns, hvalid, _, _, hexpected, hetag, hjson⟩
    rw [hencoded] at hjson
    have hjson : jsonParameter encoded = true := hjson
    apply haccepted
    rw [Statement.accepted, rowKey_accepted hrules hns hvalid, hetag, hjson]
    exact hexpected

/-- One call, whichever it is. -/
theorem Holds.exec (h : Holds crates db view) (op : MetadataOp) :
    Follows crates now op db view ∨ Refused crates now op db := by
  cases op with
  | visibleBlobs ns digests =>
      rcases h.run_visibleBlobs now hrules ns digests with hrun | hrefused
      · left
        rw [Follows, PostgresMetadata.exec, method, hrun]
        exact ⟨rfl, h⟩
      · exact .inr hrefused
  | blobVisible ns digest => exact h.exec_blobVisible now hrules ns digest
  | registerBlob ns digest stored => exact h.exec_registerBlob now hrules ns digest stored
  | touchBlobs ns digests => exact h.exec_touchBlobs now hrules ns digests
  | get ns action => exact h.exec_get now hrules htrips ns action
  | getBatch ns actions => exact h.exec_getBatch now hrules htrips ns actions
  | commit ns action result => exact h.exec_commit now hrules htrips ns action result
  | getManifest ns key => exact h.exec_getManifest now hrules htrips ns key
  | commitManifest ns key expectedEtag etag manifest =>
      cases expectedEtag with
      | none => exact h.exec_createManifest now hrules htrips ns key etag manifest
      | some expected =>
          exact h.exec_updateManifest now hrules htrips ns key expected etag manifest

end Call

/-- The Postgres store never does anything but what its contents do. -/
theorem meetsSpec (hrules : crates.digests.Documented) (htrips : crates.RoundTrips) (now : ℕ) :
    MeetsSpec (PostgresMetadata.exec crates now) (Holds crates) := by
  intro op db view h
  rcases h.exec now hrules htrips op with hfollows | ⟨_, hrefused⟩
  · exact .inr hfollows
  · exact .inl hrefused

/-! ## Both stores -/

/-- Two stores with the same contents. -/
def SameContents (crates : Crates) (db : Database) (store : MemoryMetadata) : Prop :=
  ∃ view, Holds crates db view ∧ MemoryMetadata.Holds crates store view

/-- The simulation: calls are made at any time, which only the Postgres store
can tell. -/
theorem answersAlike (hrules : crates.digests.Documented) (htrips : crates.RoundTrips) :
    AnswersAlike (fun call : ℕ × MetadataOp => PostgresMetadata.exec crates call.1 call.2)
      (fun call => MemoryMetadata.exec crates call.2) (fun call => Storable crates call.2)
      (SameContents crates) := by
  rintro ⟨now, op⟩ db store hstorable ⟨view, hdb, hstore⟩
  obtain ⟨hanswer, hafter⟩ := hstore.exec htrips op
  rcases hdb.exec now hrules htrips op with ⟨hanswer', hafter'⟩ | ⟨hnot, _⟩
  · exact ⟨hanswer'.trans hanswer.symm, _, hafter', hafter⟩
  · exact absurd hstorable hnot

/-- The two stores give the same answers to every sequence of calls. -/
theorem transcript_eq_memory (hrules : crates.digests.Documented) (htrips : crates.RoundTrips)
    (calls : List (ℕ × MetadataOp)) (hstorable : ∀ call ∈ calls, Storable crates call.2) :
    transcript (fun call : ℕ × MetadataOp => PostgresMetadata.exec crates call.1 call.2) calls
        Database.empty =
      transcript (fun call => MemoryMetadata.exec crates call.2) calls MemoryMetadata.empty :=
  (answersAlike hrules htrips).transcript_eq calls hstorable
    ⟨_, holds_empty, MemoryMetadata.holds_empty⟩

/-- Calls with a digest no database can hold, a digest asked for twice, a commit
repeated and contradicted, and a manifest written over a stale one. -/
def sampleCalls : List (ℕ × MetadataOp) :=
  let huge : Digest := { Sample.emptyDigest with size := 2 ^ 63 }
  let asked := [huge, Sample.taskActionDigest, Sample.emptyDigest, Sample.taskActionDigest]
  let written := Sample.manifest [Sample.taskActionDigest]
  let key := Sample.selectorDigest written
  [(0, .visibleBlobs "acme" asked),
    (1, .registerBlob "acme" Sample.taskActionDigest .created),
    (1, .visibleBlobs "acme" asked),
    (2, .blobVisible "acme" huge),
    (3, .commit "acme" Sample.taskActionDigest Sample.taskResult),
    (3, .commit "acme" Sample.taskActionDigest Sample.taskResult),
    (4, .commit "acme" Sample.taskActionDigest Sample.bareResult),
    (4, .getBatch "acme" asked),
    (5, .get "other" Sample.taskActionDigest),
    (6, .commitManifest "acme" key none "first" written),
    (7, .commitManifest "acme" key none "second" written),
    (8, .commitManifest "acme" key (some "first") "second" written),
    (8, .commitManifest "acme" key (some "first") "third" written),
    (9, .getManifest "acme" key)]

theorem transcript_eq_memory_sample :
    transcript (fun call : ℕ × MetadataOp =>
        PostgresMetadata.exec Sample.crates call.1 call.2) sampleCalls Database.empty =
      transcript (fun call => MemoryMetadata.exec Sample.crates call.2) sampleCalls
        MemoryMetadata.empty :=
  transcript_eq_memory Sample.documented Sample.roundTrips sampleCalls (by decide +kernel)

end

end PostgresMetadata

end MbxCache
