/-
# Canonical JSON

Objects the service reads back are compared with the bytes their parsed value prints
as; manifests are served, and clients take their digests, over the canonical form of
the protocol crate. Both are compact, and they differ in the order of an object's
members: a parsed object keeps them by the UTF-8 bytes of their names, the canonical
form by their UTF-16 code units. The two orders part ways on characters beyond the
basic plane, and there the canonical form is refused and another text accepted.
-/

import MbxCache.Foundation.JsonOrder
import MbxCache.Foundation.JsonText
import MbxCache.Sample
import MbxCache.Server.Results

namespace MbxCache.Server

open Foundation Program

/-! ## Printed documents -/

/-- The bytes of a name, by which a sorted map compares it. -/
def utf8Units (name : String) : List ℕ := (utf8Bytes name).map UInt8.toNat

/-- The UTF-16 code units of a name; beyond the basic plane they are a surrogate pair. -/
def utf16Units (name : String) : List ℕ :=
  name.toList.flatMap fun c =>
    if c.toNat < 0x10000 then [c.toNat]
    else [0xD800 + (c.toNat - 0x10000) / 0x400, 0xDC00 + (c.toNat - 0x10000) % 0x400]

theorem utf8Units_injective : Function.Injective utf8Units := by
  intro first second h
  exact utf8Bytes_injective (List.map_injective_iff.mpr (fun _ _ => UInt8.toNat_inj.mp) h)

/-- `serde_json::to_vec` of a value: its members in the order the value has them. -/
def compactJson (value : Json) : Bytes := utf8Bytes (String.ofList (JsonText.spell value))

/-- `canonical_json`: the members of every object by the code units of their names. -/
def canonicalJson (value : Json) : Bytes := compactJson (value.reorder utf16Units)

theorem compactJson_injective {first second : Json} (hfirst : first.Everywhere JsonText.Numbers)
    (hsecond : second.Everywhere JsonText.Numbers) (h : compactJson first = compactJson second) :
    first = second := by
  apply JsonText.spell_injective hfirst hsecond
  rw [← String.toList_ofList (l := JsonText.spell first), utf8Bytes_injective h,
    String.toList_ofList]

theorem numbers_reorder {value : Json} (h : value.Everywhere JsonText.Numbers) :
    (value.reorder utf16Units).Everywhere JsonText.Numbers := by
  have hstep : ∀ value : Json, JsonText.Numbers value →
      JsonText.Numbers (value.reorder utf16Units) := by
    intro value hvalue n heq
    cases value with
    | number m => exact hvalue n heq
    | array items =>
        rw [Json.reorder_array] at heq
        cases heq
    | object members =>
        rw [Json.reorder_object] at heq
        cases heq
    | null | bool _ | string _ => cases heq
  exact Json.everywhere_reorder utf16Units hstep h

/-- The serializer on documents whose numbers are integers: what it prints, and that it
reads such a text, its members in any order, as the value that keeps them sorted. It
gives up on documents nested deeper than 127 levels. -/
structure SerdeJson (crates : Crates) : Prop where
  print : ∀ value, value.Everywhere JsonText.Numbers →
    crates.jsonToVec value = .ok (compactJson value)
  parse : ∀ value, value.Everywhere JsonText.Numbers → value.Everywhere Json.Distinct →
    value.NestedWithin 127 →
      crates.jsonFromSlice (compactJson value) = .ok (value.reorder utf8Units)

/-- An integer a float holds exactly. -/
def SafeInteger : JsonNumber → Prop
  | .posInt value => value.toNat ≤ 2 ^ 53
  | .negInt value => -2 ^ 53 ≤ value ∧ value < 0
  | .float _ => False

/-- An object as the parser leaves it, within the bounds of the service and with no
number that printers may treat differently. -/
structure Document (value : Json) : Prop where
  object : value.asObject.isSome = true
  sorted : value.Everywhere fun part => part.names.Pairwise fun first second =>
    utf8Units first < utf8Units second
  numbers : value.Everywhere fun part => ∀ n, part = .number n → SafeInteger n
  nested : value.NestedWithin 100
  small : (canonicalJson value).length ≤ 16 * 1024 * 1024

/-! ## Stored objects -/

section Stored

variable {S : Type} (crates : Crates) (exec : (op : StoreOp) → S → op.Answer × S) (s : S)

/-- The stores hold these bytes under their digest, and the namespace sees them. -/
structure StoredVisible (ns : String) (digest : Digest) (bytes : Bytes) : Prop where
  valid : crates.digests.validate digest = true
  content : crates.Matches digest bytes
  visible : exec (.metadata (.blobVisible ns digest)) s = (.ok true, s)
  served : ∃ chunks : List Bytes, chunks.flatten = bytes ∧
    exec (.blobs (.get digest)) s =
      (.ok (some { size := bytes.length, stream := chunks.map .ok }), s)

variable {crates exec s}

theorem run_readVisible {ns missing : String} {digest : Digest} {bytes : Bytes}
    (h : StoredVisible crates exec s ns digest bytes) :
    run exec (readVisibleObject ns digest missing) s = (.ok bytes, s) := by
  obtain ⟨chunks, hflatten, hserved⟩ := h.served
  have hvisible : run exec (callMetadata (.blobVisible ns digest)) s = (.ok true, s) := by
    rw [callMetadata, run_call, h.visible]
    rfl
  have hget : run exec (callBlobs (.get digest)) s =
      (.ok (some { size := bytes.length, stream := chunks.map .ok }), s) := by
    rw [callBlobs, run_call, hserved]
    rfl
  unfold readVisibleObject
  rw [run_bind_ok _ hvisible]
  simp only [Bool.not_true, rejectIf, Bool.false_eq_true, if_false, monadLift_eq, ok_bind]
  rw [run_bind_ok _ hget]
  simp only [okOr, ok_bind, readStream_map_ok, hflatten, run_done]

/-- Reading a stored object comes down to the comparison with its printed form. -/
theorem run_readCanonicalObject {ns : String} {digest : Digest} {bytes : Bytes}
    (h : StoredVisible crates exec s ns digest bytes) (label : String)
    (hsmall : bytes.length ≤ 16 * 1024 * 1024) :
    run exec (readCanonicalObject crates ns digest label) s =
      (parseCanonicalObject crates label bytes, s) := by
  have hvalid : validateDigest crates.digests digest = .ok () := validateDigest_eq_ok.mpr h.valid
  have hsize : decide (digest.size > maxObjectBytes) = false := by
    have hlength := h.content.1
    rw [decide_eq_false_iff_not, gt_iff_lt, UInt64.lt_iff_toNat_lt, ← hlength]
    exact not_lt_of_ge hsmall
  unfold readCanonicalObject
  simp only [monadLift_eq, hvalid, ok_bind, hsize, rejectIf, Bool.false_eq_true, if_false]
  rw [run_bind_ok _ (run_readVisible h)]
  rfl

/-- An object beyond the bound is never accepted. -/
theorem small_of_accepted {ns label : String} {digest : Digest} {bytes : Bytes} {value : Json}
    (h : StoredVisible crates exec s ns digest bytes)
    (haccepted : (run exec (readCanonicalObject crates ns digest label) s).1 = .ok value) :
    bytes.length ≤ 16 * 1024 * 1024 := by
  have hvalid : validateDigest crates.digests digest = .ok () := validateDigest_eq_ok.mpr h.valid
  by_contra hlarge
  have hsize : decide (digest.size > maxObjectBytes) = true := by
    have hlength := h.content.1
    rw [decide_eq_true_eq, gt_iff_lt, UInt64.lt_iff_toNat_lt, ← hlength]
    exact not_le.mp hlarge
  unfold readCanonicalObject at haccepted
  simp only [monadLift_eq, hvalid, ok_bind, hsize, rejectIf, if_true, error_bind,
    run_done] at haccepted
  cases haccepted

end Stored

/-! ## The two forms -/

section Forms

variable {crates : Crates} {value : Json}

/-- The canonical form of the protocol crate is what is accepted, and nothing else that
parses as the value. -/
structure FormsAgree (crates : Crates) (value : Json) : Prop where
  accepted : ∀ {S : Type} (exec : (op : StoreOp) → S → op.Answer × S) (s : S) (ns : String)
    (digest : Digest) (label : String),
    StoredVisible crates exec s ns digest (canonicalJson value) →
      run exec (readCanonicalObject crates ns digest label) s = (.ok value, s)
  only : ∀ {S : Type} (exec : (op : StoreOp) → S → op.Answer × S) (s : S) (ns : String)
    (digest : Digest) (label : String) (bytes : Bytes) (found : Json),
    crates.jsonFromSlice bytes = .ok value → StoredVisible crates exec s ns digest bytes →
      (run exec (readCanonicalObject crates ns digest label) s).1 = .ok found →
        bytes = canonicalJson value

theorem Document.integers (h : Document value) : value.Everywhere JsonText.Numbers := by
  intro part hpart n heq
  have hsafe := h.numbers part hpart n heq
  cases n with
  | posInt n => exact trivial
  | negInt n => exact hsafe.2
  | float bits => exact hsafe

theorem Document.distinct (h : Document value) : value.Everywhere Json.Distinct := by
  intro part hpart
  apply (h.sorted part hpart).imp
  rintro first second hlt rfl
  exact lt_irrefl _ hlt

theorem Document.ordered (h : Document value) : value.Everywhere (Json.Ordered utf8Units) := by
  intro part hpart
  apply (h.sorted part hpart).imp
  exact fun hlt => le_of_lt hlt

/-- What is parsed is compared with the text its value prints as. -/
theorem parseCanonicalObject_eq (hserde : SerdeJson crates) (h : Document value) {bytes : Bytes}
    (hparse : crates.jsonFromSlice bytes = .ok value) (label : String) :
    parseCanonicalObject crates label bytes =
      if compactJson value = bytes then .ok value
      else .error (.unprocessable s!"{label} is not canonical JSON") := by
  have hobject : value.asObject.isNone = false := by
    rw [← Option.not_isSome, h.object]
    rfl
  unfold parseCanonicalObject
  rw [hparse]
  show (rejectIf value.asObject.isNone _ >>= fun _ =>
    (crates.jsonToVec value).mapError ApiError.internal >>= fun printed =>
      rejectIf (printed != bytes) _ >>= fun _ => pure value) = _
  rw [hobject, hserde.print value h.integers]
  show (rejectIf (compactJson value != bytes) _ >>= fun _ => pure value) = _
  by_cases heq : compactJson value = bytes
  · rw [if_pos heq, heq, bne_self_eq_false]
    rfl
  · rw [if_neg heq, bne_iff_ne.mpr heq]
    rfl

/-- The canonical form parses as the value, whatever the order of its members. -/
theorem parse_canonicalJson (hserde : SerdeJson crates) (h : Document value) :
    crates.jsonFromSlice (canonicalJson value) = .ok value := by
  have hdistinct : (value.reorder utf16Units).Everywhere Json.Distinct :=
    Json.everywhere_reorder utf16Units (fun _ => Json.distinct_reorder utf16Units) h.distinct
  have hnested : (value.reorder utf16Units).NestedWithin 127 :=
    Json.nestedWithin_reorder utf16Units (h.nested.mono_le (by decide))
  rw [canonicalJson, hserde.parse _ (numbers_reorder h.integers) hdistinct hnested,
    Json.reorder_reorder utf8Units_injective h.ordered h.distinct]

/-- So does the text with the members in the parser's own order. -/
theorem parse_compactJson (hserde : SerdeJson crates) (h : Document value) :
    crates.jsonFromSlice (compactJson value) = .ok value := by
  rw [hserde.parse value h.integers h.distinct (h.nested.mono_le (by decide)),
    (Json.reorder_eq_self_iff utf8Units).mpr h.ordered]

/-- The two texts are the same when the two orders are. -/
theorem compactJson_eq_iff (h : Document value) :
    compactJson value = canonicalJson value ↔ value.Everywhere (Json.Ordered utf16Units) := by
  rw [← Json.reorder_eq_self_iff]
  constructor
  · intro heq
    exact (compactJson_injective h.integers (numbers_reorder h.integers) heq).symm
  · intro heq
    rw [canonicalJson, heq]

/-- Stores that answer every request with one object. -/
def holding (bytes : Bytes) : (op : StoreOp) → Unit → op.Answer × Unit
  | .metadata (.blobVisible _ _), s => (.ok true, s)
  | .blobs (.get _), s => (.ok (some { size := bytes.length, stream := [.ok bytes] }), s)
  | _, s => (.error "not answered", s)

def blake3Digest (crates : Crates) (bytes : Bytes) : Digest :=
  ⟨"blake3", crates.hashText .blake3 bytes, UInt64.ofNat bytes.length⟩

theorem storedVisible_holding (hrules : crates.digests.Documented) {bytes : Bytes}
    (hsmall : bytes.length ≤ 16 * 1024 * 1024) (ns : String) :
    StoredVisible crates (holding bytes) () ns (blake3Digest crates bytes) bytes where
  valid := (hrules.validate_iff _).mpr
    ⟨⟨.blake3, rfl⟩, crates.hashText_length .blake3 bytes, crates.lowerHex_hashText .blake3 bytes⟩
  content := by
    refine ⟨?_, .blake3, hrules.algorithmKind_asStr .blake3 _ _, rfl⟩
    show bytes.length = (UInt64.ofNat bytes.length).toNat
    rw [UInt64.toNat_ofNat', Nat.mod_eq_of_lt (by omega)]
  visible := rfl
  served := ⟨[bytes], List.append_nil bytes, rfl⟩

theorem formsAgree_iff_same (hserde : SerdeJson crates) (hrules : crates.digests.Documented)
    (h : Document value) : FormsAgree crates value ↔ compactJson value = canonicalJson value := by
  have hparsed := parse_canonicalJson hserde h
  constructor
  · intro hagree
    have hstored := storedVisible_holding hrules h.small "a"
    have hrun := hagree.accepted _ _ _ _ "object" hstored
    rw [run_readCanonicalObject hstored _ h.small, parseCanonicalObject_eq hserde h hparsed] at hrun
    by_contra hdiffers
    rw [if_neg hdiffers] at hrun
    cases hrun
  · intro heq
    constructor
    · intro S exec s ns digest label hstored
      rw [run_readCanonicalObject hstored label h.small,
        parseCanonicalObject_eq hserde h hparsed, if_pos heq]
    · intro S exec s ns digest label bytes found hparse hstored haccepted
      have hsmall := small_of_accepted hstored haccepted
      rw [run_readCanonicalObject hstored label hsmall,
        parseCanonicalObject_eq hserde h hparse] at haccepted
      by_contra hother
      rw [if_neg (heq ▸ fun hsame => hother hsame.symm)] at haccepted
      cases haccepted

/-- The two notions of canonical form agree on a document exactly when, in each of its
objects, the order of the names by their UTF-8 bytes is their order by UTF-16 code
units. Elsewhere the canonical form is refused. -/
theorem canonical_forms_agree_iff (hserde : SerdeJson crates)
    (hrules : crates.digests.Documented) (h : Document value) :
    FormsAgree crates value ↔ value.Everywhere (Json.Ordered utf16Units) := by
  rw [formsAgree_iff_same hserde hrules h, compactJson_eq_iff h]

end Forms

/-! ## A name beyond the basic plane -/

/-- A parser of compact texts. -/
def parseCompact (bytes : Bytes) : Option Json :=
  (fromUtf8 bytes).bind fun text =>
    match JsonText.readValue text.toList.length text.toList with
    | some (value, []) => some (value.reorder utf8Units)
    | _ => none

/-- The lawful instance, with documents printed and parsed. -/
def printingCrates : Crates :=
  { Sample.crates with
    jsonFromSlice := fun bytes => Sample.found (parseCompact bytes)
    jsonToVec := fun value => .ok (compactJson value) }

theorem serdeJson_printing : SerdeJson printingCrates where
  print value _ := rfl
  parse value hnumbers _ _ := by
    have hread := JsonText.readBack value hnumbers (JsonText.spell value).length [] le_rfl
      JsonText.ends_nil
    rw [List.append_nil] at hread
    show Sample.found (parseCompact (compactJson value)) = _
    rw [parseCompact, compactJson, fromUtf8_utf8Bytes, Option.bind_some, String.toList_ofList,
      hread]
    rfl

/-- An object of two names without values. -/
def pair (first second : String) : Json := .object [(first, .null), (second, .null)]

theorem everywhere_pair {holds : Json → Prop} {first second : String}
    (hself : holds (pair first second)) (hnull : holds .null) :
    (pair first second).Everywhere holds := by
  apply Json.everywhere_of_children hself
  intro child hmem
  have hchild : child = .null := by
    simpa [pair, Json.children] using hmem
  rw [hchild]
  exact Json.everywhere_of_leaf hnull rfl

theorem document_pair {first second : String} (hlt : utf8Units first < utf8Units second)
    (hsmall : (canonicalJson (pair first second)).length ≤ 16 * 1024 * 1024) :
    Document (pair first second) where
  object := rfl
  sorted := everywhere_pair (List.pairwise_pair.mpr hlt) List.Pairwise.nil
  numbers := everywhere_pair (fun n heq => by cases heq) (fun n heq => by cases heq)
  nested := by
    intro child hmem
    have hchild : child = .null := by
      simpa [pair, Json.children] using hmem
    have hscalar : Json.NestedWithin 0 .null :=
      ⟨fun _ => Json.noConfusion, fun _ => Json.noConfusion⟩
    rw [hchild]
    exact hscalar.mono_le (Nat.zero_le 99)
  small := hsmall

/-- Both orders list these names alike. -/
theorem canonical_forms_agree_ascii : FormsAgree printingCrates (pair "a" "b") :=
  (canonical_forms_agree_iff serdeJson_printing Sample.documented
    (document_pair (by decide +kernel) (by decide +kernel))).mpr
    (everywhere_pair (by decide +kernel) (by decide +kernel))

/-- A name in the private use area, and one beyond the basic plane. -/
def beyondBasicPlane : Json :=
  pair (String.singleton (Char.ofNat 0xE000)) (String.singleton (Char.ofNat 0x10000))

theorem canonical_form_refused :
    SerdeJson printingCrates ∧ printingCrates.digests.Documented ∧ Document beyondBasicPlane ∧
      (∀ label, parseCanonicalObject printingCrates label (canonicalJson beyondBasicPlane) =
        .error (.unprocessable s!"{label} is not canonical JSON")) ∧
      (∀ label, parseCanonicalObject printingCrates label (compactJson beyondBasicPlane) =
        .ok beyondBasicPlane) ∧
      ¬ FormsAgree printingCrates beyondBasicPlane := by
  have hdocument : Document beyondBasicPlane :=
    document_pair (by decide +kernel) (by decide +kernel)
  have hdiffers : compactJson beyondBasicPlane ≠ canonicalJson beyondBasicPlane := by
    decide +kernel
  have hcanonical := parse_canonicalJson serdeJson_printing hdocument
  have hcompact := parse_compactJson serdeJson_printing hdocument
  refine ⟨serdeJson_printing, Sample.documented, hdocument, fun label => ?_, fun label => ?_, ?_⟩
  · rw [parseCanonicalObject_eq serdeJson_printing hdocument hcanonical, if_neg hdiffers]
  · rw [parseCanonicalObject_eq serdeJson_printing hdocument hcompact, if_pos rfl]
  · rw [formsAgree_iff_same serdeJson_printing Sample.documented hdocument]
    exact hdiffers

end MbxCache.Server
