/-
# Which uploads are accepted

An upload is decided by what it says and by its content, whatever the body is cut into,
whatever is stored and whatever runs beside it. One that may be accepted fails only with
a store, and any other is refused with an error that is the client's.
-/

import MbxCache.Server.Alone
import MbxCache.Server.InternalErrors

namespace MbxCache.Server

open Foundation Program

section

variable {crates : Crates} {state : AppState}

/-- What an upload has to be. -/
structure Acceptable (crates : Crates) (state : AppState) (headers : HeaderMap)
    (parts : DigestParts) (body : ByteStream) : Prop where
  authorized : ∃ ns, state.auth.authorize crates headers .write = .ok ns
  immutable : requireImmutablePrecondition headers = .ok ()
  valid : crates.digests.validate (digestOf parts) = true
  limited : (digestOf parts).size ≤ state.maxBlobBytes
  whole : broken body = false
  content : crates.Matches (digestOf parts) (contents body)

theorem exists_pieces {body : ByteStream} (h : broken body = false) :
    ∃ pieces : List Bytes, body = pieces.map .ok := by
  induction body with
  | nil => exact ⟨[], rfl⟩
  | cons chunk body ih =>
      cases chunk with
      | ok piece =>
          obtain ⟨pieces, hpieces⟩ := ih h
          exact ⟨piece :: pieces, congrArg (.ok piece :: ·) hpieces⟩
      | error error => cases h

/-- A body is received exactly if it is the content of its digest, within the limit. -/
theorem receiveBlob_iff {maxBlobBytes : UInt64} {digest : Digest} {body : ByteStream} :
    (∃ spool, receiveBlob crates maxBlobBytes digest body = .ok spool) ↔
      digest.size ≤ maxBlobBytes ∧ broken body = false ∧ crates.Matches digest (contents body) := by
  apply Iff.intro
  · intro h
    obtain ⟨spool, hreceive⟩ := h
    obtain ⟨pieces, rfl, _, hmatches⟩ := receiveBlob_eq_ok hreceive
    obtain ⟨_, hlimit, _⟩ := bind_eq_ok.mp hreceive
    refine ⟨by simpa using hlimit, broken_map_ok pieces, ?_⟩
    rw [contents_map_ok]
    exact hmatches
  · intro h
    obtain ⟨hlimit, hwhole, hmatches⟩ := h
    obtain ⟨pieces, rfl⟩ := exists_pieces hwhole
    rw [contents_map_ok] at hmatches
    obtain ⟨algorithm, halgorithm, _⟩ := hmatches.2
    obtain ⟨spool, hfold, htracks⟩ := receive_map_ok halgorithm hlimit pieces
      (Spool.tracks_new digest) (by rw [List.length_nil, Nat.zero_add, hmatches.1])
    rw [List.nil_append] at htracks
    have hnot : decide (digest.size > maxBlobBytes) = false := by simpa using hlimit
    refine ⟨spool, bind_eq_ok.mpr ⟨(), rejectIf_eq_ok.mpr hnot, bind_eq_ok.mpr ⟨spool, hfold, ?_⟩⟩⟩
    exact bind_eq_ok.mpr ⟨(), htracks.verify_eq_ok.mpr hmatches, rfl⟩

/-! ## Under any interference -/

section Rules

variable {fact : Held → Prop} {errors : ApiError → Prop}

theorem under_callBlobs {op : BlobOp} (hfailed : ∀ e, StoreFailed e → errors e) :
    Under (HeldAnswers crates) fact (EndsWith errors fun _ => True) (callBlobs op) := by
  intro stores answer later _ _
  cases answer with
  | error error => exact hfailed _ rfl
  | ok value => trivial

theorem under_publishBlob {ns : String} {digest : Digest} {source : Bytes}
    (hfailed : ∀ e, StoreFailed e → errors e) :
    Under (HeldAnswers crates) fact (EndsWith errors fun _ => True)
      (publishBlob ns digest source) := by
  apply under_bind (under_callBlobs hfailed)
  intro outcome _
  have hregister : Under (HeldAnswers crates) fact (EndsWith errors fun _ => True)
      (callMetadata (.registerBlob ns digest outcome)) :=
    under_callMetadata hfailed fun _ _ _ _ => trivial
  exact under_bind hregister fun _ _ => trivial

end Rules

variable {headers : HeaderMap} {parts : DigestParts} {body : ByteStream}

theorem under_putBlob_acceptable (h : Acceptable crates state headers parts body) :
    Under (HeldAnswers crates) (fun _ => True) (EndsWith StoreFailed fun _ => True)
      (putBlob crates state headers parts body) := by
  obtain ⟨ns, hauth⟩ := h.authorized
  obtain ⟨spool, hreceive⟩ := receiveBlob_iff.mpr ⟨h.limited, h.whole, h.content⟩
  apply under_lift hauth
  apply under_lift h.immutable
  apply under_lift ((parseDigest_eq_ok _).mpr ⟨rfl, h.valid⟩)
  apply under_lift hreceive
  exact under_bind (under_publishBlob fun _ he => he) fun _ _ => trivial

theorem under_putBlob_refused (h : ¬ Acceptable crates state headers parts body) :
    Under (HeldAnswers crates) (fun _ => True) (EndsWith ClientError fun _ => False)
      (putBlob crates state headers parts body) := by
  apply under_local (client_authorize _ _ _)
  intro ns hauth
  apply under_local (client_requireImmutablePrecondition headers)
  intro _ himmutable
  apply under_local (client_parseDigest parts)
  intro digest hdigest
  obtain ⟨rfl, hvalid⟩ := (parseDigest_eq_ok _).mp hdigest
  apply under_local (client_receiveBlob _ _ body)
  intro spool hreceive
  obtain ⟨hlimit, hwhole, hmatches⟩ := receiveBlob_iff.mp ⟨spool, hreceive⟩
  exact absurd ⟨⟨ns, hauth⟩, himmutable, hvalid, hlimit, hwhole, hmatches⟩ h

/-- What is shown of the handler holds of every upload that was answered. -/
theorem ReachablePool.under_putBlob
    {pool : Pool Held Request StoreOp StoreOp.Answer ApiError Reply}
    (hreach : ReachablePool crates state pool) {errors : ApiError → Prop} {good : Prop}
    (hhandler : Under (HeldAnswers crates) (fun _ => True) (EndsWith errors fun _ => good)
      (putBlob crates state headers parts body)) {outcome : Except ApiError Reply}
    (hmem : (Request.putBlob headers parts body, done outcome) ∈ pool.threads) :
    EndsWith errors (fun _ => good) outcome := by
  let post : Request → Except ApiError Reply → Prop := fun request outcome =>
    request = .putBlob headers parts body → EndsWith errors (fun _ => good) outcome
  have hpost : ∀ request, Under (HeldAnswers crates) (fun _ => True) (post request)
      (handle crates state request) := by
    intro request
    by_cases hrequest : request = .putBlob headers parts body
    · subst hrequest
      exact (under_map hhandler).imp fun outcome h _ => h
    · exact under_trivial (fun _ hsame => absurd hsame hrequest) _
  exact Pool.Reachable.under (fun _ => trivial) hpost hreach hmem rfl

end

end MbxCache.Server
