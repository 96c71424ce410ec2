import TagGateway.Proxy.BlockServe

/-!
# Serving an object from cached blocks

A request for a whole object whose entry is stored in blocks. A complete entry is served
without probes. Any other one is probed first: an entry that has lost most of its blocks
is invalidated and left to one request upstream, a few missing blocks are fetched.
-/
namespace TagGateway.Proxy

open Foundation Cache

section

variable (env : ServeEnv) (m : CachedObjectMeta)

/-- Probe the blocks; `.error none` when more are missing than may be fetched, if there is
such a limit. -/
def probeBlocks (maxFetchFanout : ℕ) : List ℤ → List ℤ → ℕ →
    Except (Option BlockError) (List ℤ) × ℕ
  | [], missing, clock => (.ok missing, clock)
  | i :: is, missing, clock =>
    match probeBlock env m clock i with
    | .error e => (.error (some e), clock + 1)
    | .ok true => probeBlocks maxFetchFanout is missing (clock + 1)
    | .ok false =>
      if 0 < maxFetchFanout ∧ maxFetchFanout < (missing ++ [i]).length then
        (.error none, clock + 1)
      else probeBlocks maxFetchFanout is (missing ++ [i]) (clock + 1)

/-- `ensureBlocksCached` with its two limits; `some none` when one of them is passed. -/
def ensureBlocks (b₀ bK : ℤ) (bailIfMostlyMissing : Bool) (maxFetchFanout : ℕ)
    (resp : ClientResponse) : Option (Option BlockError) × ClientResponse :=
  match probeBlocks env m maxFetchFanout (blockIndices b₀ bK) [] resp.stream.clock with
  | (.error e, clock) => (some e, resp.atClock clock)
  | (.ok missing, clock) =>
    let resp := resp.atClock clock
    if bailIfMostlyMissing ∧ bK - b₀ + 1 < (missing.length : ℤ) * 2 then (some none, resp)
    else if missing = [] then (none, resp)
    else
      match fetchBlocksToCache env.toBlockEnv m clock missing with
      | some e => (some (some e), resp.afterFetch (some e))
      | none => (none, resp.afterFetch none)

def ClientResponse.invalidate (resp : ClientResponse) : ClientResponse :=
  { resp with stream := { resp.stream with invalidated := true } }

def serveAssembledObject (resp : ClientResponse) : Served :=
  match ensureBlocks env m 0 ((m.contentLength - 1).tdiv m.blockSize) true 0 resp with
  | (some none, resp) => ⟨false, none, resp.invalidate⟩
  | (some (some e), resp) => ⟨false, some e, resp⟩
  | (none, resp) =>
    let resp := resp.commitServed env m none
    let (_, err, st) := streamBlockRangeWithFooterRange env.toBlockEnv m 0 (m.contentLength - 1)
      resp.stream.clock
    ⟨true, err, resp.append st⟩

def serveFullObjectFromBlockCache (resp : ClientResponse) : Served :=
  if m.blocksComplete then
    if env.acquireStaging resp.stream.clock then
      serveCompleteFromBlocks env m none (resp.atClock (resp.stream.clock + 1))
    else serveAssembledObject env m (resp.atClock (resp.stream.clock + 1))
  else serveAssembledObject env m resp

/-- The ranged requests probe with a limit on the missing blocks alone. -/
theorem probePass_eq_probeBlocks (is missing : List ℤ) (clock : ℕ) :
    probePass env m is missing clock = probeBlocks env m maxRangeBlockFanout is missing clock := by
  have hpos : 0 < maxRangeBlockFanout := by decide
  induction is generalizing missing clock with
  | nil => rfl
  | cons i is ih =>
    rw [probePass, probeBlocks]
    cases probeBlock env m clock i with
    | error e => rfl
    | ok present =>
      cases present with
      | true => exact ih missing (clock + 1)
      | false =>
        dsimp only
        rw [ih]
        simp only [hpos, true_and]

theorem ensureBlocksCached_eq_ensureBlocks (b₀ bK : ℤ) (resp : ClientResponse) :
    ensureBlocksCached env m b₀ bK resp =
      ensureBlocks env m b₀ bK false maxRangeBlockFanout resp := by
  rewrite [ensureBlocksCached, ensureBlocks, probePass_eq_probeBlocks]
  generalize probeBlocks _ _ _ _ _ _ = probed
  obtain ⟨result, clock⟩ := probed
  cases result with
  | error e => rfl
  | ok missing =>
    dsimp only
    cases fetchBlocksToCache env.toBlockEnv m clock missing <;> rfl

end

end TagGateway.Proxy
