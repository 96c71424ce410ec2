import TagGateway.Proxy.Relay

/-!
# Coalesced reads and their own validators

What a reader of a shared fetch gets is what upstream answered to the request
that started the fetch. It is the answer to its own request as long as it joins
only fetches with the same validators, the conditional headers that upstream
judges a read by.
-/
namespace TagGateway.Proxy.Coalescing

open Foundation Cache Broadcast

def conditionalHeaders : List Bytes :=
  [ascii "If-Match", ascii "If-None-Match", ascii "If-Modified-Since", ascii "If-Unmodified-Since"]

/-- The values of each conditional header, as they are forwarded. -/
abbrev Validators := List (Option (List Bytes))

def validators (r : ReadRequest) : Validators :=
  conditionalHeaders.map fun name => r.header.values (canonicalHeaderKey name)

section

variable (upstream : Bytes → Validators → Response) (reqs : ℕ → ReadRequest)

/-- Upstream's answer to the full-object read `i`. -/
def ownAnswer (i : ℕ) : Response := upstream (reqs i).broadcastKey (validators (reqs i))

/-- A fetch that can still be joined is joined by a read with the validators of
the read that started it, and no revalidation finds a new version. -/
def Aligned (w : World) : Label → Prop
  | .subscribe i => (w.handed i).all (fun b => validators (reqs b) == validators (reqs i) ||
      (w.streams b).any fun st => st.broadcaster.streaming) = true
  | .revalidate i resp _ => changed (reqs i) resp = false
  | _ => True

instance (w : World) : (l : Label) → Decidable (Aligned reqs w l)
  | .subscribe _ | .revalidate _ _ _ => inferInstanceAs (Decidable (_ = _))
  | .arrive _ | .lookup _ _ | .serve _ _ | .forward _ _ | .getOrCreate _ | .attachCache _
  | .answer _ _ | .read _ _ | .complete _ _ | .drainCache _ | .receive _ | .cancel _
  | .remove _ => .isTrue trivial

/-- Every read joins reads with its own validators. -/
def sameValidators : JoinPolicy where
  concerns _ := True
  accepts b i := validators (reqs b) = validators (reqs i)
  own _ _ := rfl

end

variable {upstream : Bytes → Validators → Response} {reqs : ℕ → ReadRequest} {w : World}

theorem Aligned.admits {l : Label} (h : Aligned reqs w l) :
    (sameValidators reqs).Admits reqs w l := by
  cases l with
  | subscribe i =>
    intro _ b st hph hst hopen
    have hsame : validators (reqs b) = validators (reqs i) := by
      simpa [Aligned, World.handed, hph, hst, hopen] using h
    exact hsame
  | revalidate i resp err => exact fun _ => h
  | _ => trivial

def Reply.fromCache : Reply → Bool
  | .notModified _ | .cached _ _ _ => true
  | _ => false

/-- Reads of one principal, whose full-object reads upstream answers by their key
and validators. When reads join only fetches with their own validators, each
one that is not answered from the cache gets the status, the header and the body
upstream has for its own. -/
theorem reply_matches_own_validators (cfg : ReadConfig)
    (upstream : Bytes → Validators → Response) {reqs : ℕ → ReadRequest} {ls : List Label}
    {w : World} (hrun : run (step cfg reqs) initial ls = some w)
    (hanswers : ∀ l ∈ ls, Answers (ownAnswer upstream reqs) l)
    (haligned : Along (step cfg reqs) (Aligned reqs) initial ls) {i : ℕ} {reply : Reply}
    (hreply : w.reply i = some reply) :
    reply.fromCache = true ∨ ∃ xCache d, reply = .upstream xCache d ∧
      d.Of (upstream (reqs i).broadcastKey (validators (reqs i))) := by
  have hallowed := reply_source hrun hanswers (haligned.mono fun _ _ h => h.admits) hreply
  cases reply with
  | notModified m => exact .inl rfl
  | cached m parts err => exact .inl rfl
  | revalidated resp err => exact absurd trivial hallowed
  | upstream xCache d =>
    obtain ⟨b, hsource, hof⟩ := hallowed
    have hsame : validators (reqs b) = validators (reqs i) := hsource.accepts trivial
    rw [ownAnswer, hsource.key, hsame] at hof
    exact .inr ⟨xCache, d, rfl, hof⟩

def revalidatingRead (etag : String) : ReadRequest :=
  { signedRead "key" with
    header := (signedRead "key").header.set (ascii "If-None-Match") (ascii etag) }

/-- Upstream holds `"object"` under the tag `"v1"`. -/
def holdsObject (_ : Bytes) (v : Validators) : Response :=
  if v[1]? = some (some [ascii "v1"]) then plainResponse 304 "" else plainResponse 200 "object"

theorem answers_joinRun {resp : Response} (h : resp = ownAnswer upstream reqs 0) (n : ℕ) :
    ∀ l ∈ joinRun resp n, Answers (ownAnswer upstream reqs) l := by
  intro l hl
  simp only [joinRun, List.mem_append, List.mem_cons, List.not_mem_nil, or_false,
    List.mem_replicate] at hl
  rcases hl with (rfl | rfl | rfl | rfl | rfl | rfl | rfl | rfl | rfl | rfl | rfl) | ⟨-, rfl⟩
  all_goals first | exact h | trivial

theorem reply_matches_own_validators_shared :
    ∃ w, run (step readConfig fun _ => revalidatingRead "v1") initial
        (joinRun (plainResponse 304 "") 3) = some w ∧
      ∃ reply, w.reply 1 = some reply ∧ (reply.fromCache = true ∨ ∃ xCache d,
        reply = .upstream xCache d ∧ d.Of (holdsObject (revalidatingRead "v1").broadcastKey
          (validators (revalidatingRead "v1")))) := by
  have hends : ∃ w, run (step readConfig fun _ => revalidatingRead "v1") initial
      (joinRun (plainResponse 304 "") 3) = some w ∧
        w.reply 1 = some (.upstream .miss ⟨some (304, .empty), [], none⟩) :=
    exists_run_of_any (by decide +kernel)
  obtain ⟨w, hw, hreply⟩ := hends
  have hown : plainResponse 304 "" = ownAnswer holdsObject (fun _ => revalidatingRead "v1") 0 := by
    decide +kernel
  exact ⟨w, hw, _, hreply, reply_matches_own_validators readConfig holdsObject hw
    (answers_joinRun hown 3) (by decide +kernel) hreply⟩

/-- An unconditional read joins the fetch of a read that has the object already
and gets its `304`, where upstream would send it the object. -/
theorem unconditional_read_gets_not_modified :
    ∃ w, run (step readConfig fun i => if i = 0 then revalidatingRead "v1" else signedRead "key")
        initial (joinRun (plainResponse 304 "") 3) = some w ∧
      w.reply 1 = some (.upstream .miss ⟨some (304, .empty), [], none⟩) ∧
      (∀ l ∈ joinRun (plainResponse 304 "") 3, Answers (ownAnswer holdsObject fun i =>
        if i = 0 then revalidatingRead "v1" else signedRead "key") l) ∧
      holdsObject (signedRead "key").broadcastKey (validators (signedRead "key")) =
        plainResponse 200 "object" := by
  have hends : ∃ w, run (step readConfig fun i =>
      if i = 0 then revalidatingRead "v1" else signedRead "key") initial
        (joinRun (plainResponse 304 "") 3) = some w ∧
      w.reply 1 = some (.upstream .miss ⟨some (304, .empty), [], none⟩) :=
    exists_run_of_any (by decide +kernel)
  obtain ⟨w, hw, hreply⟩ := hends
  exact ⟨w, hw, hreply, answers_joinRun (by decide +kernel) 3, by decide +kernel⟩

end TagGateway.Proxy.Coalescing
