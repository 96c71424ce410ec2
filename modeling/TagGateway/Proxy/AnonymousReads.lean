import TagGateway.Proxy.Relay

/-!
# Where an anonymous reader's bytes come from

A read without credentials is answered from an entry that is marked public, or
by upstream, which judges it as the anonymous request it is. Two things can put
another answer in their place: the conditional request of a forced revalidation
goes out under the gateway's own credentials, and a shared fetch under those of
the read that started it.
-/
namespace TagGateway.Proxy.Coalescing

open Foundation Cache Broadcast

section

variable (reqs : ℕ → ReadRequest)

/-- An anonymous read joins only fetches that carry no credentials, and its
revalidation finds the entry unchanged. -/
def Unprivileged (w : World) : Label → Prop
  | .subscribe i => (reqs i).isAnonymousRequest = true →
      (w.handed i).all (fun b => (reqs b).hasNoAuthCredentials ||
        (w.streams b).any fun st => st.broadcaster.streaming) = true
  | .revalidate i resp _ => (reqs i).isAnonymousRequest = true → changed (reqs i) resp = false
  | _ => True

instance (w : World) : (l : Label) → Decidable (Unprivileged reqs w l)
  | .subscribe _ | .revalidate _ _ _ => inferInstanceAs (Decidable (_ → _))
  | .arrive _ | .lookup _ _ | .serve _ _ | .forward _ _ | .getOrCreate _ | .attachCache _
  | .answer _ _ | .read _ _ | .complete _ _ | .drainCache _ | .receive _ | .cancel _
  | .remove _ => .isTrue trivial

def withoutCredentials : JoinPolicy where
  concerns i := (reqs i).isAnonymousRequest = true
  accepts b _ := (reqs b).hasNoAuthCredentials = true
  own _ hi := (Bool.and_eq_true_iff.mp hi).2

end

theorem Unprivileged.admits {reqs : ℕ → ReadRequest} {w : World} {l : Label}
    (h : Unprivileged reqs w l) : (withoutCredentials reqs).Admits reqs w l := by
  cases l with
  | subscribe i =>
    intro hi b st hph hst hopen
    have hall := h hi
    have hnone : (reqs b).hasNoAuthCredentials = true := by
      simpa [World.handed, hph, hst, hopen] using hall
    exact hnone
  | revalidate i resp err => exact h
  | _ => trivial

/-- The sources an anonymous reader may be answered from. -/
def PublicReply (reqs : ℕ → ReadRequest) (answers : ℕ → Response) (i : ℕ) : Reply → Prop
  | .notModified m => m.isPublicRead = true
  | .cached m parts _ => m.isPublicRead = true ∧ ∀ part ∈ parts, part.ofVersion m = true
  | .revalidated _ _ => False
  | .upstream _ d => ∃ b, (reqs b).hasNoAuthCredentials = true ∧
      (reqs b).broadcastKey = (reqs i).broadcastKey ∧ d.Of (answers b)

/-- Whatever the cache holds and whoever else reads: an anonymous reader gets the
version of a public entry, or what upstream answered to a request for the object
that carried no credentials. -/
theorem anonymous_reply_is_public (cfg : ReadConfig) {reqs : ℕ → ReadRequest}
    {answers : ℕ → Response} {ls : List Label} {w : World}
    (hrun : run (step cfg reqs) initial ls = some w) (hanswers : ∀ l ∈ ls, Answers answers l)
    (hunprivileged : Along (step cfg reqs) (Unprivileged reqs) initial ls) {i : ℕ}
    (hanonymous : (reqs i).isAnonymousRequest = true) {reply : Reply}
    (hreply : w.reply i = some reply) : PublicReply reqs answers i reply := by
  have hallowed := reply_source hrun hanswers (hunprivileged.mono fun _ _ h => h.admits) hreply
  cases reply with
  | notModified m => exact hallowed hanonymous
  | cached m parts err => exact ⟨hallowed.1 hanonymous, hallowed.2⟩
  | revalidated resp err => exact hallowed hanonymous
  | upstream xCache d =>
    obtain ⟨b, hsource, hof⟩ := hallowed
    exact ⟨b, hsource.accepts hanonymous, hsource.key, hof⟩

def insistentRead (method : ReadMethod) (range : String) : ReadRequest where
  method := method
  bucket := ascii "b"
  key := ascii "k"
  header := (Header.empty.set (ascii "Cache-Control") (ascii "no-cache")).set (ascii "Range")
    (ascii range)
  auth := .notValidated

def publicEntry : CachedObjectMeta where
  key := ascii "k"
  bucket := ascii "b"
  etag := ascii "v1"
  acl := ascii "public-read"

def privateVersion (status : ℕ) : Response where
  status := status
  header := (Header.empty.set (ascii "ETag") (ascii "v2")).set (ascii "X-Amz-Acl") (ascii "private")
  body := ascii "secret"

def insistentRun (resp : Response) : List Label :=
  [.arrive 0, .lookup 0 (some publicEntry), .revalidate 0 (some resp) none]

theorem anonymous_reply_is_public_unchanged :
    ∃ w, run (step readConfig fun _ => insistentRead .get "") initial
        (insistentRun (plainResponse 304 "") ++ [.serve 0 (.body [.stored (ascii "data")] none)]) =
          some w ∧
      ∃ reply, w.reply 0 = some reply ∧
        PublicReply (fun _ => insistentRead .get "") (fun _ => plainResponse 403 "") 0 reply := by
  have hends : ∃ w, run (step readConfig fun _ => insistentRead .get "") initial
      (insistentRun (plainResponse 304 "") ++ [.serve 0 (.body [.stored (ascii "data")] none)]) =
        some w ∧ w.reply 0 = some (.cached publicEntry [.stored (ascii "data")] none) :=
    exists_run_of_any (by decide +kernel)
  obtain ⟨w, hw, hreply⟩ := hends
  refine ⟨w, hw, _, hreply, anonymous_reply_is_public readConfig hw ?_ (by decide +kernel)
    (by decide +kernel) hreply⟩
  intro l hl
  simp only [insistentRun, List.cons_append, List.nil_append, List.mem_cons, List.not_mem_nil,
    or_false] at hl
  rcases hl with rfl | rfl | rfl | rfl <;> trivial

/-- The object was made private. An anonymous GET, a range of it or a HEAD that
finds the old public entry and insists on a revalidation gets the new version,
fetched with the gateway's credentials. -/
theorem anonymous_read_gets_private_version :
    (privateVersion 200).header.get (ascii "ETag") ≠ publicEntry.etag ∧
      (insistentRead .get "").isAnonymousRequest = true ∧
      (∃ w, run (step readConfig fun _ => insistentRead .get "") initial
        (insistentRun (privateVersion 200)) = some w ∧
          w.reply 0 = some (.revalidated (privateVersion 200) none)) ∧
      (∃ w, run (step readConfig fun _ => insistentRead .get "bytes=0-3") initial
        (insistentRun (privateVersion 206)) = some w ∧
          w.reply 0 = some (.revalidated (privateVersion 206) none)) ∧
      ∃ w, run (step readConfig fun _ => insistentRead .head "") initial
        (insistentRun (privateVersion 200)) = some w ∧
          w.reply 0 = some (.revalidated (privateVersion 200) none) := by
  refine ⟨by decide +kernel, by decide +kernel, ?_, ?_, ?_⟩
  all_goals exact exists_run_of_any (by decide +kernel)

end TagGateway.Proxy.Coalescing
