import TagGateway.Auth.SigV4

/-!
# The client's account of its signature

A request carries its signature in the `Authorization` header or, when it is
presigned, in the query. The header is searched for its parts by regular
expressions, each for itself, so their order does not matter and text around
them is ignored.
-/
namespace TagGateway.Auth

open Foundation

inductive AuthError where
  | missingAuth
  | unsupportedAuthScheme
  | invalidAuthFormat
  | missingContentHash
  | invalidDate
  | expiredRequest
  | invalidExpires
  | signatureMismatch
  | unknownAccessKey
deriving DecidableEq

structure AuthInfo where
  accessKey : Bytes := []
  isPresigned : Bool := false
  signedHeaders : List Bytes := []
  signature : Bytes := []
  region : Bytes := []
  date : Bytes := []
deriving DecidableEq

/-- The first match of a literal followed by a longest nonempty run of bytes of a
class, after which `follows` holds: the run. -/
def findRun (lit : Bytes) (cls : UInt8 → Bool) (follows : Bytes → Bool) : Bytes → Option Bytes
  | [] => none
  | b :: bs =>
    let rest := (b :: bs).drop lit.length
    let run := rest.takeWhile cls
    if lit.isPrefixOf (b :: bs) ∧ run ≠ [] ∧ follows (rest.dropWhile cls) then some run
    else findRun lit cls follows bs

/-- A match ends at the first equals sign, so it begins behind a text that does not end in the
name. -/
theorem findRun_skip {eq : UInt8} {name seg : Bytes} (hne : name ≠ []) (hname : eq ∉ name)
    (hseg : eq ∉ seg) (hend : ¬ name <:+ seg) (cls : UInt8 → Bool) (follows : Bytes → Bool)
    (rest : Bytes) :
    findRun (name ++ [eq]) cls follows (seg ++ eq :: rest) =
      findRun (name ++ [eq]) cls follows rest := by
  induction seg with
  | nil =>
    obtain ⟨c, cs, rfl⟩ := List.exists_cons_of_ne_nil hne
    have hc : c ≠ eq := fun h => hname (h ▸ List.mem_cons_self)
    rw [List.nil_append, findRun, if_neg]
    simp [List.isPrefixOf, hc]
  | cons b seg ih =>
    rw [List.cons_append, findRun, if_neg]
    · exact ih (fun h => hseg (List.mem_cons_of_mem b h)) fun h => hend (h.trans (by simp))
    · rintro ⟨hpre, -⟩
      obtain ⟨more, hmore⟩ := List.isPrefixOf_iff_prefix.mp hpre
      rw [List.append_assoc, ← List.cons_append] at hmore
      obtain ⟨rfl, -⟩ := eq_of_append_cons hname hseg hmore
      exact hend (List.suffix_refl _)

theorem findRun_hit {eq : UInt8} {name before rest run : Bytes} (hne : name ≠ [])
    (hname : eq ∉ name) (hbefore : eq ∉ before) {cls : UInt8 → Bool} {follows : Bytes → Bool}
    (hrun : rest.takeWhile cls = run) (hsome : run ≠ [])
    (hfollows : follows (rest.dropWhile cls) = true) :
    findRun (name ++ [eq]) cls follows (before ++ (name ++ eq :: rest)) = some run := by
  induction before with
  | nil =>
    obtain ⟨c, cs, rfl⟩ := List.exists_cons_of_ne_nil hne
    have hpre : (c :: cs ++ [eq]).isPrefixOf (c :: (cs ++ eq :: rest)) = true :=
      List.isPrefixOf_iff_prefix.mpr ⟨rest, by simp⟩
    have hdrop : (c :: (cs ++ eq :: rest)).drop (c :: cs ++ [eq]).length = rest := by simp
    have htext : ([] : Bytes) ++ (c :: cs ++ eq :: rest) = c :: (cs ++ eq :: rest) := rfl
    rw [htext, findRun, hdrop, hrun, if_pos ⟨hpre, hsome, hfollows⟩]
  | cons b before ih =>
    rw [List.cons_append, findRun, if_neg]
    · exact ih fun h => hbefore (List.mem_cons_of_mem b h)
    · rintro ⟨hpre, -⟩
      obtain ⟨more, hmore⟩ := List.isPrefixOf_iff_prefix.mp hpre
      rw [List.append_assoc, ← List.append_assoc before, ← List.cons_append] at hmore
      have hall : eq ∉ b :: (before ++ name) := by
        simp only [List.mem_cons, List.mem_append, not_or] at hbefore ⊢
        exact ⟨hbefore.1, hbefore.2, hname⟩
      have hlength := congrArg List.length (eq_of_append_cons hname hall hmore).1
      simp only [List.length_cons, List.length_append] at hlength
      omega

theorem findRun_empty {eq : UInt8} {name seg : Bytes} (hname : eq ∉ name) (hseg : eq ∉ seg)
    (cls : UInt8 → Bool) (follows : Bytes → Bool) :
    findRun (name ++ [eq]) cls follows (seg ++ [eq]) = none := by
  have hmiss : ∀ text : Bytes, (∀ more, name ++ [eq] ++ more = text → more = []) →
      ¬ ((name ++ [eq]).isPrefixOf text = true ∧
        (text.drop (name ++ [eq]).length).takeWhile cls ≠ [] ∧
        follows ((text.drop (name ++ [eq]).length).dropWhile cls) = true) := by
    rintro text htext ⟨hpre, hrun, -⟩
    obtain ⟨more, rfl⟩ := List.isPrefixOf_iff_prefix.mp hpre
    obtain rfl := htext more rfl
    simp at hrun
  induction seg with
  | nil =>
    rw [List.nil_append, findRun, if_neg (hmiss _ fun more h => ?_)]
    · rfl
    · have hlength := congrArg List.length h
      simp only [List.length_append, List.length_singleton] at hlength
      exact List.length_eq_zero_iff.mp (by omega)
  | cons b seg ih =>
    rw [List.cons_append, findRun, if_neg (hmiss _ fun more h => ?_)]
    · exact ih fun h => hseg (List.mem_cons_of_mem b h)
    · rw [List.append_assoc, ← List.cons_append] at h
      exact (eq_of_append_cons hname hseg h).2

def credentialRegex : Bytes → Option Bytes :=
  findRun (ascii "Credential=") (· != byte '/') fun rest => rest.head? == some (byte '/')

def scopeRegex : Bytes → Option Bytes :=
  findRun (ascii "Credential=") (· != byte ',') fun _ => true

def signedHeadersRegex : Bytes → Option Bytes :=
  findRun (ascii "SignedHeaders=") (· != byte ',') fun _ => true

def signatureRegex : Bytes → Option Bytes :=
  findRun (ascii "Signature=") (fun c => isDigit c || (byte 'a' ≤ c && c ≤ byte 'f')) fun _ => true

def splitBytes (sep : Char) (s : Bytes) : List Bytes := s.splitOn (byte sep)

def scopeParts (scope : Bytes) : Option (Bytes × Bytes) :=
  match splitBytes '/' scope with
  | _ :: date :: region :: _ :: _ => some (date, region)
  | _ => none

def parseFromHeader (auth : Bytes) : Except AuthError AuthInfo :=
  if hasPrefix auth algorithm then
    match credentialRegex auth with
    | none => .error .invalidAuthFormat
    | some accessKey =>
      let scope := ((scopeRegex auth).bind scopeParts).getD ([], [])
      .ok
        { accessKey := accessKey
          signedHeaders := ((signedHeadersRegex auth).map (splitBytes ';')).getD []
          signature := (signatureRegex auth).getD []
          date := scope.1
          region := scope.2 }
  else .error .unsupportedAuthScheme

def parseFromQuery (lib : Stdlib) (r : Request) : Except AuthError AuthInfo :=
  let credential := queryGet lib r (ascii "X-Amz-Credential")
  let signedHeaders := queryGet lib r (ascii "X-Amz-SignedHeaders")
  if credential = [] then .error .missingAuth
  else
    match splitBytes '/' credential with
    | accessKey :: date :: region :: _ :: _ =>
      .ok
        { accessKey := accessKey
          isPresigned := true
          signedHeaders := if signedHeaders = [] then [] else splitBytes ';' signedHeaders
          signature := queryGet lib r (ascii "X-Amz-Signature")
          date := date
          region := region }
    | _ => .error .invalidAuthFormat

def parseAuthInfo (lib : Stdlib) (r : Request) : Except AuthError AuthInfo :=
  let auth := r.header.get (ascii "Authorization")
  if auth = [] then parseFromQuery lib r else parseFromHeader auth

end TagGateway.Auth
