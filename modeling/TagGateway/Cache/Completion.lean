import TagGateway.Auth.SigV4

/-!
# Cached completions

The answer to a `CompleteMultipartUpload` is kept for a few seconds under a key made
of the bucket, the object's key and the upload, and bound to the access key that
completed the upload.
-/
namespace TagGateway.Cache

open Foundation Auth

/-! ## The key of a completion -/

/-- The bytes that a query keeps as they are. -/
def keptInQuery (b : UInt8) : Bool :=
  isUpper b || isLower b || isDigit b || (ascii "-_.~").contains b

def queryEscapeByte (b : UInt8) : Bytes :=
  if keptInQuery b then [b]
  else if b = byte ' ' then [byte '+']
  else byte '%' :: hexByte awsURIHex b

def queryEscape (s : Bytes) : Bytes := s.flatMap queryEscapeByte

def completionKeyPrefix : Bytes := ascii "complete:"

def makeCompletionKey (bucket key uploadId : Bytes) : Bytes :=
  if bucket.contains (byte '|') || key.contains (byte '|') || uploadId.contains (byte '|') then
    completionKeyPrefix ++ (queryEscape bucket ++ byte ':' ::
      (queryEscape key ++ byte ':' :: queryEscape uploadId))
  else completionKeyPrefix ++ (bucket ++ byte '|' :: (key ++ byte '|' :: uploadId))

theorem hexDigit_inj : ∀ m < 16, ∀ n < 16, hexDigit awsURIHex m = hexDigit awsURIHex n → m = n := by
  decide

theorem hexByte_inj {b c : UInt8} (h : hexByte awsURIHex b = hexByte awsURIHex c) : b = c := by
  obtain ⟨hhigh, hlow⟩ := List.cons.inj h
  have hb := b.toNat_lt
  have hc := c.toNat_lt
  have hdiv := hexDigit_inj _ (by omega) _ (by omega) hhigh
  have hmod := hexDigit_inj _ (by omega) _ (by omega) (List.cons.inj hlow).1
  apply UInt8.toNat_inj.mp
  omega

theorem hexByte_ne {d : UInt8} (hd : ∀ n < 16, hexDigit awsURIHex n ≠ d) (b : UInt8) :
    d ∉ hexByte awsURIHex b := by
  have hb := b.toNat_lt
  intro hmem
  rcases List.mem_pair.mp hmem with heq | heq
  · exact hd _ (by omega) heq.symm
  · exact hd _ (by omega) heq.symm

theorem queryEscapeByte_append_inj {b c : UInt8} {x y : Bytes}
    (h : queryEscapeByte b ++ x = queryEscapeByte c ++ y) : b = c ∧ x = y := by
  unfold queryEscapeByte at h
  have hplus : keptInQuery (byte '+') = false := by decide
  have hpercent : keptInQuery (byte '%') = false := by decide
  split_ifs at h with hb hc hc' hb' hc hc' hc hc'
  · exact List.cons.inj h
  · have heq : b = byte '+' := (List.cons.inj h).1
    rw [heq, hplus] at hb
    cases hb
  · have heq : b = byte '%' := (List.cons.inj h).1
    rw [heq, hpercent] at hb
    cases hb
  · have heq : byte '+' = c := (List.cons.inj h).1
    rw [← heq, hplus] at hc
    cases hc
  · exact ⟨hb'.trans hc'.symm, (List.cons.inj h).2⟩
  · exact absurd (List.cons.inj h).1 (by decide)
  · have heq : byte '%' = c := (List.cons.inj h).1
    rw [← heq, hpercent] at hc
    cases hc
  · exact absurd (List.cons.inj h).1 (by decide)
  · obtain ⟨-, htail⟩ := List.cons.inj h
    obtain ⟨hhex, hrest⟩ := List.append_inj htail rfl
    exact ⟨hexByte_inj hhex, hrest⟩

theorem queryEscapeByte_ne_nil (b : UInt8) : queryEscapeByte b ≠ [] := by
  unfold queryEscapeByte
  split_ifs <;> simp

theorem queryEscape_injective {s t : Bytes} (h : queryEscape s = queryEscape t) : s = t := by
  induction s generalizing t with
  | nil =>
    cases t with
    | nil => rfl
    | cons c t => exact absurd h.symm (by simp [queryEscape, queryEscapeByte_ne_nil])
  | cons b s ih =>
    cases t with
    | nil => exact absurd h (by simp [queryEscape, queryEscapeByte_ne_nil])
    | cons c t =>
      obtain ⟨rfl, hrest⟩ := queryEscapeByte_append_inj (x := queryEscape s) (y := queryEscape t) h
      rw [ih hrest]

theorem not_mem_queryEscape {d : UInt8} (hkept : keptInQuery d = false) (hplus : d ≠ byte '+')
    (hpercent : d ≠ byte '%') (hhex : ∀ n < 16, hexDigit awsURIHex n ≠ d) (s : Bytes) :
    d ∉ queryEscape s := by
  intro hmem
  obtain ⟨b, -, hb⟩ := List.mem_flatMap.mp hmem
  unfold queryEscapeByte at hb
  split_ifs at hb with hb' hspace
  · rw [List.mem_singleton.mp hb, hb'] at hkept
    cases hkept
  · exact hplus (List.mem_singleton.mp hb)
  · rcases List.mem_cons.mp hb with heq | hb
    · exact hpercent heq
    · exact hexByte_ne hhex b hb

theorem colon_not_mem_queryEscape (s : Bytes) : byte ':' ∉ queryEscape s :=
  not_mem_queryEscape (by decide) (by decide) (by decide) (by decide) s

theorem bar_not_mem_queryEscape (s : Bytes) : byte '|' ∉ queryEscape s :=
  not_mem_queryEscape (by decide) (by decide) (by decide) (by decide) s

/-- Escaped triples have no bar, and the others have one. -/
theorem escaped_ne_plain {bucket key uploadId bucket' rest : Bytes} :
    queryEscape bucket ++ byte ':' :: (queryEscape key ++ byte ':' :: queryEscape uploadId) ≠
      bucket' ++ byte '|' :: rest := by
  intro h
  have hmem : byte '|' ∈ queryEscape bucket ++ byte ':' ::
      (queryEscape key ++ byte ':' :: queryEscape uploadId) := by
    rw [h]
    simp
  simp only [List.mem_append, List.mem_cons] at hmem
  rcases hmem with hmem | hmem | hmem | hmem | hmem
  · exact bar_not_mem_queryEscape _ hmem
  · exact absurd hmem (by decide)
  · exact bar_not_mem_queryEscape _ hmem
  · exact absurd hmem (by decide)
  · exact bar_not_mem_queryEscape _ hmem

theorem makeCompletionKey_inj {bucket key uploadId bucket' key' uploadId' : Bytes}
    (h : makeCompletionKey bucket key uploadId = makeCompletionKey bucket' key' uploadId') :
    bucket = bucket' ∧ key = key' ∧ uploadId = uploadId' := by
  unfold makeCompletionKey at h
  split_ifs at h with hbar hbar' hbar'
  · obtain ⟨hbucket, hrest⟩ := eq_of_append_cons (colon_not_mem_queryEscape _)
      (colon_not_mem_queryEscape _) (List.append_cancel_left h)
    obtain ⟨hkey, hupload⟩ := eq_of_append_cons (colon_not_mem_queryEscape _)
      (colon_not_mem_queryEscape _) hrest
    exact ⟨queryEscape_injective hbucket, queryEscape_injective hkey, queryEscape_injective hupload⟩
  · exact absurd (List.append_cancel_left h) escaped_ne_plain
  · exact absurd (List.append_cancel_left h).symm escaped_ne_plain
  · simp only [Bool.or_eq_true, List.contains_iff_mem, not_or] at hbar hbar'
    obtain ⟨rfl, hrest⟩ := eq_of_append_cons hbar.1.1 hbar'.1.1 (List.append_cancel_left h)
    obtain ⟨rfl, rfl⟩ := eq_of_append_cons hbar.1.2 hbar'.1.2 hrest
    exact ⟨rfl, rfl, rfl⟩

/-! ## The entry -/

structure CompletionEntry where
  accessKey : Bytes
  statusCode : ℕ
  headers : List (Bytes × Bytes)
  body : Bytes
deriving DecidableEq

structure CompletionCodec (δ : Type*) where
  marshal : CompletionEntry → δ
  unmarshal : δ → Option CompletionEntry
  roundTrip : ∀ entry, unmarshal (marshal entry) = some entry

def firstOf (entries : List (Bytes × List Bytes)) : List (Bytes × Bytes) :=
  entries.filterMap fun e => e.2.head?.map fun v => (e.1, v)

def firstValues (h : Header) : List (Bytes × Bytes) := firstOf h.entries

section

variable {δ : Type*} (codec : CompletionCodec δ)

def getCompletion (data : Option δ) (accessKey : Bytes) : Option CompletionEntry :=
  if accessKey = [] then none
  else
    match data.bind codec.unmarshal with
    | none => none
    | some entry =>
      if entry.accessKey = [] ∨ entry.accessKey ≠ accessKey then none else some entry

theorem getCompletion_eq_some {data : Option δ} {accessKey : Bytes} {entry : CompletionEntry}
    (h : getCompletion codec data accessKey = some entry) :
    accessKey ≠ [] ∧ entry.accessKey = accessKey ∧
      ∃ d, data = some d ∧ codec.unmarshal d = some entry := by
  unfold getCompletion at h
  split_ifs at h with hkey
  split at h
  · cases h
  · rename_i found hfound
    split_ifs at h with hbound
    obtain rfl := Option.some.inj h
    rw [not_or, not_not] at hbound
    exact ⟨hkey, hbound.2, Option.bind_eq_some_iff.mp hfound⟩

end

/-! ## The header of a replay -/

/-- The names of a header as `net/http` reads them off an answer. -/
def CanonicalNames (h : Header) : Prop := ∀ name ∈ h.names, canonicalHeaderKey name = name

instance (h : Header) : Decidable (CanonicalNames h) :=
  inferInstanceAs (Decidable (∀ name ∈ h.names, canonicalHeaderKey name = name))

def replayHeader (headers : List (Bytes × Bytes)) (h : Header) : Header :=
  headers.foldl (fun h e => h.set e.1 e.2) h

theorem lookup_eq_none {β : Type*} {entries : List (Bytes × β)} {name : Bytes}
    (h : name ∉ entries.map Prod.fst) : entries.lookup name = none := by
  rw [List.lookup_eq_none_iff]
  intro e he
  rw [bne_iff_ne]
  rintro rfl
  exact h (List.mem_map.mpr ⟨e, he, rfl⟩)

theorem values_replayHeader {headers : List (Bytes × Bytes)} (hnodup : (headers.map Prod.fst).Nodup)
    (hcanonical : ∀ e ∈ headers, canonicalHeaderKey e.1 = e.1) (h : Header) (name : Bytes) :
    (replayHeader headers h).values name =
      (headers.lookup name).elim (h.values name) fun v => some [v] := by
  induction headers generalizing h with
  | nil => rfl
  | cons e headers ih =>
    obtain ⟨k, v⟩ := e
    rw [List.map_cons, List.nodup_cons] at hnodup
    have hk : canonicalHeaderKey k = k := hcanonical (k, v) List.mem_cons_self
    have hset : h.set k v = h.put k [v] := by rw [Header.set, hk]
    have hrest := ih hnodup.2 (fun e he => hcanonical e (List.mem_cons_of_mem _ he)) (h.set k v)
    rw [replayHeader, List.foldl_cons, ← replayHeader, hrest, hset, List.lookup_cons]
    by_cases hname : name = k
    · subst hname
      simp [lookup_eq_none hnodup.1]
    · have hbeq : (name == k) = false := beq_false_of_ne hname
      rw [hbeq, h.values_put_ne _ hname]

theorem firstOf_names (entries : List (Bytes × List Bytes)) :
    ((firstOf entries).map Prod.fst).Sublist (entries.map Prod.fst) := by
  induction entries with
  | nil => exact List.Sublist.refl _
  | cons e entries ih =>
    obtain ⟨k, vs⟩ := e
    cases vs with
    | nil => exact ih.cons k
    | cons v vs => exact ih.cons_cons k

theorem lookup_firstOf {entries : List (Bytes × List Bytes)} (hnodup : (entries.map Prod.fst).Nodup)
    (name : Bytes) : (firstOf entries).lookup name = (entries.lookup name).bind List.head? := by
  induction entries with
  | nil => rfl
  | cons e entries ih =>
    obtain ⟨k, vs⟩ := e
    rw [List.map_cons, List.nodup_cons] at hnodup
    have hrest := ih hnodup.2
    cases vs with
    | nil =>
      change (firstOf entries).lookup name = _
      rw [List.lookup_cons, hrest]
      cases hname : name == k
      · rfl
      · rw [beq_iff_eq.mp hname, lookup_eq_none hnodup.1]
        rfl
    | cons v vs =>
      change ((k, v) :: firstOf entries).lookup name = _
      rw [List.lookup_cons, List.lookup_cons, hrest]
      cases name == k
      · rfl
      · rfl

/-- A replayed header has the first value of each name, and nothing else. -/
theorem values_replayHeader_firstValues {h : Header} (hcanonical : CanonicalNames h) (name : Bytes) :
    (replayHeader (firstValues h) Header.empty).values name =
      ((h.values name).bind List.head?).map fun v => [v] := by
  have hsub := firstOf_names h.entries
  have hlookup := lookup_firstOf h.nodup name
  have hvalues := @values_replayHeader (firstValues h) (hsub.nodup h.nodup)
    (fun e he => hcanonical e.1 (hsub.mem (List.mem_map.mpr ⟨e, he, rfl⟩))) Header.empty name
  rw [hvalues, firstValues, hlookup]
  change _ = ((h.entries.lookup name).bind List.head?).map fun v => [v]
  cases (h.entries.lookup name).bind List.head?
  · rfl
  · rfl

end TagGateway.Cache
