import TagGateway.Cache.Object

/-!
# The keys of the store

Metadata, tombstones, bodies and blocks of all objects share one store. Their keys join
a family's prefix, the bucket, the object's key and what tells versions and blocks apart
with a bar. A bucket has no bar, but an object's key and an entity-tag may have one, and
a tag keeps its weak marker without its quotes.
-/
namespace TagGateway.Handlers

open Foundation

inductive BucketNameError where
  | invalidArgument
  | invalidBucketName
deriving DecidableEq, Repr

def isBucketAlnum (b : UInt8) : Bool := isLower b || isDigit b

/-- The pattern `^[a-z0-9][a-z0-9.-]*[a-z0-9]$`. -/
def validBucketNameRegex : Bytes → Bool
  | [] => false
  | first :: rest => isBucketAlnum first && match rest.reverse with
    | [] => false
    | last :: middle => isBucketAlnum last &&
      middle.all fun b => isBucketAlnum b || b == byte '.' || b == byte '-'

/-- The error that is written for the bucket of a request; `none` if its name is valid. -/
def validateBucketName (bucket : Bytes) : Option BucketNameError :=
  if bucket = [] then some .invalidArgument
  else if bucket.length < 3 ∨ 63 < bucket.length then some .invalidBucketName
  else if !validBucketNameRegex bucket then some .invalidBucketName
  else if contains bucket (ascii "..") then some .invalidBucketName
  else if contains bucket (ascii ".-") || contains bucket (ascii "-.") then some .invalidBucketName
  else if contains bucket (ascii "_") then some .invalidBucketName
  else none

theorem mem_of_validBucketNameRegex {bucket : Bytes} (h : validBucketNameRegex bucket = true) :
    ∀ b ∈ bucket, isBucketAlnum b = true ∨ b = byte '.' ∨ b = byte '-' := by
  cases bucket with
  | nil => simp
  | cons first rest =>
    rw [validBucketNameRegex, Bool.and_eq_true] at h
    obtain ⟨hfirst, hrest⟩ := h
    intro b hb
    rcases List.mem_cons.mp hb with rfl | hb
    · exact .inl hfirst
    · rw [← List.mem_reverse] at hb
      cases hrev : rest.reverse with
      | nil => simp [hrev] at hb
      | cons last middle =>
        simp only [hrev, Bool.and_eq_true, List.all_eq_true, Bool.or_eq_true, beq_iff_eq,
          or_assoc] at hrest
        rw [hrev] at hb
        rcases List.mem_cons.mp hb with rfl | hb
        · exact .inl hrest.1
        · exact hrest.2 b hb

theorem bar_not_mem_of_validateBucketName {bucket : Bytes} (h : validateBucketName bucket = none) :
    byte '|' ∉ bucket := by
  unfold validateBucketName at h
  split_ifs at h with hempty hlength hregex hdots hdash hunderscore
  simp only [Bool.not_eq_true', Bool.not_eq_false] at hregex
  intro hbar
  exact absurd (mem_of_validBucketNameRegex hregex _ hbar) (by decide)

end TagGateway.Handlers

namespace TagGateway.Cache

open Foundation Handlers

def metaKeyPrefix : Bytes := ascii "meta|"

def bodyKeyPrefix : Bytes := ascii "body|"

def blockKeyPrefix : Bytes := ascii "blk|"

def makeTombstoneKey (bucket key : Bytes) : Bytes := ascii "tomb|" ++ (bucket ++ byte '|' :: key)

def makeMetaKey (bucket key : Bytes) : Bytes := metaKeyPrefix ++ (bucket ++ byte '|' :: key)

/-- A body without a tag has an unversioned key. -/
def makeBodyKey (bucket key etag : Bytes) : Bytes :=
  if etag = [] then bodyKeyPrefix ++ (bucket ++ byte '|' :: key)
  else bodyKeyPrefix ++ (bucket ++ byte '|' :: (key ++ byte '|' :: etagKeyComponent etag))

def makeBlockKey (bucket key etag : Bytes) (blockSize blockIdx : ℤ) : Bytes :=
  blockKeyPrefix ++ (bucket ++ byte '|' :: (key ++ byte '|' :: (etagKeyComponent etag ++
    byte '|' :: (formatInt blockSize ++ byte '|' :: formatInt blockIdx))))

/-! ## Entity-tags -/

def isETagChar (b : UInt8) : Bool := b == 0x21 || (0x23 ≤ b && b ≤ 0x7E) || 0x80 ≤ b

@[ext] structure EntityTag where
  weak : Bool
  text : Bytes
  chars : text.all isETagChar = true

namespace EntityTag

def marker (t : EntityTag) : Bytes := if t.weak then ascii "W/" else []

def value (t : EntityTag) : Bytes := t.marker ++ (byte '"' :: t.text ++ [byte '"'])

def unquoted (t : EntityTag) : Bytes := t.marker ++ t.text

theorem quote_not_mem_text (t : EntityTag) : byte '"' ∉ t.text := by
  intro hmem
  exact absurd (List.all_eq_true.mp t.chars _ hmem) (by decide)

theorem value_ne_nil (t : EntityTag) : t.value ≠ [] := by simp [value]

end EntityTag

theorem trimQuotes_quoted {s : Bytes} (h : byte '"' ∉ s) :
    trimQuotes (byte '"' :: s ++ [byte '"']) = s := by
  unfold trimQuotes
  cases s with
  | nil => decide
  | cons b s =>
    have hb : b ≠ byte '"' := fun hb => h (hb ▸ List.mem_cons_self)
    have hleft : (byte '"' :: (b :: s) ++ [byte '"']).dropWhile (· == byte '"') =
        b :: s ++ [byte '"'] := by
      simp [hb]
    -- read from the other end the text begins with its last byte
    obtain ⟨t, c, hsnoc⟩ : ∃ t c, b :: s = t ++ [c] :=
      ⟨_, _, (List.dropLast_concat_getLast (by simp)).symm⟩
    have hc : c ≠ byte '"' := fun hc => h (by simp [hsnoc, hc])
    rw [hleft, hsnoc]
    simp [hc]

theorem etagKeyComponent_value (t : EntityTag) : etagKeyComponent t.value = t.unquoted := by
  have htrim := trimQuotes_quoted t.quote_not_mem_text
  unfold EntityTag.value EntityTag.unquoted EntityTag.marker etagKeyComponent
  cases t.weak with
  | false =>
    have hstrong : hasPrefix (byte '"' :: t.text ++ [byte '"']) (ascii "W/") = false := by
      simp [hasPrefix, ascii, byte, List.isPrefixOf]
    simp only [Bool.false_eq_true, if_false, List.nil_append, hstrong]
    exact htrim
  | true =>
    have hweak : ∀ rest, hasPrefix (ascii "W/" ++ rest) (ascii "W/") = true := by
      intro rest
      simp [hasPrefix]
    simp only [if_true, hweak]
    exact congrArg (ascii "W/" ++ ·) htrim

/-! ## The families of keys -/

/-- A block of a version of an object; the other families leave out what they do not need. -/
@[ext] structure BlockRef where
  bucket : Bytes
  key : Bytes
  tag : EntityTag
  blockSize : ℤ
  blockIdx : ℤ

inductive KeyFamily where
  | metadata
  | tombstone
  | body
  | block
deriving DecidableEq

def KeyFamily.keyOf (x : BlockRef) : KeyFamily → Bytes
  | metadata => makeMetaKey x.bucket x.key
  | tombstone => makeTombstoneKey x.bucket x.key
  | body => makeBodyKey x.bucket x.key x.tag.value
  | block => makeBlockKey x.bucket x.key x.tag.value x.blockSize x.blockIdx

namespace BlockRef

/-- The keys of the two tell apart all that they name. -/
structure Separated (x y : BlockRef) : Prop where
  metadata : KeyFamily.metadata.keyOf x = KeyFamily.metadata.keyOf y →
    x.bucket = y.bucket ∧ x.key = y.key
  tombstone : KeyFamily.tombstone.keyOf x = KeyFamily.tombstone.keyOf y →
    x.bucket = y.bucket ∧ x.key = y.key
  body : KeyFamily.body.keyOf x = KeyFamily.body.keyOf y →
    x.bucket = y.bucket ∧ x.key = y.key ∧ x.tag = y.tag
  block : KeyFamily.block.keyOf x = KeyFamily.block.keyOf y → x = y
  disjoint : ∀ f g : KeyFamily, f ≠ g → f.keyOf x ≠ g.keyOf y

/-- `y`'s key goes on where `x`'s key ends, with a bar, and `x`'s tag has the rest of it
before `y`'s tag. -/
def RunsInto (x y : BlockRef) : Prop :=
  ∃ m, y.key = x.key ++ byte '|' :: m ∧ x.tag.unquoted = m ++ byte '|' :: y.tag.unquoted

/-- A weak tag, and a strong one with the marker in its text. -/
def MarkerInText (s t : EntityTag) : Prop :=
  s.weak = true ∧ t.weak = false ∧ t.text = ascii "W/" ++ s.text

/-- What the keys of bodies and blocks do not tell apart. -/
def Confused (x y : BlockRef) : Prop :=
  x.bucket = y.bucket ∧
    (x.key = y.key ∧ (MarkerInText x.tag y.tag ∨ MarkerInText y.tag x.tag) ∨
      RunsInto x y ∨ RunsInto y x)

variable {x y : BlockRef}

theorem bar_not_mem_formatInt (n : ℤ) : byte '|' ∉ formatInt n := by
  intro hmem
  rcases mem_formatInt hmem with hminus | ⟨-, hhigh⟩
  · exact absurd hminus (by decide)
  · exact absurd hhigh (by decide)

theorem unquoted_eq_iff {s t : EntityTag} :
    s.unquoted = t.unquoted ↔ s = t ∨ MarkerInText s t ∨ MarkerInText t s := by
  obtain ⟨weak, text, hs⟩ := s
  obtain ⟨weak', text', ht⟩ := t
  cases weak <;> cases weak' <;>
    simp [EntityTag.unquoted, EntityTag.marker, MarkerInText, eq_comm]

/-- An object's key and a version's tag, joined. -/
theorem joined_eq_iff :
    x.key ++ byte '|' :: x.tag.unquoted = y.key ++ byte '|' :: y.tag.unquoted ↔
      x.key = y.key ∧ x.tag.unquoted = y.tag.unquoted ∨ RunsInto x y ∨ RunsInto y x :=
  append_cons_eq_iff

theorem body_eq_iff (hx : byte '|' ∉ x.bucket) (hy : byte '|' ∉ y.bucket) :
    KeyFamily.body.keyOf x = KeyFamily.body.keyOf y ↔ x.bucket = y.bucket ∧
      x.key ++ byte '|' :: x.tag.unquoted = y.key ++ byte '|' :: y.tag.unquoted := by
  simp only [KeyFamily.keyOf, makeBodyKey, if_neg (EntityTag.value_ne_nil _),
    etagKeyComponent_value]
  constructor
  · intro h
    exact eq_of_append_cons hx hy (List.append_cancel_left h)
  · rintro ⟨hbucket, hrest⟩
    rw [hbucket, hrest]

theorem block_eq_iff (hx : byte '|' ∉ x.bucket) (hy : byte '|' ∉ y.bucket) :
    KeyFamily.block.keyOf x = KeyFamily.block.keyOf y ↔
      KeyFamily.body.keyOf x = KeyFamily.body.keyOf y ∧ x.blockSize = y.blockSize ∧
        x.blockIdx = y.blockIdx := by
  rw [body_eq_iff hx hy]
  simp only [KeyFamily.keyOf, makeBlockKey, etagKeyComponent_value]
  constructor
  · intro h
    obtain ⟨hbucket, hrest⟩ := eq_of_append_cons hx hy (List.append_cancel_left h)
    -- the two numbers are cut off from the right, where no bar can be mistaken
    simp only [← List.cons_append, ← List.append_assoc] at hrest
    obtain ⟨hrest, hidx⟩ := eq_of_append_cons_last (bar_not_mem_formatInt _)
      (bar_not_mem_formatInt _) hrest
    obtain ⟨hrest, hsize⟩ := eq_of_append_cons_last (bar_not_mem_formatInt _)
      (bar_not_mem_formatInt _) hrest
    exact ⟨⟨hbucket, hrest⟩, formatInt_injective hsize, formatInt_injective hidx⟩
  · rintro ⟨⟨hbucket, hrest⟩, hsize, hidx⟩
    have hjoined := congrArg (· ++ byte '|' :: (formatInt y.blockSize ++ byte '|' ::
      formatInt y.blockIdx)) hrest
    simp only [List.append_assoc, List.cons_append] at hjoined
    rw [hbucket, hsize, hidx, hjoined]

theorem disjoint_families (x y : BlockRef) (f g : KeyFamily) (h : f ≠ g) : f.keyOf x ≠ g.keyOf y := by
  intro hkeys
  have hprefix := congrArg (List.take 3) hkeys
  cases f <;> cases g <;>
    first
      | exact h rfl
      | simp [KeyFamily.keyOf, makeMetaKey, makeTombstoneKey, makeBodyKey, makeBlockKey,
          metaKeyPrefix, bodyKeyPrefix, blockKeyPrefix, EntityTag.value_ne_nil, ascii] at hprefix

theorem MarkerInText.ne {s t : EntityTag} (h : MarkerInText s t) : s ≠ t := by
  rintro rfl
  exact absurd (h.1.symm.trans h.2.1) (by simp)

theorem RunsInto.key_ne (h : RunsInto x y) : x.key ≠ y.key := by
  obtain ⟨m, hkey, -⟩ := h
  intro heq
  have hlength := congrArg List.length (heq.trans hkey)
  simp at hlength

/-- The confused are those whose bodies share a key and that are not the same version. -/
theorem confused_iff (hx : byte '|' ∉ x.bucket) (hy : byte '|' ∉ y.bucket) :
    Confused x y ↔ KeyFamily.body.keyOf x = KeyFamily.body.keyOf y ∧
      ¬ (x.bucket = y.bucket ∧ x.key = y.key ∧ x.tag = y.tag) := by
  rw [body_eq_iff hx hy, joined_eq_iff, unquoted_eq_iff]
  constructor
  · rintro ⟨hbucket, ⟨hkey, hmarker | hmarker⟩ | hruns | hruns⟩
    · exact ⟨⟨hbucket, .inl ⟨hkey, .inr (.inl hmarker)⟩⟩, fun hsame => hmarker.ne hsame.2.2⟩
    · exact ⟨⟨hbucket, .inl ⟨hkey, .inr (.inr hmarker)⟩⟩, fun hsame => hmarker.ne hsame.2.2.symm⟩
    · exact ⟨⟨hbucket, .inr (.inl hruns)⟩, fun hsame => hruns.key_ne hsame.2.1⟩
    · exact ⟨⟨hbucket, .inr (.inr hruns)⟩, fun hsame => hruns.key_ne hsame.2.1.symm⟩
  · rintro ⟨⟨hbucket, ⟨hkey, htag | hmarker⟩ | hruns⟩, hne⟩
    · exact absurd ⟨hbucket, hkey, htag⟩ hne
    · exact ⟨hbucket, .inl ⟨hkey, hmarker⟩⟩
    · exact ⟨hbucket, .inr hruns⟩

/-- Two blocks of two versions of two objects are separated by their keys, in every family
and across families, unless a tag with a bar or a strong tag that begins like a weak one
makes the keys of their bodies the same. -/
theorem keys_separate_iff (hx : validateBucketName x.bucket = none)
    (hy : validateBucketName y.bucket = none) : Separated x y ↔ ¬ Confused x y := by
  have hxbar := bar_not_mem_of_validateBucketName hx
  have hybar := bar_not_mem_of_validateBucketName hy
  rw [confused_iff hxbar hybar]
  constructor
  · rintro h ⟨hbody, hne⟩
    exact hne (h.body hbody)
  · intro h
    have hbody : KeyFamily.body.keyOf x = KeyFamily.body.keyOf y →
        x.bucket = y.bucket ∧ x.key = y.key ∧ x.tag = y.tag :=
      fun hkeys => by_contra fun hne => h ⟨hkeys, hne⟩
    constructor
    case metadata =>
      intro hkeys
      exact eq_of_append_cons hxbar hybar (List.append_cancel_left hkeys)
    case tombstone =>
      intro hkeys
      exact eq_of_append_cons hxbar hybar (List.append_cancel_left hkeys)
    case body => exact hbody
    case block =>
      intro hkeys
      obtain ⟨hkeys, hsize, hidx⟩ := (block_eq_iff hxbar hybar).mp hkeys
      obtain ⟨hbucket, hkey, htag⟩ := hbody hkeys
      exact BlockRef.ext hbucket hkey htag hsize hidx
    case disjoint => exact disjoint_families x y

def sampleBlock (key : String) (weak : Bool) (text : String)
    (h : (ascii text).all isETagChar = true) : BlockRef :=
  ⟨ascii "bkt", ascii key, ⟨weak, ascii text, h⟩, 4096, 0⟩

theorem keys_separate_versions :
    Separated (sampleBlock "a|b" false "c" (by decide)) (sampleBlock "a|b" true "c" (by decide)) := by
  refine (keys_separate_iff (by decide) (by decide)).mpr ?_
  rintro ⟨-, ⟨-, hmarker | hmarker⟩ | hruns | hruns⟩
  · exact absurd hmarker.1 (by decide)
  · exact absurd hmarker.2.2 (by decide)
  · exact hruns.key_ne rfl
  · exact hruns.key_ne rfl

/-- The weak tag `W/"a"` and the strong tag `"W/a"` of one object name one body and one
block. -/
theorem weak_tag_shares_keys_of_strong :
    ∃ x y : BlockRef, validateBucketName x.bucket = none ∧ validateBucketName y.bucket = none ∧
      x.tag.value = ascii "W/\"a\"" ∧ y.tag.value = ascii "\"W/a\"" ∧
      KeyFamily.body.keyOf x = KeyFamily.body.keyOf y ∧
      KeyFamily.block.keyOf x = KeyFamily.block.keyOf y ∧ ¬ Separated x y := by
  refine ⟨sampleBlock "k" true "a" (by decide), sampleBlock "k" false "W/a" (by decide),
    by decide, by decide, by decide, by decide, by decide, by decide, ?_⟩
  intro h
  have hsame := (h.body (by decide)).2.2
  exact absurd (congrArg EntityTag.weak hsame) (by decide)

end BlockRef

end TagGateway.Cache
