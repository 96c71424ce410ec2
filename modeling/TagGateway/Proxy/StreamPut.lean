import TagGateway.Proxy.BlockStream

/-!
# Storing a body from a reader

A populate stores a body as it arrives and writes the metadata last; the entry is
visible from then on. A whole body goes to the store in one put, which ends when
the reader does. A large one is cut into blocks, each read to its exact length
before it is put.
-/
namespace TagGateway.Proxy

open Foundation Cache

/-- How the store answers. A put of a body is over when its reader ends, and fails
when the reader fails; a bare `unexpectedEOF` may pass for the end. `commit` is
what the conditional metadata write came to. -/
structure StoreEnv where
  enabled : Bool := true
  encodes : Bool := true
  putBody : Option ℕ := none
  takesUnexpectedEOF : Bool := false
  putBlock : ℤ → Option ℕ := fun _ => none
  commit : Except ℕ Bool := .ok true

inductive PutError where
  | reader (err : ReadError)
  | store (code : ℕ)
  | encode
  | bodyLengthMismatch
  | blockShortRead (idx : ℤ) (err : ReadError)
  | longerThanContentLength
deriving DecidableEq

inductive StoredBody where
  | whole (body : Bytes)
  | blocks (parts : List (ℤ × Bytes))
deriving DecidableEq

structure Publication where
  metadata : CachedObjectMeta
  stored : StoredBody
deriving DecidableEq

structure PutResult where
  published : Option Publication := none
  err : Option PutError := none
deriving DecidableEq

namespace StoreEnv

variable (env : StoreEnv) (m : CachedObjectMeta)

/-- The endings of a reader that the store takes for the end of the value. -/
def takesAsEnd (e : ReadError) : Bool :=
  e == .eof || (env.takesUnexpectedEOF && e == .unexpectedEOF)

def putStream (src : Source UInt8) : Except PutError Bytes :=
  match env.putBody with
  | some code => .error (.store code)
  | none => if env.takesAsEnd src.ending then .ok src.rest else .error (.reader src.ending)

def putMetaVersioned (stored : StoredBody) : PutResult :=
  match env.commit with
  | .error code => { err := some (.store code) }
  | .ok wrote => { published := if wrote then some ⟨m, stored⟩ else none }

def putWithMetaStreamIfVersion (src : Source UInt8) : PutResult :=
  if !env.enabled then {}
  else if m.etag = [] then {}
  else if !env.encodes then { err := some .encode }
  else
    match env.putStream src with
    | .error e => { err := some e }
    | .ok body =>
      if 0 ≤ m.contentLength ∧ (body.length : ℤ) ≠ m.contentLength then
        { err := some .bodyLengthMismatch }
      else env.putMetaVersioned m (.whole body)

def putMetaIfVersion (stored : StoredBody) : PutResult :=
  if !env.enabled then {}
  else if m.etag = [] then {}
  else if !env.encodes then { err := some .encode }
  else env.putMetaVersioned m stored

def putBlocks : List ℤ → Source UInt8 → Except PutError (List (ℤ × Bytes) × Source UInt8)
  | [], src => .ok ([], src)
  | idx :: idxs, src =>
    let (bStart, bEnd) := blockBounds idx m.blockSize m.contentLength
    match src.readFull (bEnd - bStart + 1).toNat with
    | (.error e, _) => .error (.blockShortRead idx e)
    | (.ok data, src) =>
      match env.putBlock idx with
      | some code => .error (.store code)
      | none => (putBlocks idxs src).map fun p => ((idx, data) :: p.1, p.2)

/-- The blocks, then a probe for a byte too many, then the metadata. -/
def putBlocksFromStream (src : Source UInt8) : PutResult :=
  match env.putBlocks m (blockIndices 0 ((m.contentLength - 1).tdiv m.blockSize)) src with
  | .error e => { err := some e }
  | .ok (parts, src) =>
    match (src.readFull 1).1 with
    | .error .eof => env.putMetaIfVersion { m with blocksComplete := true } (.blocks parts)
    | _ => { err := some .longerThanContentLength }

def putFullObject (cfg : Config) (src : Source UInt8) : PutResult :=
  if isBlockEligibleSize cfg m.contentLength then
    env.putBlocksFromStream { m with blockSize := cfg.blockSize } src
  else env.putWithMetaStreamIfVersion m src

end StoreEnv

/-- The entry is this body: as it is, or cut into its blocks, in order and each of
its exact length. A length it declares is the body's. -/
structure Publication.Holds (p : Publication) (body : Bytes) : Prop where
  whole : ∀ stored, p.stored = .whole stored → stored = body
  blocks : ∀ parts, p.stored = .blocks parts →
    parts.map Prod.fst = blockIndices 0 ((p.metadata.contentLength - 1).tdiv p.metadata.blockSize) ∧
    (parts.map Prod.snd).flatten = body ∧
    ∀ part ∈ parts,
      (part.2.length : ℤ) = (blockBounds part.1 p.metadata.blockSize p.metadata.contentLength).2 -
        (blockBounds part.1 p.metadata.blockSize p.metadata.contentLength).1 + 1
  length : 0 ≤ p.metadata.contentLength → (body.length : ℤ) = p.metadata.contentLength

/-- An entry holds one body. -/
theorem Publication.Holds.unique {p : Publication} {body body' : Bytes} (h : p.Holds body)
    (h' : p.Holds body') : body = body' := by
  cases hstored : p.stored with
  | whole stored => exact (h.whole stored hstored).symm.trans (h'.whole stored hstored)
  | blocks parts =>
    exact (h.blocks parts hstored).2.1.symm.trans (h'.blocks parts hstored).2.1

namespace StoreEnv

variable {env : StoreEnv} {m : CachedObjectMeta} {src : Source UInt8} {p : Publication}

theorem putStream_ok {body : Bytes} (h : env.putStream src = .ok body) :
    body = src.rest ∧ env.takesAsEnd src.ending = true := by
  unfold putStream at h
  split at h
  · cases h
  · split at h
    · rename_i hend
      cases h
      exact ⟨rfl, hend⟩
    · cases h

theorem putMetaVersioned_published {stored : StoredBody}
    (h : (env.putMetaVersioned m stored).published = some p) : p = ⟨m, stored⟩ := by
  unfold putMetaVersioned at h
  split at h
  · cases h
  · dsimp only at h
    split at h
    · cases h
      rfl
    · cases h

theorem putMetaIfVersion_published {stored : StoredBody}
    (h : (env.putMetaIfVersion m stored).published = some p) : p = ⟨m, stored⟩ := by
  unfold putMetaIfVersion at h
  split at h
  · cases h
  split at h
  · cases h
  split at h
  · cases h
  · exact putMetaVersioned_published h

/-- A whole body becomes visible as it was read, with the declared length if there
is one, from a reader whose ending the store takes for the end. -/
theorem putWithMetaStreamIfVersion_published
    (h : (env.putWithMetaStreamIfVersion m src).published = some p) :
    p = ⟨m, .whole src.rest⟩ ∧ env.takesAsEnd src.ending = true ∧
      (0 ≤ m.contentLength → (src.rest.length : ℤ) = m.contentLength) := by
  unfold putWithMetaStreamIfVersion at h
  split at h
  · cases h
  split at h
  · cases h
  split at h
  · cases h
  split at h
  · cases h
  · rename_i body hput
    obtain ⟨rfl, hend⟩ := putStream_ok hput
    split at h
    · cases h
    · rename_i hlen
      refine ⟨putMetaVersioned_published h, hend, fun hknown => ?_⟩
      by_contra hne
      exact hlen ⟨hknown, hne⟩

theorem putBlocks_ok (idxs : List ℤ) :
    ∀ {src src' parts}, env.putBlocks m idxs src = .ok (parts, src') →
      parts.map Prod.fst = idxs ∧ src.rest = (parts.map Prod.snd).flatten ++ src'.rest ∧
      src'.ending = src.ending ∧
      ∀ part ∈ parts, part.2.length =
        ((blockBounds part.1 m.blockSize m.contentLength).2 -
          (blockBounds part.1 m.blockSize m.contentLength).1 + 1).toNat := by
  induction idxs with
  | nil =>
    intro src src' parts h
    cases h
    simp
  | cons idx idxs ih =>
    intro src src' parts h
    rw [putBlocks] at h
    dsimp only at h
    split at h
    · cases h
    · rename_i data src₁ hread
      obtain ⟨hrest, hlen⟩ := Source.readFull_ok hread
      have hending := Source.readFull_ending hread
      split at h
      · cases h
      · generalize hput : putBlocks env m idxs src₁ = result at h
        cases result with
        | error e => cases h
        | ok rest =>
          cases h
          obtain ⟨hidxs, hrest', hending', hlens⟩ := ih hput
          refine ⟨?_, ?_, hending'.trans hending, ?_⟩
          · rw [List.map_cons, hidxs]
          · rw [hrest, hrest', List.map_cons, List.flatten_cons, List.append_assoc]
          · intro part hpart
            rcases List.mem_cons.mp hpart with rfl | hpart
            · exact hlen
            · exact hlens part hpart

/-- Blocks of their exact lengths, from block `i` to the last, reach to the end of
the object. -/
theorem length_parts (hbs : 0 < m.blockSize) (count : ℕ) :
    ∀ {i : ℤ} {parts : List (ℤ × Bytes)}, 0 ≤ i → i + count = (m.contentLength - 1).tdiv m.blockSize + 1 →
      0 < m.contentLength → parts.map Prod.fst = blocksFrom i count →
      (∀ part ∈ parts, part.2.length =
        ((blockBounds part.1 m.blockSize m.contentLength).2 -
          (blockBounds part.1 m.blockSize m.contentLength).1 + 1).toNat) →
      ((parts.map Prod.snd).flatten.length : ℤ) =
        m.contentLength - min (i * m.blockSize) m.contentLength := by
  induction count with
  | zero =>
    intro i parts hi hcount hpos hidxs hlens
    have hpast : m.contentLength - 1 < i * m.blockSize := by
      rw [Int.tdiv_eq_ediv_of_nonneg (by omega)] at hcount
      exact Int.lt_mul_of_ediv_lt hbs (by omega)
    have hnil : parts = [] := List.map_eq_nil_iff.mp hidxs
    simp only [hnil, List.map_nil, List.flatten_nil, List.length_nil]
    omega
  | succ count ih =>
    intro i parts hi hcount hpos hidxs hlens
    cases parts with
    | nil => cases hidxs
    | cons part parts =>
      rw [List.map_cons, blocksFrom, List.cons.injEq] at hidxs
      obtain ⟨rfl, hidxs⟩ := hidxs
      rw [List.forall_mem_cons] at hlens
      obtain ⟨hlen, hlens⟩ := hlens
      have hrest := ih (by omega) (by omega) hpos hidxs hlens
      have hfrom : part.1 * m.blockSize ≤ m.contentLength - 1 := by
        rw [Int.tdiv_eq_ediv_of_nonneg (by omega)] at hcount
        exact (Int.le_ediv_iff_mul_le hbs).mp (by omega)
      have hmul : (part.1 + 1) * m.blockSize = part.1 * m.blockSize + m.blockSize := by
        rw [Int.add_mul, Int.one_mul]
      simp only [blockBounds] at hlen
      rw [hmul] at hrest
      rw [List.map_cons, List.flatten_cons, List.length_append]
      push_cast
      omega

/-- Blocks become visible when the reader ended after the declared length. -/
theorem putBlocksFromStream_published (hbs : 0 < m.blockSize) (hpos : 0 < m.contentLength)
    (h : (env.putBlocksFromStream m src).published = some p) :
    p.Holds src.rest ∧ src.ending = .eof ∧ p.metadata = { m with blocksComplete := true } := by
  unfold putBlocksFromStream at h
  split at h
  · cases h
  · rename_i parts src' hblocks
    obtain ⟨hidxs, hrest, hending, hlens⟩ := putBlocks_ok _ hblocks
    split at h
    · rename_i hprobe
      obtain ⟨hnil, heof⟩ := Source.readFull_eof hprobe
      obtain rfl := putMetaIfVersion_published h
      rw [hnil, List.append_nil] at hrest
      have hlast : 0 ≤ (m.contentLength - 1).tdiv m.blockSize :=
        Int.tdiv_nonneg (by omega) hbs.le
      have hlength := length_parts hbs _ le_rfl (by omega) hpos hidxs hlens
      refine ⟨⟨?_, ?_, ?_⟩, hending ▸ heof, rfl⟩
      · intro stored hstored
        cases hstored
      · intro parts' hparts
        cases hparts
        refine ⟨hidxs, hrest.symm, fun part hpart => ?_⟩
        have hexact := hlens part hpart
        have hmem : part.1 ∈ parts.map Prod.fst := List.mem_map_of_mem hpart
        rw [hidxs] at hmem
        have hcovered : part.1 * m.blockSize ≤ m.contentLength - 1 := by
          have hbounds := mem_blocksFrom.mp hmem
          rw [Int.tdiv_eq_ediv_of_nonneg (by omega)] at hbounds hlast
          exact (Int.le_ediv_iff_mul_le hbs).mp (by omega)
        simp only [blockBounds] at hexact ⊢
        omega
      · intro _
        rw [hrest, hlength]
        simp
        omega
    · cases h

/-- What any full body's publication says about its reader: it holds what was
read, and the reader ended cleanly, unless a whole body was put by a store that
takes a bare `unexpectedEOF` for the end. -/
theorem putFullObject_published {cfg : Config}
    (h : (env.putFullObject m cfg src).published = some p) :
    p.metadata = asStored cfg m ∧ p.Holds src.rest ∧
      (src.ending = .eof ∨ src.ending = .unexpectedEOF ∧ env.takesUnexpectedEOF = true ∧
        isBlockEligibleSize cfg m.contentLength = false) := by
  unfold putFullObject at h
  unfold asStored
  split at h
  · rename_i hblock
    have hsizes : 0 < cfg.blockSize ∧ cfg.blockSize ≤ m.contentLength := by
      simp only [isBlockEligibleSize, Bool.and_eq_true, decide_eq_true_eq] at hblock
      exact ⟨hblock.1.2, hblock.2⟩
    obtain ⟨hholds, hend, hmeta⟩ := putBlocksFromStream_published
      (m := { m with blockSize := cfg.blockSize }) hsizes.1 (hsizes.1.trans_le hsizes.2) h
    rw [if_pos hblock]
    exact ⟨hmeta, hholds, .inl hend⟩
  · rename_i hwhole
    obtain ⟨rfl, hend, hlength⟩ := putWithMetaStreamIfVersion_published h
    rw [if_neg hwhole]
    refine ⟨rfl, ⟨?_, ?_, hlength⟩, ?_⟩
    · intro stored hstored
      cases hstored
      rfl
    · intro parts hparts
      cases hparts
    · simp only [takesAsEnd, Bool.or_eq_true, Bool.and_eq_true, beq_iff_eq] at hend
      rcases hend with heof | ⟨htakes, hcut⟩
      · exact .inl heof
      · exact .inr ⟨hcut, htakes, by simpa using hwhole⟩

/-! Every body that looks complete is published by some store. -/

/-- A store that refuses nothing and takes either ending. -/
def willing : StoreEnv where
  takesUnexpectedEOF := true

theorem putBlocks_willing (hbs : 0 < m.blockSize) (hpos : 0 < m.contentLength) (count : ℕ) :
    ∀ {i : ℤ} (src : Source UInt8), 0 ≤ i →
      i + count = (m.contentLength - 1).tdiv m.blockSize + 1 →
      (src.rest.length : ℤ) = m.contentLength - min (i * m.blockSize) m.contentLength →
      ∃ parts, willing.putBlocks m (blocksFrom i count) src = .ok (parts, { src with rest := [] }) := by
  induction count with
  | zero =>
    intro i src hi hcount hlen
    have hpast : m.contentLength - 1 < i * m.blockSize := by
      rw [Int.tdiv_eq_ediv_of_nonneg (by omega)] at hcount
      exact Int.lt_mul_of_ediv_lt hbs (by omega)
    have hnil : src.rest = [] := List.eq_nil_of_length_eq_zero (by omega)
    refine ⟨[], ?_⟩
    rw [← hnil]
    rfl
  | succ count ih =>
    intro i src hi hcount hlen
    have hfrom : i * m.blockSize ≤ m.contentLength - 1 := by
      rw [Int.tdiv_eq_ediv_of_nonneg (by omega)] at hcount
      exact (Int.le_ediv_iff_mul_le hbs).mp (by omega)
    have hmul : (i + 1) * m.blockSize = i * m.blockSize + m.blockSize := by
      rw [Int.add_mul, Int.one_mul]
    generalize hwant : ((blockBounds i m.blockSize m.contentLength).2 -
      (blockBounds i m.blockSize m.contentLength).1 + 1).toNat = want
    have hsize : (want : ℤ) = min m.blockSize (m.contentLength - i * m.blockSize) := by
      simp only [blockBounds] at hwant
      omega
    have hroom : want ≤ src.rest.length := by omega
    have hrest : ((src.rest.drop want).length : ℤ) =
        m.contentLength - min ((i + 1) * m.blockSize) m.contentLength := by
      rw [List.length_drop, hmul]
      omega
    obtain ⟨parts, hparts⟩ := ih { src with rest := src.rest.drop want } (by omega)
      (by omega) hrest
    refine ⟨(i, src.rest.take want) :: parts, ?_⟩
    rw [blocksFrom, putBlocks]
    dsimp only
    rw [hwant, Source.readFull, if_pos hroom]
    dsimp only [willing] at hparts ⊢
    rw [hparts]
    rfl

theorem putFullObject_willing {cfg : Config} (hetag : m.etag ≠ [])
    (hlen : m.contentLength < 0 ∨ (src.rest.length : ℤ) = m.contentLength)
    (hend : src.ending = .eof ∨
      src.ending = .unexpectedEOF ∧ isBlockEligibleSize cfg m.contentLength = false) :
    ∃ p, (willing.putFullObject m cfg src).published = some p := by
  unfold putFullObject
  split
  · rename_i hblock
    have hsizes : 0 < cfg.blockSize ∧ cfg.blockSize ≤ m.contentLength := by
      simp only [isBlockEligibleSize, Bool.and_eq_true, decide_eq_true_eq] at hblock
      exact ⟨hblock.1.2, hblock.2⟩
    have heof : src.ending = .eof := by
      rcases hend with heof | ⟨-, hwhole⟩
      · exact heof
      · exact absurd (hblock.symm.trans hwhole) (by simp)
    have hlast : 0 ≤ (m.contentLength - 1).tdiv cfg.blockSize :=
      Int.tdiv_nonneg (by omega) hsizes.1.le
    obtain ⟨parts, hparts⟩ := putBlocks_willing (m := { m with blockSize := cfg.blockSize })
      hsizes.1 (hsizes.1.trans_le hsizes.2)
      ((m.contentLength - 1).tdiv cfg.blockSize - 0 + 1).toNat src le_rfl (by dsimp only; omega)
      (by dsimp only; omega)
    refine ⟨⟨{ { m with blockSize := cfg.blockSize } with blocksComplete := true },
      .blocks parts⟩, ?_⟩
    rw [putBlocksFromStream, blockIndices, hparts]
    simp [Source.readFull, heof, putMetaIfVersion, putMetaVersioned, willing, hetag]
  · refine ⟨⟨m, .whole src.rest⟩, ?_⟩
    have htakes : willing.takesAsEnd src.ending = true := by
      rcases hend with heof | ⟨hcut, -⟩
      · simp [takesAsEnd, heof]
      · simp [takesAsEnd, hcut, willing]
    have hguard : ¬ (0 ≤ m.contentLength ∧ (src.rest.length : ℤ) ≠ m.contentLength) := by omega
    have hput : willing.putStream src = .ok src.rest := by
      simp only [putStream, htakes, if_true]
      rfl
    rw [putWithMetaStreamIfVersion, hput]
    simp [hetag, hguard, putMetaVersioned, willing]

end StoreEnv
end TagGateway.Proxy
