import TagGateway.Proxy.BlockStreamExact
import TagGateway.Proxy.RangeCertificates

/-!
# Prefetching a Parquet footer

A read that reaches the end of a Parquet object fetches the blocks of the object's metadata
ahead of the reader. The scans run detached, a bounded number at once and one per version.
-/
namespace TagGateway.Proxy.ParquetPrefetch

open Foundation Cache

def tailBlock (m : CachedObjectMeta) : ℤ := (m.contentLength - 1).tdiv m.blockSize

/-- The blocks to fetch, the last ones when there are too many. The read that fired a
prefetch has produced the tail block. -/
def parquetFooterBlocks (m : CachedObjectMeta) (footerLen : ℤ) (tailServedByCaller : Bool) :
    List ℤ :=
  let lastWanted := if tailServedByCaller then tailBlock m - 1 else tailBlock m
  let firstBlock := max 0 ((m.contentLength - parquetTrailerSize - footerLen).tdiv m.blockSize)
  if lastWanted < firstBlock then []
  else if maxParquetFooterPrefetchBlocks < lastWanted - firstBlock + 1 then
    blockIndices (lastWanted - maxParquetFooterPrefetchBlocks + 1) lastWanted
  else blockIndices firstBlock lastWanted

/-- The blocks that the warmer asks for after a write, which no read has served. -/
theorem parquetFooterBlocks_unserved (m : CachedObjectMeta) (footerLen : ℤ) :
    parquetFooterBlocks m footerLen false = Proxy.parquetFooterBlocks m footerLen := by
  have hblocks : ∀ n i, blocksFrom i n = (List.range n).map fun k => i + (k : ℤ) := by
    intro n
    simp only [List.bind_eq_flatMap, List.pure_def, ← List.map_eq_flatMap, List.map_map]
    induction n with
    | zero => exact fun i => rfl
    | succ n ih =>
      intro i
      rw [blocksFrom, ih, List.range_succ_eq_map]
      simp [Int.add_assoc, Int.add_comm 1]
  simp only [parquetFooterBlocks, Proxy.parquetFooterBlocks, tailBlock, blockIndices, hblocks,
    Bool.false_eq_true, if_false]
  have hmax : maxParquetFooterPrefetchBlocks = 32 := rfl
  split_ifs
  · omega
  · rw [Int.toNat_of_nonpos (by omega)]
    rfl
  all_goals rfl

theorem parseParquetTrailer_bounds {buf : Bytes} {contentLength footerLen : ℤ}
    (h : parseParquetTrailer buf contentLength = some footerLen) :
    0 < footerLen ∧ footerLen ≤ contentLength - 8 := by
  unfold parseParquetTrailer at h
  split at h
  · simp only [Option.ite_none_right_eq_some, Option.some.injEq] at h
    obtain ⟨⟨-, hpos, hle⟩, rfl⟩ := h
    exact ⟨hpos, hle⟩
  · cases h

/-- The byte belongs to the metadata or the trailer. -/
def InFooter (m : CachedObjectMeta) (footerLen x : ℤ) : Prop :=
  m.contentLength - 8 - footerLen ≤ x ∧ x ≤ m.contentLength - 1

section

variable (m : CachedObjectMeta) {buf : Bytes} {footerLen : ℤ} (hbs : 0 < m.blockSize)
  (hparse : parseParquetTrailer buf m.contentLength = some footerLen) (served : Bool)

include hbs hparse

theorem parquetFooterBlocks_spec :
    (parquetFooterBlocks m footerLen served).length ≤ 32 ∧
    ∀ i, i ∈ parquetFooterBlocks m footerLen served ↔
      (∃ x, InFooter m footerLen x ∧ x / m.blockSize = i) ∧
      (served = true → i ≠ tailBlock m) ∧ tailBlock m < i + 32 + served.toNat := by
  obtain ⟨hpos, hle⟩ := parseParquetTrailer_bounds hparse
  have hbyte : ∀ i, (m.contentLength - 8 - footerLen).tdiv m.blockSize ≤ i ∧ i ≤ tailBlock m ↔
      ∃ x, InFooter m footerLen x ∧ x / m.blockSize = i := by
    intro i
    simp only [InFooter, and_assoc]
    exact @RangeCertificates.touched_iff_holds_byte m.blockSize i ⟨_, _⟩ hbs
      (show 0 ≤ m.contentLength - 8 - footerLen by omega)
      (show m.contentLength - 8 - footerLen ≤ m.contentLength - 1 by omega)
  have hfirst := Int.tdiv_nonneg (show 0 ≤ m.contentLength - 8 - footerLen by omega) hbs.le
  simp only [← hbyte, parquetFooterBlocks, parquetTrailerSize, maxParquetFooterPrefetchBlocks,
    max_eq_right hfirst]
  generalize (m.contentLength - 8 - footerLen).tdiv m.blockSize = first
  generalize tailBlock m = tail
  cases served
  all_goals
    simp only [Bool.false_eq_true, false_implies, forall_const, if_false, if_true, true_and,
      Bool.toNat_true, Bool.toNat_false]
    split_ifs
    · exact ⟨by simp, fun i => by simp; omega⟩
    all_goals
      simp only [blockIndices, length_blocksFrom, mem_blocksFrom]
      exact ⟨by omega, fun i => by omega⟩

/-- In whatever order the fetches of `ensureParquetFooterBlocks` end, they are for at most 32
blocks, each with a byte of the footer, not found by its probe and not served before. If the
group reports no error, the block of every byte of the footer, but for those before the last
32, was served, found, or fetched and stored. -/
theorem footer_scan_covers (present : ℤ → Bool) {ls : List FetchGroup.Label}
    {g : FetchGroup.Group}
    (hrun : run (FetchGroup.step (FetchGroup.toCache m))
      (.start ((parquetFooterBlocks m footerLen served).filter (!present ·))) ls = some g)
    (hdrained : g.drained) :
    g.endings.length ≤ 32 ∧
    (∀ e ∈ g.endings, present e.1 = false ∧ (served = true → e.1 ≠ tailBlock m) ∧
      ∃ x, InFooter m footerLen x ∧ x / m.blockSize = e.1) ∧
    (g.result = none → ∀ x, InFooter m footerLen x →
      tailBlock m < x / m.blockSize + 32 + served.toNat →
      served = true ∧ x / m.blockSize = tailBlock m ∨ present (x / m.blockSize) = true ∨
        ∃ f, (x / m.blockSize, .fetched f) ∈ g.endings ∧
          f.cacheResult m (x / m.blockSize) = none) := by
  obtain ⟨hlength, hmem⟩ := parquetFooterBlocks_spec m hbs hparse served
  have hsound := FetchGroup.Sound.along_run hrun
  have hperm := hsound.endings_perm hdrained
  refine ⟨?_, fun e he => ?_, fun hdone x hx hlast => ?_⟩
  · rw [← List.length_map, hperm.length_eq]
    exact (List.length_filter_le _ _).trans hlength
  · have hwanted := List.mem_filter.mp (hperm.mem_iff.mp (List.mem_map_of_mem he))
    obtain ⟨hbyte, htail, -⟩ := (hmem e.1).mp hwanted.1
    exact ⟨by simpa using hwanted.2, htail, hbyte⟩
  · by_cases htail : served = true ∧ x / m.blockSize = tailBlock m
    · exact .inl htail
    · have hwanted := (hmem (x / m.blockSize)).mpr
        ⟨⟨x, hx, rfl⟩, fun hserved heq => htail ⟨hserved, heq⟩, hlast⟩
      cases hpresent : present (x / m.blockSize) with
      | true => exact .inr (.inl rfl)
      | false =>
        have habsent : x / m.blockSize ∈
            (parquetFooterBlocks m footerLen served).filter (!present ·) :=
          List.mem_filter.mpr ⟨hwanted, by simp [hpresent]⟩
        exact .inr (.inr (hsound.result_none hdrained hdone habsent))

end

/-- An object of 16 bytes in two blocks, of which 5 bytes are metadata. The read of the end
fetches the block before the tail. -/
theorem footer_scan_covers_open :
    ∃ g, run (FetchGroup.step (FetchGroup.toCache RangeCertificates.twoBlockEntry)) (.start [0])
        [.check, .go, .enter 0, .settle 0 .present] = some g ∧ g.drained ∧ g.result = none ∧
      g.endings.length ≤ 32 :=
  (exists_run_of_any (p := fun g => g.drained ∧ g.result = none) (by decide +kernel)).imp
    fun _ h => ⟨h.1, h.2.1, h.2.2, (footer_scan_covers RangeCertificates.twoBlockEntry (by decide)
      (show parseParquetTrailer [5, 0, 0, 0, 80, 65, 82, 49] 16 = some 5 by decide) true
      (fun _ => false) h.1 h.2.1).1⟩

/-! ## The scans -/

def maxConcurrentParquetFooterPrefetches : ℕ := 32

/-- What a trigger of `maybePrefetchParquetFooter`, and then its scan, does next. -/
inductive Phase where
  | checkRecent
  | acquire
  | mark
  | begin
  | scan
  | unmark
  | release
  | returned
deriving DecidableEq

variable {κ : Type} [DecidableEq κ]

structure Trigger (κ : Type) where
  version : κ
  phase : Phase := .checkRecent
  completed : Bool := false
deriving DecidableEq

def Trigger.holdsSlot (t : Trigger κ) : Bool :=
  t.phase ∈ [.mark, .begin, .scan, .unmark, .release]

def Trigger.holdsMarker (v : κ) (t : Trigger κ) : Bool :=
  t.version = v ∧ t.phase ∈ [.begin, .scan, .unmark]

/-- `slots` scans are admitted; `active` and `recent` are the markers and the cooldowns. -/
structure Scans (κ : Type) where
  slots : ℕ := 0
  active : κ → Bool := fun _ => false
  recent : κ → Bool := fun _ => false
  triggers : List (Trigger κ) := []

inductive Label (κ : Type) where
  | read (version : κ)
  | expire (version : κ)
  /-- A trigger goes on; `answer` says whether its task is admitted or its scan completes. -/
  | advance (i : ℕ) (answer : Bool)

namespace Scans

/-- One action of a trigger, with the state of the trigger after it. A release blocks while
no slot is taken. -/
def act (capacity : ℕ) (s : Scans κ) (t : Trigger κ) (answer : Bool) :
    Option (Scans κ × Trigger κ) :=
  match t.phase with
  | .checkRecent =>
    some (s, { t with phase := if s.recent t.version then .returned else .acquire })
  | .acquire =>
    if s.slots < capacity then some ({ s with slots := s.slots + 1 }, { t with phase := .mark })
    else some (s, { t with phase := .returned })
  | .mark =>
    if s.active t.version then some (s, { t with phase := .release })
    else some ({ s with active := Function.update s.active t.version true },
      { t with phase := .begin })
  | .begin => some (s, { t with phase := if answer then .scan else .unmark })
  | .scan =>
    if answer then some ({ s with recent := Function.update s.recent t.version true },
      { t with phase := .unmark, completed := true })
    else some (s, { t with phase := .unmark })
  | .unmark =>
    some ({ s with active := Function.update s.active t.version false },
      { t with phase := .release })
  | .release =>
    if s.slots = 0 then none
    else some ({ s with slots := s.slots - 1 }, { t with phase := .returned })
  | .returned => none

def step (capacity : ℕ) (s : Scans κ) : Label κ → Option (Scans κ)
  | .read v => some { s with triggers := s.triggers ++ [{ version := v }] }
  | .expire v => some { s with recent := Function.update s.recent v false }
  | .advance i answer =>
    (s.triggers[i]?).bind fun t => (s.act capacity t answer).map fun (s', t') =>
      { s' with triggers := s.triggers.set i t' }

variable {capacity : ℕ} {s s' : Scans κ} {t t' : Trigger κ}

/-- What an action takes or gives back, its trigger holds afterwards or no more. -/
structure Moves (capacity : ℕ) (s s' : Scans κ) (t t' : Trigger κ) : Prop where
  bounded : s'.slots ≤ max s.slots capacity
  slots : s'.slots + t.holdsSlot.toNat = s.slots + t'.holdsSlot.toNat
  active : ∀ v, (s'.active v).toNat + (t.holdsMarker v).toNat =
    (s.active v).toNat + (t'.holdsMarker v).toNat
  recent : ∀ v, s'.recent v = true → s.recent v = true ∨ t'.version = v ∧ t'.completed = true
  version : t'.version = t.version
  completed : t.completed = true → t'.completed = true

theorem moves_of_act {answer : Bool} (h : s.act capacity t answer = some (s', t'))
    (hactive : ∀ v, t.holdsMarker v = true → s.active v = true) : Moves capacity s s' t t' := by
  unfold act at h
  split at h
  all_goals try split at h
  all_goals cases h
  all_goals constructor
  case h_2.isTrue.refl.bounded => exact le_max_of_le_right (Nat.succ_le_of_lt ‹_›)
  case h_3.isFalse.refl.active | h_6.refl.active =>
    intro v
    by_cases hv : v = t.version
    all_goals simp_all [Trigger.holdsMarker, Ne.symm]
  all_goals simp_all [Trigger.holdsSlot, Trigger.holdsMarker, Function.update_apply,
    Nat.sub_one_add_one]

/-- Slots and markers are those of the triggers under way. -/
structure Balanced (capacity : ℕ) (s : Scans κ) : Prop where
  bounded : s.slots ≤ capacity
  slots : s.slots = s.triggers.countP Trigger.holdsSlot
  active : ∀ v, (s.active v).toNat = s.triggers.countP (Trigger.holdsMarker v)
  recent : ∀ v, s.recent v = true → ∃ t ∈ s.triggers, t.version = v ∧ t.completed = true

theorem Balanced.step {l : Label κ} (h : Balanced capacity s)
    (hstep : s.step capacity l = some s') : Balanced capacity s' := by
  cases l with
  | read v =>
    obtain rfl := Option.some.inj hstep
    refine ⟨h.bounded, ?_, fun w => ?_, fun w hw => ?_⟩
    · simpa [countP_joined, Trigger.holdsSlot] using h.slots
    · simpa [countP_joined, Trigger.holdsMarker] using h.active w
    · obtain ⟨t, ht, hdone⟩ := h.recent w hw
      exact ⟨t, List.mem_append_left _ ht, hdone⟩
  | expire v =>
    obtain rfl := Option.some.inj hstep
    refine ⟨h.bounded, h.slots, h.active, fun w hw => h.recent w ?_⟩
    simp only [Function.update_apply] at hw
    split_ifs at hw
    exact hw
  | advance i answer =>
    obtain ⟨t, ht, hmap⟩ := Option.bind_eq_some_iff.mp hstep
    obtain ⟨⟨s₁, t'⟩, hact, rfl⟩ := Option.map_eq_some_iff.mp hmap
    have hmem := List.mem_of_getElem? ht
    have hmoves := moves_of_act hact fun v hv => by
      have hpos := List.countP_pos_iff.mpr ⟨t, hmem, hv⟩
      rw [← h.active v] at hpos
      simpa [Nat.pos_iff_ne_zero] using hpos
    have hset : t' ∈ s.triggers.set i t' :=
      List.mem_set (List.getElem?_eq_some_iff.mp ht).1 t'
    refine ⟨hmoves.bounded.trans (max_le h.bounded le_rfl), ?_, fun v => ?_, fun v hv => ?_⟩
    · have hcount := countP_moved (q := t') Trigger.holdsSlot ht
      have hslots := hmoves.slots
      rw [h.slots] at hslots
      dsimp only
      omega
    · have hcount := countP_moved (q := t') (Trigger.holdsMarker v) ht
      have hactive := hmoves.active v
      rw [h.active v] at hactive
      dsimp only
      omega
    · rcases hmoves.recent v hv with hold | hnew
      · obtain ⟨u, hu, hversion, hdone⟩ := h.recent v hold
        by_cases hut : u = t
        · subst hut
          exact ⟨t', hset, hmoves.version.trans hversion, hmoves.completed hdone⟩
        · exact ⟨u, mem_moved hu ht hut, hversion, hdone⟩
      · exact ⟨t', hset, hnew⟩

/-- However reads of Parquet objects interleave, at most `capacity` scans are admitted and one
runs per version, markers included; a cooldown follows a completed scan; no trigger is ever
stuck, and what they took is given back when they have returned. -/
theorem scans_bounded {ls : List (Label κ)} (hrun : run (Scans.step capacity) {} ls = some s) :
    s.slots ≤ capacity ∧
    s.triggers.countP (fun t => t.holdsMarker t.version) ≤ s.slots ∧
    (∀ v, s.triggers.countP (fun t => t.version = v ∧ t.phase = .scan) ≤ 1) ∧
    (∀ v, s.recent v = true → ∃ t ∈ s.triggers, t.version = v ∧ t.completed = true) ∧
    (∀ i t, s.triggers[i]? = some t → t.phase ≠ .returned →
      ∀ answer, (s.step capacity (.advance i answer)).isSome = true) ∧
    ((∀ t ∈ s.triggers, t.phase = .returned) → s.slots = 0 ∧ ∀ v, s.active v = false) := by
  have hstart : Balanced capacity ({} : Scans κ) := by constructor <;> simp
  have h : Balanced capacity s := run_invariant (fun _ _ _ h _ hstep => h.step hstep) hstart
    (along_of_forall fun _ _ _ => trivial) hrun
  refine ⟨h.bounded, ?_, fun v => ?_, h.recent, fun i t ht hphase answer => ?_, fun hreturned => ?_⟩
  · rw [h.slots]
    refine List.countP_mono_left fun t _ ht => ?_
    simp only [Trigger.holdsMarker, Trigger.holdsSlot, List.mem_cons, decide_eq_true_eq] at ht ⊢
    tauto
  · refine (List.countP_mono_left fun t _ ht => ?_).trans ((h.active v).symm.le.trans
      (Bool.toNat_le _))
    simp_all [Trigger.holdsMarker]
  · have hslots : t.phase = .release → s.slots ≠ 0 := by
      intro hrelease
      have hpos := List.countP_pos_iff (p := Trigger.holdsSlot).mpr
        ⟨t, List.mem_of_getElem? ht, by simp [Trigger.holdsSlot, hrelease]⟩
      rw [← h.slots] at hpos
      exact hpos.ne'
    simp only [Scans.step, ht, Option.bind_some, Option.isSome_map, act]
    split <;> simp_all <;> split <;> rfl
  · constructor
    · rw [h.slots, List.countP_eq_zero]
      intro t ht
      simp [Trigger.holdsSlot, hreturned t ht]
    · intro v
      rw [← Bool.toNat_eq_zero, h.active v, List.countP_eq_zero]
      intro t ht
      simp [Trigger.holdsMarker, hreturned t ht]

/-- The second of two reads of one version finds the marker of the first. -/
theorem scans_bounded_twice :
    ∃ s, run (Scans.step maxConcurrentParquetFooterPrefetches) ({} : Scans ℕ)
        [.read 7, .read 7, .advance 0 true, .advance 0 true, .advance 0 true, .advance 0 true,
          .advance 1 true, .advance 1 true, .advance 1 true] = some s ∧ s.slots = 2 ∧
      s.triggers.countP (fun t => t.version = 7 ∧ t.phase = .scan) ≤ 1 :=
  (exists_run_of_any (p := fun s => s.slots = 2) (by decide +kernel)).imp
    fun _ h => ⟨h.1, h.2, (scans_bounded h.1).2.2.1 7⟩

end Scans

end TagGateway.Proxy.ParquetPrefetch
