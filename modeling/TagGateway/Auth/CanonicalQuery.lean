import TagGateway.Auth.SigV4
import Mathlib.Data.List.Pairwise
import Mathlib.Data.List.Perm.Basic

/-!
# The canonical query

The protocol encodes the names and the values of a query and then sorts the encoded pairs.
`canonicalQueryString` sorts first. The orders differ only where two texts first differ in
a byte that is escaped and one that is not: an escape begins with a percent sign, which
sorts before every byte that stays.
-/
namespace TagGateway.Auth

open Foundation List

def isUnreserved (b : UInt8) : Bool :=
  isUpper b || isLower b || isDigit b || (ascii "-._~").contains b

def percentEncodeByte (b : UInt8) : Bytes :=
  if isUnreserved b then [b] else byte '%' :: hexByte awsURIHex b

def percentEncode (s : Bytes) : Bytes := s.flatMap percentEncodeByte

def encodePair (p : Bytes × Bytes) : Bytes × Bytes := (percentEncode p.1, percentEncode p.2)

def PairLe (a b : Bytes × Bytes) : Prop := a.1 < b.1 ∨ a.1 = b.1 ∧ a.2 ≤ b.2

instance : DecidableRel PairLe := fun a b =>
  inferInstanceAs (Decidable (a.1 < b.1 ∨ a.1 = b.1 ∧ a.2 ≤ b.2))

def pairText (p : Bytes × Bytes) : Bytes := p.1 ++ [byte '='] ++ p.2

/-- The canonical query as the protocol defines it. -/
def protocolQueryString (query : List (Bytes × Bytes)) : Bytes :=
  joinWith (byte '&') (((query.map encodePair).insertionSort PairLe).map pairText)

/-- Where the texts first differ, the smaller byte stays and the other one is escaped. -/
def reorders : Bytes → Bytes → Bool
  | b :: s, c :: t =>
    if b = c then reorders s t else decide (b < c) && isUnreserved b && !isUnreserved c
  | _, _ => false

/-- Neither the names nor the values of one name change places. -/
def PairKept (a b : Bytes × Bytes) : Prop :=
  reorders a.1 b.1 = false ∧ (a.1 = b.1 → reorders a.2 b.2 = false)

def KeepsOrder (query : List (Bytes × Bytes)) : Prop :=
  ∀ a ∈ query, ∀ b ∈ query, PairKept a b

theorem awsURIEncode_eq_percentEncode (s : Bytes) : awsURIEncode s true = percentEncode s := by
  unfold awsURIEncode percentEncode
  congr 1
  funext c
  have hkept : (isUpper c || isLower c || isDigit c || (ascii "_-~.").contains c ||
      (c == byte '/' && !true)) = isUnreserved c := by
    rw [Bool.eq_iff_iff]
    simp [isUnreserved, ascii]
    tauto
  rw [hkept, percentEncodeByte]

/-! ## The order of encoded texts -/

theorem hexDigit_lt : ∀ m < 16, ∀ n < 16, m < n → hexDigit awsURIHex m < hexDigit awsURIHex n := by
  decide

theorem percent_lt_of_isUnreserved {b : UInt8} (h : isUnreserved b = true) : byte '%' < b := by
  simp only [isUnreserved, isUpper, isLower, isDigit, Bool.or_eq_true, Bool.and_eq_true,
    decide_eq_true_eq, List.contains_iff_mem] at h
  rcases h with ((h | h) | h) | h
  · exact UInt8.lt_of_lt_of_le (by decide) h.1
  · exact UInt8.lt_of_lt_of_le (by decide) h.1
  · exact UInt8.lt_of_lt_of_le (by decide) h.1
  · have hsign : ∀ c ∈ ascii "-._~", byte '%' < c := by decide +kernel
    exact hsign b h

theorem hexByte_append_lt {b c : UInt8} (h : b < c) (x y : Bytes) :
    hexByte awsURIHex b ++ x < hexByte awsURIHex c ++ y := by
  have hlt := UInt8.lt_iff_toNat_lt.mp h
  have hb := b.toNat_lt
  have hc := c.toNat_lt
  simp only [hexByte, cons_append, nil_append, cons_lt_cons_iff]
  by_cases hhigh : b.toNat / 16 = c.toNat / 16
  · exact .inr ⟨by rw [hhigh], .inl (hexDigit_lt _ (by omega) _ (by omega) (by omega))⟩
  · exact .inl (hexDigit_lt _ (by omega) _ (by omega) (by omega))

/-- Encoding keeps the order of two bytes, unless it escapes the greater one only. -/
theorem percentEncodeByte_append_lt {b c : UInt8} (h : b < c)
    (hkept : ¬ (isUnreserved b = true ∧ isUnreserved c = false)) (x y : Bytes) :
    percentEncodeByte b ++ x < percentEncodeByte c ++ y := by
  unfold percentEncodeByte
  split_ifs with hb hc hc
  · exact cons_lt_cons_iff.mpr (.inl h)
  · exact absurd ⟨hb, by simpa using hc⟩ hkept
  · exact cons_lt_cons_iff.mpr (.inl (percent_lt_of_isUnreserved hc))
  · exact cons_lt_cons_iff.mpr (.inr ⟨rfl, hexByte_append_lt h x y⟩)

theorem percentEncodeByte_append_lt_of_escaped {b c : UInt8} (hb : isUnreserved b = true)
    (hc : isUnreserved c = false) (x y : Bytes) :
    percentEncodeByte c ++ y < percentEncodeByte b ++ x := by
  simp only [percentEncodeByte, hb, hc, Bool.false_eq_true, if_false, if_true]
  exact cons_lt_cons_iff.mpr (.inl (percent_lt_of_isUnreserved hb))

theorem append_lt_append_iff {p x y : Bytes} : p ++ x < p ++ y ↔ x < y := by
  induction p with
  | nil => rfl
  | cons b p ih => rw [cons_append, cons_append, cons_lt_cons_self, ih]

theorem percentEncode_ne_nil (b : UInt8) (s : Bytes) : percentEncode (b :: s) ≠ [] := by
  rw [percentEncode, flatMap_cons, percentEncodeByte]
  split_ifs <;> simp

theorem percentEncode_lt {s t : Bytes} (h : s < t) (hkept : reorders s t = false) :
    percentEncode s < percentEncode t := by
  induction s generalizing t with
  | nil =>
    cases t with
    | nil => exact absurd h (by simp)
    | cons c t =>
      obtain ⟨d, u, hu⟩ := exists_cons_of_ne_nil (percentEncode_ne_nil c t)
      rw [hu]
      exact nil_lt_cons d u
  | cons b s ih =>
    cases t with
    | nil => exact absurd h (by simp)
    | cons c t =>
      simp only [percentEncode, flatMap_cons] at ih ⊢
      rcases cons_lt_cons_iff.mp h with hbc | ⟨rfl, hst⟩
      · rw [reorders, if_neg (UInt8.ne_of_lt hbc)] at hkept
        exact percentEncodeByte_append_lt hbc (by simpa [hbc] using hkept) _ _
      · rw [reorders, if_pos rfl] at hkept
        exact append_lt_append_iff.mpr (ih hst hkept)

theorem lt_of_reorders {s t : Bytes} (h : reorders s t = true) :
    s < t ∧ percentEncode t < percentEncode s := by
  induction s generalizing t with
  | nil => simp [reorders] at h
  | cons b s ih =>
    cases t with
    | nil => simp [reorders] at h
    | cons c t =>
      simp only [percentEncode, flatMap_cons] at ih ⊢
      rw [reorders] at h
      split_ifs at h with hbc
      · obtain ⟨hst, henc⟩ := ih h
        subst hbc
        exact ⟨cons_lt_cons_self.mpr hst, append_lt_append_iff.mpr henc⟩
      · simp only [Bool.and_eq_true, decide_eq_true_eq, Bool.not_eq_true'] at h
        exact ⟨cons_lt_cons_iff.mpr (.inl h.1.1),
          percentEncodeByte_append_lt_of_escaped h.1.2 h.2 _ _⟩

theorem reorders_self (s : Bytes) : reorders s s = false :=
  Bool.eq_false_iff.mpr fun h => List.lt_irrefl s (lt_of_reorders h).1

theorem percentEncode_injective {s t : Bytes} (h : percentEncode s = percentEncode t) :
    s = t := by
  have hlt : ∀ {s t : Bytes}, s < t → percentEncode s ≠ percentEncode t := by
    intro s t hst heq
    cases hr : reorders s t with
    | false =>
      have henc := percentEncode_lt hst hr
      rw [heq] at henc
      exact List.lt_irrefl _ henc
    | true =>
      have henc := (lt_of_reorders hr).2
      rw [heq] at henc
      exact List.lt_irrefl _ henc
  refine List.le_antisymm (List.not_lt.mp fun hts => hlt hts h.symm) (List.not_lt.mp fun hst => ?_)
  exact hlt hst h

/-- Encoding keeps the order of two texts, unless it reorders them. -/
theorem percentEncode_le_iff {s t : Bytes} (h : s ≤ t) :
    percentEncode s ≤ percentEncode t ↔ reorders s t = false := by
  constructor
  · intro hle
    refine Bool.eq_false_iff.mpr fun hr => ?_
    exact List.not_lt.mpr hle (lt_of_reorders hr).2
  · intro hkept
    rcases List.le_iff_lt_or_eq.mp h with hlt | rfl
    · exact List.le_of_lt (percentEncode_lt hlt hkept)
    · exact List.le_refl _

/-! ## Ordered pairs -/

theorem pairLe_iff {a b : Bytes × Bytes} : PairLe a b ↔ a.1 ≤ b.1 ∧ (a.1 = b.1 → a.2 ≤ b.2) := by
  constructor
  · rintro (hname | ⟨hname, hvalue⟩)
    · exact ⟨List.le_of_lt hname, fun h => absurd hname (h ▸ List.lt_irrefl b.1)⟩
    · exact ⟨hname ▸ List.le_refl a.1, fun _ => hvalue⟩
  · rintro ⟨hname, hvalue⟩
    rcases List.le_iff_lt_or_eq.mp hname with hlt | hsame
    · exact .inl hlt
    · exact .inr ⟨hsame, hvalue hsame⟩

instance : Std.Total PairLe where
  total a b := by
    rw [PairLe, pairLe_iff]
    by_cases hname : a.1 < b.1
    · exact .inl (.inl hname)
    · by_cases hsame : a.1 = b.1
      · rcases List.le_total a.2 b.2 with h | h
        · exact .inl (.inr ⟨hsame, h⟩)
        · exact .inr ⟨List.not_lt.mp hname, fun _ => h⟩
      · exact .inr ⟨List.not_lt.mp hname, fun h => absurd h.symm hsame⟩

instance : IsTrans (Bytes × Bytes) PairLe where
  trans a b c := by
    rintro (hab | ⟨hab, hab'⟩) (hbc | ⟨hbc, hbc'⟩)
    · exact .inl (List.lt_trans hab hbc)
    · exact .inl (hbc ▸ hab)
    · exact .inl (hab ▸ hbc)
    · exact .inr ⟨hab.trans hbc, List.le_trans hab' hbc'⟩

theorem PairLe.antisymm {a b : Bytes × Bytes} (hab : PairLe a b) (hba : PairLe b a) : a = b := by
  obtain ⟨hname, hvalue⟩ := pairLe_iff.mp hab
  obtain ⟨hname', hvalue'⟩ := pairLe_iff.mp hba
  have hsame := List.le_antisymm hname hname'
  exact Prod.ext hsame (List.le_antisymm (hvalue hsame) (hvalue' hsame.symm))

theorem PairLe.encodePair_iff {a b : Bytes × Bytes} (h : PairLe a b) :
    PairLe (encodePair a) (encodePair b) ↔ PairKept a b := by
  unfold PairLe encodePair PairKept
  rcases h with hname | ⟨hname, hvalue⟩
  · have hne : a.1 ≠ b.1 := fun h => absurd hname (h ▸ List.lt_irrefl b.1)
    have hne' : percentEncode a.1 ≠ percentEncode b.1 := fun heq =>
      hne (percentEncode_injective heq)
    have hle := percentEncode_le_iff (List.le_of_lt hname)
    rw [List.le_iff_lt_or_eq, or_iff_left hne'] at hle
    simp [hne, hne', hle]
  · simp [hname, reorders_self, percentEncode_le_iff hvalue]

theorem PairLe.kept_flip {a b : Bytes × Bytes} (h : PairLe a b) : PairKept b a := by
  obtain ⟨hname, hvalue⟩ := pairLe_iff.mp h
  refine ⟨Bool.eq_false_iff.mpr fun hr => ?_, fun hsame => Bool.eq_false_iff.mpr fun hr => ?_⟩
  · exact List.not_lt.mpr hname (lt_of_reorders hr).1
  · exact List.not_lt.mpr (hvalue hsame.symm) (lt_of_reorders hr).1

/-! ## The pairs in the order of the code -/

def sortedPairs (query : List (Bytes × Bytes)) : List (Bytes × Bytes) :=
  (sortBytes (query.map Prod.fst).dedup).flatMap fun key =>
    (sortBytes ((query.filter fun p => p.1 == key).map Prod.snd)).map fun value => (key, value)

theorem canonicalQueryString_eq_sortedPairs (query : List (Bytes × Bytes)) :
    canonicalQueryString query =
      joinWith (byte '&') (((sortedPairs query).map encodePair).map pairText) := by
  simp only [canonicalQueryString, sortedPairs, map_flatMap, map_map, awsURIEncode_eq_percentEncode]
  rfl

theorem flatMap_filter_perm {α κ : Type*} [BEq κ] [LawfulBEq κ] (key : α → κ) {keys : List κ}
    (hkeys : keys.Nodup) (items : List α) (hall : ∀ a ∈ items, key a ∈ keys) :
    keys.flatMap (fun k => items.filter fun a => key a == k) ~ items := by
  induction keys generalizing items with
  | nil =>
    cases items with
    | nil => exact .refl []
    | cons a items => exact absurd (hall a (by simp)) (by simp)
  | cons k keys ih =>
    obtain ⟨hk, hkeys⟩ := nodup_cons.mp hkeys
    have hrest : keys.flatMap (fun k' => items.filter fun a => key a == k') =
        keys.flatMap fun k' => (items.filter fun a => !(key a == k)).filter fun a => key a == k' := by
      refine flatMap_congr fun k' hk' => ?_
      rw [filter_filter]
      refine filter_congr fun a _ => ?_
      have hne : k' ≠ k := fun h => hk (h ▸ hk')
      by_cases h : key a = k' <;> simp [h, hne]
    rw [flatMap_cons, hrest]
    refine .trans (Perm.append_left _ (ih hkeys _ fun a ha => ?_)) (filter_append_perm _ items)
    obtain ⟨hmem, hne⟩ := mem_filter.mp ha
    exact (mem_cons.mp (hall a hmem)).resolve_left (by simpa using hne)

theorem sortedPairs_perm (query : List (Bytes × Bytes)) : sortedPairs query ~ query := by
  have hkeys := perm_insertionSort (· ≤ ·) (query.map Prod.fst).dedup
  have hgroups := flatMap_filter_perm Prod.fst (hkeys.nodup_iff.mpr (nodup_dedup _)) query
    fun p hp => hkeys.mem_iff.mpr (mem_dedup.mpr (mem_map_of_mem hp))
  refine .trans (.flatMap_left _ fun key _ => ?_) hgroups
  refine ((perm_insertionSort (· ≤ ·) _).map _).trans (.of_eq ?_)
  rw [map_map]
  conv_rhs => rw [← map_id (query.filter fun p => p.1 == key)]
  refine map_congr_left fun p hp => ?_
  have hname : p.1 = key := by simpa using (mem_filter.mp hp).2
  exact Prod.ext hname.symm rfl

theorem sortedPairs_pairwise (query : List (Bytes × Bytes)) :
    (sortedPairs query).Pairwise PairLe := by
  refine pairwise_flatMap.mpr ⟨fun key _ => ?_, ?_⟩
  · refine pairwise_map.mpr ((pairwise_insertionSort (· ≤ ·) _).imp fun hle => ?_)
    exact .inr ⟨rfl, hle⟩
  · have hsorted := pairwise_insertionSort (· ≤ ·) (query.map Prod.fst).dedup
    have hnodup := (perm_insertionSort (· ≤ ·) (query.map Prod.fst).dedup).nodup_iff.mpr
      (nodup_dedup _)
    refine (hsorted.and hnodup).imp fun {k k'} h => ?_
    have hlt : k < k' := (List.le_iff_lt_or_eq.mp h.1).resolve_right h.2
    intro p hp p' hp'
    obtain ⟨v, -, rfl⟩ := mem_map.mp hp
    obtain ⟨v', -, rfl⟩ := mem_map.mp hp'
    exact .inl hlt

theorem keepsOrder_iff (query : List (Bytes × Bytes)) :
    ((sortedPairs query).map encodePair).Pairwise PairLe ↔ KeepsOrder query := by
  have hmem : ∀ p, p ∈ sortedPairs query ↔ p ∈ query := fun p => (sortedPairs_perm query).mem_iff
  rw [pairwise_map]
  constructor
  · intro hencoded
    have hkept : (sortedPairs query).Pairwise fun a b => PairKept a b ∧ PairKept b a :=
      (sortedPairs_pairwise query).imp₂ (fun a b hle henc => ⟨hle.encodePair_iff.mp henc,
        hle.kept_flip⟩) hencoded
    have : Std.Symm fun a b : Bytes × Bytes => PairKept a b ∧ PairKept b a := ⟨fun _ _ => And.symm⟩
    intro a ha b hb
    refine (hkept.forall_of_forall (fun p _ => ?_) ((hmem a).mpr ha) ((hmem b).mpr hb)).1
    exact ⟨⟨reorders_self _, fun _ => reorders_self _⟩, reorders_self _, fun _ => reorders_self _⟩
  · intro hkept
    refine (sortedPairs_pairwise query).imp_of_mem fun ha hb hle => hle.encodePair_iff.mpr ?_
    exact hkept _ ((hmem _).mp ha) _ ((hmem _).mp hb)

/-! ## The text of the pairs -/

theorem mem_percentEncode {b : UInt8} {s : Bytes} (h : b ∈ percentEncode s) :
    b ≠ byte '=' ∧ b ≠ byte '&' := by
  have hhex : ∀ n, hexDigit awsURIHex n ≠ byte '=' ∧ hexDigit awsURIHex n ≠ byte '&' := by
    intro n
    rcases lt_or_ge n 16 with hn | hn
    · revert n
      decide
    · have hlength : awsURIHex.length = 16 := by decide
      rw [hexDigit, getD_eq_getElem?_getD, getElem?_eq_none (by rwa [hlength])]
      decide
  obtain ⟨c, -, hb⟩ := mem_flatMap.mp h
  unfold percentEncodeByte at hb
  split_ifs at hb with hc
  · obtain rfl := mem_singleton.mp hb
    refine ⟨?_, ?_⟩ <;> rintro rfl <;> exact absurd hc (by decide)
  · simp only [hexByte, mem_cons, not_mem_nil, or_false] at hb
    rcases hb with rfl | rfl | rfl
    · decide
    · exact hhex _
    · exact hhex _

theorem cutAt_pairText (p : Bytes × Bytes) :
    cutAt (byte '=') (pairText (encodePair p)) = some (encodePair p) := by
  rw [pairText, append_assoc, singleton_append]
  exact cutAt_append (fun h => (mem_percentEncode h).1 rfl) _

theorem not_mem_pairText (p : Bytes × Bytes) : byte '&' ∉ pairText (encodePair p) := by
  simp only [pairText, mem_append, mem_singleton, not_or]
  exact ⟨⟨fun h => (mem_percentEncode h).2 rfl, by decide⟩, fun h => (mem_percentEncode h).2 rfl⟩

theorem joinWith_inj {sep : UInt8} {parts parts' : List Bytes} (hparts : ∀ p ∈ parts, sep ∉ p)
    (hparts' : ∀ p ∈ parts', sep ∉ p) (hlength : parts.length = parts'.length)
    (h : joinWith sep parts = joinWith sep parts') : parts = parts' := by
  induction parts generalizing parts' with
  | nil => exact (length_eq_zero_iff.mp hlength.symm).symm
  | cons p parts ih =>
    obtain ⟨p', parts', rfl⟩ := exists_cons_of_length_eq_add_one hlength.symm
    have hlength := Nat.succ.inj hlength
    cases parts with
    | nil =>
      obtain rfl := length_eq_zero_iff.mp hlength.symm
      simpa [joinWith] using h
    | cons q parts =>
      obtain ⟨q', parts', rfl⟩ := exists_cons_of_length_eq_add_one hlength.symm
      simp only [joinWith, intercalate_cons_cons, append_assoc, singleton_append] at h
      obtain ⟨hp, hrest⟩ := eq_of_append_cons (hparts p (by simp)) (hparts' p' (by simp)) h
      rw [hp, ih (fun r hr => hparts r (by simp [hr])) (fun r hr => hparts' r (by simp [hr]))
        hlength hrest]

theorem encoded_texts {l query : List (Bytes × Bytes)} (hl : l ~ query.map encodePair) :
    (∀ text ∈ l.map pairText, byte '&' ∉ text) ∧
      (l.map pairText).map (cutAt (byte '=')) = l.map some := by
  have hpair : ∀ e ∈ l, ∃ p, encodePair p = e := by
    intro e he
    obtain ⟨p, -, hp⟩ := mem_map.mp (hl.mem_iff.mp he)
    exact ⟨p, hp⟩
  rw [map_map]
  refine ⟨forall_mem_map.mpr fun e he => ?_, map_congr_left fun e he => ?_⟩
  · obtain ⟨p, rfl⟩ := hpair e he
    exact not_mem_pairText p
  · obtain ⟨p, rfl⟩ := hpair e he
    exact cutAt_pairText p

/-- The code's text is the protocol's exactly for the queries whose order the encoding keeps. -/
theorem canonicalQueryString_eq_protocol_iff (query : List (Bytes × Bytes)) :
    canonicalQueryString query = protocolQueryString query ↔ KeepsOrder query := by
  have hperm : (sortedPairs query).map encodePair ~
      (query.map encodePair).insertionSort PairLe :=
    ((sortedPairs_perm query).map encodePair).trans (perm_insertionSort PairLe _).symm
  have hsorted := pairwise_insertionSort PairLe (query.map encodePair)
  obtain ⟨hamp, hcut⟩ := encoded_texts ((sortedPairs_perm query).map encodePair)
  obtain ⟨hamp', hcut'⟩ := encoded_texts (perm_insertionSort PairLe (query.map encodePair))
  rw [← keepsOrder_iff, canonicalQueryString_eq_sortedPairs, protocolQueryString]
  constructor
  · intro h
    have htexts := joinWith_inj hamp hamp' (hperm.map pairText).length_eq h
    rw [htexts, hcut'] at hcut
    rw [← map_injective_iff.mpr (Option.some_injective _) hcut]
    exact hsorted
  · intro hkept
    rw [hperm.eq_of_pairwise (fun _ _ _ _ => PairLe.antisymm) hkept hsorted]

/-- The name é is escaped and sorts first, and the code writes it last. -/
theorem canonicalQueryString_escaped_name_last :
    canonicalQueryString [(ascii "a", ascii "1"), ([195, 169], ascii "2")] =
      ascii "a=1&%C3%A9=2" ∧
    protocolQueryString [(ascii "a", ascii "1"), ([195, 169], ascii "2")] =
      ascii "%C3%A9=2&a=1" := by
  decide +kernel

end TagGateway.Auth
