import TagGateway.Cache.Absence
import TagGateway.Foundation.Word
import TagGateway.Foundation.Writes

/-!
# Range reads of the cache

A client of the cache writes what it has of a range and reports success or an error; for
a key that is absent it may report success and write nothing. The cache reports success
only when the range arrived as a whole. The first byte alone is read as one of two bytes.
-/
namespace TagGateway.Cache

open Foundation

universe u

inductive RangeError (ε : Type u) where
  | notFound
  | client (e : ClientError)
  | shortRead (got want : ℤ)
  | overRead (got want : ℤ)
  | write (e : ε)

abbrev RangeClient (ε : Type u) := ℤ → ℤ → WriteScript ε (Option ClientError)

variable {ε : Type u}

def clientRangeError (e : ClientError) : RangeError ε :=
  if e.isNotFoundError then .notFound else .client e

/-- What is reported for a read that the client reports as a success. The length of the
range is checked unless it exceeds a word. -/
def rangeReadError (start stop written : ℤ) : Option (RangeError ε) :=
  if written = 0 then some .notFound
  else if 0 ≤ start ∧ start ≤ stop then
    let want := wrap64 (wrap64 (stop - start) + 1)
    if 0 < want then
      if written < want then some (.shortRead written want)
      else if want < written then some (.overRead written want) else none
    else none
  else none

def getRangeStreamByKey (client : RangeClient ε) (w : Writer ε) (start stop : ℤ) :
    Option (RangeError ε) × Delivery :=
  if start = 0 ∧ stop = 0 then
    match (client 0 1).run (.accepting ε) {} with
    | (some e, _) => (some (clientRangeError e), {})
    | (none, buf) =>
      if buf.received = [] then (some .notFound, {})
      else
        let (reply, d) := w.write (buf.received.take 1) {}
        (reply.2.map .write, d)
  else
    match (client start stop).run w {} with
    | (some e, d) => (some (clientRangeError e), d)
    | (none, d) => (rangeReadError start stop d.written, d)

def blockExistsErr (enabled : Bool) (etag : Bytes) (client : RangeClient ε) :
    Bool × Option (RangeError ε) :=
  if enabled = false ∨ etag = [] then (false, none)
  else
    match (getRangeStreamByKey client (.accepting ε) 0 0).1 with
    | none => (true, none)
    | some .notFound => (false, none)
    | some e => (false, some e)

def clientRead (client : RangeClient ε) (w : Writer ε) (start stop : ℤ) :
    Option ClientError × Delivery :=
  if start = 0 ∧ stop = 0 then (client 0 1).run (.accepting ε) {} else (client start stop).run w {}

section

variable {client : RangeClient ε} {w : Writer ε} {start stop : ℤ}

theorem clientRead_sound (client : RangeClient ε) (w : Writer ε) (start stop : ℤ) :
    (clientRead client w start stop).2.Sound := by
  unfold clientRead
  split_ifs
  · exact WriteScript.run_sound _ _ .empty
  · exact WriteScript.run_sound _ _ .empty

theorem rangeReadError_none {written : ℤ} (hstart : 0 ≤ start) (hle : start ≤ stop)
    (hstop : stop < int64Bound) (hspan : ¬ (start = 0 ∧ stop = int64Bound - 1)) :
    rangeReadError (ε := ε) start stop written = none ↔ written = stop - start + 1 := by
  have hbound : (int64Bound : ℤ) = 9223372036854775808 := rfl
  have hwant : wrap64 (wrap64 (stop - start) + 1) = stop - start + 1 := by
    rw [wrap64_of_fits (x := stop - start) (by omega) (by omega),
      wrap64_of_fits (by omega) (by omega)]
  unfold rangeReadError
  rw [hwant]
  dsimp only
  split_ifs <;> simp only [true_iff, false_iff] <;> omega

theorem getRangeStreamByKey_eq (hbyte : ¬ (start = 0 ∧ stop = 0)) {d : Delivery}
    (hread : clientRead client w start stop = (none, d)) :
    getRangeStreamByKey client w start stop = (rangeReadError start stop d.written, d) := by
  rw [clientRead, if_neg hbyte] at hread
  rw [getRangeStreamByKey, if_neg hbyte, hread]

theorem getRangeStreamByKey_none (hstart : 0 ≤ start) (hle : start ≤ stop)
    (hstop : stop < int64Bound) (hspan : ¬ (start = 0 ∧ stop = int64Bound - 1))
    (h : (getRangeStreamByKey client w start stop).1 = none) :
    (clientRead client w start stop).1 = none ∧
      ((getRangeStreamByKey client w start stop).2.received.length : ℤ) = stop - start + 1 ∧
      (getRangeStreamByKey client w start stop).2.received =
        if start = 0 ∧ stop = 0 then (clientRead client w start stop).2.sent.take 1
        else (clientRead client w start stop).2.received := by
  by_cases hbyte : start = 0 ∧ stop = 0
  · obtain ⟨rfl, rfl⟩ := hbyte
    have hsound := clientRead_sound client w 0 0
    have haccepted := WriteScript.run_accepting (client 0 1) (d := {}) rfl
    simp only [clientRead, getRangeStreamByKey, and_self, if_true] at h hsound ⊢
    generalize (client 0 1).run (.accepting ε) {} = run at h hsound haccepted ⊢
    obtain ⟨err, buf⟩ := run
    have hwhole : buf.received = buf.sent := hsound.whole haccepted
    cases err with
    | some e => cases h
    | none =>
      dsimp only at h ⊢
      split_ifs at h ⊢ with hempty
      have hfull := w.full _ _ (Option.map_eq_none_iff.mp h)
      have hone : (buf.received.take 1).length = 1 := by
        rw [List.length_take]
        have hpos := List.length_pos_of_ne_nil hempty
        omega
      simp only [Writer.write, hfull, hone, List.nil_append, List.take_take, Nat.min_self]
      exact ⟨trivial, rfl, by rw [hwhole]⟩
  · have hsound := clientRead_sound client w start stop
    rw [if_neg hbyte]
    generalize hread : clientRead client w start stop = run at hsound ⊢
    obtain ⟨err, d⟩ := run
    cases err with
    | some e =>
      rw [clientRead, if_neg hbyte] at hread
      rw [getRangeStreamByKey, if_neg hbyte, hread] at h
      cases h
    | none =>
      rw [getRangeStreamByKey_eq hbyte hread] at h ⊢
      have hlength := (rangeReadError_none hstart hle hstop hspan).mp h
      exact ⟨rfl, hsound.written ▸ hlength, rfl⟩

/-- A success without a byte stands for an absent key. -/
theorem getRangeStreamByKey_empty (hread : (clientRead client w start stop).1 = none)
    (hempty : (clientRead client w start stop).2.received = []) :
    (getRangeStreamByKey client w start stop).1 = some .notFound := by
  have hsound := clientRead_sound client w start stop
  by_cases hbyte : start = 0 ∧ stop = 0
  · rw [clientRead, if_pos hbyte] at hread hempty
    rw [getRangeStreamByKey, if_pos hbyte]
    generalize (client 0 1).run (.accepting ε) {} = run at hread hempty ⊢
    obtain ⟨err, buf⟩ := run
    obtain rfl : err = none := hread
    dsimp only at hempty ⊢
    rw [if_pos hempty]
  · have hwritten := hsound.written
    rw [hempty, List.length_nil] at hwritten
    rw [getRangeStreamByKey_eq hbyte (Prod.ext hread rfl), rangeReadError, hwritten]
    rfl

end

/-- For every client: a read that succeeds delivered the range, in order and as a whole
unless the destination failed a write. A success without a byte becomes the absence of
the key, one with too few or too many bytes another error, and a block of which the client
has nothing is not reported as present. -/
theorem getRangeStreamByKey_truthful (client : RangeClient ε) (w : Writer ε) {start stop : ℤ}
    (hstart : 0 ≤ start) (hle : start ≤ stop) (hstop : stop < int64Bound)
    (hspan : ¬ (start = 0 ∧ stop = int64Bound - 1)) :
    ((getRangeStreamByKey client w start stop).1 = none →
      (clientRead client w start stop).1 = none ∧
      ((getRangeStreamByKey client w start stop).2.received.length : ℤ) = stop - start + 1 ∧
      ((start = 0 ∧ stop = 0) → (getRangeStreamByKey client w start stop).2.received =
        (clientRead client w start stop).2.sent.take 1) ∧
      (¬ (start = 0 ∧ stop = 0) →
        (getRangeStreamByKey client w start stop).2.received.Sublist
          (clientRead client w start stop).2.sent ∧
        ((clientRead client w start stop).2.refused = false →
          (getRangeStreamByKey client w start stop).2.received =
            (clientRead client w start stop).2.sent))) ∧
    ((clientRead client w start stop).1 = none →
      (clientRead client w start stop).2.received = [] →
      (getRangeStreamByKey client w start stop).1 = some .notFound) ∧
    (¬ (start = 0 ∧ stop = 0) → (clientRead client w start stop).1 = none →
      (clientRead client w start stop).2.received ≠ [] →
      ((clientRead client w start stop).2.received.length : ℤ) ≠ stop - start + 1 →
      ∃ e, (getRangeStreamByKey client w start stop).1 = some e ∧ e ≠ .notFound) ∧
    ∀ enabled etag, (blockExistsErr enabled etag client).1 = true →
      (clientRead client (.accepting ε) 0 0).1 = none ∧
        (clientRead client (.accepting ε) 0 0).2.sent ≠ [] := by
  have hsound := clientRead_sound client w start stop
  refine ⟨fun h => ?_, getRangeStreamByKey_empty, fun hbyte hread hsome hlength => ?_,
    fun enabled etag h => ?_⟩
  · obtain ⟨hread, hlength, hreceived⟩ :=
      getRangeStreamByKey_none hstart hle hstop hspan h
    refine ⟨hread, hlength, fun hbyte => ?_, fun hbyte => ?_⟩
    · rw [hreceived, if_pos hbyte]
    · rw [hreceived, if_neg hbyte]
      exact ⟨hsound.sublist, hsound.whole⟩
  · have hpos := List.length_pos_of_ne_nil hsome
    have hwritten := hsound.written
    rw [getRangeStreamByKey_eq hbyte (Prod.ext hread rfl)]
    cases herror : rangeReadError (ε := ε) start stop
        (clientRead client w start stop).2.written with
    | none =>
      have hwant := (rangeReadError_none hstart hle hstop hspan).mp herror
      exact absurd (hwritten ▸ hwant) hlength
    | some e =>
      refine ⟨e, rfl, ?_⟩
      rintro rfl
      unfold rangeReadError at herror
      dsimp only at herror
      split_ifs at herror
      all_goals first
        | omega
        | cases herror
  · unfold blockExistsErr at h
    split_ifs at h
    split at h
    · rename_i hpresent
      obtain ⟨hread, hlength, hreceived⟩ := getRangeStreamByKey_none le_rfl le_rfl
        (by decide) (by decide) hpresent
      refine ⟨hread, fun hnil => ?_⟩
      rw [hreceived, if_pos ⟨rfl, rfl⟩, hnil] at hlength
      cases hlength
    · cases h
    · cases h

def fixedClient (data : Bytes) : RangeClient Unit := fun _ _ => .write data fun _ => .done none

/-- Two bytes arrive for a range of two. -/
theorem getRangeStreamByKey_truthful_two :
    (getRangeStreamByKey (fixedClient [1, 2]) (.accepting Unit) 3 4).1 = none ∧
    ((getRangeStreamByKey (fixedClient [1, 2]) (.accepting Unit) 3 4).2.received.length : ℤ) = 2 :=
  ⟨rfl, ((getRangeStreamByKey_truthful (fixedClient [1, 2]) (.accepting Unit) (by decide)
    (by decide) (by decide) (by decide)).1 rfl).2.1⟩

/-- The length of the range exceeds a word, and one byte passes for all of it. -/
theorem word_range_unchecked :
    (getRangeStreamByKey (fixedClient [1]) (.accepting Unit) 0 9223372036854775807).1 = none ∧
    (getRangeStreamByKey (fixedClient [1]) (.accepting Unit) 0 9223372036854775807).2.received =
      [1] := by
  have hwant : wrap64 (wrap64 9223372036854775807 + 1) = -9223372036854775808 := by decide
  have hread : getRangeStreamByKey (fixedClient [1]) (.accepting Unit) 0 9223372036854775807 = _ :=
    getRangeStreamByKey_eq (by decide) (Prod.ext rfl rfl)
  have hwritten : ((Writer.accepting Unit).write [1] {}).2.written = 1 := rfl
  rw [hread, hwritten]
  refine ⟨?_, rfl⟩
  simp [rangeReadError, hwant]

end TagGateway.Cache
