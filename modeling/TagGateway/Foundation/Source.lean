import Mathlib.Data.List.Infix

/-!
# Sources

A source hands out a sequence and then stops, with the sentinel of a clean end
or with some other error. How much one call hands out is up to the source.
-/
namespace TagGateway.Foundation

universe u

inductive ReadError where
  | eof
  | unexpectedEOF
  | failure (code : ℕ)
  /-- Another error with a text of its own. -/
  | wrapped (cause : ReadError)
deriving DecidableEq

/-- The sentinel of a clean end is the error or one of its causes. -/
def ReadError.isEOF : ReadError → Bool
  | .eof => true
  | .wrapped cause => cause.isEOF
  | .unexpectedEOF | .failure _ => false

structure Source (α : Type u) where
  rest : List α
  ending : ReadError
deriving DecidableEq

/-- How a source chooses to answer one call: with at most `count` elements, and
with its ending if they were the last. -/
structure Reply where
  count : ℕ
  ends : Bool
deriving DecidableEq

namespace Source

variable {α : Type u} {s s' : Source α} {n limit : ℕ} {got : List α}

def read (s : Source α) (limit : ℕ) (reply : Reply) : List α × Option ReadError × Source α :=
  let left := s.rest.drop (min limit reply.count)
  (s.rest.take (min limit reply.count), if reply.ends && left.isEmpty then some s.ending else none,
    { s with rest := left })

/-- Calls up to the first error, each with its own buffer, for at most `limit`
elements in all. -/
def readLimited (limit : ℕ) (s : Source α) : List (ℕ × Reply) → List α × Option ReadError
  | [] => ([], none)
  | (buffer, reply) :: calls =>
    if limit = 0 then ([], some .eof)
    else
      match s.read (min buffer limit) reply with
      | (data, some e, _) => (data, some e)
      | (data, none, s) =>
        let (more, err) := readLimited (limit - data.length) s calls
        (data ++ more, err)

def readFull (s : Source α) (n : ℕ) : Except ReadError (List α) × Source α :=
  if n ≤ s.rest.length then (.ok (s.rest.take n), { s with rest := s.rest.drop n })
  else (.error (if s.rest.isEmpty || s.ending != .eof then s.ending else .unexpectedEOF),
    { s with rest := [] })

theorem read_append {err : Option ReadError} {reply : Reply}
    (h : s.read limit reply = (got, err, s')) : got ++ s'.rest = s.rest := by
  cases h
  exact List.take_append_drop _ _

theorem read_length {err : Option ReadError} {reply : Reply}
    (h : s.read limit reply = (got, err, s')) : got.length ≤ limit := by
  cases h
  simp only [List.length_take]
  omega

/-- An error of a call is the source's ending, after its last element. -/
theorem read_error {e : ReadError} {reply : Reply} (h : s.read limit reply = (got, some e, s')) :
    got = s.rest ∧ e = s.ending := by
  simp only [read, Prod.mk.injEq, Option.ite_none_right_eq_some, Bool.and_eq_true,
    List.isEmpty_iff, Option.some.injEq] at h
  obtain ⟨rfl, ⟨⟨-, hleft⟩, rfl⟩, -⟩ := h
  have hall := List.take_append_drop (min limit reply.count) s.rest
  rw [hleft, List.append_nil] at hall
  exact ⟨hall, rfl⟩

theorem read_ending {err : Option ReadError} {reply : Reply}
    (h : s.read limit reply = (got, err, s')) : s'.ending = s.ending := by
  cases h
  rfl

theorem readLimited_eof {calls : List (ℕ × Reply)}
    (h : s.readLimited limit calls = (got, some .eof)) (hlimit : got.length < limit) :
    got = s.rest ∧ s.ending = .eof := by
  induction calls generalizing s limit got with
  | nil => cases h
  | cons call calls ih =>
    rw [readLimited, if_neg (Nat.ne_zero_of_lt hlimit)] at h
    split at h
    · rename_i data e s' hread
      cases h
      obtain ⟨hall, he⟩ := read_error hread
      exact ⟨hall, he.symm⟩
    · rename_i data s' hread
      cases hrest : readLimited (limit - data.length) s' calls with
      | mk more err =>
        rw [hrest] at h
        cases h
        rw [List.length_append] at hlimit
        obtain ⟨rfl, hend⟩ := ih hrest (by omega)
        rw [read_append hread, ← read_ending hread]
        exact ⟨rfl, hend⟩

theorem readFull_ok (h : s.readFull n = (.ok got, s')) :
    s.rest = got ++ s'.rest ∧ got.length = n := by
  unfold readFull at h
  split at h
  · rename_i hn
    cases h
    exact ⟨(List.take_append_drop _ _).symm, List.length_take_of_le hn⟩
  · cases h

theorem readFull_ending {result : Except ReadError (List α)} (h : s.readFull n = (result, s')) :
    s'.ending = s.ending := by
  unfold readFull at h
  split at h
  all_goals
    cases h
    rfl

theorem readFull_eof (h : (s.readFull (n + 1)).1 = .error .eof) : s.rest = [] ∧ s.ending = .eof := by
  unfold readFull at h
  split at h
  · cases h
  · cases hrest : s.rest with
    | nil =>
      rw [hrest] at h
      exact ⟨rfl, by simpa using h⟩
    | cons x xs =>
      rw [hrest] at h
      dsimp only at h
      split at h
      · rename_i hother
        simp_all
      · cases h

end Source
end TagGateway.Foundation
