import TagGateway.Foundation.ByteString

/-!
# Programs that write

A program hands data to a writer piece by piece. It sees what becomes of each piece, may
go on as it likes, and ends with an outcome. A writer may take less than it is given, but
then it says so.
-/
namespace TagGateway.Foundation

universe u v

/-- How many bytes of the `k`-th write are taken, and its error. -/
structure Writer (ε : Type u) where
  reply : ℕ → Bytes → ℕ × Option ε
  le : ∀ k data, (reply k data).1 ≤ data.length
  full : ∀ k data, (reply k data).2 = none → (reply k data).1 = data.length

def Writer.accepting (ε : Type u) : Writer ε where
  reply _ data := (data.length, none)
  le _ _ := le_rfl
  full _ _ _ := rfl

inductive WriteScript (ε : Type u) (α : Type v) where
  | done (outcome : α)
  | write (data : Bytes) (next : ℕ × Option ε → WriteScript ε α)

/-- What was written so far: the number of writes, what was handed over and what was taken,
the count of it, and whether a write failed. -/
structure Delivery where
  calls : ℕ := 0
  sent : Bytes := []
  received : Bytes := []
  written : ℕ := 0
  refused : Bool := false
deriving DecidableEq

variable {ε : Type u} {α : Type v}

def Writer.write (w : Writer ε) (data : Bytes) (d : Delivery) : (ℕ × Option ε) × Delivery :=
  let reply := w.reply d.calls data
  (reply, { calls := d.calls + 1, sent := d.sent ++ data
            received := d.received ++ data.take reply.1
            written := d.written + reply.1
            refused := d.refused || reply.2.isSome })

def WriteScript.run (w : Writer ε) : WriteScript ε α → Delivery → α × Delivery
  | done outcome, d => (outcome, d)
  | write data next, d => (next (w.write data d).1).run w (w.write data d).2

/-- What was taken is handed over in this order, and nothing is missing unless a write
failed. -/
structure Delivery.Sound (d : Delivery) : Prop where
  sublist : d.received.Sublist d.sent
  written : d.written = d.received.length
  whole : d.refused = false → d.received = d.sent

theorem Delivery.Sound.empty : Delivery.Sound {} := ⟨List.Sublist.refl [], rfl, fun _ => rfl⟩

theorem Delivery.Sound.write {d : Delivery} (h : d.Sound) (w : Writer ε) (data : Bytes) :
    (w.write data d).2.Sound where
  sublist := h.sublist.append (List.take_sublist _ _)
  written := by
    simp only [Writer.write, List.length_append, List.length_take, h.written,
      Nat.min_eq_left (w.le _ _)]
  whole := by
    simp only [Writer.write, Bool.or_eq_false_iff, Option.isSome_eq_false_iff,
      Option.isNone_iff_eq_none]
    rintro ⟨hrefused, hreply⟩
    rw [h.whole hrefused, w.full _ _ hreply, List.take_length]

theorem WriteScript.run_sound (w : Writer ε) (script : WriteScript ε α) {d : Delivery}
    (h : d.Sound) : (script.run w d).2.Sound := by
  induction script generalizing d with
  | done outcome => exact h
  | write data next ih => exact ih _ (h.write w data)

theorem WriteScript.run_accepting (script : WriteScript ε α) {d : Delivery}
    (h : d.refused = false) : (script.run (Writer.accepting ε) d).2.refused = false := by
  induction script generalizing d with
  | done outcome => exact h
  | write data next ih => exact ih _ (by simp [Writer.write, Writer.accepting, h])

end TagGateway.Foundation
