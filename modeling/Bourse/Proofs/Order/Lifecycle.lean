import Bourse.Proofs.Order.Steps
import Mathlib.Logic.Relation

/-!
# The life of an order

The statuses that an order takes one after the other, and what holds of an order in each of them. An
order in good shape stays so by every step, and every step takes it along an edge of the diagram

    pending → confirmed → partially → completed

with `partially` once for each further fill and left out when the first fill takes the whole order,
with `cancelled` from the first two statuses, and with `failed` from the first three.
-/

namespace Bourse

/-- One status comes directly after another. -/
inductive OrderStatus.Moves : OrderStatus → OrderStatus → Prop where
  | confirm : Moves .pending .confirmed
  | fill : Moves .confirmed .partially
  | fillAgain : Moves .partially .partially
  | fillWhole : Moves .confirmed .completed
  | fillRest : Moves .partially .completed
  | withdraw : Moves .pending .cancelled
  | cancel : Moves .confirmed .cancelled
  | fail {status : OrderStatus} (h : status.isTerminal = false) : Moves status .failed

/-- Nothing comes after a final status. -/
theorem OrderStatus.Moves.isTerminal_eq {a b : OrderStatus} (h : a.Moves b) :
    a.isTerminal = false := by
  cases h with
  | fail h => exact h
  | _ => rfl

/-- An order is pending only at first. -/
theorem OrderStatus.Moves.ne_pending {a b : OrderStatus} (h : a.Moves b) : b ≠ .pending := by
  cases h <;> exact fun e => (by cases e)

namespace Order

variable {o o' o'' : Order} {stamp : Stamp}

/-- What holds of a stored order at all times. -/
structure Consistent (o : Order) : Prop where
  amount_pos : 0 < o.amount.toRat
  remaining_nonneg : 0 ≤ o.remaining.toRat
  remaining_le : o.remaining.toRat ≤ o.amount.toRat
  completed_iff : o.status = .completed ↔ o.remaining.toRat = 0
  /-- Before the first fill nothing is traded. -/
  untouched : o.status = .pending ∨ o.status = .confirmed → o.remaining = o.amount

/-- What one step does to an order. -/
structure Advances (o o' : Order) : Prop where
  terms : o.SameTerms o'
  remaining_le : o'.remaining.toRat ≤ o.remaining.toRat
  moves : o.status.Moves o'.status

/-- What any number of steps do to an order. -/
structure Later (o o' : Order) : Prop where
  terms : o.SameTerms o'
  remaining_le : o'.remaining.toRat ≤ o.remaining.toRat
  moves : Relation.ReflTransGen OrderStatus.Moves o.status o'.status
  /-- A finished order stays as it is. -/
  finished : o.status.isTerminal = true → o' = o

theorem Changes.advances (h : o.Changes o') : o.Advances o' := by
  refine ⟨h.sameTerms, h.remaining_le, ?_⟩
  cases h with
  | applied h =>
    obtain ⟨status, notes, rfl, ⟨-, hs, rfl⟩ | ⟨-, hs, rfl⟩ | ⟨-, hs, rfl⟩⟩ :=
      Transition.apply_eq_ok h
    · rw [hs]
      exact .confirm
    · cases hstatus : o.status <;> rw [hstatus] at hs
      case pending => exact .withdraw
      case confirmed => exact .cancel
      all_goals cases hs
    · exact .fail hs
  | filled h =>
    obtain ⟨hrest, -, -, r, -, rfl⟩ := fill_eq_ok_iff.1 h
    cases hstatus : o.status <;> rw [hstatus] at hrest
    case confirmed =>
      dsimp only
      split
      · exact .fillWhole
      · exact .fill
    case partially =>
      dsimp only
      split
      · exact .fillRest
      · exact .fillAgain
    all_goals cases hrest

namespace Consistent

theorem of_create {terms : OrderTerms} (h : create stamp terms = .ok o) : o.Consistent := by
  obtain ⟨hamount, -, -, rfl⟩ := create_eq_ok_iff.1 h
  have hpos := Decimal.isPos_iff.1 hamount
  exact ⟨hpos, hpos.le, le_refl _, iff_of_false (fun e => (by cases e)) hpos.ne', fun _ => rfl⟩

theorem numbered (h : o.Consistent) (sequence : UInt64) : { o with sequence }.Consistent :=
  ⟨h.amount_pos, h.remaining_nonneg, h.remaining_le, h.completed_iff, h.untouched⟩

theorem apply {t : Transition} {now : Instant} (h : o.Consistent) (ha : t.apply o now = .ok o') :
    o'.Consistent := by
  -- An order that takes a transition is not completed, neither before nor after.
  have hmoves := (Changes.applied ha).advances.moves
  have hne : o.status ≠ .completed := by
    intro hs
    have hterminal := hmoves.isTerminal_eq
    rw [hs] at hterminal
    cases hterminal
  have hremaining : ¬o.remaining.toRat = 0 := fun h0 => hne (h.completed_iff.2 h0)
  obtain ⟨status, notes, rfl, hcases⟩ := Transition.apply_eq_ok ha
  refine ⟨h.amount_pos, h.remaining_nonneg, h.remaining_le, iff_of_false ?_ hremaining, ?_⟩
  · rcases hcases with ⟨-, -, rfl⟩ | ⟨-, -, rfl⟩ | ⟨-, -, rfl⟩ <;> exact fun e => (by cases e)
  · rcases hcases with ⟨-, hs, rfl⟩ | ⟨-, -, rfl⟩ | ⟨-, -, rfl⟩
    · exact fun _ => h.untouched (Or.inl hs)
    · exact fun e => e.elim (fun e => (by cases e)) fun e => (by cases e)
    · exact fun e => e.elim (fun e => (by cases e)) fun e => (by cases e)

theorem fill {q : Decimal} {role : OrderRole} {now : Instant} (h : o.Consistent)
    (hf : (o.fill q role now).run = .ok (.ok o')) : o'.Consistent := by
  obtain ⟨hnonneg, hle⟩ := remaining_of_fill hf
  obtain ⟨-, -, -, r, -, rfl⟩ := fill_eq_ok_iff.1 hf
  refine ⟨h.amount_pos, hnonneg, hle.trans h.remaining_le, ?_, ?_⟩
  · rw [← Decimal.isZero_iff]
    dsimp only
    by_cases hzero : r.isZero = true
    · rw [if_pos hzero]
      exact iff_of_true rfl hzero
    · rw [if_neg hzero]
      exact iff_of_false (fun e => (by cases e)) hzero
  · dsimp only
    split
    · exact fun e => e.elim (fun e => (by cases e)) fun e => (by cases e)
    · exact fun e => e.elim (fun e => (by cases e)) fun e => (by cases e)

theorem changes (h : o.Consistent) (hc : o.Changes o') : o'.Consistent := by
  cases hc with
  | applied ha => exact h.apply ha
  | filled hf => exact h.fill hf

end Consistent

namespace Later

theorem refl (o : Order) : o.Later o := ⟨.refl o, le_refl _, .refl, fun _ => rfl⟩

theorem of_advances (h : o.Advances o') : o.Later o' := by
  refine ⟨h.terms, h.remaining_le, .single h.moves, fun hfinished => ?_⟩
  rw [h.moves.isTerminal_eq] at hfinished
  cases hfinished

theorem trans (h : o.Later o') (h' : o'.Later o'') : o.Later o'' := by
  refine ⟨h.terms.trans h'.terms, h'.remaining_le.trans h.remaining_le, h.moves.trans h'.moves,
    fun hfinished => ?_⟩
  obtain rfl := h.finished hfinished
  exact h'.finished hfinished

end Later

end Order

end Bourse
