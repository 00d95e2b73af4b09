import Bourse.Proofs.Order.Lifecycle
import Bourse.Proofs.Store.Conservation
import Bourse.Proofs.Store.Regular

/-!
# The lives of all orders

Whatever calls are made to a store, and by whomever, each stored order is consistent, every call
takes it one step along its life or leaves it as it is, and it is never lost.
-/

namespace Bourse

namespace Store

variable {s : Store} {o : Order}

theorem consistent_perform (h : ∀ o ∈ s.orders.entries, o.Consistent) (stamp : Stamp)
    {c : StoreCall} (hc : InsertsCreated c) :
    ∀ o ∈ (s.perform stamp c).2.orders.entries, o.Consistent := by
  intro p hp
  obtain ⟨o, ho, rfl | hchanges⟩ | ⟨o, rfl, -, rfl⟩ := exists_before_perform hp
  · exact h p ho
  · exact (h o ho).changes hchanges
  · obtain ⟨stamp', terms, hcreate⟩ := hc
    exact (Order.Consistent.of_create hcreate).numbered _

/-- A call leaves an order as it is or takes it a step further. -/
theorem find?_perform (ho : o ∈ s.orders.entries) (stamp : Stamp) (c : StoreCall) :
    ∃ p, (s.perform stamp c).2.orders.find? o.id = some p ∧ (p = o ∨ o.Advances p) := by
  obtain ⟨p, hp, rfl | hchanges⟩ := exists_after_perform stamp c ho
  · exact ⟨p, OrderTable.find?_of_mem hp, Or.inl rfl⟩
  · have hid := hchanges.sameTerms.id_eq
    exact ⟨p, OrderTable.find?_eq_some_iff.2 ⟨hp, hid⟩, Or.inr hchanges.advances⟩

/-- What has become of an order is still what has become of it after a further call. -/
theorem later_perform (h : ∃ p, s.orders.find? o.id = some p ∧ o.Later p) (stamp : Stamp)
    (c : StoreCall) : ∃ p, (s.perform stamp c).2.orders.find? o.id = some p ∧ o.Later p := by
  obtain ⟨p, hp, hlater⟩ := h
  obtain ⟨hmem, hid⟩ := OrderTable.find?_eq_some_iff.1 hp
  obtain ⟨q, hq, rfl | hadvances⟩ := find?_perform hmem stamp c
  · exact ⟨q, by rw [← hid, hq], hlater⟩
  · exact ⟨q, by rw [← hid, hq], hlater.trans (.of_advances hadvances)⟩

theorem find?_afterCalls (ho : o ∈ s.orders.entries) (calls : List (Stamp × StoreCall)) :
    ∃ p, (s.afterCalls calls).orders.find? o.id = some p ∧ o.Later p := by
  have hstart : ∃ p, s.orders.find? o.id = some p ∧ o.Later p :=
    ⟨o, OrderTable.find?_of_mem ho, .refl o⟩
  exact afterCalls_induction (P := fun t => ∃ p, t.orders.find? o.id = some p ∧ o.Later p)
    hstart fun _ stamp c _ h => later_perform h stamp c

theorem consistent_afterCalls {calls : List (Stamp × StoreCall)}
    (hcalls : ∀ c ∈ calls, InsertsCreated c.2) :
    ∀ o ∈ (Store.empty.afterCalls calls).orders.entries, o.Consistent := by
  have hempty : ∀ o ∈ Store.empty.orders.entries, o.Consistent := fun o ho => (by cases ho)
  exact afterCalls_induction (P := fun t => ∀ o ∈ t.orders.entries, o.Consistent) hempty
    fun s stamp c hc h => consistent_perform h stamp (hcalls _ hc)

/-- After any calls, every stored order is consistent. A further call leaves it as it is or takes it
one step along its life, and after any further calls it is still there, on the same terms and with
no more remaining, and unchanged if it was finished. -/
theorem orders_live (calls : List (Stamp × StoreCall))
    (hcalls : ∀ c ∈ calls, InsertsCreated c.2) :
    let s := Store.empty.afterCalls calls
    ∀ o ∈ s.orders.entries,
      o.Consistent ∧
      (∀ stamp c, ∃ p, (s.perform stamp c).2.orders.find? o.id = some p ∧
        (p = o ∨ o.Advances p)) ∧
      ∀ later, ∃ p, (s.afterCalls later).orders.find? o.id = some p ∧ o.Later p := by
  intro s o ho
  exact ⟨consistent_afterCalls hcalls o ho, find?_perform ho, find?_afterCalls ho⟩

/-- The largest number. -/
def largest : Decimal := (Decimal.ofInt? (2 ^ 96 - 1)).getD .zero

/-- The largest buy there can be and a sell of one and a half, confirmed and matched. What remains
of the buy is rounded. Then the buy is to be cancelled, which it can no longer be, and made to
fail. -/
def roundedFill : List (Stamp × StoreCall) :=
  let calls : List StoreCall :=
    [.insertOrder (.gold 1 .buy largest (.ofWord 1) 1),
      .insertOrder (.gold 2 .sell oneAndHalf (.ofWord 1) 2),
      .transitionOrder ⟨.ofNat 1⟩ .confirm, .transitionOrder ⟨.ofNat 2⟩ .confirm,
      .commitMatch ⟨.ofNat 2⟩ ⟨.ofNat 1⟩ oneAndHalf .zero,
      .transitionOrder ⟨.ofNat 1⟩ (.cancel "too late"),
      .transitionOrder ⟨.ofNat 1⟩ (.fail "halted")]
  calls.map fun c => (⟨.ofNat 3, .epoch⟩, c)

theorem orders_live_roundedFill :
    (∀ c ∈ roundedFill, InsertsCreated c.2) ∧
    let s := Store.empty.afterCalls roundedFill
    s.orders.entries.map (fun o => (o.status, o.remaining.coefficient)) =
      [(.failed, 2 ^ 96 - 2), (.completed, 0)] ∧
    ∀ o ∈ s.orders.entries,
      o.Consistent ∧
      (∀ stamp c, ∃ p, (s.perform stamp c).2.orders.find? o.id = some p ∧
        (p = o ∨ o.Advances p)) ∧
      ∀ later, ∃ p, (s.afterCalls later).orders.find? o.id = some p ∧ o.Later p := by
  have hcalls : ∀ c ∈ roundedFill, InsertsCreated c.2 := by
    simp only [roundedFill, List.map_cons, List.map_nil, List.forall_mem_cons]
    refine ⟨?_, ?_, trivial, trivial, trivial, trivial, trivial, by simp⟩
    · exact Order.create_gold 1 .buy 1 (by decide) (by decide) ⟨_, rfl⟩
    · exact Order.create_gold 2 .sell 2 (by decide) (by decide) ⟨_, rfl⟩
  exact ⟨hcalls, by decide +kernel, orders_live _ hcalls⟩

end Store

end Bourse
