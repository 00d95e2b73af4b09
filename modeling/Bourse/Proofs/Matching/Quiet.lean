import Bourse.Proofs.Matching.Selection
import Bourse.Proofs.Order.Lifecycle
import Bourse.Proofs.Store.Regular
import Mathlib.Algebra.Order.BigOperators.Group.List

/-!
# Quiet books

A store is quiet when no order waits for its confirmation and no pair may trade. Nothing but a new
order can disturb it. A new order that is confirmed may trade with what is there. Each match of it
takes all that remains of one of the two orders, so there are no more matches than resting orders,
and when no partner is left the store is quiet again.
-/

namespace Bourse

/-- Nothing is left of a number that is taken from itself. -/
theorem Decimal.toRat_of_sub_self {a c : Decimal} (h : a.sub a = .ok c) : c.toRat = 0 := by
  obtain ⟨c', hc', hv⟩ := sub_of_isDecimal (a := a) (b := a) ⟨zero, by rw [toRat_zero, sub_self]⟩
  obtain rfl := Except.ok.inj (hc'.symm.trans h)
  rw [hv, sub_self]

namespace Order

variable {o p : Order}

/-- A fill with all that remains of an order completes it. -/
theorem completed_of_fill {quantity : Decimal} {role : OrderRole} {now : Instant}
    (h : (o.fill quantity role now).run = .ok (.ok p)) (hall : quantity = o.remaining) :
    p.status = .completed := by
  obtain ⟨-, -, -, r, hr, rfl⟩ := fill_eq_ok_iff.1 h
  rw [hall] at hr
  exact if_pos (Decimal.isZero_iff.2 (Decimal.toRat_of_sub_self hr))

theorem isResting_of_completed (h : o.status = .completed) : o.isResting = false := by
  rw [isResting, h]
  rfl

/-- Only a confirmation brings an order into the book. -/
theorem Changes.isResting (h : o.Changes p) (ho : o.status ≠ .pending)
    (hp : p.isResting = true) : o.isResting = true := by
  cases h with
  | applied ha =>
    have hrest := (Bool.and_eq_true_iff.1 hp).1
    obtain ⟨status, notes, rfl, ⟨-, hpending, -⟩ | ⟨-, -, rfl⟩ | ⟨-, -, rfl⟩⟩ :=
      Transition.apply_eq_ok ha
    · exact absurd hpending ho
    · cases hrest
    · cases hrest
  | filled hf => exact isResting_of_fill hf

end Order

namespace Store

variable {allowSelfTrade : Bool} {s s' : Store} {market : Market} {id : OrderId} {o : Order}

theorem bestCandidate_eq_none_iff : s.bestCandidate allowSelfTrade market = none ↔
    ∀ buy ∈ s.orders.entries, ∀ sell ∈ s.orders.entries, Admissible allowSelfTrade buy sell →
      buy.market ≠ market := by
  rw [bestCandidate_eq, List.findSome?_eq_none_iff]
  simp only [Option.map_eq_none_iff, List.find?_eq_none]
  constructor
  · rintro h buy hbuy sell hsell hadmissible rfl
    refine h buy ?_ sell ?_ ?_
    · exact mem_sideOf_iff.2 ⟨hbuy, hadmissible.buy_resting, hadmissible.buy_side, rfl⟩
    · exact mem_sideOf_iff.2 ⟨hsell, hadmissible.sell_resting, hadmissible.sell_side,
        hadmissible.market_eq.symm⟩
    · rw [mayTrade, Bool.and_eq_true, crosses, decide_eq_true_eq, ownersMayTrade_iff]
      exact ⟨hadmissible.crossing, hadmissible.owners⟩
  · intro h buy hbuy sell hsell hmay
    obtain ⟨hbuymem, -, -, hmarket⟩ := mem_sideOf_iff.1 hbuy
    exact h buy hbuymem sell (mem_sideOf_iff.1 hsell).1 (admissible_of_mem hbuy hsell hmay) hmarket

/-! ### Quiet stores -/

/-- Every order is confirmed or done with, and every pair that may trade contains the order `id`. -/
structure QuietBut (allowSelfTrade : Bool) (s : Store) (id : OrderId) : Prop where
  regular : s.Regular
  confirmed : ∀ o ∈ s.orders.entries, o.status ≠ .pending
  pairs : ∀ market, s.PairsContain allowSelfTrade market id

/-- Every order is confirmed or done with, and no pair may trade. -/
structure Quiet (allowSelfTrade : Bool) (s : Store) : Prop where
  regular : s.Regular
  confirmed : ∀ o ∈ s.orders.entries, o.status ≠ .pending
  unpaired : ∀ buy ∈ s.orders.entries, ∀ sell ∈ s.orders.entries,
    ¬Admissible allowSelfTrade buy sell

theorem quiet_empty (allowSelfTrade : Bool) : Store.empty.Quiet allowSelfTrade :=
  ⟨fun _ h => (by cases h), fun _ h => (by cases h), fun _ h => (by cases h)⟩

/-- No call but an insertion disturbs a quiet store. -/
theorem Quiet.perform (h : s.Quiet allowSelfTrade) (stamp : Stamp) {c : StoreCall}
    (hc : ∀ o, c ≠ .insertOrder o) : (s.perform stamp c).2.Quiet allowSelfTrade := by
  have hbefore : ∀ p ∈ (s.perform stamp c).2.orders.entries,
      ∃ o ∈ s.orders.entries, p = o ∨ o.Changes p := by
    intro p hp
    exact (exists_before_perform hp).resolve_right fun ⟨o, ho, _⟩ => hc o ho
  have hresting : ∀ p ∈ (s.perform stamp c).2.orders.entries,
      ∃ o ∈ s.orders.entries, o.SameTerms p ∧ (p.isResting = true → o.isResting = true) := by
    intro p hp
    obtain ⟨o, ho, rfl | hchanges⟩ := hbefore p hp
    · exact ⟨p, ho, .refl p, id⟩
    · exact ⟨o, ho, hchanges.sameTerms, hchanges.isResting (h.confirmed o ho)⟩
  constructor
  · intro p hp
    obtain ⟨o, ho, rfl | hchanges⟩ := hbefore p hp
    · exact h.regular p ho
    · exact (h.regular o ho).changes hchanges
  · intro p hp
    obtain ⟨o, ho, rfl | hchanges⟩ := hbefore p hp
    · exact h.confirmed p ho
    · exact hchanges.advances.moves.ne_pending
  · intro buy' hbuy' sell' hsell' hadmissible
    obtain ⟨buy, hbuy, hbterms, hbrest⟩ := hresting buy' hbuy'
    obtain ⟨sell, hsell, hsterms, hsrest⟩ := hresting sell' hsell'
    exact h.unpaired buy hbuy sell hsell (hadmissible.of_sameTerms hbterms hsterms
      (hbrest hadmissible.buy_resting) (hsrest hadmissible.sell_resting))

/-- A quiet store to which one order is added. -/
theorem Quiet.added (h : s.Quiet allowSelfTrade) (ho : o.Regular) (hconfirmed : o.status ≠ .pending)
    (horders : ∀ p ∈ s'.orders.entries, p = o ∨ p ∈ s.orders.entries) :
    s'.QuietBut allowSelfTrade o.id := by
  constructor
  · intro p hp
    rcases horders p hp with rfl | hp
    · exact ho
    · exact h.regular p hp
  · intro p hp
    rcases horders p hp with rfl | hp
    · exact hconfirmed
    · exact h.confirmed p hp
  · intro market buy hbuy sell hsell hadmissible _
    rcases horders buy hbuy with rfl | hbuy
    · exact Or.inl rfl
    · rcases horders sell hsell with rfl | hsell
      · exact Or.inr rfl
      · exact absurd hadmissible (h.unpaired buy hbuy sell hsell)

/-- If the order finds no partner, no pair may trade. -/
theorem QuietBut.quiet (h : s.QuietBut allowSelfTrade id) (ho : s.orders.find? id = some o)
    (hnone : s.incomingCandidate allowSelfTrade id = none) : s.Quiet allowSelfTrade := by
  refine ⟨h.regular, h.confirmed, fun buy hbuy sell hsell hadmissible => ?_⟩
  rw [← bestCandidate_eq_incomingCandidate ho (h.pairs o.market)] at hnone
  have hfound : ∀ p ∈ s.orders.entries, p.id = id → p = o := by
    intro p hp hid
    rw [← hid, OrderTable.find?_of_mem hp] at ho
    exact Option.some.inj ho
  refine bestCandidate_eq_none_iff.1 hnone buy hbuy sell hsell hadmissible ?_
  rcases h.pairs buy.market buy hbuy sell hsell hadmissible rfl with hid | hid
  · rw [hfound buy hbuy hid]
  · rw [hadmissible.market_eq, hfound sell hsell hid]

/-! ### Matches use up orders -/

/-- How many orders are in the book. -/
def restingCount (s : Store) : ℕ := (s.orders.entries.map fun o => o.isResting.toNat).sum

theorem restingCount_le (s : Store) : s.restingCount ≤ s.orders.entries.length := by
  have hle : ∀ n ∈ s.orders.entries.map fun o => o.isResting.toNat, n ≤ 1 := by
    intro n hn
    obtain ⟨o, -, rfl⟩ := List.mem_map.1 hn
    exact o.isResting.toNat_le
  have hsum := List.sum_le_card_nsmul _ 1 hle
  rwa [List.length_map, nsmul_one] at hsum

/-- Where no order is in the book, no pair may trade. -/
theorem QuietBut.quiet_of_restingCount (h : s.QuietBut allowSelfTrade id)
    (hzero : s.restingCount = 0) : s.Quiet allowSelfTrade := by
  refine ⟨h.regular, h.confirmed, fun buy hbuy sell _ hadmissible => ?_⟩
  have hbuy_zero := List.sum_eq_zero_iff.1 hzero _ (List.mem_map_of_mem hbuy)
  rw [hadmissible.buy_resting] at hbuy_zero
  cases hbuy_zero

section Matched

variable {stamp : Stamp} {makerId takerId : OrderId} {quantity : Decimal} {fees : FeeSchedule}
  {maker taker : Order} {m : Match} (hm : s.Matches stamp makerId takerId quantity fees maker taker m)

include hm

/-- A match that takes all that remains of one order completes it. -/
theorem Matches.completes (hquantity : quantity = maker.remaining ∨ quantity = taker.remaining) :
    m.maker.status = .completed ∨ m.taker.status = .completed :=
  hquantity.imp (Order.completed_of_fill hm.maker_filled) (Order.completed_of_fill hm.taker_filled)

variable (horders : s'.orders = (s.orders.put m.maker).put m.taker)

include horders

/-- A match that completes an order leaves fewer orders in any part of the book that has both. -/
theorem Matches.sum_resting_lt (P : Order → Bool)
    (hcompletes : m.maker.status = .completed ∨ m.taker.status = .completed)
    (hmaker_in : P maker = true ∧ P m.maker = true) (htaker_in : P taker = true ∧ P m.taker = true) :
    (s'.orders.entries.map fun o => (o.isResting && P o).toNat).sum <
      (s.orders.entries.map fun o => (o.isResting && P o).toNat).sum := by
  have hfewer : (m.maker.isResting && P m.maker).toNat + (m.taker.isResting && P m.taker).toNat ≤
      1 := by
    have hmaker := m.maker.isResting.toNat_le
    have htaker := m.taker.isResting.toNat_le
    rw [hmaker_in.2, htaker_in.2, Bool.and_true, Bool.and_true]
    rcases hcompletes with hdone | hdone
    · rw [Order.isResting_of_completed hdone, Bool.toNat_false, zero_add]
      exact htaker
    · rw [Order.isResting_of_completed hdone, Bool.toNat_false, add_zero]
      exact hmaker
  have hmaker := OrderTable.sum_map_put (fun o => (o.isResting && P o).toNat) s.orders m.maker
  have htaker := OrderTable.sum_map_put (fun o => (o.isResting && P o).toNat)
    (s.orders.put m.maker) m.taker
  have htaker_found : (s.orders.put m.maker).find? takerId = some taker := by
    rw [OrderTable.find?_put, hm.filled_maker_id, if_neg hm.ne, hm.taker_found]
  rw [hm.filled_maker_id, hm.maker_found, Option.elim_some,
    Order.isResting_of_fill hm.maker_filled, hmaker_in.1, Bool.and_true, Bool.toNat_true] at hmaker
  rw [hm.filled_taker_id, htaker_found, Option.elim_some,
    Order.isResting_of_fill hm.taker_filled, htaker_in.1, Bool.and_true, Bool.toNat_true] at htaker
  rw [horders]
  omega

theorem Matches.restingCount_lt (hquantity : quantity = maker.remaining ∨ quantity = taker.remaining) :
    s'.restingCount < s.restingCount := by
  have hlt := hm.sum_resting_lt horders (fun _ => true) (hm.completes hquantity) ⟨rfl, rfl⟩
    ⟨rfl, rfl⟩
  simpa only [restingCount, Bool.and_true] using hlt

theorem QuietBut.matched (h : s.QuietBut allowSelfTrade id) : s'.QuietBut allowSelfTrade id := by
  refine ⟨?_, fun p hp => ?_, fun market => (h.pairs market).matched hm horders⟩
  · rw [Regular, horders]
    exact hm.regular h.regular
  · rw [horders] at hp
    obtain ⟨o, ho, rfl | ⟨role, hfill⟩⟩ := hm.exists_before hp
    · exact h.confirmed p ho
    · exact (Order.Changes.filled hfill).advances.moves.ne_pending

end Matched

end Store

end Bourse
