import Bourse.Matching
import Mathlib.Data.List.Basic

/-!
# Where candidates come from

A pair that is chosen to trade consists of two orders of the book as it was seen, whose owners may
trade with each other.
-/

namespace Bourse

variable {allowSelfTrade : Bool} {buy incoming other : Order} {buys sells opposite : List Order}
  {c : MatchCandidate}

theorem ownersMayTrade_iff {a b : Order} : ownersMayTrade allowSelfTrade a b = true ↔
    allowSelfTrade = true ∨ a.userId ≠ b.userId := by
  rw [ownersMayTrade, Bool.or_eq_true, decide_eq_true_eq]

theorem ownersMayTrade_comm (a b : Order) :
    ownersMayTrade allowSelfTrade a b = ownersMayTrade allowSelfTrade b a := by
  rw [Bool.eq_iff_iff, ownersMayTrade_iff, ownersMayTrade_iff, ne_comm]

theorem firstSellFor_eq_some (h : firstSellFor allowSelfTrade buy sells = some other) :
    other ∈ sells ∧ ownersMayTrade allowSelfTrade buy other = true := by
  have hmem := (List.takeWhile_sublist _).subset (List.mem_of_find?_eq_some h)
  exact ⟨(List.mem_filter.1 hmem).1, List.find?_some h⟩

theorem bestMatch_eq_some (h : bestMatch allowSelfTrade buys sells = some c) :
    ∃ buy ∈ buys, ∃ sell ∈ sells,
      ownersMayTrade allowSelfTrade buy sell = true ∧ c = .between buy sell := by
  obtain ⟨buy, hbuy, hc⟩ := List.exists_of_findSome?_eq_some h
  obtain ⟨sell, hsell, rfl⟩ := Option.map_eq_some_iff.1 hc
  obtain ⟨hmem, howners⟩ := firstSellFor_eq_some hsell
  exact ⟨buy, (List.mem_filter.1 hbuy).1, sell, hmem, howners, rfl⟩

theorem counterparty_eq_some (h : counterparty allowSelfTrade incoming opposite = some c) :
    ∃ other ∈ opposite, ownersMayTrade allowSelfTrade incoming other = true ∧
      c = .between (asBuyAndSell incoming other).1 (asBuyAndSell incoming other).2 := by
  unfold counterparty at h
  split at h
  · obtain ⟨other, hother, rfl⟩ := Option.map_eq_some_iff.1 h
    have hmem := (List.takeWhile_sublist _).subset (List.mem_of_find?_eq_some hother)
    exact ⟨other, (List.mem_filter.1 hmem).1, List.find?_some hother, rfl⟩
  · cases h

/-- What both an incoming order and its partner satisfy, their buy and sell do. -/
theorem forall_asBuyAndSell {P : Order → Prop} (h : P incoming) (h' : P other) :
    P (asBuyAndSell incoming other).1 ∧ P (asBuyAndSell incoming other).2 := by
  unfold asBuyAndSell
  cases incoming.side
  · exact ⟨h, h'⟩
  · exact ⟨h', h⟩

end Bourse
