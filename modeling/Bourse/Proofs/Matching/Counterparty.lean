import Bourse.Proofs.Matching.BestMatch

/-!
# An order against one side

An order that comes to the book looks along the other side for its partner. On a side in priority
order this finds what the search of two sides finds when the order is alone on its own side. The two
searches stop at different places: at the first bid that is too low for a sell, the search of two
sides goes on with the next bid.

Orders of the order's own side do not count, and neither does the order itself, wherever they are.
-/

namespace Bourse

variable {allowSelfTrade : Bool} {o : Order} {orders orders' : List Order}

/-- A list of orders to which others with a property were added anywhere. -/
inductive Padded (P : Order → Prop) : List Order → List Order → Prop where
  | nil : Padded P [] []
  | keep {p : Order} {orders padded : List Order} (rest : Padded P orders padded) :
    Padded P (p :: orders) (p :: padded)
  | add {p : Order} {orders padded : List Order} (added : P p) (rest : Padded P orders padded) :
    Padded P orders (p :: padded)

/-- A filter that takes out what was added does not see it. -/
theorem Padded.filter_eq {P : Order → Prop} {q : Order → Bool} (h : Padded P orders orders')
    (hq : ∀ p, P p → q p = false) : orders'.filter q = orders.filter q := by
  induction h with
  | nil => rfl
  | keep _ ih => rw [List.filter_cons, List.filter_cons, ih]
  | add hp _ ih => rw [List.filter_cons_of_neg (by rw [hq _ hp]; exact Bool.false_ne_true), ih]

/-- Orders of the same side are passed by, and so is the order itself. -/
theorem isOpposite_eq_false {p : Order} (h : p.side = o.side ∨ p.id = o.id) :
    isOpposite o p = false := by
  rw [isOpposite]
  rcases h with h | h <;> simp [h]

theorem counterparty_padded (h : Padded (fun p => p.side = o.side ∨ p.id = o.id) orders orders') :
    counterparty allowSelfTrade o orders' = counterparty allowSelfTrade o orders := by
  rw [counterparty, counterparty, h.filter_eq fun p => isOpposite_eq_false]

/-! ### Alone on a side -/

/-- A buy alone finds what it finds for itself. -/
theorem bestMatch_singleton_left : bestMatch allowSelfTrade [o] orders =
    bestFor allowSelfTrade orders o := by
  rw [bestMatch_eq_findSome?, List.findSome?_singleton]

/-- A buy looks at a single sell. -/
theorem bestFor_singleton (hrest : o.isResting = true) (buy : Order) :
    bestFor allowSelfTrade [o] buy =
      if buy.isResting = true ∧ mayTrade allowSelfTrade buy o = true then some (.between buy o)
      else none := by
  rw [bestFor, firstSellFor_eq (List.pairwise_singleton _ _), List.filter_cons_of_pos hrest,
    List.filter_nil, List.find?_singleton]
  cases buy.isResting <;> cases mayTrade allowSelfTrade buy o <;> rfl

/-- A sell alone is found by the first buy that it may trade with. -/
theorem bestMatch_singleton_right (hrest : o.isResting = true) :
    bestMatch allowSelfTrade orders [o] =
      ((orders.filter Order.isResting).find? (mayTrade allowSelfTrade · o)).map (.between · o) := by
  rw [bestMatch_eq_findSome?, List.find?_filter]
  refine findSome?_eq_map_find? fun buy _ => ?_
  simp only [bestFor_singleton hrest, decide_eq_true_eq]

/-- An order that is not in the book is not found, alone or not. -/
theorem bestMatch_singleton_right_of_not (hrest : ¬o.isResting = true) :
    bestMatch allowSelfTrade orders [o] = none := by
  rw [bestMatch_eq_none_iff (List.pairwise_singleton _ _)]
  intro buy _ sell hsell hcan
  rw [List.mem_singleton.1 hsell] at hcan
  exact hrest hcan.sell_resting

/-- On the other side in priority order, an order finds the partner that the search of both sides
finds for it when it is alone on its own side. -/
theorem counterparty_eq_bestMatch
    (hsorted : orders.Pairwise fun a b =>
      priorityKey o.side.opposite a ≤ priorityKey o.side.opposite b)
    (hopposite : ∀ p ∈ orders, p.side = o.side.opposite ∧ p.id ≠ o.id) :
    counterparty allowSelfTrade o orders = match o.side with
      | .buy => bestMatch allowSelfTrade [o] orders
      | .sell => bestMatch allowSelfTrade orders [o] := by
  by_cases hrest : o.isResting = true
  · have hne : ∀ p ∈ orders, p.side ≠ o.side ∧ p.id ≠ o.id := by
      refine fun p hp => ⟨?_, (hopposite p hp).2⟩
      rw [(hopposite p hp).1]
      cases o.side <;> exact fun h => (by cases h)
    rw [counterparty_eq_find? hrest hsorted hne]
    unfold asBuyAndSell
    cases hside : o.side with
    | buy =>
      rw [hside] at hsorted
      rw [bestMatch_singleton_left, bestFor, if_pos hrest, firstSellFor_eq hsorted]
    | sell => rw [bestMatch_singleton_right hrest]
  · rw [counterparty, if_neg hrest]
    cases o.side with
    | buy => rw [bestMatch_singleton_left, bestFor, if_neg hrest]
    | sell => rw [bestMatch_singleton_right_of_not hrest]

/-- An order that comes to the book finds on the other side, in priority order, what the search of
two sides finds for it alone on its own side. On no list does it make a difference if orders of its
own side, or the order itself, are added anywhere. -/
theorem counterparty_agrees (allowSelfTrade : Bool) (o : Order) {orders : List Order}
    (hopposite : ∀ p ∈ orders, p.side = o.side.opposite ∧ p.id ≠ o.id) :
    let side := sortByPriority o.side.opposite orders
    (counterparty allowSelfTrade o side = match o.side with
      | .buy => bestMatch allowSelfTrade [o] side
      | .sell => bestMatch allowSelfTrade side [o]) ∧
    ∀ listed padded, Padded (fun p => p.side = o.side ∨ p.id = o.id) listed padded →
      counterparty allowSelfTrade o padded = counterparty allowSelfTrade o listed := by
  intro side
  refine ⟨counterparty_eq_bestMatch (pairwise_sortByPriority _ _) fun p hp => ?_,
    fun listed padded h => counterparty_padded h⟩
  exact hopposite p (List.mem_mergeSort.1 hp)

/-- A sell meets a bid of its owner, one that it can trade with, and one that is too low. It finds
the second, also with another sell and itself among the bids. -/
theorem counterparty_agrees_threeBids :
    let resting (number : Nat) (side : Side) (price user : UInt64) : Order :=
      { Order.gold number side (.ofWord 5) (.ofWord price) user with status := .confirmed }
    let o := resting 5 .sell 95 1
    let bids := [resting 1 .buy 99 1, resting 2 .buy 97 2, resting 3 .buy 94 3]
    let side := sortByPriority .buy bids
    let padded := o :: resting 1 .buy 99 1 :: resting 4 .sell 90 4 ::
      [resting 2 .buy 97 2, resting 3 .buy 94 3]
    (∀ p ∈ bids, p.side = o.side.opposite ∧ p.id ≠ o.id) ∧
    Padded (fun p => p.side = o.side ∨ p.id = o.id) side padded ∧
    (counterparty false o padded).map MatchCandidate.buyOrderId = some ⟨.ofNat 2⟩ ∧
    counterparty false o side = bestMatch false side [o] ∧
    counterparty false o padded = counterparty false o side := by
  intro resting o bids side padded
  have hopposite : ∀ p ∈ bids, p.side = o.side.opposite ∧ p.id ≠ o.id := by decide +kernel
  have hsorted : side = bids := List.mergeSort_of_pairwise (by decide +kernel)
  have hpadded : Padded (fun p => p.side = o.side ∨ p.id = o.id) side padded := by
    rw [hsorted]
    exact .add (.inr rfl) (.keep (.add (.inl rfl) (.keep (.keep .nil))))
  have hfound : (counterparty false o padded).map MatchCandidate.buyOrderId =
      some ⟨.ofNat 2⟩ := by
    decide +kernel
  obtain ⟨hbest, hsame⟩ := counterparty_agrees false o hopposite
  exact ⟨hopposite, hpadded, hfound, hbest, hsame side padded hpadded⟩

end Bourse
