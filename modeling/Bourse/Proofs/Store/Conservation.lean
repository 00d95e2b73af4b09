import Bourse.Proofs.Decimal.Sums
import Bourse.Proofs.Store.Calls

/-!
# What is traded is what is filled

As long as all amounts and quantities are multiples of one step, remaining amounts are exact. Then
the trades of an order add up to the part of it that is filled, whatever calls are made to the store
and in whatever order.

The invariant ties each stored order to its trades. A match moves both sides of it by the quantity
of the new trade, for its two orders and for no other.
-/

namespace Bourse

/-- An order whose amounts are multiples of `1 / 10 ^ d` and in range. -/
structure Order.Measured (d : ℕ) (o : Order) : Prop where
  amount_digits : HasDigits d o.amount.toRat
  remaining_digits : HasDigits d o.remaining.toRat
  remaining_nonneg : 0 ≤ o.remaining.toRat
  remaining_le : o.remaining.toRat ≤ o.amount.toRat
  amount_lt : o.amount.toRat * 10 ^ d < Decimal.bound

namespace Order.Measured

variable {d : ℕ} {o o' : Order} {stamp : Stamp}

theorem of_create {terms : OrderTerms} (h : Order.create stamp terms = .ok o)
    (hdig : HasDigits d o.amount.toRat) (hlt : o.amount.toRat * 10 ^ d < Decimal.bound) :
    o.Measured d ∧ o.remaining = o.amount := by
  obtain ⟨hpos, -, -, rfl⟩ := Order.create_eq_ok_iff.1 h
  have hamount := (Decimal.isPos_iff.1 hpos).le
  exact ⟨⟨hdig, hdig, hamount, le_refl _, hlt⟩, rfl⟩

theorem apply {t : Transition} {now : Instant} (h : o.Measured d) (ha : t.apply o now = .ok o') :
    o'.Measured d := by
  obtain ⟨status, notes, rfl, -⟩ := Transition.apply_eq_ok ha
  exact ⟨h.amount_digits, h.remaining_digits, h.remaining_nonneg, h.remaining_le, h.amount_lt⟩

/-- A difference on the grid is exact. -/
theorem remaining_sub (h : o.Measured d) (hd : d ≤ 28) {q r : Decimal} (hq : HasDigits d q.toRat)
    (hpos : 0 ≤ q.toRat) (hle : q.toRat ≤ o.remaining.toRat) (hr : o.remaining.sub q = .ok r) :
    r.toRat = o.remaining.toRat - q.toRat := by
  have hlt : |o.remaining.toRat - q.toRat| * 10 ^ d < Decimal.bound := by
    rw [abs_of_nonneg (by linarith)]
    calc (o.remaining.toRat - q.toRat) * 10 ^ d ≤ o.amount.toRat * 10 ^ d := by
          have := h.remaining_le
          exact mul_le_mul_of_nonneg_right (by linarith) (by positivity)
      _ < Decimal.bound := h.amount_lt
  obtain ⟨c, hc, hv⟩ := Decimal.sub_exact h.remaining_digits hq hd hlt
  obtain rfl : c = r := by
    rw [hc] at hr
    exact Except.ok.inj hr
  exact hv

/-- A fill takes its quantity from what remains. -/
theorem fill (h : o.Measured d) (hd : d ≤ 28) {q : Decimal} (hq : HasDigits d q.toRat)
    {role : OrderRole} {now : Instant} (hf : (o.fill q role now).run = .ok (.ok o')) :
    o'.Measured d ∧ o'.amount = o.amount ∧ o'.remaining.toRat = o.remaining.toRat - q.toRat := by
  obtain ⟨-, hpos, hroom, r, hr, rfl⟩ := Order.fill_eq_ok_iff.1 hf
  have hpos' := Decimal.isPos_iff.1 hpos
  have hle := Decimal.not_lt_iff.1 hroom
  have hv := h.remaining_sub hd hq hpos'.le hle hr
  refine ⟨⟨h.amount_digits, ?_, ?_, ?_, h.amount_lt⟩, rfl, hv⟩
  · rw [hv]
    exact h.remaining_digits.sub hq
  · rw [hv]
    linarith
  · rw [hv]
    have := h.remaining_le
    linarith

end Order.Measured

namespace Store

/-- The sum of the quantities of an order's trades. -/
def tradedQuantity (s : Store) (id : OrderId) : ℚ :=
  ((s.tradesOfOrder id).map fun t => t.quantity.toRat).sum

/-- Calls with quantities that are multiples of `1 / 10 ^ d`. Orders come as they are created, with
amounts in range. -/
def InStepsOf (d : ℕ) : StoreCall → Prop
  | .insertOrder o => (∃ stamp terms, Order.create stamp terms = .ok o) ∧
      HasDigits d o.amount.toRat ∧ o.amount.toRat * 10 ^ d < Decimal.bound
  | .commitMatch _ _ quantity _ => HasDigits d quantity.toRat
  | _ => True

/-- Each stored order is filled by what it has traded, and each trade is one of stored orders. -/
structure Conserved (d : ℕ) (s : Store) : Prop where
  measured : ∀ o ∈ s.orders.entries, o.Measured d
  traded : ∀ o ∈ s.orders.entries, s.tradedQuantity o.id = o.amount.toRat - o.remaining.toRat
  quantity_pos : ∀ t ∈ s.trades, 0 < t.quantity.toRat
  stored : ∀ t ∈ s.trades, ∀ id, t.involvesOrder id = true → ∃ o ∈ s.orders.entries, o.id = id

variable {d : ℕ} {s s' : Store} {stamp : Stamp}

theorem tradedQuantity_congr (h : s'.trades = s.trades) (id : OrderId) :
    s'.tradedQuantity id = s.tradedQuantity id := by
  unfold tradedQuantity tradesOfOrder
  rw [h]

theorem tradedQuantity_append {t : Trade} (h : s'.trades = s.trades ++ [t]) (id : OrderId) :
    s'.tradedQuantity id =
      s.tradedQuantity id + if t.involvesOrder id = true then t.quantity.toRat else 0 := by
  unfold tradedQuantity tradesOfOrder
  rw [h, List.filter_append, List.map_append, List.sum_append]
  by_cases hi : t.involvesOrder id = true <;> simp [hi]

namespace Conserved

theorem empty (d : ℕ) : Conserved d Store.empty where
  measured o h := by cases h
  traded o h := by cases h
  quantity_pos t h := by cases h
  stored t h := by cases h

/-- An order that is not stored has not traded. -/
theorem tradesOfOrder_eq_nil (h : Conserved d s) {id : OrderId}
    (hnone : s.orders.find? id = none) : s.tradesOfOrder id = [] := by
  unfold tradesOfOrder
  rw [List.filter_eq_nil_iff]
  intro t ht hi
  obtain ⟨o, ho, hid⟩ := h.stored t ht id hi
  exact OrderTable.find?_eq_none_iff.1 hnone o ho hid

theorem tradedQuantity_eq_zero (h : Conserved d s) {id : OrderId}
    (hnone : s.orders.find? id = none) : s.tradedQuantity id = 0 := by
  rw [tradedQuantity, h.tradesOfOrder_eq_nil hnone]
  rfl

/-- One order is put, as far filled as it was before or as a new one. -/
theorem put (h : Conserved d s) {o : Order} (ho : o.Measured d)
    (htraded : s.tradedQuantity o.id = o.amount.toRat - o.remaining.toRat)
    (horders : s'.orders = s.orders.put o) (htrades : s'.trades = s.trades) : Conserved d s' where
  measured p hp := by
    rw [horders, OrderTable.mem_put_iff] at hp
    rcases hp with rfl | ⟨hp, -⟩
    · exact ho
    · exact h.measured p hp
  traded p hp := by
    rw [horders, OrderTable.mem_put_iff] at hp
    rw [tradedQuantity_congr htrades]
    rcases hp with rfl | ⟨hp, -⟩
    · exact htraded
    · exact h.traded p hp
  quantity_pos t ht := h.quantity_pos t (htrades ▸ ht)
  stored t ht id hi := by
    obtain ⟨p, hp, rfl⟩ := h.stored t (htrades ▸ ht) id hi
    rw [horders]
    by_cases hid : p.id = o.id
    · exact ⟨o, OrderTable.mem_put_iff.2 (Or.inl rfl), hid.symm⟩
    · exact ⟨p, OrderTable.mem_put_iff.2 (Or.inr ⟨hp, hid⟩), rfl⟩

/-- A match moves what is filled and what is traded by the same quantity. -/
theorem matched (h : Conserved d s) (hd : d ≤ 28) {makerId takerId : OrderId} {quantity : Decimal}
    {fees : FeeSchedule} {maker taker : Order} {m : Match} (hq : HasDigits d quantity.toRat)
    (hm : s.Matches stamp makerId takerId quantity fees maker taker m)
    (horders : s'.orders = (s.orders.put m.maker).put m.taker)
    (htrades : s'.trades = s.trades ++ [m.trade]) : Conserved d s' := by
  have hmaker := OrderTable.mem_of_find? hm.maker_found
  have htaker := OrderTable.mem_of_find? hm.taker_found
  obtain ⟨hmm, hma, hmr⟩ := (h.measured maker hmaker).fill hd hq hm.maker_filled
  obtain ⟨htm, hta, htr⟩ := (h.measured taker htaker).fill hd hq hm.taker_filled
  have hmt := h.traded maker hmaker
  have htt := h.traded taker htaker
  rw [hm.maker_id] at hmt
  rw [hm.taker_id] at htt
  constructor
  · intro p hp
    rw [horders, hm.mem_orders_iff] at hp
    rcases hp with rfl | rfl | ⟨hp, -, -⟩
    · exact hmm
    · exact htm
    · exact h.measured p hp
  · intro p hp
    rw [horders, hm.mem_orders_iff] at hp
    rw [tradedQuantity_append htrades, hm.trade_quantity]
    rcases hp with rfl | rfl | ⟨hp, hp1, hp2⟩
    · rw [hm.filled_maker_id, if_pos ((hm.involvesOrder_iff makerId).2 (Or.inl rfl)), hma, hmr, hmt]
      ring
    · rw [hm.filled_taker_id, if_pos ((hm.involvesOrder_iff takerId).2 (Or.inr rfl)), hta, htr, htt]
      ring
    · have hno : ¬m.trade.involvesOrder p.id = true := by
        rw [hm.involvesOrder_iff]
        exact fun hi => hi.elim hp1 hp2
      rw [if_neg hno, add_zero]
      exact h.traded p hp
  · intro t ht
    rw [htrades, List.mem_append, List.mem_singleton] at ht
    rcases ht with ht | rfl
    · exact h.quantity_pos t ht
    · rw [hm.trade_quantity]
      exact Decimal.isPos_iff.1 hm.tradable.quantity_pos
  · intro t ht id hi
    have hkept : ∀ p ∈ s.orders.entries, ∃ o ∈ s'.orders.entries, o.id = p.id := by
      intro p hp
      rw [horders]
      obtain ⟨o, ho, rfl | ⟨role, hfill⟩⟩ := hm.exists_after hp
      · exact ⟨o, ho, rfl⟩
      · exact ⟨o, ho, (Order.sameTerms_of_fill hfill).id_eq⟩
    rw [htrades, List.mem_append, List.mem_singleton] at ht
    rcases ht with ht | rfl
    · obtain ⟨p, hp, rfl⟩ := h.stored t ht id hi
      exact hkept p hp
    · rcases (hm.involvesOrder_iff id).1 hi with rfl | rfl
      · exact hm.maker_id ▸ hkept maker hmaker
      · exact hm.taker_id ▸ hkept taker htaker

/-- Every call preserves the invariant. -/
theorem perform (h : Conserved d s) (hd : d ≤ 28) (stamp : Stamp) {c : StoreCall}
    (hc : InStepsOf d c) : Conserved d (s.perform stamp c).2 := by
  cases ordersStep s stamp c with
  | unchanged horders htrades =>
    exact ⟨horders ▸ h.measured,
      fun o ho => by rw [tradedQuantity_congr htrades]; exact h.traded o (horders ▸ ho),
      htrades ▸ h.quantity_pos, by rw [horders, htrades]; exact h.stored⟩
  | inserted fresh horders htrades =>
    obtain ⟨⟨stamp', terms, hcreate⟩, hdig, hlt⟩ := hc
    rename_i o
    obtain ⟨ho, hr⟩ := Order.Measured.of_create hcreate hdig hlt
    refine h.put (o := { o with sequence := s.nextSequence + 1 })
      ⟨ho.1, ho.2, ho.3, ho.4, ho.5⟩ ?_ horders htrades
    rw [h.tradedQuantity_eq_zero fresh, hr, sub_self]
  | transitioned found applied horders htrades =>
    have hmem := OrderTable.mem_of_find? found
    have ho := (h.measured _ hmem).apply applied
    have htraded := h.traded _ hmem
    obtain ⟨status, notes, rfl, -⟩ := Transition.apply_eq_ok applied
    exact h.put ho htraded horders htrades
  | matched hm horders htrades => exact h.matched hd hc hm horders htrades

end Conserved

/-- Whatever calls are made to a store, and by whomever, the trades of each stored order add up to
what is filled of it, and so to no more than its amount. Every trade has a positive quantity, and
its two orders are stored. -/
theorem tradedQuantity_eq_filled (d : ℕ) (hd : d ≤ 28) (calls : List (Stamp × StoreCall))
    (hcalls : ∀ c ∈ calls, InStepsOf d c.2) :
    let s := Store.empty.afterCalls calls
    (∀ o ∈ s.orders.entries, s.tradedQuantity o.id = o.amount.toRat - o.remaining.toRat ∧
      s.tradedQuantity o.id ≤ o.amount.toRat) ∧
    ∀ t ∈ s.trades, 0 < t.quantity.toRat ∧ (∃ o ∈ s.orders.entries, o.id = t.buyOrderId) ∧
      ∃ o ∈ s.orders.entries, o.id = t.sellOrderId := by
  have h : Conserved d (Store.empty.afterCalls calls) :=
    afterCalls_induction (Conserved.empty d) fun s stamp c hc h => h.perform hd stamp (hcalls _ hc)
  refine ⟨fun o ho => ?_, fun t ht => ?_⟩
  · have htraded := h.traded o ho
    have hpos := (h.measured o ho).remaining_nonneg
    exact ⟨htraded, by rw [htraded]; linarith⟩
  · refine ⟨h.quantity_pos t ht, h.stored t ht t.buyOrderId ?_, h.stored t ht t.sellOrderId ?_⟩
    · simp [Trade.involvesOrder]
    · simp [Trade.involvesOrder]

/-- One and a half. -/
def oneAndHalf : Decimal := .ofMantissa 15 1 (by decide) (by decide)

/-- A buy of 2.5 and a sell of 1.5, confirmed and matched. -/
def matchedPair : List (Stamp × StoreCall) :=
  let two := Decimal.ofMantissa 25 1 (by decide) (by decide)
  let calls : List StoreCall :=
    [.insertOrder (.gold 1 .buy two (.ofWord 100) 1),
      .insertOrder (.gold 2 .sell oneAndHalf (.ofWord 100) 2),
      .transitionOrder ⟨.ofNat 1⟩ .confirm, .transitionOrder ⟨.ofNat 2⟩ .confirm,
      .commitMatch ⟨.ofNat 1⟩ ⟨.ofNat 2⟩ oneAndHalf .zero]
  calls.map fun c => (⟨.ofNat 3, .epoch⟩, c)

theorem tradedQuantity_eq_filled_matchedPair :
    (1 ≤ 28 ∧ ∀ c ∈ matchedPair, InStepsOf 1 c.2) ∧
    let s := Store.empty.afterCalls matchedPair
    s.trades.length = 1 ∧
    (∀ o ∈ s.orders.entries, s.tradedQuantity o.id = o.amount.toRat - o.remaining.toRat ∧
      s.tradedQuantity o.id ≤ o.amount.toRat) ∧
    ∀ t ∈ s.trades, 0 < t.quantity.toRat ∧ (∃ o ∈ s.orders.entries, o.id = t.buyOrderId) ∧
      ∃ o ∈ s.orders.entries, o.id = t.sellOrderId := by
  have hcalls : ∀ c ∈ matchedPair, InStepsOf 1 c.2 := by
    have htwo : (Decimal.ofMantissa 25 1 (by decide) (by decide)).toRat = 25 / 10 := by
      rw [Decimal.toRat_ofMantissa]
      norm_num
    have hone : oneAndHalf.toRat = 15 / 10 := by
      rw [oneAndHalf, Decimal.toRat_ofMantissa]
      norm_num
    simp only [matchedPair, List.map_cons, List.map_nil, List.forall_mem_cons]
    refine ⟨⟨?_, ⟨25, ?_⟩, ?_⟩, ⟨?_, ⟨15, ?_⟩, ?_⟩, trivial, trivial, ⟨15, ?_⟩, by simp⟩
    · exact Order.create_gold 1 .buy 1 (by decide) (by decide) ⟨_, rfl⟩
    · simp only [Order.gold, htwo]
      norm_num
    · simp only [Order.gold, htwo, bound_eq]
      norm_num
    · exact Order.create_gold 2 .sell 2 (by decide) (by decide) ⟨_, rfl⟩
    · simp only [Order.gold, hone]
      norm_num
    · simp only [Order.gold, hone, bound_eq]
      norm_num
    · simp only [hone]
      norm_num
  exact ⟨⟨by decide, hcalls⟩, by decide +kernel, tradedQuantity_eq_filled 1 (by decide) _ hcalls⟩

end Store

end Bourse
