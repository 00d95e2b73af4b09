import Bourse.Proofs.Matching.Agreement
import Bourse.Proofs.Matching.Quiet
import Bourse.Proofs.Store.Commit
import Bourse.Proofs.Store.Restart

/-!
# Along the partners of an order

An order that comes to the book looks for its best partner again after each match. The partners that
it had before the first match, in order of priority, are all that it meets: a match either completes
the order, which ends the run, or it completes the partner, and then the others are left as they
were. So the run goes along one list from its beginning, and takes all that is left of one partner
before it comes to the next.
-/

namespace Bourse

/-- Whether an order in the book can be matched with an order that comes to it. -/
def isPartner (allowSelfTrade : Bool) (o p : Order) : Bool :=
  p.isResting && p.side = o.side.opposite && p.market = o.market &&
    mayTrade allowSelfTrade (asBuyAndSell o p).1 (asBuyAndSell o p).2

/-- The partners of an order in order of priority. -/
def Store.partners (allowSelfTrade : Bool) (s : Store) (o : Order) : List Order :=
  sortByPriority o.side.opposite (s.orders.entries.filter (isPartner allowSelfTrade o))

/-- The order that another one is traded with. -/
def Trade.partnerOf (id : OrderId) (t : Trade) : OrderId :=
  if t.makerOrderId = id then t.takerOrderId else t.makerOrderId

/-- An order is stored as completed. -/
def Store.Completed (s : Store) (id : OrderId) : Prop :=
  ∃ o, s.orders.find? id = some o ∧ o.status = .completed

variable {allowSelfTrade : Bool} {s s' s'' : Store} {o o' p p' : Order} {rest : List Order}
  {t : Trade} {fees : FeeSchedule}

/-! ### The best partner -/

theorem sortsBy_priorityLe (side : Side) : SortsBy (priorityLe side) (priorityKey side) :=
  fun _ _ => priorityLe_iff

theorem partners_eq_filter_sideOf (s : Store) (o : Order) : s.partners allowSelfTrade o =
    (s.sideOf o.market o.side.opposite).filter fun p =>
      mayTrade allowSelfTrade (asBuyAndSell o p).1 (asBuyAndSell o p).2 := by
  rw [Store.sideOf, sortByPriority, ← mergeSort_filter (sortsBy_priorityLe _), Store.partners,
    sortByPriority, Store.restingOrders, List.filter_filter, List.filter_filter]
  refine congrArg (List.mergeSort · _) (List.filter_congr fun p _ => ?_)
  unfold isPartner
  cases p.isResting <;> simp [Bool.and_comm]

theorem nodup_partners (s : Store) (o : Order) :
    ((s.partners allowSelfTrade o).map Order.id).Nodup := by
  have hsub := s.orders.ids_nodup.sublist ((List.filter_sublist
    (p := isPartner allowSelfTrade o)).map Order.id)
  exact (((List.mergeSort_perm _ _).map Order.id).nodup_iff).2 hsub

/-- The partner of an order is the first one of all. -/
theorem incomingCandidate_eq (ho : o ∈ s.orders.entries) (hrest : o.isResting = true) :
    s.incomingCandidate allowSelfTrade o.id = (s.partners allowSelfTrade o).head?.map fun p =>
      .between (asBuyAndSell o p).1 (asBuyAndSell o p).2 := by
  rw [Store.incomingCandidate, OrderTable.find?_of_mem ho, Option.bind_some,
    partners_eq_filter_sideOf, List.head?_filter, counterparty_sideOf ho hrest]

/-- The partners of an order in the book are the stored orders that it may trade with. -/
theorem mem_partners_iff (ho : o ∈ s.orders.entries) (hrest : o.isResting = true) :
    p ∈ s.partners allowSelfTrade o ↔ p ∈ s.orders.entries ∧
      Admissible allowSelfTrade (asBuyAndSell o p).1 (asBuyAndSell o p).2 := by
  rw [partners_eq_filter_sideOf, List.mem_filter]
  unfold asBuyAndSell
  constructor
  · rintro ⟨hin, hmay⟩
    refine ⟨(Store.mem_sideOf_iff.1 hin).1, ?_⟩
    cases hside : o.side with
    | buy =>
      rw [hside] at hin hmay
      exact admissible_of_mem (Store.mem_sideOf_iff.2 ⟨ho, hrest, hside, rfl⟩) hin hmay
    | sell =>
      rw [hside] at hin hmay
      exact admissible_of_mem hin (Store.mem_sideOf_iff.2 ⟨ho, hrest, hside, rfl⟩) hmay
  · rintro ⟨hp, hadmissible⟩
    have hmay : ∀ {buy sell : Order}, Admissible allowSelfTrade buy sell →
        mayTrade allowSelfTrade buy sell = true := fun h =>
      Bool.and_eq_true_iff.2 ⟨decide_eq_true h.crossing, ownersMayTrade_iff.2 h.owners⟩
    cases hside : o.side with
    | buy =>
      rw [hside] at hadmissible
      exact ⟨Store.mem_sideOf_iff.2 ⟨hp, hadmissible.sell_resting, hadmissible.sell_side,
        hadmissible.market_eq.symm⟩, hmay hadmissible⟩
    | sell =>
      rw [hside] at hadmissible
      exact ⟨Store.mem_sideOf_iff.2 ⟨hp, hadmissible.buy_resting, hadmissible.buy_side,
        hadmissible.market_eq⟩, hmay hadmissible⟩

/-- Orders of one side do not trade. -/
theorem isPartner_of_side_eq (hside : p.side = o.side) : isPartner allowSelfTrade o p = false := by
  have hne : p.side ≠ o.side.opposite := by
    rw [hside]
    cases o.side <;> exact fun h => (by cases h)
  simp [isPartner, hne]

theorem isPartner_of_completed (hdone : p.status = .completed) :
    isPartner allowSelfTrade o p = false := by
  simp [isPartner, Order.isResting_of_completed hdone]

/-- Who the partners of an order are depends on its terms only. -/
theorem isPartner_of_sameTerms (h : o.SameTerms o') (p : Order) :
    isPartner allowSelfTrade o' p = isPartner allowSelfTrade o p := by
  unfold isPartner asBuyAndSell mayTrade
  rw [h.side_eq, h.market_eq]
  cases o.side <;> simp [crosses, ownersMayTrade, h.price_eq, h.userId_eq]

/-! ### A match with a partner -/

/-- An order and its partner are maker and taker, in the order of their times. -/
theorem makerAndTaker_cases (o p : Order) :
    MatchCandidate.makerAndTaker (asBuyAndSell o p).1 (asBuyAndSell o p).2 = (o, p) ∨
      MatchCandidate.makerAndTaker (asBuyAndSell o p).1 (asBuyAndSell o p).2 = (p, o) := by
  unfold MatchCandidate.makerAndTaker asBuyAndSell
  cases o.side
  · exact (ite_eq_or_eq _ _ _)
  · exact (ite_eq_or_eq _ _ _).symm

/-- An order and a partner are matched, and nothing else is changed. -/
structure Store.Meets (s : Store) (o p : Order) (t : Trade) (o' p' : Order) (s' : Store) :
    Prop where
  stored : o ∈ s.orders.entries
  partner_stored : p ∈ s.orders.entries
  ne : o.id ≠ p.id
  involves : t.involvesOrder o.id = true
  partner_eq : t.partnerOf o.id = p.id
  quantity_eq : t.quantity = o.remaining ∨ t.quantity = p.remaining
  filled : ∃ role now, (o.fill t.quantity role now).run = .ok (.ok o')
  partner_filled : ∃ role now, (p.fill t.quantity role now).run = .ok (.ok p')
  entries_eq : s'.orders.entries = s.orders.entries.map fun x =>
    if x.id = o.id then o' else if x.id = p.id then p' else x

namespace Store.Meets

variable (h : s.Meets o p t o' p' s')

include h

theorem sameTerms : o.SameTerms o' := by
  obtain ⟨role, now, hfill⟩ := h.filled
  exact Order.sameTerms_of_fill hfill

theorem partner_sameTerms : p.SameTerms p' := by
  obtain ⟨role, now, hfill⟩ := h.partner_filled
  exact Order.sameTerms_of_fill hfill

theorem mem_iff {x : Order} : x ∈ s'.orders.entries ↔
    x = o' ∨ x = p' ∨ x ∈ s.orders.entries ∧ x.id ≠ o.id ∧ x.id ≠ p.id := by
  have hstored := List.inj_on_of_nodup_map s.orders.ids_nodup
  rw [h.entries_eq, List.mem_map]
  constructor
  · rintro ⟨y, hy, rfl⟩
    split
    · exact Or.inl rfl
    · rename_i hne
      split
      · exact Or.inr (Or.inl rfl)
      · rename_i hne'
        exact Or.inr (Or.inr ⟨hy, hne, hne'⟩)
  · rintro (rfl | rfl | ⟨hx, hne, hne'⟩)
    · exact ⟨o, h.stored, if_pos rfl⟩
    · exact ⟨p, h.partner_stored, by rw [if_neg h.ne.symm, if_pos rfl]⟩
    · exact ⟨x, hx, by rw [if_neg hne, if_neg hne']⟩

theorem find?_self : s'.orders.find? o.id = some o' :=
  OrderTable.find?_eq_some_iff.2 ⟨h.mem_iff.2 (Or.inl rfl), h.sameTerms.id_eq⟩

theorem find?_partner : s'.orders.find? p.id = some p' :=
  OrderTable.find?_eq_some_iff.2 ⟨h.mem_iff.2 (Or.inr (Or.inl rfl)), h.partner_sameTerms.id_eq⟩

/-- No other order is different. -/
theorem find?_other {id : OrderId} (ho : id ≠ o.id) (hp : id ≠ p.id) :
    s'.orders.find? id = s.orders.find? id := by
  ext x
  rw [OrderTable.find?_eq_some_iff, OrderTable.find?_eq_some_iff, h.mem_iff]
  constructor
  · rintro ⟨rfl | rfl | ⟨hx, -, -⟩, rfl⟩
    · exact absurd h.sameTerms.id_eq ho
    · exact absurd h.partner_sameTerms.id_eq hp
    · exact ⟨hx, rfl⟩
  · rintro ⟨hx, rfl⟩
    exact ⟨Or.inr (Or.inr ⟨hx, ho, hp⟩), rfl⟩

/-- A match completes the order, or it takes all that is left of the partner. -/
theorem completed_or : o'.status = .completed ∨
    o'.isResting = true ∧ t.quantity = p.remaining ∧ p'.status = .completed := by
  obtain ⟨role, now, hfill⟩ := h.filled
  obtain ⟨role', now', hfill'⟩ := h.partner_filled
  rcases h.quantity_eq with hall | hall
  · exact Or.inl (Order.completed_of_fill hfill hall)
  · have hdone := Order.completed_of_fill hfill' hall
    have hleft := (Order.remaining_of_fill hfill).1
    obtain ⟨-, -, -, r, -, rfl⟩ := Order.fill_eq_ok_iff.1 hfill
    by_cases hzero : r.isZero = true
    · exact Or.inl (if_pos hzero)
    · have hpos : r.isPos = true := Decimal.isPos_iff.2
        (lt_of_le_of_ne hleft fun h => hzero (Decimal.isZero_iff.2 h.symm))
      refine Or.inr ⟨?_, hall, hdone⟩
      rw [Order.isResting, if_neg hzero, hpos]
      rfl

/-- An order of the store is not a partner of itself. -/
theorem isPartner_self {x : Order} (hx : x ∈ s.orders.entries) (hid : x.id = o.id) :
    isPartner allowSelfTrade o x = false := by
  obtain rfl := List.inj_on_of_nodup_map s.orders.ids_nodup hx h.stored hid
  exact isPartner_of_side_eq rfl

/-- Once the partner is completed, the orders that the order can be matched with are the others. -/
theorem filter_isPartner (hdone : p'.status = .completed) :
    s'.orders.entries.filter (isPartner allowSelfTrade o') =
      (s.orders.entries.filter (isPartner allowSelfTrade o)).filter fun x => x.id ≠ p.id := by
  rw [h.entries_eq, List.filter_map, List.filter_filter]
  have hkept : ∀ x ∈ s.orders.entries,
      (isPartner allowSelfTrade o' ∘ fun x =>
        if x.id = o.id then o' else if x.id = p.id then p' else x) x =
          (decide (x.id ≠ p.id) && isPartner allowSelfTrade o x) := by
    intro x hx
    rw [Function.comp_apply, isPartner_of_sameTerms h.sameTerms]
    by_cases hid : x.id = o.id
    · rw [if_pos hid, isPartner_of_side_eq h.sameTerms.side_eq, h.isPartner_self hx hid,
        Bool.and_false]
    · by_cases hid' : x.id = p.id
      · rw [if_neg hid, if_pos hid', isPartner_of_completed hdone,
          decide_eq_false fun hne => hne hid', Bool.false_and]
      · rw [if_neg hid, if_neg hid', decide_eq_true hid', Bool.true_and]
  rw [List.filter_congr hkept]
  -- What is left is in its place as it was.
  refine (List.map_congr_left fun x hx => ?_).trans (List.map_id' _)
  obtain ⟨hx, hin⟩ := List.mem_filter.1 hx
  obtain ⟨hid', hpartner⟩ := Bool.and_eq_true_iff.1 hin
  have hid : x.id ≠ o.id := by
    intro hid
    rw [h.isPartner_self hx hid] at hpartner
    cases hpartner
  rw [if_neg hid, if_neg (of_decide_eq_true hid')]

/-- The partners after the first one is completed are the others. -/
theorem partners_eq (hdone : p'.status = .completed)
    (hpartners : s.partners allowSelfTrade o = p :: rest) :
    s'.partners allowSelfTrade o' = rest := by
  have hside : o'.side.opposite = o.side.opposite := by rw [h.sameTerms.side_eq]
  have hids : ((s.partners allowSelfTrade o).map Order.id).Nodup := nodup_partners s o
  rw [hpartners, List.map_cons, List.nodup_cons] at hids
  rw [Store.partners, hside, h.filter_isPartner hdone, sortByPriority,
    mergeSort_filter (sortsBy_priorityLe _)]
  show (s.partners allowSelfTrade o).filter _ = _
  rw [hpartners, List.filter_cons_of_neg (by simp), List.filter_eq_self]
  intro x hx
  exact decide_eq_true fun hid => hids.1 (hid ▸ List.mem_map_of_mem hx)

end Store.Meets

/-- A match of a pair, whichever of the two is the maker. -/
theorem Store.Matches.meets {stamp : Stamp} {makerId takerId : OrderId} {maker taker : Order}
    {quantity : Decimal} {m : Match}
    (hm : s.Matches stamp makerId takerId quantity fees maker taker m)
    (hpair : (maker, taker) = (o, p) ∨ (maker, taker) = (p, o))
    (hquantity : quantity = maker.remaining ∨ quantity = taker.remaining)
    (horders : s'.orders = (s.orders.put m.maker).put m.taker) :
    ∃ o' p', s.Meets o p m.trade o' p' s' := by
  have hmaker_id : m.trade.makerOrderId = maker.id := hm.trade_maker.trans hm.maker_id.symm
  have htaker_id : m.trade.takerOrderId = taker.id := hm.trade_taker.trans hm.taker_id.symm
  have hmaker := OrderTable.mem_of_find? hm.maker_found
  have htaker := OrderTable.mem_of_find? hm.taker_found
  have hne : maker.id ≠ taker.id := by
    rw [hm.maker_id, hm.taker_id]
    exact hm.ne
  have hentries := hm.entries_eq
  have hmaker_filled := hm.maker_filled
  have htaker_filled := hm.taker_filled
  rw [← horders, ← hm.maker_id, ← hm.taker_id] at hentries
  rw [← hm.trade_quantity] at hquantity hmaker_filled htaker_filled
  rcases hpair with hpair | hpair
  · obtain ⟨rfl, rfl⟩ := Prod.mk.inj hpair
    refine ⟨m.maker, m.taker, hmaker, htaker, hne, ?_, ?_, hquantity, ⟨_, _, hmaker_filled⟩,
      ⟨_, _, htaker_filled⟩, hentries⟩
    · exact (hm.involvesOrder_iff _).2 (Or.inl hm.maker_id)
    · rw [Trade.partnerOf, if_pos hmaker_id, htaker_id]
  · obtain ⟨rfl, rfl⟩ := Prod.mk.inj hpair
    refine ⟨m.taker, m.maker, htaker, hmaker, hne.symm, ?_, ?_, hquantity.symm,
      ⟨_, _, htaker_filled⟩, ⟨_, _, hmaker_filled⟩, ?_⟩
    · exact (hm.involvesOrder_iff _).2 (Or.inr hm.taker_id)
    · rw [Trade.partnerOf, hmaker_id, if_neg hne]
    · rw [hentries]
      refine List.map_congr_left fun x _ => ?_
      by_cases hid : x.id = maker.id
      · rw [if_pos hid, hid, if_neg hne, if_pos rfl]
      · rw [if_neg hid, if_neg hid]

/-! ### A run -/

/-- An order was matched with partners, at most `limit` times. -/
structure Store.Walked (s s' : Store) (o : Order) (partners : List Order) (limit : ℕ)
    (trades : List Trade) : Prop where
  involves : ∀ t ∈ trades, t.involvesOrder o.id = true
  /-- The trades are with the first of the partners, in their order. -/
  partners_eq : trades.map (Trade.partnerOf o.id) = (partners.take trades.length).map Order.id
  /-- Each of them but the last gives all that is left of it. -/
  whole : ∀ (n : ℕ) t p, trades[n]? = some t → partners[n]? = some p → n + 1 < trades.length →
    t.quantity = p.remaining ∧ s'.Completed p.id
  ending : s'.Completed o.id ∨
    (trades.length = partners.length ∧ ∀ p ∈ partners, s'.Completed p.id) ∨ trades.length = limit
  others : ∀ id ≠ o.id, (∀ p ∈ partners.take trades.length, p.id ≠ id) →
    s'.orders.find? id = s.orders.find? id

namespace Store.Walked

variable {partners : List Order} {trades : List Trade} {limit : ℕ}

/-- A run without a match. -/
theorem stop (h : partners = [] ∨ limit = 0) :
    s.Walked s o partners limit [] where
  involves t ht := absurd ht List.not_mem_nil
  partners_eq := rfl
  whole n t p ht := absurd ht (by simp)
  ending := by
    rcases h with rfl | rfl
    · exact Or.inr (Or.inl ⟨rfl, by simp⟩)
    · exact Or.inr (Or.inr rfl)
  others id _ _ := rfl

/-- A match that completes the order is the last one. -/
theorem last (h : s.Meets o p t o' p' s') (hdone : o'.status = .completed) :
    s.Walked s' o (p :: rest) (limit + 1) [t] where
  involves := by simpa using h.involves
  partners_eq := by simp [h.partner_eq]
  whole n t p _ _ hn := absurd hn (by simp)
  ending := Or.inl ⟨o', h.find?_self, hdone⟩
  others id ho hp := h.find?_other ho fun hid => hp p (by simp) hid.symm

/-- A match that completes the partner goes before the matches with the others. -/
theorem next (h : s.Meets o p t o' p' s') (hquantity : t.quantity = p.remaining)
    (hdone : p'.status = .completed) (hids : ((p :: rest).map Order.id).Nodup)
    (hwalked : s'.Walked s'' o' rest limit trades) :
    s.Walked s'' o (p :: rest) (limit + 1) (t :: trades) := by
  have hid : o'.id = o.id := h.sameTerms.id_eq
  rw [List.map_cons, List.nodup_cons] at hids
  -- No later match is with the partner.
  have hkept : s''.Completed p.id := by
    refine ⟨p', ?_, hdone⟩
    rw [hwalked.others p.id (by rw [hid]; exact h.ne.symm) fun x hx hxp =>
      hids.1 (hxp ▸ List.mem_map_of_mem (List.mem_of_mem_take hx)), h.find?_partner]
  refine ⟨?_, ?_, ?_, ?_, ?_⟩
  · refine List.forall_mem_cons.2 ⟨h.involves, fun t ht => ?_⟩
    rw [← hid]
    exact hwalked.involves t ht
  · have hrest := hwalked.partners_eq
    rw [hid] at hrest
    rw [List.map_cons, List.length_cons, List.take_succ_cons, List.map_cons, hrest, h.partner_eq]
  · intro n t' q ht hq hn
    cases n with
    | zero =>
      obtain rfl := Option.some.inj ht
      obtain rfl := Option.some.inj hq
      exact ⟨hquantity, hkept⟩
    | succ n =>
      exact hwalked.whole n t' q (by simpa using ht) (by simpa using hq) (by simpa using hn)
  · rw [List.length_cons, List.length_cons]
    rcases hwalked.ending with hend | ⟨hlength, hend⟩ | hend
    · exact Or.inl (hid ▸ hend)
    · exact Or.inr (Or.inl ⟨by rw [hlength], List.forall_mem_cons.2 ⟨hkept, hend⟩⟩)
    · exact Or.inr (Or.inr (by rw [hend]))
  · intro id ho hothers
    rw [List.length_cons, List.take_succ_cons, List.forall_mem_cons] at hothers
    rw [hwalked.others id (by rw [hid]; exact ho) hothers.2,
      h.find?_other ho fun hp => hothers.1 hp.symm]

end Store.Walked

namespace Desk

variable {stamps : ℕ → Stamp} {answers : LedgerAnswers} {x : Desk} {e : Engine}

/-- An order in the book is matched with the first of its partners. -/
theorem ends_first (stamps : ℕ → Stamp) (answers : LedgerAnswers) (hfees : e.fees.Fractions)
    (hx : x.store.Regular) (ho : o ∈ x.store.orders.entries) (hrest : o.isResting = true)
    (hpartners : x.store.partners e.allowSelfTrade o = p :: rest) :
    ∃ c t y z o' p',
      Task.Ends (handler stamps answers) (e.incomingCandidate o.id) x (.ok (some c)) y ∧
      Task.Ends (handler stamps answers) (e.execute c) y (.ok (some t)) z ∧
      z.store.Regular ∧ x.store.Meets o p t o' p' z.store := by
  obtain ⟨y, hcandidate, hy⟩ := ends_incomingCandidate stamps answers x e o.id
  rw [incomingCandidate_eq ho hrest, hpartners] at hcandidate
  obtain ⟨hp, hadmissible⟩ := (mem_partners_iff ho hrest).1
    (hpartners ▸ List.mem_cons_self : p ∈ x.store.partners e.allowSelfTrade o)
  rw [← hy] at hx ho hp ⊢
  obtain ⟨hbuy, hsell⟩ := forall_asBuyAndSell (P := (· ∈ y.store.orders.entries)) ho hp
  obtain ⟨maker, taker, hne, hmaker, htaker, htradable, hquantity, -⟩ :=
    Store.tradable_of_admissible hbuy hsell hadmissible
  obtain ⟨m, z, hm, hexecute, horders, -⟩ :=
    ends_execute stamps answers hfees hx hne hmaker htaker htradable
  have hpair : (maker, taker) = (o, p) ∨ (maker, taker) = (p, o) := by
    have hfound : ∀ {q q' : Order}, q ∈ y.store.orders.entries →
        y.store.orders.find? q.id = some q' → q' = q := fun hq hq' =>
      Option.some.inj (hq'.symm.trans (OrderTable.find?_of_mem hq))
    rcases makerAndTaker_cases o p with hcase | hcase
    · rw [show (MatchCandidate.between _ _).makerOrderId = _ from
        congrArg (fun q : Order × Order => q.1.id) hcase] at hmaker
      rw [show (MatchCandidate.between _ _).takerOrderId = _ from
        congrArg (fun q : Order × Order => q.2.id) hcase] at htaker
      exact Or.inl (Prod.ext (hfound ho hmaker) (hfound hp htaker))
    · rw [show (MatchCandidate.between _ _).makerOrderId = _ from
        congrArg (fun q : Order × Order => q.1.id) hcase] at hmaker
      rw [show (MatchCandidate.between _ _).takerOrderId = _ from
        congrArg (fun q : Order × Order => q.2.id) hcase] at htaker
      exact Or.inr (Prod.ext (hfound hp hmaker) (hfound ho htaker))
  obtain ⟨o', p', hmeets⟩ := hm.meets hpair hquantity horders
  refine ⟨_, m.trade, y, z, o', p', hcandidate, hexecute, ?_, hmeets⟩
  rw [Store.Regular, horders]
  exact hm.regular hx

/-- An order that is not in the book has no partner. -/
theorem ends_incomingCandidate_none (stamps : ℕ → Stamp) (answers : LedgerAnswers)
    (ho : o ∈ x.store.orders.entries)
    (hnone : o.isResting = false ∨ x.store.partners e.allowSelfTrade o = []) :
    ∃ y, Task.Ends (handler stamps answers) (e.incomingCandidate o.id) x (.ok none) y ∧
      y.store = x.store := by
  obtain ⟨y, hcandidate, hy⟩ := ends_incomingCandidate stamps answers x e o.id
  refine ⟨y, ?_, hy⟩
  have heq : x.store.incomingCandidate e.allowSelfTrade o.id = none := by
    by_cases hrest : o.isResting = true
    · rw [incomingCandidate_eq ho hrest, hnone.resolve_left (by simp [hrest])]
      rfl
    · rw [Store.incomingCandidate, OrderTable.find?_of_mem ho, Option.bind_some, counterparty,
        if_neg hrest]
  rwa [heq] at hcandidate

/-- A run ends at once where the order is completed. -/
theorem ends_completed (stamps : ℕ → Stamp) (answers : LedgerAnswers)
    (ho : o ∈ x.store.orders.entries) (hdone : o.status = .completed) (n : ℕ) :
    ∃ y, Task.Ends (handler stamps answers) (e.matchIncomingRepeatedly o.id n) x (.ok []) y ∧
      y.store = x.store := by
  cases n with
  | zero => exact ⟨x, Task.Ends.pure, rfl⟩
  | succ n =>
    obtain ⟨y, hnone, hy⟩ := ends_incomingCandidate_none (e := e) stamps answers ho
      (Or.inl (Order.isResting_of_completed hdone))
    exact ⟨y, hnone.bind Task.Ends.pure, hy⟩

/-- By induction on the number of matches that are allowed: the first of the partners is met, and
the others are the partners of what is left of the order. -/
theorem ends_walk (stamps : ℕ → Stamp) (answers : LedgerAnswers)
    (hfees : e.fees.Fractions) (n : ℕ) (hx : x.store.Regular) (ho : o ∈ x.store.orders.entries)
    (hrest : o.isResting = true) :
    ∃ trades y, Task.Ends (handler stamps answers) (e.matchIncomingRepeatedly o.id n) x
        (.ok trades) y ∧
      x.store.Walked y.store o (x.store.partners e.allowSelfTrade o) n trades := by
  induction n generalizing x o with
  | zero => exact ⟨[], x, Task.Ends.pure, .stop (Or.inr rfl)⟩
  | succ n ih =>
    cases hpartners : x.store.partners e.allowSelfTrade o with
    | nil =>
      obtain ⟨y, hnone, hy⟩ := ends_incomingCandidate_none stamps answers ho (Or.inr hpartners)
      refine ⟨[], y, hnone.bind Task.Ends.pure, ?_⟩
      rw [hy]
      exact .stop (Or.inl rfl)
    | cons p rest =>
      obtain ⟨c, t, y, z, o', p', hcandidate, hexecute, hz, hmeets⟩ :=
        ends_first stamps answers hfees hx ho hrest hpartners
      have ho' := OrderTable.mem_of_find? hmeets.find?_self
      have hid : o'.id = o.id := hmeets.sameTerms.id_eq
      rcases hmeets.completed_or with hdone | ⟨hrest', hquantity, hdone⟩
      · obtain ⟨w, hends, hw⟩ := ends_completed stamps answers ho' hdone n
        rw [hid] at hends
        refine ⟨[t], w, hcandidate.bind (hexecute.bind (hends.bind Task.Ends.pure)), ?_⟩
        rw [hw]
        exact .last hmeets hdone
      · obtain ⟨trades, w, hends, hwalked⟩ := ih hz ho' hrest'
        rw [hid] at hends
        rw [hmeets.partners_eq hdone hpartners] at hwalked
        have hids : ((x.store.partners e.allowSelfTrade o).map Order.id).Nodup :=
          nodup_partners x.store o
        rw [hpartners] at hids
        exact ⟨t :: trades, w, hcandidate.bind (hexecute.bind (hends.bind Task.Ends.pure)),
          .next hmeets hquantity hdone hids hwalked⟩

end Desk

/-- An order in the book of a store that is used by nobody else is matched, whatever the ledger
answers. Its partners are the orders that it may trade with before the run, by price and then by
time. It trades with the first ones, with each just once, and takes all that is left of each but the
last. In the end the order is completed, or all its partners are, or the limit of matches is
reached, and no other order is different. -/
theorem Engine.matchIncoming_walks_partners (e : Engine) (hfees : e.fees.Fractions)
    {acts : List StoreAct} (hcreated : ∀ a ∈ acts, a.InsertsCreated) {o : Order}
    (ho : o ∈ (Store.empty.afterActs acts).orders.entries) (hrest : o.isResting = true)
    (stamps : ℕ → Stamp) (answers : LedgerAnswers) :
    let x : Desk := ⟨Store.empty.afterActs acts, 0, 0⟩
    let partners := x.store.partners e.allowSelfTrade o
    (∀ p, p ∈ partners ↔ p ∈ x.store.orders.entries ∧
      Admissible e.allowSelfTrade (asBuyAndSell o p).1 (asBuyAndSell o p).2) ∧
    partners.Pairwise (fun p q =>
      priorityKey o.side.opposite p ≤ priorityKey o.side.opposite q) ∧
    ∃ trades y, Task.Ends (Desk.handler stamps answers) (e.matchIncoming o.id) x (.ok trades) y ∧
      (trades.map (Trade.partnerOf o.id)).Nodup ∧
      x.store.Walked y.store o partners e.maxIterations.toNat trades := by
  intro x partners
  refine ⟨fun p => mem_partners_iff ho hrest, pairwise_sortByPriority _ _, ?_⟩
  obtain ⟨trades, y, hends, hwalked⟩ := Desk.ends_walk (x := x) stamps answers
    hfees e.maxIterations.toNat (Store.regular_afterActs hcreated) ho hrest
  refine ⟨trades, y, hends, ?_, hwalked⟩
  have hids : (partners.map Order.id).Nodup := nodup_partners x.store o
  rw [hwalked.partners_eq]
  exact hids.sublist ((List.take_sublist _ _).map Order.id)

/-- Two sells at one price, a cheaper one by the buyer, and a buy of more than one of them. -/
def Store.threeSells : List StoreAct :=
  let calls : List StoreCall :=
    [.insertOrder (.gold 1 .sell (.ofWord 5) (.ofWord 95) 2),
      .insertOrder (.gold 2 .sell (.ofWord 5) (.ofWord 95) 3),
      .insertOrder (.gold 3 .sell (.ofWord 5) (.ofWord 94) 1),
      .insertOrder (.gold 4 .buy (.ofWord 8) (.ofWord 96) 1),
      .transitionOrder ⟨.ofNat 1⟩ .confirm, .transitionOrder ⟨.ofNat 2⟩ .confirm,
      .transitionOrder ⟨.ofNat 3⟩ .confirm, .transitionOrder ⟨.ofNat 4⟩ .confirm]
  calls.map fun c => .call ⟨.ofNat 5, .epoch⟩ c

/-- The buyer's own sell is no partner, and the two others are in the order of their insertion. -/
theorem Engine.matchIncoming_walks_partners_threeSells :
    let e : Engine := ⟨.standard, .create 3 10, 100, false⟩
    let x : Desk := ⟨Store.empty.afterActs Store.threeSells, 0, 0⟩
    let stamps (n : ℕ) : Stamp := ⟨.ofNat (10 + n), .epoch⟩
    (e.fees.Fractions ∧ ∀ a ∈ Store.threeSells, a.InsertsCreated) ∧
    ∃ o ∈ x.store.orders.entries, o.isResting = true ∧
      let partners := x.store.partners e.allowSelfTrade o
      partners.map Order.id = [⟨.ofNat 1⟩, ⟨.ofNat 2⟩] ∧
      (∀ p, p ∈ partners ↔ p ∈ x.store.orders.entries ∧
        Admissible e.allowSelfTrade (asBuyAndSell o p).1 (asBuyAndSell o p).2) ∧
      partners.Pairwise (fun p q =>
        priorityKey o.side.opposite p ≤ priorityKey o.side.opposite q) ∧
      ∃ trades y, Task.Ends (Desk.handler stamps .down) (e.matchIncoming o.id) x (.ok trades) y ∧
        (trades.map (Trade.partnerOf o.id)).Nodup ∧
        x.store.Walked y.store o partners 100 trades := by
  intro e x stamps
  have hcreated : ∀ a ∈ Store.threeSells, a.InsertsCreated := by
    simp only [Store.threeSells, List.map_cons, List.map_nil, List.forall_mem_cons]
    exact ⟨Order.create_gold 1 .sell 2 (by decide) (by decide) ⟨_, rfl⟩,
      Order.create_gold 2 .sell 3 (by decide) (by decide) ⟨_, rfl⟩,
      Order.create_gold 3 .sell 1 (by decide) (by decide) ⟨_, rfl⟩,
      Order.create_gold 4 .buy 1 (by decide) (by decide) ⟨_, rfl⟩, trivial, trivial, trivial,
      trivial, by simp⟩
  have hfound : ∃ o ∈ x.store.orders.entries, o.isResting = true ∧
      let able := x.store.orders.entries.filter (isPartner e.allowSelfTrade o)
      (able.Pairwise fun p q => priorityLe o.side.opposite p q = true) ∧
        able.map Order.id = [⟨.ofNat 1⟩, ⟨.ofNat 2⟩] := by
    decide +kernel
  obtain ⟨o, hmem, hrest, hsorted, hids⟩ := hfound
  have hpartners : (x.store.partners e.allowSelfTrade o).map Order.id =
      [⟨.ofNat 1⟩, ⟨.ofNat 2⟩] := by
    rw [Store.partners, sortByPriority, List.mergeSort_of_pairwise hsorted, hids]
  exact ⟨⟨FeeSchedule.standard_fractions, hcreated⟩, o, hmem, hrest, hpartners,
    Engine.matchIncoming_walks_partners e FeeSchedule.standard_fractions hcreated hmem hrest stamps
      .down⟩

end Bourse
