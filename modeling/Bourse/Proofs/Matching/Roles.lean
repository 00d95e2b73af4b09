import Bourse.Proofs.Matching.BestMatch
import Bourse.Proofs.Matching.Partners
import Bourse.Proofs.Trade.Legitimate

/-!
# Maker and taker

An order that comes to the book is matched with orders that rest there. It need not have come last:
it may have waited for its confirmation while a later order was confirmed and came to rest. Who is
the maker of a trade, and so at whose limit it is made, is decided by the times of the two orders
alone. So an order is the taker of each of its matches if it came after its partners, and the maker
of a match with a partner that came after it.
-/

namespace Bourse

/-- The parts of an order and its partner in their trade. The one that came first is the maker,
whose limit is the price; the buy is, if neither came before the other. -/
structure Trade.Roles (t : Trade) (o p : Order) : Prop where
  taker : p.CameBefore o → t.MadeBy p o
  maker : o.CameBefore p → t.MadeBy o p
  buy_maker : ¬p.CameBefore o → ¬o.CameBefore p →
    t.MadeBy (asBuyAndSell o p).1 (asBuyAndSell o p).2

instance : DecidableRel Order.CameBefore := fun _ _ => inferInstanceAs (Decidable (_ ∨ _))

variable {allowSelfTrade : Bool} {s s' : Store} {o o' p p' maker taker : Order} {t : Trade}
  {fees : FeeSchedule} {stamp : Stamp} {makerId takerId : OrderId} {quantity : Decimal} {m : Match}

/-! ### One match -/

theorem Order.SameTerms.cameBefore_iff (ho : o.SameTerms o') (hp : p.SameTerms p') :
    o'.CameBefore p' ↔ o.CameBefore p := by
  rw [Order.CameBefore, Order.CameBefore, ho.createdAt_eq, hp.createdAt_eq, ho.sequence_eq,
    hp.sequence_eq]

/-- The times of two orders decide who is the maker. -/
theorem Trade.roles_of_madeBy
    (h : t.MadeBy (MatchCandidate.makerAndTaker (asBuyAndSell o p).1 (asBuyAndSell o p).2).1
      (MatchCandidate.makerAndTaker (asBuyAndSell o p).1 (asBuyAndSell o p).2).2) :
    t.Roles o p := by
  have htime := timeLe_iff_not_cameBefore.1 h.timeLe
  refine ⟨fun hbefore => ?_, fun hbefore => ?_, fun hno hno' => ?_⟩
  · rcases makerAndTaker_cases o p with hpair | hpair
    · rw [hpair] at htime
      exact absurd hbefore htime
    · rwa [hpair] at h
  · rcases makerAndTaker_cases o p with hpair | hpair
    · rwa [hpair] at h
    · rw [hpair] at htime
      exact absurd hbefore htime
  · have hbuy : Order.timeLe (asBuyAndSell o p).1 (asBuyAndSell o p).2 = true := by
      rw [timeLe_iff_not_cameBefore]
      unfold asBuyAndSell
      cases o.side with
      | buy => exact hno
      | sell => exact hno'
    rwa [MatchCandidate.makerAndTaker, if_pos hbuy] at h

theorem Trade.Roles.of_sameTerms (h : t.Roles o' p') (ho : o.SameTerms o') (hp : p.SameTerms p') :
    t.Roles o p where
  taker hbefore := (h.taker ((hp.cameBefore_iff ho).2 hbefore)).of_sameTerms hp.symm ho.symm
  maker hbefore := (h.maker ((ho.cameBefore_iff hp).2 hbefore)).of_sameTerms ho.symm hp.symm
  buy_maker hno hno' := by
    have hmade := h.buy_maker (mt (hp.cameBefore_iff ho).1 hno) (mt (ho.cameBefore_iff hp).1 hno')
    unfold asBuyAndSell at hmade ⊢
    rw [ho.side_eq] at hmade
    cases hside : o.side with
    | buy =>
      rw [hside] at hmade
      exact hmade.of_sameTerms ho.symm hp.symm
    | sell =>
      rw [hside] at hmade
      exact hmade.of_sameTerms hp.symm ho.symm

/-- The trade of a pair is made by its maker and its taker. -/
theorem Store.Matches.madeBy {buy sell : Order}
    (hm : s.Matches stamp (MatchCandidate.between buy sell).makerOrderId
      (MatchCandidate.between buy sell).takerOrderId quantity fees maker taker m)
    (hbuy : buy ∈ s.orders.entries) (hsell : sell ∈ s.orders.entries) :
    m.trade.MadeBy (MatchCandidate.makerAndTaker buy sell).1
      (MatchCandidate.makerAndTaker buy sell).2 := by
  have hmem : (MatchCandidate.makerAndTaker buy sell).1 ∈ s.orders.entries ∧
      (MatchCandidate.makerAndTaker buy sell).2 ∈ s.orders.entries ∧
      Order.timeLe (MatchCandidate.makerAndTaker buy sell).1
        (MatchCandidate.makerAndTaker buy sell).2 = true := by
    unfold MatchCandidate.makerAndTaker
    split
    · rename_i htime
      exact ⟨hbuy, hsell, htime⟩
    · rename_i htime
      exact ⟨hsell, hbuy, timeLe_total htime⟩
  have hmaker : maker = (MatchCandidate.makerAndTaker buy sell).1 :=
    Option.some.inj (hm.maker_found.symm.trans (OrderTable.find?_of_mem hmem.1))
  have htaker : taker = (MatchCandidate.makerAndTaker buy sell).2 :=
    Option.some.inj (hm.taker_found.symm.trans (OrderTable.find?_of_mem hmem.2.1))
  obtain ⟨-, -, -, q, -, b, -, f, -, ht⟩ := Trade.create_eq_ok_iff.1 hm.trade_created
  rw [ht, ← hmaker, ← htaker]
  rw [← hmaker, ← htaker] at hmem
  exact ⟨rfl, rfl, rfl, rfl, hmem.2.2, rfl⟩

/-! ### The partners before a match -/

theorem mem_partners : p ∈ s.partners allowSelfTrade o ↔
    p ∈ s.orders.entries ∧ isPartner allowSelfTrade o p = true := by
  rw [Store.partners, sortByPriority, List.mem_mergeSort, List.mem_filter]

/-- Whether an order in the book is a partner depends on its terms only. -/
theorem isPartner_of_sameTerms_partner (h : p.SameTerms p') (hrest : p.isResting = true)
    (hp : isPartner allowSelfTrade o p' = true) : isPartner allowSelfTrade o p = true := by
  unfold isPartner at hp ⊢
  rw [h.side_eq, h.market_eq, Bool.and_eq_true, Bool.and_eq_true, Bool.and_eq_true] at hp
  obtain ⟨⟨⟨-, hside⟩, hmarket⟩, hmay⟩ := hp
  rw [hrest, hside, hmarket, Bool.true_and, Bool.true_and, Bool.true_and]
  unfold asBuyAndSell mayTrade crosses ownersMayTrade at hmay ⊢
  cases hside : o.side <;> rw [hside] at hmay <;> simpa [h.price_eq, h.userId_eq] using hmay

/-- The partners of an order after a match are partners that it had before. -/
theorem Store.Matches.exists_partner
    (hm : s.Matches stamp makerId takerId quantity fees maker taker m)
    (horders : s'.orders = (s.orders.put m.maker).put m.taker) (ho : o.SameTerms o')
    (hp : p' ∈ s'.partners allowSelfTrade o') :
    ∃ p ∈ s.partners allowSelfTrade o, p.SameTerms p' := by
  obtain ⟨hmem, hpartner⟩ := mem_partners.1 hp
  rw [horders] at hmem
  obtain ⟨p, hp, hterms, hrest⟩ := hm.isResting_before hmem
  rw [isPartner_of_sameTerms ho] at hpartner
  have hresting : p'.isResting = true := by
    unfold isPartner at hpartner
    simp only [Bool.and_eq_true] at hpartner
    exact hpartner.1.1.1
  exact ⟨p, mem_partners.2 ⟨hp, isPartner_of_sameTerms_partner hterms (hrest hresting) hpartner⟩,
    hterms⟩

/-- Each order is still there after a match, on the same terms. -/
theorem Store.Matches.exists_sameTerms
    (hm : s.Matches stamp makerId takerId quantity fees maker taker m) (ho : o ∈ s.orders.entries) :
    ∃ o' ∈ ((s.orders.put m.maker).put m.taker).entries, o.SameTerms o' := by
  obtain ⟨o', ho', rfl | ⟨role, hfill⟩⟩ := hm.exists_after ho
  · exact ⟨o', ho', .refl o'⟩
  · exact ⟨o', ho', Order.sameTerms_of_fill hfill⟩

/-- An order is matched with one of its partners only. -/
theorem Store.exists_partner_of_incomingCandidate {c : MatchCandidate} (ho : o ∈ s.orders.entries)
    (h : s.incomingCandidate allowSelfTrade o.id = some c) :
    ∃ p ∈ s.partners allowSelfTrade o,
      c = .between (asBuyAndSell o p).1 (asBuyAndSell o p).2 := by
  by_cases hrest : o.isResting = true
  · rw [incomingCandidate_eq ho hrest] at h
    obtain ⟨p, hp, hc⟩ := Option.map_eq_some_iff.1 h
    exact ⟨p, List.mem_of_mem_head? hp, hc.symm⟩
  · rw [Store.incomingCandidate, OrderTable.find?_of_mem ho, Option.bind_some, counterparty,
      if_neg hrest] at h
    cases h

/-! ### A run -/

namespace Desk

variable {stamps : ℕ → Stamp} {answers : LedgerAnswers} {x y : Desk} {e : Engine}
  {c : MatchCandidate} {trades : List Trade}

/-- A call to the store that comes to a result has this answer. -/
theorem perform_of_ends {call : StoreCall} {r : Except StoreError call.Answer}
    (h : Task.Ends (handler stamps answers) (Task.store call) x r y) :
    ∃ store, x.store.perform (stamps x.drawn) call = (.ok r, store) ∧
      y = { x with store, drawn := x.drawn + 1 } := by
  obtain ⟨hreply, hy⟩ := Prod.mk.inj h
  exact ⟨_, Prod.ext hreply rfl, hy.symm⟩

/-- A pair that comes to a trade was matched, and settling the trade leaves the orders alone. -/
theorem matches_of_ends
    (h : Task.Ends (handler stamps answers) (e.execute c) x (.ok (some t)) y) :
    ∃ maker taker m, x.store.Matches (stamps x.drawn) c.makerOrderId c.takerOrderId c.quantity
        e.fees maker taker m ∧ t = m.trade ∧
      y.store.orders = (x.store.orders.put m.maker).put m.taker := by
  obtain ⟨outcome, z, hcommit, hsettle⟩ := Task.ends_bind_iff.1 h
  obtain ⟨s, hperform, rfl⟩ := perform_of_ends hcommit
  simp only [Store.perform] at hperform
  obtain ⟨cause, hcase⟩ | ⟨err, hcase⟩ | ⟨maker, taker, m, hm, ⟨err, -, hcase⟩ | ⟨r, -, hcase⟩⟩ :=
    Store.commitMatch_cases x.store (stamps x.drawn) c.makerOrderId c.takerOrderId c.quantity e.fees
  · rw [hcase] at hperform
    cases hperform
    cases hsettle
  · rw [hcase] at hperform
    cases hperform
  · rw [hcase] at hperform
    cases hperform
  · rw [hcase] at hperform
    cases hperform
    obtain ⟨_, z, hattempt, hdone⟩ := Task.ends_bind_iff.1 hsettle
    obtain ⟨ht, rfl⟩ := hdone.unique Task.Ends.pure
    have hkeeps : KeepsOrders stamps answers (e.settler.settle m.trade.id) :=
      keepsOrders_settle e.settler m.trade.id
    obtain ⟨settled, w, hends, hw⟩ := hkeeps
      ⟨(x.store.record m).pushSettlement r, x.drawn + 1, x.asked⟩
    obtain ⟨-, rfl⟩ := hattempt.unique hends.attempt
    refine ⟨maker, taker, m, hm, ?_, hw⟩
    cases ht
    rfl

/-- A run that comes to a trade has found a pair, and the other trades are made from what its match
leaves. -/
theorem cons_of_ends {id : OrderId} {n : ℕ}
    (h : Task.Ends (handler stamps answers) (e.matchIncomingRepeatedly id (n + 1)) x
      (.ok trades) y) :
    trades = [] ∨ ∃ c t rest x' z, trades = t :: rest ∧ x'.store = x.store ∧
      x.store.incomingCandidate e.allowSelfTrade id = some c ∧
      Task.Ends (handler stamps answers) (e.execute c) x' (.ok (some t)) z ∧
      Task.Ends (handler stamps answers) (e.matchIncomingRepeatedly id n) z (.ok rest) y := by
  obtain ⟨found, x', hfind, hgo⟩ := Task.ends_bind_iff.1 h
  obtain ⟨_, hcandidate, hx'⟩ := ends_incomingCandidate stamps answers x e id
  obtain ⟨hfound, rfl⟩ := hfind.unique hcandidate
  rw [← Except.ok.inj hfound]
  cases found with
  | none =>
    obtain ⟨hnone, -⟩ := hgo.unique Task.Ends.pure
    exact Or.inl (Except.ok.inj hnone)
  | some c =>
    obtain ⟨executed, z, hexecute, hgo⟩ := Task.ends_bind_iff.1 hgo
    cases executed with
    | none =>
      obtain ⟨hnone, -⟩ := hgo.unique Task.Ends.pure
      exact Or.inl (Except.ok.inj hnone)
    | some t =>
      obtain ⟨rest, _, hrun, hgo⟩ := Task.ends_bind_iff.1 hgo
      obtain ⟨htrades, rfl⟩ := hgo.unique Task.Ends.pure
      exact Or.inr ⟨c, t, rest, x', z, Except.ok.inj htrades, hx', rfl, hexecute, hrun⟩

/-- By induction on the number of matches that are allowed: what the first match leaves has the same
terms, and its partners were partners before. -/
theorem roles_of_ends (n : ℕ)
    (h : Task.Ends (handler stamps answers) (e.matchIncomingRepeatedly o.id n) x (.ok trades) y)
    (ho : o ∈ x.store.orders.entries) :
    ∀ t ∈ trades, ∃ p ∈ x.store.partners e.allowSelfTrade o, t.Roles o p := by
  induction n generalizing x o trades with
  | zero =>
    obtain ⟨hnone, -⟩ := h.unique Task.Ends.pure
    rw [Except.ok.inj hnone]
    exact fun t ht => absurd ht List.not_mem_nil
  | succ n ih =>
    obtain rfl | ⟨c, t, rest, x', z, rfl, hx', hcandidate, hexecute, hrun⟩ := cons_of_ends h
    · exact fun t ht => absurd ht List.not_mem_nil
    · obtain ⟨p, hp, rfl⟩ := Store.exists_partner_of_incomingCandidate ho hcandidate
      obtain ⟨maker, taker, m, hm, rfl, horders⟩ := matches_of_ends hexecute
      rw [hx'] at hm horders
      obtain ⟨hbuy, hsell⟩ := forall_asBuyAndSell (P := (· ∈ x.store.orders.entries)) ho
        (mem_partners.1 hp).1
      have hroles : m.trade.Roles o p := Trade.roles_of_madeBy (hm.madeBy hbuy hsell)
      refine List.forall_mem_cons.2 ⟨⟨p, hp, hroles⟩, fun t ht => ?_⟩
      obtain ⟨o', ho', hterms⟩ := hm.exists_sameTerms ho
      rw [← horders] at ho'
      rw [← hterms.id_eq] at hrun
      obtain ⟨p', hp', hroles'⟩ := ih hrun ho' t ht
      obtain ⟨p, hp, hsame⟩ := hm.exists_partner horders hterms hp'
      exact ⟨p, hp, hroles'.of_sameTerms hterms hsame⟩

end Desk

/-- An order in the book of a store that is used by nobody else is matched, whatever the ledger
answers. Each of its trades is with a partner that it had before the run. With a partner that came
first it is the taker, at the partner's limit, and so it is in all its trades if it came after all
its partners. With a partner that came later it is the maker, at its own limit. -/
theorem Engine.matchIncoming_roles (e : Engine) (hfees : e.fees.Fractions) {acts : List StoreAct}
    (hcreated : ∀ a ∈ acts, a.InsertsCreated) {o : Order}
    (ho : o ∈ (Store.empty.afterActs acts).orders.entries) (hrest : o.isResting = true)
    (stamps : ℕ → Stamp) (answers : LedgerAnswers) :
    let x : Desk := ⟨Store.empty.afterActs acts, 0, 0⟩
    let partners := x.store.partners e.allowSelfTrade o
    ∃ trades y, Task.Ends (Desk.handler stamps answers) (e.matchIncoming o.id) x (.ok trades) y ∧
      (∀ t ∈ trades, ∃ p ∈ partners, t.Roles o p) ∧
      ((∀ p ∈ partners, p.CameBefore o) → ∀ t ∈ trades, ∃ p ∈ partners, t.MadeBy p o) := by
  intro x partners
  obtain ⟨trades, y, hends, -⟩ := Desk.ends_walk (x := x) stamps answers hfees
    e.maxIterations.toNat (Store.regular_afterActs hcreated) ho hrest
  have hroles : ∀ t ∈ trades, ∃ p ∈ partners, t.Roles o p :=
    Desk.roles_of_ends e.maxIterations.toNat hends ho
  refine ⟨trades, y, hends, hroles, fun hlast t ht => ?_⟩
  obtain ⟨p, hp, hparts⟩ := hroles t ht
  exact ⟨p, hp, hparts.taker (hlast p hp)⟩

/-- A buy that waits until a later sell rests in the book. -/
def Store.lateBuy : List StoreAct :=
  let calls : List StoreCall :=
    [.insertOrder (.gold 1 .buy (.ofWord 5) (.ofWord 100) 1),
      .insertOrder (.gold 2 .sell (.ofWord 5) (.ofWord 90) 2),
      .transitionOrder ⟨.ofNat 2⟩ .confirm, .transitionOrder ⟨.ofNat 1⟩ .confirm]
  calls.map fun c => .call ⟨.ofNat 3, .epoch⟩ c

theorem insertsCreated_lateBuy : ∀ a ∈ Store.lateBuy, a.InsertsCreated := by
  simp only [Store.lateBuy, List.map_cons, List.map_nil, List.forall_mem_cons]
  exact ⟨Order.create_gold 1 .buy 1 (by decide) (by decide) ⟨_, rfl⟩,
    Order.create_gold 2 .sell 2 (by decide) (by decide) ⟨_, rfl⟩, trivial, trivial, by simp⟩

/-- The sell came after its only partner. It is the taker, at the limit of the buy. -/
theorem Engine.matchIncoming_roles_lateBuy :
    let e : Engine := ⟨.standard, .create 3 10, 100, false⟩
    let x : Desk := ⟨Store.empty.afterActs Store.lateBuy, 0, 0⟩
    let stamps (n : ℕ) : Stamp := ⟨.ofNat (10 + n), .epoch⟩
    (e.fees.Fractions ∧ ∀ a ∈ Store.lateBuy, a.InsertsCreated) ∧
    ∃ o ∈ x.store.orders.entries, o.id = ⟨.ofNat 2⟩ ∧ o.isResting = true ∧
      let partners := x.store.partners e.allowSelfTrade o
      (∀ p ∈ partners, p.CameBefore o) ∧
      ∃ trades y, Task.Ends (Desk.handler stamps .down) (e.matchIncoming o.id) x (.ok trades) y ∧
        trades.length = 1 ∧ (∀ t ∈ trades, ∃ p ∈ partners, t.Roles o p) ∧
        ∀ t ∈ trades, ∃ p ∈ partners, t.MadeBy p o := by
  intro e x stamps
  have hfound : ∃ o ∈ x.store.orders.entries, o.id = ⟨.ofNat 2⟩ ∧ o.isResting = true ∧
      ∀ p ∈ x.store.orders.entries, isPartner e.allowSelfTrade o p = true → p.CameBefore o := by
    decide +kernel
  obtain ⟨o, ho, hid, hrest, hbefore⟩ := hfound
  have hlast : ∀ p ∈ x.store.partners e.allowSelfTrade o, p.CameBefore o := fun p hp =>
    hbefore p (mem_partners.1 hp).1 (mem_partners.1 hp).2
  obtain ⟨trades, y, hends, hroles, hmade⟩ := Engine.matchIncoming_roles e
    FeeSchedule.standard_fractions insertsCreated_lateBuy ho hrest stamps .down
  have hlength : ((e.matchIncoming ⟨.ofNat 2⟩).work.run (Desk.handler stamps .down) x).1.map
      (fun r => r.map List.length) = .ok (.ok 1) := by
    decide +kernel
  rw [← hid, show (e.matchIncoming o.id).work.run _ x = _ from hends] at hlength
  have hone : trades.length = 1 := Except.ok.inj (Except.ok.inj hlength)
  exact ⟨⟨FeeSchedule.standard_fractions, insertsCreated_lateBuy⟩, o, ho, hid, hrest, hlast, trades,
    y, hends, hone, hroles, hmade hlast⟩

/-- The buy comes to the book when the sell is resting there, and is the maker all the same: the
trade is made at its own limit, not at the one of the sell. -/
theorem Engine.matchIncoming_maker_lateBuy :
    let e : Engine := ⟨.standard, .create 3 10, 100, false⟩
    let x : Desk := ⟨Store.empty.afterActs Store.lateBuy, 0, 0⟩
    let stamps (n : ℕ) : Stamp := ⟨.ofNat (10 + n), .epoch⟩
    (∀ a ∈ Store.lateBuy, a.InsertsCreated) ∧
    (∀ o ∈ x.store.orders.entries, o.isResting = true ∧
      (o.id = ⟨.ofNat 2⟩ → o.price = .ofWord 90)) ∧
    ∃ trades y,
      Task.Ends (Desk.handler stamps .down) (e.matchIncoming ⟨.ofNat 1⟩) x (.ok trades) y ∧
      trades.map (fun t => (t.makerOrderId, t.takerOrderId, t.price)) =
        [(⟨.ofNat 1⟩, ⟨.ofNat 2⟩, .ofWord 100)] := by
  intro e x stamps
  have hstored : ∀ o ∈ x.store.orders.entries, o.isResting = true ∧
      (o.id = ⟨.ofNat 2⟩ → o.price = .ofWord 90) := by
    decide +kernel
  have hrun : ((e.matchIncoming ⟨.ofNat 1⟩).work.run (Desk.handler stamps .down) x).1.map
      (fun r => r.map (List.map fun t => (t.makerOrderId, t.takerOrderId, t.price))) =
        .ok (.ok [(⟨.ofNat 1⟩, ⟨.ofNat 2⟩, .ofWord 100)]) := by
    decide +kernel
  refine ⟨insertsCreated_lateBuy, hstored, ?_⟩
  cases hends : (e.matchIncoming ⟨.ofNat 1⟩).work.run (Desk.handler stamps .down) x with
  | mk r y =>
    rw [hends] at hrun
    obtain overflow | error | trades := r
    · cases hrun
    · cases hrun
    · exact ⟨trades, y, hends, Except.ok.inj (Except.ok.inj hrun)⟩

end Bourse
