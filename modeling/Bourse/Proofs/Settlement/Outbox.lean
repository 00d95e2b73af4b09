import Bourse.Proofs.Settlement.Records
import Bourse.Proofs.Store.Regular
import Bourse.Proofs.Store.Restart
import Bourse.Proofs.Trade.Legitimate

/-!
# One record for each trade

A store is used in any way, and taken down and built up again in between. As long as new orders are
created ones and new trades have new names, the settlement records stand beside the trades: at each
place the record of the trade there, which releases to the buyer what the limit was above the price.
The index that the store keeps has each trade at its place and has nothing else, and it comes out the
same when it is built up again.

No match is left without a record, because what is released is part of a cost that was in range when
the order was created.
-/

namespace Bourse

/-- What is done to a store. -/
inductive StoreAct where
  | call (stamp : Stamp) (c : StoreCall)
  /-- The store is taken down and built up again. -/
  | restart

namespace StoreAct

/-- Only orders that have just been created are inserted. -/
def InsertsCreated : StoreAct → Prop
  | call _ c => Store.InsertsCreated c
  | restart => True

end StoreAct

namespace Store

variable {s s' : Store} {stamp : Stamp} {c : StoreCall} {r r' : SettlementRecord}

/-- The store after an act. -/
def act (s : Store) : StoreAct → Store
  | .call stamp c => (s.perform stamp c).2
  | .restart => s.restart

/-- The store after several things are done to it. -/
def afterActs (s : Store) (acts : List StoreAct) : Store :=
  acts.foldl act s

/-- What each act of a sequence preserves, the whole sequence preserves. -/
theorem afterActs_induction {P : Store → Prop} {acts : List StoreAct} (h : P s)
    (hstep : ∀ s a, a ∈ acts → P s → P (s.act a)) : P (s.afterActs acts) := by
  induction acts generalizing s with
  | nil => exact h
  | cons a rest ih =>
    exact ih (hstep s a List.mem_cons_self h) fun s a ha => hstep s a (List.mem_cons_of_mem _ ha)

/-- A match gives its trade a name that no trade has. -/
def NamesFreshly (s : Store) : StoreAct → Prop
  | .call stamp (.commitMatch _ _ _ _) => ∀ t ∈ s.trades, t.id ≠ ⟨stamp.id⟩
  | _ => True

/-- Each of several acts names trades freshly in the store that it finds. -/
def RunsFreshly (s : Store) : List StoreAct → Prop
  | [] => True
  | a :: acts => s.NamesFreshly a ∧ (s.act a).RunsFreshly acts

/-! ### What a record releases -/

/-- A record releases what the limit of its buyer is above the price, times the quantity. -/
def Releases (s : Store) (r : SettlementRecord) : Prop :=
  ∃ buy ∈ s.orders.entries, buy.id = r.trade.buyOrderId ∧ buy.side = .buy ∧
    ∃ improvement, buy.price.sub r.trade.price = .ok improvement ∧
      improvement.mul r.trade.quantity = .ok r.buyerRelease ∧ 0 ≤ r.buyerRelease.toRat

theorem Releases.of_grows (h : s.Releases r) (hgrows : s.Grows s') (hterms : r'.terms = r.terms) :
    s'.Releases r' := by
  obtain ⟨buy, hbuy, hid, hside, improvement, hsub, hmul, hnonneg⟩ := h
  obtain ⟨buy', hbuy', hb⟩ := hgrows.orders buy hbuy
  have htrade : r'.trade = r.trade := congrArg Prod.fst hterms
  have hrelease : r'.buyerRelease = r.buyerRelease := congrArg Prod.snd hterms
  refine ⟨buy', hbuy', ?_, hb.side_eq.trans hside, improvement, ?_, ?_, ?_⟩
  · rw [hb.id_eq, hid, htrade]
  · rw [hb.price_eq, htrade, hsub]
  · rw [htrade, hrelease, hmul]
  · rw [hrelease]
    exact hnonneg

/-- The record of a match releases what it should. -/
theorem Matches.releases {makerId takerId : OrderId} {quantity : Decimal} {fees : FeeSchedule}
    {maker taker : Order} {m : Match}
    (hm : s.Matches stamp makerId takerId quantity fees maker taker m)
    (horders : s'.orders = (s.orders.put m.maker).put m.taker)
    (hr : SettlementRecord.create stamp.time m.trade (buyLimit m.maker m.taker) = .ok r)
    (hmaker : maker.Regular) : s'.Releases r := by
  obtain ⟨⟨buy, hbuy, hb⟩, -⟩ := hm.tradable.forall_pair
    (P := fun o => ∃ o' ∈ s'.orders.entries, o.SameTerms o')
    ⟨m.maker, horders ▸ hm.mem_orders_iff.2 (Or.inl rfl), Order.sameTerms_of_fill hm.maker_filled⟩
    ⟨m.taker, horders ▸ hm.mem_orders_iff.2 (Or.inr (Or.inl rfl)),
      Order.sameTerms_of_fill hm.taker_filled⟩
  have hterms : m.trade.price = maker.price ∧ m.trade.buyOrderId = hm.tradable.buy.id := by
    obtain ⟨-, -, -, q, -, b, -, f, -, ht⟩ := Trade.create_eq_ok_iff.1 hm.trade_created
    rw [ht]
    exact ⟨rfl, rfl⟩
  have hquantity : 0 ≤ m.trade.quantity.toRat := by
    rw [hm.trade_quantity]
    exact (Decimal.isPos_iff.1 hm.tradable.quantity_pos).le
  obtain ⟨improvement, hsub, hnonneg, -⟩ :=
    Decimal.sub_between hmaker.price_pos.le hm.tradable.price_between.2
  rw [hm.buyLimit_eq] at hr
  unfold SettlementRecord.create at hr
  obtain ⟨improvement', hsub', hrest⟩ := bind_eq_ok_iff.1 hr
  obtain ⟨release, hmul, hlast⟩ := bind_eq_ok_iff.1 hrest
  cases hlast
  rw [hterms.1, hsub] at hsub'
  obtain rfl := Except.ok.inj hsub'
  have hmax : improvement.max Decimal.zero = improvement := by
    refine if_neg ?_
    rw [Decimal.not_lt_iff, Decimal.toRat_zero]
    exact hnonneg
  rw [hmax] at hmul
  refine ⟨buy, hbuy, hb.id_eq.trans hterms.2.symm, hb.side_eq.trans hm.tradable.buy_side,
    improvement, ?_, hmul, Decimal.mul?_nonneg hnonneg hquantity (Decimal.mul_eq_ok_iff.1 hmul)⟩
  rw [hb.price_eq, hterms.1]
  exact hsub

/-! ### Records beside trades -/

/-- At each place there is the record of the trade there, and no two trades have one name. -/
structure Paired (s : Store) : Prop where
  regular : s.Regular
  trade_eq : s.settlements.map SettlementRecord.trade = s.trades
  names_nodup : (s.trades.map Trade.id).Nodup
  releases : ∀ r ∈ s.settlements, s.Releases r

theorem RecordsStep.terms_eq (h : RecordsStep s s' c) (htrades : s'.trades = s.trades) :
    s'.settlements.map SettlementRecord.terms = s.settlements.map SettlementRecord.terms := by
  cases h with
  | kept records trades => exact records.terms_eq
  | unrecorded t records trades => exact records.terms_eq
  | recorded r status_eq records trades =>
    rw [trades] at htrades
    exact absurd (congrArg List.length htrades) (by simp)

theorem map_trade_eq {l l' : List SettlementRecord}
    (h : l'.map SettlementRecord.terms = l.map SettlementRecord.terms) :
    l'.map SettlementRecord.trade = l.map SettlementRecord.trade := by
  have hfst := congrArg (List.map Prod.fst) h
  rwa [List.map_map, List.map_map] at hfst

namespace Paired

theorem empty : Store.empty.Paired where
  regular o ho := by cases ho
  trade_eq := rfl
  names_nodup := List.nodup_nil
  releases r hr := by cases hr

/-- What changes neither the trades nor the terms of the records. -/
theorem kept (h : s.Paired) (hregular : s'.Regular) (hgrows : s.Grows s')
    (htrades : s'.trades = s.trades)
    (hterms : s'.settlements.map SettlementRecord.terms =
      s.settlements.map SettlementRecord.terms) : s'.Paired where
  regular := hregular
  trade_eq := by rw [map_trade_eq hterms, h.trade_eq, htrades]
  names_nodup := htrades ▸ h.names_nodup
  releases r' hr' := by
    have hmem : r'.terms ∈ s'.settlements.map SettlementRecord.terms := List.mem_map_of_mem hr'
    rw [hterms] at hmem
    obtain ⟨r, hr, heq⟩ := List.mem_map.1 hmem
    exact (h.releases r hr).of_grows hgrows heq.symm

theorem commitMatch (h : s.Paired) {makerId takerId : OrderId} {quantity : Decimal}
    {fees : FeeSchedule} (hfresh : ∀ t ∈ s.trades, t.id ≠ ⟨stamp.id⟩) :
    (s.perform stamp (.commitMatch makerId takerId quantity fees)).2.Paired := by
  have hregular := h.regular.perform stamp (c := .commitMatch makerId takerId quantity fees) trivial
  have hgrows := grows_perform s stamp (.commitMatch makerId takerId quantity fees)
  simp only [perform] at hregular hgrows ⊢
  obtain ⟨cause, heq⟩ | ⟨e, heq⟩ | ⟨maker, taker, m, hm, hrecord⟩ :=
    commitMatch_cases s stamp makerId takerId quantity fees
  · rw [heq]
    exact h
  · rw [heq]
    exact h
  · have hmaker := h.regular maker (OrderTable.mem_of_find? hm.maker_found)
    have htaker := h.regular taker (OrderTable.mem_of_find? hm.taker_found)
    -- What is released is in range, so the match has its record.
    obtain ⟨r₀, hr₀⟩ := hm.tradable.exists_settlementRecord hmaker htaker hm.trade_price
      hm.trade_quantity stamp.time
    rw [← hm.buyLimit_eq] at hr₀
    obtain ⟨e, he, -⟩ | ⟨r, hr, heq⟩ := hrecord
    · rw [hr₀] at he
      cases he
    · rw [heq] at hregular hgrows ⊢
      have htrade := (settlementRecord_create_eq_ok hr).1
      refine ⟨hregular, ?_, ?_, ?_⟩
      · show (s.settlements ++ [r]).map _ = s.trades ++ [m.trade]
        rw [List.map_append, h.trade_eq, List.map_singleton, htrade]
      · show ((s.trades ++ [m.trade]).map _).Nodup
        rw [List.map_append, List.map_singleton, hm.trade_id, List.nodup_append]
        refine ⟨h.names_nodup, List.nodup_singleton _, fun id hid id' hid' => ?_⟩
        obtain ⟨t, ht, rfl⟩ := List.mem_map.1 hid
        rw [List.mem_singleton.1 hid']
        exact hfresh t ht
      · intro q hq
        rcases List.mem_append.1 hq with hq | hq
        · exact (h.releases q hq).of_grows hgrows rfl
        · rw [List.mem_singleton.1 hq]
          exact hm.releases rfl hr hmaker

theorem act (h : s.Paired) {a : StoreAct} (hcreated : a.InsertsCreated)
    (hfresh : s.NamesFreshly a) : (s.act a).Paired := by
  cases a with
  | restart =>
    have hmem : ∀ o, o ∈ s.restart.orders.entries ↔ o ∈ s.orders.entries :=
      fun o => mem_orders_restart_iff
    exact h.kept (fun o ho => h.regular o ((hmem o).1 ho))
      ⟨fun o ho => ⟨o, (hmem o).2 ho, .refl o⟩, s.trades_restart ▸ List.prefix_refl _⟩
      s.trades_restart
      (recordsKept_ofSnapshot s .activeMarkets).terms_eq
  | call stamp c =>
    have hkept : (s.perform stamp c).2.trades = s.trades → (s.perform stamp c).2.Paired :=
      fun htrades => h.kept (h.regular.perform stamp hcreated) (grows_perform s stamp c) htrades
        ((recordsStep s stamp c).terms_eq htrades)
    cases ordersStep s stamp c with
    | unchanged _ htrades => exact hkept htrades
    | inserted _ _ htrades => exact hkept htrades
    | transitioned _ _ _ htrades => exact hkept htrades
    | matched hm _ _ => exact h.commitMatch hfresh

theorem afterActs (h : s.Paired) {acts : List StoreAct} (hcreated : ∀ a ∈ acts, a.InsertsCreated)
    (hfresh : s.RunsFreshly acts) : (s.afterActs acts).Paired := by
  induction acts generalizing s with
  | nil => exact h
  | cons a acts ih =>
    obtain ⟨ha, hacts⟩ := List.forall_mem_cons.1 hcreated
    exact ih (h.act ha hfresh.1) hacts hfresh.2

end Paired

/-! ### Calls for one trade -/

/-- The calls for the trade of a record read and change the record at this place. -/
structure ActsOn (s : Store) (place : ℕ) (r : SettlementRecord) : Prop where
  get : ∀ stamp, s.perform stamp (.getSettlement r.trade.id) = (.ok (.ok (some r)), s)
  claim : ∀ stamp r', r.claim? stamp.time = some r' →
    s.perform stamp (.claimSettlement r.trade.id) =
      (.ok (.ok (some r')), s.setSettlement place r')
  leave : ∀ stamp, r.claim? stamp.time = none →
    s.perform stamp (.claimSettlement r.trade.id) = (.ok (.ok none), s)
  attempt : ∀ stamp failure limit,
    let r' := r.recordAttempt failure limit stamp.time
    s.perform stamp (.recordAttempt r.trade.id failure limit) =
      (.ok (.ok r'), s.setSettlement place r')
  release : ∀ stamp, s.perform stamp (.releaseClaim r.trade.id) =
    (.ok (.ok ()), s.setSettlement place r.releaseClaim)

theorem actsOn_of_requireSettlement {place : ℕ}
    (hr : s.settlements[place]? = some r) (hplace : s.settlementPlace? r.trade.id = some place) :
    s.ActsOn place r := by
  have hfound : s.requireSettlement r.trade.id = .ok (place, r) := by
    unfold requireSettlement
    rw [hplace]
    dsimp only
    rw [hr]
  constructor
  · intro stamp
    simp only [perform, settlement?, hplace, Option.bind_some, hr, reply]
  · exact fun stamp r' hclaim => perform_claimSettlement hfound hclaim
  · exact fun stamp hclaim => perform_claimSettlement_none hfound hclaim
  · exact fun stamp failure limit => perform_recordAttempt hfound failure limit
  · exact fun stamp => perform_releaseClaim hfound

/-! ### The index -/

/-- Each trade is in the index at its place, and nothing else is. -/
theorem Paired.index_eq_some_iff (h : s.Paired) (id : TradeId) (place : ℕ) :
    s.index[id]? = some place ↔ ∃ t, s.trades[place]? = some t ∧ t.id = id := by
  have hnames : (s.settlements.map (·.trade.id)).Nodup := by
    have hnodup := h.names_nodup
    rwa [← h.trade_eq, List.map_map] at hnodup
  refine (settlementPlace?_eq_some_iff hnames).trans ?_
  rw [← h.trade_eq, List.getElem?_map]
  constructor
  · rintro ⟨r, hr, hid⟩
    exact ⟨r.trade, by rw [hr]; rfl, hid⟩
  · rintro ⟨t, ht, hid⟩
    obtain ⟨r, hr, rfl⟩ := Option.map_eq_some_iff.1 ht
    exact ⟨r, hr, hid⟩

/-- A restart builds up the index that was given up. -/
theorem index_restart (s : Store) : s.restart.index = s.index :=
  index_eq_of_map_trade (map_trade_eq (recordsKept_ofSnapshot s .activeMarkets).terms_eq)

/-! ### What calls for settlements leave alone -/

/-- The trades that a call for settlements is about. -/
def touched (s : Store) (now : Instant) : StoreCall → List TradeId
  | .claimSettlement id => [id]
  | .recordAttempt id _ _ => [id]
  | .releaseClaim id => [id]
  | .claimPending limit => (s.claimPending limit now).1.map (·.trade.id)
  | _ => []

/-- Nothing is different but records of some trades, which have the same origin. -/
structure OnlyTouches (ids : List TradeId) (s s' : Store) : Prop where
  orders_eq : s'.orders = s.orders
  trades_eq : s'.trades = s.trades
  index_eq : s'.index = s.index
  nextSequence_eq : s'.nextSequence = s.nextSequence
  records : List.Forall₂ (fun r r' : SettlementRecord => r.SameOrigin r' ∧
    (r.trade.id ∉ ids → r' = r)) s.settlements s'.settlements

namespace OnlyTouches

/-- The records are of the same trades, so they have the same index. -/
theorem of_records {ids : List TradeId} (horders : s'.orders = s.orders)
    (htrades : s'.trades = s.trades) (hsequence : s'.nextSequence = s.nextSequence)
    (hrecords : List.Forall₂ (fun r r' : SettlementRecord => r.SameOrigin r' ∧
      (r.trade.id ∉ ids → r' = r)) s.settlements s'.settlements) : OnlyTouches ids s s' := by
  refine ⟨horders, htrades, index_eq_of_map_trade ?_, hsequence, hrecords⟩
  generalize s.settlements = records, s'.settlements = records' at hrecords ⊢
  induction hrecords with
  | nil => rfl
  | cons hr _ ih => rw [List.map_cons, List.map_cons, hr.1.trade_eq, ih]

theorem refl (ids : List TradeId) (s : Store) : OnlyTouches ids s s :=
  of_records rfl rfl rfl (List.forall₂_same.2 fun r _ => ⟨.refl r, fun _ => rfl⟩)

theorem setSettlement {id : TradeId} {place : ℕ}
    (hr : s.settlements[place]? = some r ∧ r.trade.id = id) (h : r.SameOrigin r') :
    OnlyTouches [id] s (s.setSettlement place r') :=
  of_records rfl rfl rfl <| SettlementRecord.forall₂_set
    (R := fun r r' => r.SameOrigin r' ∧ (r.trade.id ∉ [id] → r' = r))
    (fun q => ⟨.refl q, fun _ => rfl⟩) hr.1
    ⟨h, fun hid => absurd (List.mem_singleton.2 hr.2) hid⟩

end OnlyTouches

theorem onlyTouches_perform (s : Store) (stamp : Stamp) (hc : c.OfSettlements) :
    OnlyTouches (s.touched stamp.time c) s (s.perform stamp c).2 := by
  cases c with
  | claimSettlement id =>
    simp only [perform]
    cases h : s.claimSettlement id stamp.time with
    | error e => exact .refl _ s
    | ok found =>
      obtain ⟨found, s'⟩ := found
      obtain ⟨place, r, hr, ⟨-, -, rfl⟩ | ⟨r', hclaim, -, rfl⟩⟩ := claimSettlement_eq_ok h
      · exact .refl _ _
      · exact .setSettlement (requireSettlement_eq_ok hr)
          (SettlementRecord.sameOrigin_of_claim hclaim)
  | claimPending limit =>
    have hclaims := (SettlementRecord.claimFirst_cases stamp.time limit.toNat s.settlements).1
    refine .of_records rfl rfl rfl (hclaims.imp fun r r' h => ?_)
    rcases h with rfl | ⟨hclaim, hmem⟩
    · exact ⟨.refl r', fun _ => rfl⟩
    · have horigin := SettlementRecord.sameOrigin_of_claim hclaim
      refine ⟨horigin, fun hid => absurd ?_ hid⟩
      rw [← horigin.trade_eq]
      exact List.mem_map_of_mem hmem
  | recordAttempt id failure limit =>
    simp only [perform]
    cases h : s.recordAttempt id failure limit stamp.time with
    | error e => exact .refl _ s
    | ok found =>
      obtain ⟨r', s'⟩ := found
      obtain ⟨place, r, hr, rfl, rfl⟩ := recordAttempt_eq_ok h
      exact .setSettlement (requireSettlement_eq_ok hr) (r.sameOrigin_recordAttempt _ _ _)
  | releaseClaim id =>
    simp only [perform]
    cases h : s.releaseClaim id with
    | error e => exact .refl _ s
    | ok s' =>
      obtain ⟨place, r, hr, rfl⟩ := releaseClaim_eq_ok h
      exact .setSettlement (requireSettlement_eq_ok hr) r.sameOrigin_releaseClaim
  | _ => exact absurd hc id

/-- However a store is used, and restarted in between, with created orders and fresh names for
trades: its records stand beside its trades, the index has each trade at its place and has nothing
else, and would be the same after a restart. The calls for a trade are about its record, and each
record releases what the limit of the buyer was above the price. Calls for settlements leave alone
all orders and trades, the index, the records that they are not about, and what is fixed of the
others. -/
theorem settlements_beside_trades {acts : List StoreAct} (hcreated : ∀ a ∈ acts, a.InsertsCreated)
    (hfresh : empty.RunsFreshly acts) :
    let s := empty.afterActs acts
    s.settlements.map SettlementRecord.trade = s.trades ∧
      (∀ (id : TradeId) (place : ℕ), s.index[id]? = some place ↔
        ∃ t, s.trades[place]? = some t ∧ t.id = id) ∧
      s.restart.index = s.index ∧
      (∀ place r, s.settlements[place]? = some r → s.ActsOn place r) ∧
      (∀ r ∈ s.settlements, s.Releases r) ∧
      ∀ stamp c, StoreCall.OfSettlements c →
        OnlyTouches (s.touched stamp.time c) s (s.perform stamp c).2 := by
  intro s
  have h : s.Paired := Paired.empty.afterActs hcreated hfresh
  refine ⟨h.trade_eq, h.index_eq_some_iff, s.index_restart, fun place r hr => ?_, h.releases,
    fun stamp c hc => s.onlyTouches_perform stamp hc⟩
  refine actsOn_of_requireSettlement hr ((h.index_eq_some_iff _ _).2 ⟨r.trade, ?_, rfl⟩)
  rw [← h.trade_eq, List.getElem?_map, hr]
  rfl

/-- A buyer with the limit 100 trades two pieces at 99 and one at the own limit. The first record is
claimed, which is forgotten in a restart, and then settled. -/
def boughtBelowLimit : List StoreAct :=
  let call (name : ℕ) (c : StoreCall) : StoreAct := .call ⟨.ofNat name, .epoch⟩ c
  [call 9 (.insertOrder (.gold 1 .sell (.ofWord 2) (.ofWord 99) 1)),
    call 9 (.insertOrder (.gold 2 .buy (.ofWord 3) (.ofWord 100) 2)),
    call 9 (.transitionOrder ⟨.ofNat 1⟩ .confirm), call 9 (.transitionOrder ⟨.ofNat 2⟩ .confirm),
    call 5 (.commitMatch ⟨.ofNat 1⟩ ⟨.ofNat 2⟩ (.ofWord 2) .standard),
    call 9 (.insertOrder (.gold 3 .sell .one (.ofWord 98) 3)),
    call 9 (.transitionOrder ⟨.ofNat 3⟩ .confirm),
    call 6 (.commitMatch ⟨.ofNat 2⟩ ⟨.ofNat 3⟩ .one .standard), call 9 (.claimPending 1), .restart,
    call 9 (.claimSettlement ⟨.ofNat 5⟩), call 9 (.recordAttempt ⟨.ofNat 5⟩ none 3)]

theorem settlements_beside_trades_boughtBelowLimit :
    (∀ a ∈ boughtBelowLimit, a.InsertsCreated) ∧ empty.RunsFreshly boughtBelowLimit ∧
    let s := empty.afterActs boughtBelowLimit
    s.settlements.map (fun r => (r.buyerRelease, r.status)) =
      [(.ofWord 2, .settled), (.zero, .pending)] ∧
    s.settlements.map SettlementRecord.trade = s.trades ∧
      (∀ (id : TradeId) (place : ℕ), s.index[id]? = some place ↔
        ∃ t, s.trades[place]? = some t ∧ t.id = id) ∧
      s.restart.index = s.index ∧
      (∀ place r, s.settlements[place]? = some r → s.ActsOn place r) ∧
      (∀ r ∈ s.settlements, s.Releases r) ∧
      ∀ stamp c, StoreCall.OfSettlements c →
        OnlyTouches (s.touched stamp.time c) s (s.perform stamp c).2 := by
  have hcreated : ∀ a ∈ boughtBelowLimit, a.InsertsCreated := by
    simp only [boughtBelowLimit, List.forall_mem_cons, List.not_mem_nil, false_imp_iff,
      implies_true, and_true]
    exact ⟨Order.create_gold 1 .sell 1 (by decide) (by decide) ⟨_, rfl⟩,
      Order.create_gold 2 .buy 2 (by decide) (by decide) ⟨_, rfl⟩, trivial, trivial, trivial,
      Order.create_gold 3 .sell 3 (by decide) (by decide) ⟨_, rfl⟩, trivial, trivial, trivial,
      trivial, trivial, trivial⟩
  have hfresh : empty.RunsFreshly boughtBelowLimit := by
    refine ⟨trivial, trivial, trivial, trivial, ?_, trivial, trivial, ?_, trivial, trivial, trivial,
      trivial, trivial⟩
    · show ∀ t ∈ _, _
      decide +kernel
    · show ∀ t ∈ _, _
      decide +kernel
  exact ⟨hcreated, hfresh, by decide +kernel, settlements_beside_trades hcreated hfresh⟩

end Store

end Bourse
