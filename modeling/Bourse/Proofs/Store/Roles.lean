import Bourse.Proofs.Settlement.Outbox
import Bourse.Proofs.Store.Conservation

/-!
# Roles sum up trades

The role of an order is carried on from fill to fill. Nothing keeps the trades beside it: the first
fill is told from the others by the amount, all of which remains before it. As long as remaining
amounts are exact, all of it remains just before the first trade, so the role says at all times what
the trades of the order have been.

The invariant ties the role of each stored order to its trades. A match adds one trade to those of
its two orders, and to those of no other order.
-/

namespace Bourse

/-- An order is the maker of a trade, or its taker. -/
def Trade.HasRole (t : Trade) (id : OrderId) : OrderRole → Prop
  | .maker => t.makerOrderId = id ∧ t.takerOrderId ≠ id
  | .taker => t.takerOrderId = id ∧ t.makerOrderId ≠ id
  | .mixed => False

/-- What an order has been in some trades: the maker of all of them, also if there is none, or the
taker of all of them, or at times the one and at times the other. -/
structure OrderRole.SumsUp (role : OrderRole) (id : OrderId) (trades : List Trade) : Prop where
  maker_iff : role = .maker ↔ ∀ t ∈ trades, t.HasRole id .maker
  taker_iff : role = .taker ↔ trades ≠ [] ∧ ∀ t ∈ trades, t.HasRole id .taker
  mixed_iff : role = .mixed ↔
    (∃ t ∈ trades, t.HasRole id .maker) ∧ ∃ t ∈ trades, t.HasRole id .taker

/-- A message says what an order has been. -/
def MentionsRole (message : String) : Prop :=
  "maker".toList <:+: message.toList ∨ "taker".toList <:+: message.toList

instance (message : String) : Decidable (MentionsRole message) :=
  inferInstanceAs (Decidable (_ ∨ _))

namespace OrderRole

variable {role part : OrderRole} {id : OrderId} {trades : List Trade} {t : Trade}

theorem not_hasRole_taker (h : t.HasRole id .maker) : ¬t.HasRole id .taker :=
  fun h' => h.2 h'.1

theorem sumsUp_nil (id : OrderId) : maker.SumsUp id [] :=
  ⟨by simp, by simp, by simp⟩

/-- Each of some trades has an order for one of its two parties. -/
def PartyToAll (id : OrderId) (trades : List Trade) : Prop :=
  ∀ t ∈ trades, t.HasRole id .maker ∨ t.HasRole id .taker

/-- Being the maker of all trades is not being the taker of any, and the other way round. -/
theorem sumsUp_iff (hparty : PartyToAll id trades) : role.SumsUp id trades ↔
    (role = .maker ↔ ¬∃ t ∈ trades, t.HasRole id .taker) ∧
    (role = .taker ↔ (∃ t ∈ trades, t.HasRole id .taker) ∧ ¬∃ t ∈ trades, t.HasRole id .maker) ∧
    (role = .mixed ↔ (∃ t ∈ trades, t.HasRole id .maker) ∧ ∃ t ∈ trades, t.HasRole id .taker) := by
  have hmaker : (∀ t ∈ trades, t.HasRole id .maker) ↔ ¬∃ t ∈ trades, t.HasRole id .taker := by
    constructor
    · rintro hall ⟨t, ht, htaker⟩
      exact not_hasRole_taker (hall t ht) htaker
    · exact fun hnone t ht => (hparty t ht).resolve_right fun htaker => hnone ⟨t, ht, htaker⟩
  have htaker : (trades ≠ [] ∧ ∀ t ∈ trades, t.HasRole id .taker) ↔
      (∃ t ∈ trades, t.HasRole id .taker) ∧ ¬∃ t ∈ trades, t.HasRole id .maker := by
    constructor
    · rintro ⟨hne, hall⟩
      obtain ⟨t, ht⟩ := List.exists_mem_of_ne_nil trades hne
      exact ⟨⟨t, ht, hall t ht⟩, fun ⟨p, hp, hmaker⟩ => not_hasRole_taker hmaker (hall p hp)⟩
    · rintro ⟨⟨t, ht, -⟩, hnone⟩
      exact ⟨List.ne_nil_of_mem ht,
        fun p hp => (hparty p hp).resolve_left fun hmaker => hnone ⟨p, hp, hmaker⟩⟩
  constructor
  · rintro ⟨h₁, h₂, h₃⟩
    exact ⟨h₁.trans hmaker, h₂.trans htaker, h₃⟩
  · rintro ⟨h₁, h₂, h₃⟩
    exact ⟨h₁.trans hmaker.symm, h₂.trans htaker.symm, h₃⟩

theorem exists_append_iff (trades : List Trade) (t : Trade) (r : OrderRole) :
    (∃ p ∈ trades ++ [t], p.HasRole id r) ↔ (∃ p ∈ trades, p.HasRole id r) ∨ t.HasRole id r := by
  simp only [List.mem_append, List.mem_singleton, or_and_right, exists_or, exists_eq_left]

/-- One more trade mixes the role, unless it is the first one or of the same role. -/
theorem SumsUp.append (h : role.SumsUp id trades) (hparty : PartyToAll id trades)
    (ht : t.HasRole id part) :
    SumsUp (if trades = [] ∨ role = part then part else .mixed) id (trades ++ [t]) := by
  have hnil : trades = [] ↔
      ¬(∃ t ∈ trades, t.HasRole id .maker) ∧ ¬∃ t ∈ trades, t.HasRole id .taker := by
    constructor
    · rintro rfl
      simp
    · rintro ⟨hm, ht⟩
      by_contra hne
      obtain ⟨p, hp⟩ := List.exists_mem_of_ne_nil trades hne
      exact (hparty p hp).elim (fun h => hm ⟨p, hp, h⟩) fun h => ht ⟨p, hp, h⟩
  have hparty' : PartyToAll id (trades ++ [t]) := by
    refine List.forall_mem_append.2 ⟨hparty, fun p hp => ?_⟩
    rw [List.mem_singleton.1 hp]
    cases part with
    | maker => exact Or.inl ht
    | taker => exact Or.inr ht
    | mixed => exact False.elim ht
  rw [sumsUp_iff hparty] at h
  rw [sumsUp_iff hparty', exists_append_iff, exists_append_iff]
  generalize (∃ p ∈ trades, p.HasRole id .maker) = wasMaker at h hnil ⊢
  generalize (∃ p ∈ trades, p.HasRole id .taker) = wasTaker at h hnil ⊢
  cases part with
  | maker =>
    have hother : ¬t.HasRole id .taker := not_hasRole_taker ht
    cases role <;> grind
  | taker =>
    have hother : ¬t.HasRole id .maker := fun h' => not_hasRole_taker h' ht
    cases role <;> grind
  | mixed => exact False.elim ht

end OrderRole

namespace Store

variable {d : ℕ} {s s' : Store} {stamp : Stamp} {o : Order} {t : Trade} {id : OrderId}

/-! ### The first trade -/

theorem tradesOfOrder_append (h : s'.trades = s.trades ++ [t]) (id : OrderId) :
    s'.tradesOfOrder id =
      if t.involvesOrder id = true then s.tradesOfOrder id ++ [t] else s.tradesOfOrder id := by
  unfold tradesOfOrder
  rw [h, List.filter_append]
  by_cases hi : t.involvesOrder id = true <;> simp [hi]

/-- Nothing is taken from an order just as long as it has no trade. -/
theorem Conserved.remaining_eq_amount_iff (h : Conserved d s) (ho : o ∈ s.orders.entries) :
    o.remaining.toRat = o.amount.toRat ↔ s.tradesOfOrder o.id = [] := by
  have htraded := h.traded o ho
  constructor
  · intro heq
    by_contra hne
    have hpos : 0 < s.tradedQuantity o.id := by
      refine List.sum_pos _ (fun q hq => ?_) fun hnil => hne (List.map_eq_nil_iff.1 hnil)
      obtain ⟨t, ht, rfl⟩ := List.mem_map.1 hq
      exact h.quantity_pos t (List.mem_filter.1 ht).1
    linarith
  · intro hnil
    have hzero : s.tradedQuantity o.id = 0 := by
      rw [tradedQuantity, hnil]
      rfl
    linarith

/-- So the role after a further fill goes by the trades that there are. -/
theorem Conserved.roleAfter_eq (h : Conserved d s) (ho : o ∈ s.orders.entries) (role : OrderRole) :
    o.roleAfter role = if s.tradesOfOrder o.id = [] ∨ o.role = role then role else .mixed := by
  unfold Order.roleAfter
  simp only [Decimal.sameValue_iff, h.remaining_eq_amount_iff ho]

/-! ### Every call keeps the roles -/

/-- The orders of a trade are its maker and its taker, and the role of each stored order sums up its
trades. -/
structure RolesKept (s : Store) : Prop where
  party : ∀ id, OrderRole.PartyToAll id (s.tradesOfOrder id)
  sumsUp : ∀ o ∈ s.orders.entries, o.role.SumsUp o.id (s.tradesOfOrder o.id)

section Matched

variable {makerId takerId : OrderId} {quantity : Decimal} {fees : FeeSchedule}
  {maker taker : Order} {m : Match}
  (hm : s.Matches stamp makerId takerId quantity fees maker taker m)

include hm

theorem Matches.hasRole_maker : m.trade.HasRole makerId .maker :=
  ⟨hm.trade_maker, fun h => hm.ne (h.symm.trans hm.trade_taker)⟩

theorem Matches.hasRole_taker : m.trade.HasRole takerId .taker :=
  ⟨hm.trade_taker, fun h => hm.ne (hm.trade_maker.symm.trans h)⟩

end Matched

namespace RolesKept

theorem empty : Store.empty.RolesKept :=
  ⟨fun _ _ ht => absurd ht List.not_mem_nil, fun _ ho => absurd ho List.not_mem_nil⟩

/-- One order is put, with the trades and the role that it had, or as a new one. -/
theorem put (h : s.RolesKept) (horders : s'.orders = s.orders.put o)
    (htrades : s'.trades = s.trades) (ho : o.role.SumsUp o.id (s.tradesOfOrder o.id)) :
    s'.RolesKept := by
  have hsame : ∀ id, s'.tradesOfOrder id = s.tradesOfOrder id := fun id => by
    rw [tradesOfOrder, htrades, tradesOfOrder]
  refine ⟨fun id => hsame id ▸ h.party id, fun p hp => ?_⟩
  rw [hsame]
  rw [horders, OrderTable.mem_put_iff] at hp
  rcases hp with rfl | ⟨hp, -⟩
  · exact ho
  · exact h.sumsUp p hp

/-- An order that is filled has one more trade, in which it has the role that it is filled in. -/
theorem filled (h : s.RolesKept) (hconserved : Conserved d s)
    (htrades : s'.trades = s.trades ++ [t]) {quantity : Decimal} {role : OrderRole} {now : Instant}
    {p : Order} (ho : o ∈ s.orders.entries)
    (hfill : (o.fill quantity role now).run = .ok (.ok p)) (hrole : t.HasRole o.id role)
    (hinvolves : t.involvesOrder o.id = true) :
    p.role.SumsUp p.id (s'.tradesOfOrder p.id) := by
  obtain ⟨-, -, -, r, -, rfl⟩ := Order.fill_eq_ok_iff.1 hfill
  dsimp only
  rw [tradesOfOrder_append htrades, if_pos hinvolves, hconserved.roleAfter_eq ho]
  exact (h.sumsUp o ho).append (h.party o.id) hrole

theorem matched (h : s.RolesKept) (hconserved : Conserved d s) {makerId takerId : OrderId}
    {quantity : Decimal} {fees : FeeSchedule} {maker taker : Order} {m : Match}
    (hm : s.Matches stamp makerId takerId quantity fees maker taker m)
    (horders : s'.orders = (s.orders.put m.maker).put m.taker)
    (htrades : s'.trades = s.trades ++ [m.trade]) : s'.RolesKept := by
  refine ⟨fun id => ?_, fun p hp => ?_⟩
  · rw [tradesOfOrder_append htrades]
    split
    · rename_i hinvolves
      refine List.forall_mem_append.2 ⟨h.party id, List.forall_mem_singleton.2 ?_⟩
      rcases (hm.involvesOrder_iff id).1 hinvolves with rfl | rfl
      · exact Or.inl hm.hasRole_maker
      · exact Or.inr hm.hasRole_taker
    · exact h.party id
  · rw [horders, hm.mem_orders_iff] at hp
    rcases hp with rfl | rfl | ⟨hp, hmaker, htaker⟩
    · exact h.filled hconserved htrades (OrderTable.mem_of_find? hm.maker_found) hm.maker_filled
        (hm.maker_id ▸ hm.hasRole_maker) ((hm.involvesOrder_iff _).2 (Or.inl hm.maker_id))
    · exact h.filled hconserved htrades (OrderTable.mem_of_find? hm.taker_found) hm.taker_filled
        (hm.taker_id ▸ hm.hasRole_taker) ((hm.involvesOrder_iff _).2 (Or.inr hm.taker_id))
    · have hother : ¬m.trade.involvesOrder p.id = true := by
        rw [hm.involvesOrder_iff]
        exact fun hi => hi.elim hmaker htaker
      rw [tradesOfOrder_append htrades, if_neg hother]
      exact h.sumsUp p hp

theorem perform (h : s.RolesKept) (hconserved : Conserved d s) (stamp : Stamp) {c : StoreCall}
    (hc : InStepsOf d c) : (s.perform stamp c).2.RolesKept := by
  cases ordersStep s stamp c with
  | unchanged horders htrades =>
    refine ⟨fun id => ?_, fun o ho => ?_⟩
    · rw [tradesOfOrder, htrades]
      exact h.party id
    · rw [tradesOfOrder, htrades]
      exact h.sumsUp o (horders ▸ ho)
  | inserted fresh horders htrades =>
    obtain ⟨⟨stamp', terms, hcreate⟩, -, -⟩ := hc
    refine h.put horders htrades ?_
    dsimp only
    rw [hconserved.tradesOfOrder_eq_nil fresh]
    obtain ⟨-, -, -, rfl⟩ := Order.create_eq_ok_iff.1 hcreate
    exact OrderRole.sumsUp_nil _
  | transitioned found applied horders htrades =>
    have ho := h.sumsUp _ (OrderTable.mem_of_find? found)
    obtain ⟨status, notes, rfl, -⟩ := Transition.apply_eq_ok applied
    exact h.put horders htrades ho
  | matched hm horders htrades => exact h.matched hconserved hm horders htrades

end RolesKept

/-! ### Runs -/

/-- A call with quantities that are multiples of `1 / 10 ^ d`, or a restart. -/
def ActsInSteps (d : ℕ) : StoreAct → Prop
  | .call _ c => InStepsOf d c
  | .restart => True

theorem Conserved.restart (h : Conserved d s) : Conserved d s.restart where
  measured o ho := h.measured o (mem_orders_restart_iff.1 ho)
  traded o ho := by
    rw [tradedQuantity, tradesOfOrder_restart]
    exact h.traded o (mem_orders_restart_iff.1 ho)
  quantity_pos := s.trades_restart ▸ h.quantity_pos
  stored t ht id hi := by
    obtain ⟨o, ho, hid⟩ := h.stored t (s.trades_restart ▸ ht) id hi
    exact ⟨o, mem_orders_restart_iff.2 ho, hid⟩

theorem RolesKept.restart (h : s.RolesKept) : s.restart.RolesKept := by
  refine ⟨fun id => ?_, fun o ho => ?_⟩
  · rw [tradesOfOrder_restart]
    exact h.party id
  · rw [tradesOfOrder_restart]
    exact h.sumsUp o (mem_orders_restart_iff.1 ho)

theorem rolesKept_afterActs (hd : d ≤ 28) {acts : List StoreAct}
    (hacts : ∀ a ∈ acts, ActsInSteps d a) :
    Conserved d (Store.empty.afterActs acts) ∧ (Store.empty.afterActs acts).RolesKept := by
  refine afterActs_induction (P := fun s => Conserved d s ∧ s.RolesKept)
    ⟨Conserved.empty d, RolesKept.empty⟩ fun s a ha h => ?_
  cases a with
  | call stamp c => exact ⟨h.1.perform hd stamp (hacts _ ha), h.2.perform h.1 stamp (hacts _ ha)⟩
  | restart => exact ⟨h.1.restart, h.2.restart⟩

end Store

/-! ### What the message says -/

/-- The role in words, as it stands behind the status. -/
def roleText : OrderRole → String
  | .maker => ""
  | .taker => " as taker"
  | .mixed => " as maker and taker"

theorem mentionsRole_roleText (status : OrderStatus) (role : OrderRole) :
    MentionsRole (Order.statusText status ++ roleText role) ↔ role = .taker ∨ role = .mixed := by
  cases status <;> cases role <;> decide +kernel

/-- The message is the status of the order, with its role once anything is taken from it. -/
theorem Order.Measured.statusMessage_eq {d : ℕ} {o : Order} (h : o.Measured d) (hd : d ≤ 28) :
    o.statusMessage = .ok (statusText o.status ++
      roleText (if o.remaining.toRat = o.amount.toRat then .maker else o.role)) := by
  have hlt : |o.amount.toRat - o.remaining.toRat| * 10 ^ d < Decimal.bound := by
    have hnonneg := h.remaining_nonneg
    rw [abs_of_nonneg (sub_nonneg.2 h.remaining_le)]
    calc (o.amount.toRat - o.remaining.toRat) * 10 ^ d ≤ o.amount.toRat * 10 ^ d :=
          mul_le_mul_of_nonneg_right (by linarith) (by positivity)
      _ < Decimal.bound := h.amount_lt
  obtain ⟨c, hc, hv⟩ := Decimal.sub_exact h.amount_digits h.remaining_digits hd hlt
  have hzero : c.isZero = true ↔ o.remaining.toRat = o.amount.toRat := by
    rw [Decimal.isZero_iff, hv, sub_eq_zero, eq_comm]
  unfold statusMessage filled
  rw [hc]
  by_cases heq : o.remaining.toRat = o.amount.toRat
  · rw [if_pos heq]
    simp [bind, Except.bind, hzero.2 heq, roleText, pure, Except.pure]
  · rw [if_neg heq]
    have hsome : c.isZero = false := Bool.eq_false_iff.2 fun h => heq (hzero.1 h)
    simp only [bind, Except.bind, hsome]
    cases o.role <;> simp [roleText, pure, Except.pure]

namespace Store

/-- As long as all amounts and quantities are multiples of one step, the role of every stored order
sums up its trades at all times, whatever calls are made to the store and however often it is
restarted. The message about an order says a role just if the order has traded and was a taker. -/
theorem roles_sum_up (d : ℕ) (hd : d ≤ 28) (acts : List StoreAct)
    (hacts : ∀ a ∈ acts, ActsInSteps d a) :
    let s := Store.empty.afterActs acts
    ∀ o ∈ s.orders.entries,
      o.role.SumsUp o.id (s.tradesOfOrder o.id) ∧
      ∃ message, o.statusMessage = .ok message ∧
        (MentionsRole message ↔
          s.tradesOfOrder o.id ≠ [] ∧ (o.role = .taker ∨ o.role = .mixed)) := by
  intro s o ho
  obtain ⟨hconserved, hroles⟩ := rolesKept_afterActs hd hacts
  refine ⟨hroles.sumsUp o ho, _, (hconserved.measured o ho).statusMessage_eq hd, ?_⟩
  rw [mentionsRole_roleText, ne_eq, ← hconserved.remaining_eq_amount_iff ho]
  by_cases heq : o.remaining.toRat = o.amount.toRat <;> simp [heq]

/-- A buy of three ounces, with a restart after it. The buyer takes an ounce from one sell, and then
another sell comes to the buy. -/
def mixedBuy : List StoreAct :=
  let call (c : StoreCall) : StoreAct := .call ⟨.ofNat 4, .epoch⟩ c
  [call (.insertOrder (.gold 1 .buy (.ofWord 3) (.ofWord 100) 1)), .restart,
    call (.insertOrder (.gold 2 .sell .one (.ofWord 100) 2)),
    call (.insertOrder (.gold 3 .sell .one (.ofWord 100) 3)),
    call (.transitionOrder ⟨.ofNat 1⟩ .confirm), call (.transitionOrder ⟨.ofNat 2⟩ .confirm),
    call (.transitionOrder ⟨.ofNat 3⟩ .confirm),
    call (.commitMatch ⟨.ofNat 2⟩ ⟨.ofNat 1⟩ .one .zero),
    call (.commitMatch ⟨.ofNat 1⟩ ⟨.ofNat 3⟩ .one .zero)]

theorem roles_sum_up_mixedBuy :
    (0 ≤ 28 ∧ ∀ a ∈ mixedBuy, ActsInSteps 0 a) ∧
    let s := Store.empty.afterActs mixedBuy
    s.orders.entries.map (fun o => (o.role, (s.tradesOfOrder o.id).length)) =
      [(.mixed, 2), (.maker, 1), (.taker, 1)] ∧
    ∀ o ∈ s.orders.entries,
      o.role.SumsUp o.id (s.tradesOfOrder o.id) ∧
      ∃ message, o.statusMessage = .ok message ∧
        (MentionsRole message ↔
          s.tradesOfOrder o.id ≠ [] ∧ (o.role = .taker ∨ o.role = .mixed)) := by
  have hdigits : ∀ n : UInt64, HasDigits 0 (Decimal.ofWord n).toRat := fun n =>
    Decimal.hasDigits_scale (Decimal.ofWord n)
  have hlt : ∀ n : UInt64, (Decimal.ofWord n).toRat * 10 ^ 0 < Decimal.bound := fun n => by
    rw [Decimal.toRat_ofWord, pow_zero, mul_one, Nat.cast_lt]
    exact n.toNat_lt.trans (by decide)
  have hacts : ∀ a ∈ mixedBuy, ActsInSteps 0 a := by
    simp only [mixedBuy, List.forall_mem_cons]
    exact ⟨⟨Order.create_gold 1 .buy 1 (by decide) (by decide) ⟨_, rfl⟩, hdigits 3, hlt 3⟩, trivial,
      ⟨Order.create_gold 2 .sell 2 (by decide) (by decide) ⟨_, rfl⟩, hdigits 1, hlt 1⟩,
      ⟨Order.create_gold 3 .sell 3 (by decide) (by decide) ⟨_, rfl⟩, hdigits 1, hlt 1⟩,
      trivial, trivial, trivial, hdigits 1, hdigits 1, by simp⟩
  exact ⟨⟨by decide, hacts⟩, by decide +kernel, roles_sum_up 0 (by decide) _ hacts⟩

end Store

end Bourse
