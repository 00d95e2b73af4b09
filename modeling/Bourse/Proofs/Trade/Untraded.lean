import Bourse.Proofs.Settlement.Outbox
import Bourse.Proofs.Store.Lifecycle

/-!
# Cancelled orders do not trade

Once an order has traded, it is partially filled or completed, or it has failed since. So whatever is
done to a store, no trade names an order that is cancelled.
-/

namespace Bourse

/-- The statuses that an order can have once it has traded. -/
def OrderStatus.mayHaveTraded : OrderStatus → Bool
  | .partially | .completed | .failed => true
  | _ => false

theorem OrderStatus.Moves.mayHaveTraded {a b : OrderStatus} (h : a.Moves b)
    (ha : a.mayHaveTraded = true) : b.mayHaveTraded = true := by
  cases h with
  | fillAgain => rfl
  | fillRest => rfl
  | fail => rfl
  | _ => cases ha

theorem Order.mayHaveTraded_of_fill {o o' : Order} {quantity : Decimal} {role : OrderRole}
    {now : Instant} (h : (o.fill quantity role now).run = .ok (.ok o')) :
    o'.status.mayHaveTraded = true := by
  obtain ⟨-, -, -, r, -, rfl⟩ := fill_eq_ok_iff.1 h
  dsimp only
  split <;> rfl

namespace Store

variable {s : Store} {o : Order}

/-- The orders of each trade are stored, with a status that says that they may have traded. -/
def TradersStand (s : Store) : Prop :=
  ∀ t ∈ s.trades, ∀ id, t.involvesOrder id = true →
    ∃ o, s.orders.find? id = some o ∧ o.status.mayHaveTraded = true

namespace TradersStand

theorem perform (hs : s.TradersStand) (stamp : Stamp) (c : StoreCall) :
    (s.perform stamp c).2.TradersStand := by
  have hold : ∀ t ∈ s.trades, ∀ id, t.involvesOrder id = true →
      ∃ o, (s.perform stamp c).2.orders.find? id = some o ∧ o.status.mayHaveTraded = true := by
    intro t ht id hid
    obtain ⟨o, ho, hstatus⟩ := hs t ht id hid
    obtain ⟨hmem, rfl⟩ := OrderTable.find?_eq_some_iff.1 ho
    obtain ⟨p, hp, rfl | hadvances⟩ := find?_perform hmem stamp c
    · exact ⟨p, hp, hstatus⟩
    · exact ⟨p, hp, hadvances.moves.mayHaveTraded hstatus⟩
  intro t ht id hid
  cases ordersStep s stamp c with
  | matched hm horders htrades =>
    rw [htrades] at ht
    rcases List.mem_append.1 ht with ht | ht
    · exact hold t ht id hid
    · rw [List.mem_singleton.1 ht, hm.involvesOrder_iff] at hid
      rw [horders]
      rcases hid with rfl | rfl
      · have hfound := OrderTable.find?_of_mem (hm.mem_orders_iff.2 (Or.inl rfl))
        rw [hm.filled_maker_id] at hfound
        exact ⟨_, hfound, Order.mayHaveTraded_of_fill hm.maker_filled⟩
      · have hfound := OrderTable.find?_of_mem (hm.mem_orders_iff.2 (Or.inr (Or.inl rfl)))
        rw [hm.filled_taker_id] at hfound
        exact ⟨_, hfound, Order.mayHaveTraded_of_fill hm.taker_filled⟩
  | _ =>
    rename_i htrades
    exact hold t (htrades ▸ ht) id hid

theorem act (hs : s.TradersStand) (a : StoreAct) : (s.act a).TradersStand := by
  cases a with
  | call stamp c => exact hs.perform stamp c
  | restart =>
    intro t ht id hid
    have hfind : s.restart.orders.find? id = s.orders.find? id := (alike_restart s).find?_eq id
    obtain ⟨o, ho, hstatus⟩ := hs t (s.trades_restart ▸ ht) id hid
    exact ⟨o, hfind.trans ho, hstatus⟩

theorem empty : Store.empty.TradersStand := fun _ ht => (by cases ht)

theorem afterActs (acts : List StoreAct) : (Store.empty.afterActs acts).TradersStand :=
  afterActs_induction empty fun _ a _ hs => hs.act a

/-- A cancelled order is in no trade. -/
theorem involvesOrder_eq_false (hs : s.TradersStand) (ho : o ∈ s.orders.entries)
    (hstatus : o.status = .cancelled) {t : Trade} (ht : t ∈ s.trades) :
    t.involvesOrder o.id = false := by
  by_contra hne
  obtain ⟨p, hp, htraded⟩ := hs t ht o.id (by simpa using hne)
  rw [OrderTable.find?_of_mem ho] at hp
  obtain rfl := Option.some.inj hp
  rw [hstatus] at htraded
  cases htraded

end TradersStand

end Store

end Bourse
