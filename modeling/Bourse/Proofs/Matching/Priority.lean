import Bourse.Book
import Bourse.Proofs.Decimal.Value
import Bourse.Store
import Mathlib.Data.List.Basic
import Mathlib.Data.Prod.Lex
import Mathlib.Order.Compare

/-!
# Priority

The order in which one side of a market is matched is a linear order: by price, then by time. So
along a side the prices only get worse, and a search that stops at the first price that does not
cross finds what a search of the whole side would find.
-/

namespace Bourse

variable {allowSelfTrade : Bool} {side : Side} {a b o buy sell : Order} {orders : List Order}

theorem compare_then_ne_gt_iff {α : Type} [LinearOrder α] (x y : α) (o : Ordering) :
    ((compare x y).then o != .gt) = true ↔ x < y ∨ x = y ∧ (o != .gt) = true := by
  rcases lt_trichotomy x y with h | h | h
  · rw [compare_lt_iff_lt.2 h]
    simp [h]
  · rw [compare_eq_iff_eq.2 h]
    simp [h]
  · rw [compare_gt_iff_gt.2 h]
    simp [h.not_gt, h.ne']

/-- What a side is ordered by. The smallest comes first. -/
def priorityKey (side : Side) (o : Order) : ℚ ×ₗ ℤ ×ₗ ℕ :=
  let price := match side with
    | .buy => -o.price.toRat
    | .sell => o.price.toRat
  toLex (price, toLex (o.createdAt.rank, o.sequence.toNat))

theorem timeLe_iff : Order.timeLe a b = true ↔ a.createdAt.rank < b.createdAt.rank ∨
    a.createdAt.rank = b.createdAt.rank ∧ a.sequence.toNat ≤ b.sequence.toNat := by
  unfold Order.timeLe Order.cmpTime
  rw [compare_then_ne_gt_iff, bne_iff_ne, compare_le_iff_le]

/-- Of two orders, one came first. -/
theorem timeLe_total (h : ¬Order.timeLe a b = true) : Order.timeLe b a = true := by
  rw [timeLe_iff] at h ⊢
  omega

theorem priorityLe_iff : priorityLe side a b = true ↔ priorityKey side a ≤ priorityKey side b := by
  have hprice : ∀ x y : Decimal, (x.cmp y).then (Order.cmpTime a b) != .gt ↔
      x.toRat < y.toRat ∨ x.toRat = y.toRat ∧ Order.timeLe a b = true := by
    intro x y
    rw [Decimal.cmp, compare_then_ne_gt_iff, ← Decimal.lt_iff, ← Decimal.sameValue_iff]
    exact Iff.rfl
  have hkey : ∀ x y : ℚ, toLex (x, toLex (a.createdAt.rank, a.sequence.toNat)) ≤
      toLex (y, toLex (b.createdAt.rank, b.sequence.toNat)) ↔
        x < y ∨ x = y ∧ Order.timeLe a b = true := by
    intro x y
    rw [timeLe_iff, Prod.Lex.toLex_le_toLex, Prod.Lex.toLex_le_toLex]
  unfold priorityLe priorityCmp priorityKey
  cases side with
  | buy =>
    dsimp only
    rw [hprice, hkey, neg_lt_neg_iff, neg_inj, @eq_comm _ b.price.toRat]
  | sell =>
    dsimp only
    rw [hprice, hkey]

/-- Along a side the priority only gets lower. -/
theorem pairwise_sortByPriority (side : Side) (orders : List Order) :
    (sortByPriority side orders).Pairwise fun a b => priorityKey side a ≤ priorityKey side b := by
  refine (List.pairwise_mergeSort ?_ ?_ orders).imp fun h => priorityLe_iff.1 h
  · intro a b c hab hbc
    exact priorityLe_iff.2 ((priorityLe_iff.1 hab).trans (priorityLe_iff.1 hbc))
  · intro a b
    rw [Bool.or_eq_true, priorityLe_iff, priorityLe_iff]
    exact le_total _ _

theorem crosses_iff : crosses buy sell = true ↔ sell.price.toRat ≤ buy.price.toRat := by
  rw [crosses, decide_eq_true_eq, Decimal.le_iff]

/-- A sell with a higher priority asks no more. -/
theorem crosses_of_sell_le (h : priorityKey .sell a ≤ priorityKey .sell b)
    (hb : crosses buy b = true) : crosses buy a = true := by
  rw [crosses_iff] at hb ⊢
  rcases Prod.Lex.toLex_le_toLex.1 h with hlt | ⟨heq, -⟩
  · exact hlt.le.trans hb
  · exact heq.le.trans hb

/-- A buy with a higher priority bids no less. -/
theorem crosses_of_buy_le (h : priorityKey .buy a ≤ priorityKey .buy b)
    (hb : crosses b sell = true) : crosses a sell = true := by
  rw [crosses_iff] at hb ⊢
  rcases Prod.Lex.toLex_le_toLex.1 h with hlt | ⟨heq, -⟩
  · exact hb.trans (neg_lt_neg_iff.1 hlt).le
  · exact hb.trans (neg_inj.1 heq).ge

/-- Where a condition fails, it fails for all that come later. So a search may stop there. -/
theorem find?_takeWhile {α : Type} {p q : α → Bool} {l : List α}
    (h : l.Pairwise fun a b => p b = true → p a = true) :
    (l.takeWhile p).find? q = l.find? fun a => p a && q a := by
  induction l with
  | nil => rfl
  | cons a rest ih =>
    obtain ⟨ha, hrest⟩ := List.pairwise_cons.1 h
    by_cases hp : p a = true
    · rw [List.takeWhile_cons_of_pos hp, List.find?_cons, List.find?_cons, ih hrest, hp,
        Bool.true_and]
    · rw [List.takeWhile_cons_of_neg hp, List.find?_nil, eq_comm, List.find?_eq_none]
      intro x hx hpq
      have hpx : p x = true := (Bool.and_eq_true _ _ ▸ hpq).1
      rcases List.mem_cons.1 hx with rfl | hx
      · exact hp hpx
      · exact hp (ha x hx hpx)

/-- One side of a market as it is matched. -/
def Store.sideOf (s : Store) (market : Market) (side : Side) : List Order :=
  sortByPriority side ((s.restingOrders market side).filter Order.isResting)

theorem Store.mem_sideOf_iff {s : Store} {market : Market} : o ∈ s.sideOf market side ↔
    o ∈ s.orders.entries ∧ o.isResting = true ∧ o.side = side ∧ o.market = market := by
  rw [sideOf, sortByPriority, List.mem_mergeSort, List.mem_filter, restingOrders, List.mem_filter,
    Bool.and_eq_true, Bool.and_eq_true, decide_eq_true_eq, decide_eq_true_eq]
  constructor
  · rintro ⟨⟨hmem, ⟨hrest, hside⟩, hmarket⟩, -⟩
    exact ⟨hmem, hrest, hside, hmarket⟩
  · rintro ⟨hmem, hrest, hside, hmarket⟩
    exact ⟨⟨hmem, ⟨hrest, hside⟩, hmarket⟩, hrest⟩

end Bourse
