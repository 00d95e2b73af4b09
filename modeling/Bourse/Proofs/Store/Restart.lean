import Bourse.Proofs.Matching.Priority
import Bourse.Proofs.Store.Calls
import Mathlib.Data.List.Perm.Basic
import Mathlib.Data.String.Basic

/-!
# Restarts

A store that is taken down to a snapshot and built up again gives back the records that workers
held, and lists its orders by their numbers of insertion. Nobody can tell: every listing is sorted,
the sort is stable, and two orders that a sort leaves as they stand have one number.

So two stores *hold the same* if they are written down as the same snapshot, and that is preserved
by every call with the same answer. The one listing that comes in no particular order, that of the
orders resting in a market, has the same orders, and they are the same in order of priority.
-/

namespace Bourse

/-! ### Stable sorting -/

/-- What is compared is a key. -/
def SortsBy {α K : Type} [LE K] (le : α → α → Bool) (key : α → K) : Prop :=
  ∀ a b, le a b = true ↔ key a ≤ key b

section Stable

variable {α K : Type} [LinearOrder K] {le : α → α → Bool} {key : α → K} {l₁ l₂ : List α}

theorem le_trans_of_key (hle : SortsBy le key) (a b c : α)
    (hab : le a b = true) (hbc : le b c = true) : le a c = true :=
  (hle a c).2 (((hle a b).1 hab).trans ((hle b c).1 hbc))

theorem le_total_of_key (hle : SortsBy le key) (a b : α) :
    (le a b || le b a) = true := by
  rw [Bool.or_eq_true, hle, hle]
  exact le_total _ _

theorem pairwise_mergeSort_key (hle : SortsBy le key) (l : List α) :
    (l.mergeSort le).Pairwise fun a b => key a ≤ key b :=
  (List.pairwise_mergeSort (le_trans_of_key hle) (le_total_of_key hle) l).imp fun h => (hle _ _).1 h

/-- What has one key stays in its order. -/
theorem filter_mergeSort (hle : SortsBy le key) {p : α → Bool}
    (hp : ∀ a b, p a = true → p b = true → key a = key b) (l : List α) :
    (l.mergeSort le).filter p = l.filter p := by
  have htied : (l.filter p).Pairwise fun a b => le a b = true := by
    rw [List.pairwise_iff_forall_sublist]
    intro a b hab
    have ha : a ∈ l.filter p := hab.subset (by simp)
    have hb : b ∈ l.filter p := hab.subset (by simp)
    exact (hle a b).2 (hp a b (List.of_mem_filter ha) (List.of_mem_filter hb)).le
  have hsub : (l.filter p).Sublist (l.mergeSort le) :=
    List.sublist_mergeSort (le_trans_of_key hle) (le_total_of_key hle) htied List.filter_sublist
  have hfilter : (l.filter p).Sublist ((l.mergeSort le).filter p) := by
    have h := hsub.filter p
    simpa only [List.filter_filter, Bool.and_self] using h
  refine (hfilter.eq_of_length ?_).symm
  exact ((List.mergeSort_perm l le).filter p).length_eq.symm

/-- Sorting leaves what has one key as it stands. -/
theorem filter_key_mergeSort (hle : SortsBy le key) (k : K) (l : List α) :
    ((l.mergeSort le).filter fun x => key x = k) = l.filter fun x => key x = k :=
  filter_mergeSort hle (fun _ _ ha hb =>
    (of_decide_eq_true ha).trans (of_decide_eq_true hb).symm) l

theorem mem_of_filter_eq {κ : Type} [DecidableEq κ] {f : α → κ} {a : α}
    (h : ∀ k, l₁.filter (fun x => f x = k) = l₂.filter fun x => f x = k) (ha : a ∈ l₁) :
    a ∈ l₂ := by
  have hmem : a ∈ l₁.filter fun x => f x = f a := List.mem_filter.2 ⟨ha, by simp⟩
  rw [h] at hmem
  exact (List.mem_filter.1 hmem).1

/-- Two sorted lists are one list if they have the same under each key. -/
theorem eq_of_filter_eq (h₁ : l₁.Pairwise fun a b => key a ≤ key b)
    (h₂ : l₂.Pairwise fun a b => key a ≤ key b)
    (h : ∀ k, l₁.filter (fun x => key x = k) = l₂.filter fun x => key x = k) : l₁ = l₂ := by
  induction l₁ generalizing l₂ with
  | nil =>
    refine (List.eq_nil_iff_forall_not_mem.2 fun b hb => ?_).symm
    exact List.not_mem_nil (mem_of_filter_eq (fun k => (h k).symm) hb)
  | cons a t₁ ih =>
    cases l₂ with
    | nil => exact absurd (mem_of_filter_eq h List.mem_cons_self) List.not_mem_nil
    | cons b t₂ =>
      -- Each of the two first elements is in the other list, so their keys are the same.
      have hle : ∀ {c d : α} {t : List α}, (d :: t).Pairwise (fun a b => key a ≤ key b) →
          c ∈ d :: t → key d ≤ key c := by
        intro c d t hpair hmem
        rcases List.mem_cons.1 hmem with rfl | hmem
        · exact le_refl _
        · exact (List.pairwise_cons.1 hpair).1 c hmem
      have hkey : key a = key b := le_antisymm
        (hle h₁ (mem_of_filter_eq (fun k => (h k).symm) List.mem_cons_self))
        (hle h₂ (mem_of_filter_eq h List.mem_cons_self))
      have hhead := h (key b)
      rw [List.filter_cons_of_pos (by simpa using hkey), List.filter_cons_of_pos (by simp)] at hhead
      obtain ⟨rfl, -⟩ := List.cons.inj hhead
      refine congrArg _ (ih (List.pairwise_cons.1 h₁).2 (List.pairwise_cons.1 h₂).2 fun k => ?_)
      have hk := h k
      by_cases ha : key a = k
      · rw [List.filter_cons_of_pos (by simpa using ha),
          List.filter_cons_of_pos (by simpa using ha)] at hk
        exact (List.cons.inj hk).2
      · rwa [List.filter_cons_of_neg (by simpa using ha),
          List.filter_cons_of_neg (by simpa using ha)] at hk

/-- Sorting forgets nothing but the order of what has different keys. -/
theorem mergeSort_eq_mergeSort (hle : SortsBy le key)
    (h : ∀ k, l₁.filter (fun x => key x = k) = l₂.filter fun x => key x = k) :
    l₁.mergeSort le = l₂.mergeSort le := by
  refine eq_of_filter_eq (pairwise_mergeSort_key hle l₁) (pairwise_mergeSort_key hle l₂) fun k => ?_
  rw [filter_key_mergeSort hle, filter_key_mergeSort hle, h]

/-- It does not matter whether a list is sorted before or after some of it is left out. -/
theorem mergeSort_filter (hle : SortsBy le key) (p : α → Bool) (l : List α) :
    (l.filter p).mergeSort le = (l.mergeSort le).filter p := by
  refine eq_of_filter_eq (pairwise_mergeSort_key hle _)
    ((pairwise_mergeSort_key hle l).filter p) fun k => ?_
  rw [filter_key_mergeSort hle, List.filter_comm, ← filter_key_mergeSort hle k l, List.filter_comm]

end Stable

/-! ### Orders by their numbers -/

/-- Two lists have the same orders under each number of insertion. -/
def SameNumbered (l₁ l₂ : List Order) : Prop :=
  ∀ n, l₁.filter (fun o => o.sequence = n) = l₂.filter fun o => o.sequence = n

namespace SameNumbered

variable {l₁ l₂ : List Order} {K : Type} [LinearOrder K] {le : Order → Order → Bool}
  {key : Order → K}

theorem symm (h : SameNumbered l₁ l₂) : SameNumbered l₂ l₁ := fun n => (h n).symm

theorem mem_iff (h : SameNumbered l₁ l₂) {o : Order} : o ∈ l₁ ↔ o ∈ l₂ :=
  ⟨mem_of_filter_eq h, mem_of_filter_eq h.symm⟩

theorem perm (h : SameNumbered l₁ l₂) : l₁.Perm l₂ := by
  rw [List.perm_iff_count]
  intro o
  have hcount : ∀ l : List Order, l.count o =
      (l.filter fun p => p.sequence = o.sequence).count o := fun l =>
    (List.count_filter (by simp)).symm
  rw [hcount, h, ← hcount]

theorem filter (h : SameNumbered l₁ l₂) (p : Order → Bool) :
    SameNumbered (l₁.filter p) (l₂.filter p) := by
  intro n
  have hcomm : ∀ l : List Order, (l.filter p).filter (fun o => o.sequence = n) =
      (l.filter fun o => o.sequence = n).filter p := by
    intro l
    rw [List.filter_filter, List.filter_filter]
    exact List.filter_congr fun o _ => Bool.and_comm _ _
  rw [hcomm, h, hcomm]

/-- An order by which only orders of one number are equal. -/
theorem mergeSort_eq (h : SameNumbered l₁ l₂) (hle : SortsBy le key)
    (hkey : ∀ a b, key a = key b → a.sequence = b.sequence) :
    l₁.mergeSort le = l₂.mergeSort le := by
  refine mergeSort_eq_mergeSort hle fun k => ?_
  by_cases hex : ∃ o, key o = k
  · obtain ⟨o, rfl⟩ := hex
    have hnumber : ∀ l : List Order, l.filter (fun x => key x = key o) =
        (l.filter fun x => x.sequence = o.sequence).filter fun x => key x = key o := by
      intro l
      rw [List.filter_filter]
      refine List.filter_congr fun x _ => ?_
      by_cases hx : key x = key o <;> simp [hx, hkey x o]
    rw [hnumber, h, ← hnumber]
  · have hnil : ∀ l : List Order, l.filter (fun x => key x = k) = [] := fun l =>
      List.filter_eq_nil_iff.2 fun x _ hx => hex ⟨x, of_decide_eq_true hx⟩
    rw [hnil, hnil]

theorem putEntry (h : SameNumbered l₁ l₂) {o : Order}
    (ho : ∀ p ∈ l₁, p.id = o.id → p.sequence = o.sequence) :
    SameNumbered (OrderTable.putEntry o l₁) (OrderTable.putEntry o l₂) := by
  intro n
  have hput : ∀ l : List Order, (∀ p ∈ l, p.id = o.id → p.sequence = o.sequence) →
      (OrderTable.putEntry o l).filter (fun p => p.sequence = n) =
        if o.sequence = n then OrderTable.putEntry o (l.filter fun p => p.sequence = n)
        else l.filter fun p => p.sequence = n := by
    intro l hl
    induction l with
    | nil => by_cases hn : o.sequence = n <;> simp [OrderTable.putEntry, hn]
    | cons p rest ih =>
      obtain ⟨hp, hrest⟩ := List.forall_mem_cons.1 hl
      by_cases hid : p.id = o.id
      · by_cases hn : o.sequence = n <;> simp [OrderTable.putEntry, hid, hn, hp hid]
      · by_cases hpn : p.sequence = n <;> by_cases hn : o.sequence = n <;>
          simp [OrderTable.putEntry, hid, hn, hpn, ih hrest]
  rw [hput l₁ ho, hput l₂ fun p hp => ho p (h.mem_iff.2 hp), h]

end SameNumbered

/-! ### Sorted listings -/

theorem sortsBy_insertedLe : SortsBy Store.insertedLe fun o => o.sequence.toNat := by
  intro a b
  rw [Store.insertedLe, decide_eq_true_eq, UInt64.le_iff_toNat_le]

/-- What a user's orders are listed by. -/
def timeKey (o : Order) : ℤ ×ₗ ℕ := toLex (o.createdAt.rank, o.sequence.toNat)

theorem sortsBy_timeLe : SortsBy Order.timeLe timeKey := by
  intro a b
  rw [timeLe_iff, timeKey, timeKey, Prod.Lex.toLex_le_toLex]

theorem sortsBy_timeLe_dual :
    SortsBy (fun a b => Order.timeLe b a) fun o => OrderDual.toDual (timeKey o) :=
  fun a b => sortsBy_timeLe b a

theorem sequence_eq_of_timeKey {a b : Order} (h : timeKey a = timeKey b) :
    a.sequence = b.sequence :=
  UInt64.toNat_inj.1 (congrArg (fun k => (ofLex k).2) h)

theorem sequence_eq_of_priorityKey {side : Side} {a b : Order}
    (h : priorityKey side a = priorityKey side b) : a.sequence = b.sequence :=
  UInt64.toNat_inj.1 (congrArg (fun k => (ofLex (ofLex k).2).2) h)

/-- What the active markets are listed by. -/
def Market.key (m : Market) : String ×ₗ String ×ₗ ℕ :=
  toLex (m.symbol.base, toLex (m.symbol.quote, Market.productRank m.tradingType))

theorem Market.sortsBy_le : SortsBy Market.le Market.key := by
  intro a b
  unfold Market.le Market.cmp Market.key
  rw [compare_then_ne_gt_iff, compare_then_ne_gt_iff, bne_iff_ne, compare_le_iff_le,
    Prod.Lex.toLex_le_toLex, Prod.Lex.toLex_le_toLex]

theorem Market.eq_of_key {a b : Market} (h : a.key = b.key) : a = b := by
  obtain ⟨⟨base, quote, _, _⟩, product⟩ := a
  obtain ⟨⟨base', quote', _, _⟩, product'⟩ := b
  have hbase : base = base' := congrArg (fun k => (ofLex k).1) h
  have hquote : quote = quote' := congrArg (fun k => (ofLex (ofLex k).2).1) h
  have hrank : productRank product = productRank product' :=
    congrArg (fun k => (ofLex (ofLex k).2).2) h
  subst hbase hquote
  cases product <;> cases product' <;> first | rfl | cases hrank

/-- Markets are listed in one way only. -/
theorem Market.sort_eq_sort {l₁ l₂ : List Market} (h : l₁.Perm l₂) :
    Market.sort l₁ = Market.sort l₂ := by
  refine List.Perm.eq_of_pairwise (fun a b _ _ hab hba => Market.eq_of_key (le_antisymm hab hba))
    (pairwise_mergeSort_key Market.sortsBy_le l₁)
    (pairwise_mergeSort_key Market.sortsBy_le l₂) ?_
  exact (List.mergeSort_perm _ _).trans (h.trans (List.mergeSort_perm _ _).symm)

theorem nodup_eraseDups {α : Type} [DecidableEq α] (l : List α) : l.eraseDups.Nodup := by
  induction hn : l.length using Nat.strong_induction_on generalizing l with
  | _ n ih =>
    cases l with
    | nil => exact List.nodup_nil
    | cons a rest =>
      rw [List.eraseDups_cons, List.nodup_cons, List.mem_eraseDups, List.mem_filter]
      refine ⟨by simp, ih _ ?_ _ rfl⟩
      rw [← hn, List.length_cons]
      exact Nat.lt_succ_of_le (List.length_filter_le _ _)

theorem perm_eraseDups {α : Type} [DecidableEq α] {l₁ l₂ : List α} (h : l₁.Perm l₂) :
    l₁.eraseDups.Perm l₂.eraseDups := by
  rw [List.perm_ext_iff_of_nodup (nodup_eraseDups l₁) (nodup_eraseDups l₂)]
  intro a
  rw [List.mem_eraseDups, List.mem_eraseDups, h.mem_iff]

namespace Store

variable {s s₁ s₂ : Store}

/-! ### Stores that hold the same -/

/-- Two stores hold the same, perhaps with their orders in different places. -/
structure Alike (s₁ s₂ : Store) : Prop where
  numbered : SameNumbered s₁.orders.entries s₂.orders.entries
  trades_eq : s₁.trades = s₂.trades
  settlements_eq : s₁.settlements = s₂.settlements
  nextSequence_eq : s₁.nextSequence = s₂.nextSequence

namespace Alike

variable (h : s₁.Alike s₂)

include h

theorem find?_eq (id : OrderId) : s₁.orders.find? id = s₂.orders.find? id := by
  refine Option.ext fun o => ?_
  rw [OrderTable.find?_eq_some_iff, OrderTable.find?_eq_some_iff, h.numbered.mem_iff]

/-- The same order is put into both, with the number it had. -/
theorem put {o : Order} (ho : ∀ p, s₁.orders.find? o.id = some p → p.sequence = o.sequence) :
    SameNumbered (s₁.orders.put o).entries (s₂.orders.put o).entries :=
  h.numbered.putEntry fun p hp hid => ho p (OrderTable.find?_eq_some_iff.2 ⟨hp, hid⟩)

theorem activeMarkets_eq : s₁.activeMarkets = s₂.activeMarkets :=
  Market.sort_eq_sort (perm_eraseDups ((h.numbered.perm.filter _).map _))

theorem ordersOf_eq (user : UserId) : s₁.ordersOf user = s₂.ordersOf user :=
  (h.numbered.filter _).mergeSort_eq sortsBy_timeLe_dual
    fun _ _ hkey => sequence_eq_of_timeKey hkey

theorem cancellableOrders_eq (user : UserId) :
    s₁.cancellableOrders user = s₂.cancellableOrders user :=
  (h.numbered.filter _).mergeSort_eq sortsBy_timeLe
    fun _ _ hkey => sequence_eq_of_timeKey hkey

theorem countOrders_eq (status : Option OrderStatus) :
    s₁.countOrders status = s₂.countOrders status := by
  cases status with
  | none => exact h.numbered.perm.length_eq
  | some status => exact h.numbered.perm.countP_eq _

theorem restingOrders_numbered (market : Market) (side : Side) :
    SameNumbered (s₁.restingOrders market side) (s₂.restingOrders market side) :=
  h.numbered.filter _

theorem requireSettlement_eq (id : TradeId) :
    s₁.requireSettlement id = s₂.requireSettlement id := by
  unfold requireSettlement
  rw [settlementPlace?_eq, settlementPlace?_eq, h.settlements_eq]

theorem updateSettlement (place : ℕ) {f : SettlementRecord → SettlementRecord}
    (hf : ∀ r, (f r).trade = r.trade) :
    (s₁.updateSettlement place f hf).Alike (s₂.updateSettlement place f hf) :=
  ⟨h.numbered, h.trades_eq, congrArg (List.modify · place f) h.settlements_eq, h.nextSequence_eq⟩

/-- A match is the same in both stores. -/
theorem record {stamp : Stamp} {makerId takerId : OrderId} {quantity : Decimal}
    {fees : FeeSchedule} {maker taker : Order} {m : Match}
    (hm : s₁.Matches stamp makerId takerId quantity fees maker taker m) :
    (s₁.record m).Alike (s₂.record m) := by
  have hmaker := Order.sameTerms_of_fill hm.maker_filled
  have htaker := Order.sameTerms_of_fill hm.taker_filled
  have hmakers := h.put (o := m.maker) fun p hp => by
    rw [hmaker.id_eq, hm.maker_id, hm.maker_found] at hp
    obtain rfl := Option.some.inj hp
    exact hmaker.sequence_eq.symm
  refine ⟨hmakers.putEntry fun p hp hid => ?_, congrArg (· ++ [m.trade]) h.trades_eq,
    h.settlements_eq, h.nextSequence_eq⟩
  have hfound := OrderTable.find?_of_mem hp
  have hne : m.maker.id ≠ m.taker.id := by
    rw [hm.filled_maker_id, hm.filled_taker_id]
    exact hm.ne
  rw [OrderTable.find?_put, hid, if_neg hne, htaker.id_eq, hm.taker_id, hm.taker_found] at hfound
  obtain rfl := Option.some.inj hfound
  exact htaker.sequence_eq.symm

theorem commitMatch (stamp : Stamp) (makerId takerId : OrderId) (quantity : Decimal)
    (fees : FeeSchedule) :
    (s₁.commitMatch stamp makerId takerId quantity fees).1 =
        (s₂.commitMatch stamp makerId takerId quantity fees).1 ∧
      (s₁.commitMatch stamp makerId takerId quantity fees).2.Alike
        (s₂.commitMatch stamp makerId takerId quantity fees).2 := by
  unfold Store.commitMatch conflict
  simp only [h.find?_eq]
  split
  · exact ⟨rfl, h⟩
  · rename_i hne
    split
    · exact ⟨rfl, h⟩
    · exact ⟨rfl, h⟩
    · rename_i maker taker hmaker htaker
      split
      · exact ⟨rfl, h⟩
      · exact ⟨rfl, h⟩
      · rename_i m hm
        have hmatches : s₁.Matches stamp makerId takerId quantity fees maker taker m :=
          ⟨hne, (h.find?_eq _).trans hmaker, (h.find?_eq _).trans htaker, hm⟩
        have hrecord := h.record hmatches
        split
        · exact ⟨rfl, hrecord⟩
        · rename_i r hr
          exact ⟨rfl, hrecord.numbered, hrecord.trades_eq,
            congrArg (· ++ [r]) h.settlements_eq, hrecord.nextSequence_eq⟩

end Alike

/-! ### Calls -/

/-- Two answers to a call are the same. The orders that rest in a market come in no particular
order, and are the same in order of priority. -/
def SameAnswer : (c : StoreCall) → Outcome StoreError c.Answer →
    Outcome StoreError c.Answer → Prop
  | .restingOrders _ _, a, b => ∃ l₁ l₂, a = .ok (.ok l₁) ∧ b = .ok (.ok l₂) ∧ l₁.Perm l₂ ∧
      ∀ side, sortByPriority side l₁ = sortByPriority side l₂
  | _, a, b => a = b

theorem reply_congr {α : Type} {a b : α} (h : a = b) : (s₁.reply a).1 = (s₂.reply b).1 := by
  rw [reply, reply, h]

namespace Alike

theorem perform (h : s₁.Alike s₂) (stamp : Stamp) (c : StoreCall) :
    SameAnswer c (s₁.perform stamp c).1 (s₂.perform stamp c).1 ∧
      (s₁.perform stamp c).2.Alike (s₂.perform stamp c).2 := by
  cases c with
  | insertOrder o =>
    simp only [Store.perform, insertOrder, h.find?_eq, h.nextSequence_eq]
    cases hfound : s₂.orders.find? o.id with
    | some p => exact ⟨rfl, h⟩
    | none =>
      refine ⟨rfl, h.put fun p hp => ?_, h.trades_eq, h.settlements_eq, rfl⟩
      rw [h.find?_eq, hfound] at hp
      cases hp
  | getOrder id => exact ⟨reply_congr (h.find?_eq id), h⟩
  | transitionOrder id t =>
    simp only [Store.perform, transitionOrder, h.find?_eq]
    cases hfound : s₂.orders.find? id with
    | none => exact ⟨rfl, h⟩
    | some o =>
      dsimp only
      cases happ : t.apply o stamp.time with
      | error e => exact ⟨rfl, h⟩
      | ok o' =>
        have hterms := (Order.Changes.applied happ).sameTerms
        refine ⟨rfl, h.put fun p hp => ?_, h.trades_eq, h.settlements_eq, h.nextSequence_eq⟩
        rw [h.find?_eq, hterms.id_eq, OrderTable.id_of_find? hfound, hfound] at hp
        obtain rfl := Option.some.inj hp
        exact hterms.sequence_eq.symm
  | activeMarkets => exact ⟨reply_congr h.activeMarkets_eq, h⟩
  | restingOrders market side =>
    have hnumbered := h.restingOrders_numbered market side
    exact ⟨⟨_, _, rfl, rfl, hnumbered.perm, fun side => hnumbered.mergeSort_eq
      (fun _ _ => priorityLe_iff) fun _ _ hkey => sequence_eq_of_priorityKey hkey⟩, h⟩
  | commitMatch makerId takerId quantity fees =>
    obtain ⟨hanswer, hstore⟩ := h.commitMatch stamp makerId takerId quantity fees
    exact ⟨congrArg (Except.map Except.ok) hanswer, hstore⟩
  | ordersForUser user page =>
    exact ⟨reply_congr (congrArg (Page.ofList · page) (h.ordersOf_eq user)), h⟩
  | cancellableOrders user => exact ⟨reply_congr (h.cancellableOrders_eq user), h⟩
  | tradesForUser user page =>
    have htrades : s₁.tradesOf user = s₂.tradesOf user := by rw [tradesOf, tradesOf, h.trades_eq]
    exact ⟨reply_congr (congrArg (Page.ofList · page) htrades), h⟩
  | tradesForOrder id =>
    have htrades : s₁.tradesOfOrder id = s₂.tradesOfOrder id := by
      rw [tradesOfOrder, tradesOfOrder, h.trades_eq]
    exact ⟨reply_congr htrades, h⟩
  | countOrders status => exact ⟨reply_congr (h.countOrders_eq status), h⟩
  | getSettlement id =>
    have hfound : s₁.settlement? id = s₂.settlement? id := by
      rw [settlement?, settlement?, settlementPlace?_eq, settlementPlace?_eq, h.settlements_eq]
    exact ⟨reply_congr hfound, h⟩
  | claimSettlement id =>
    simp only [Store.perform, claimSettlement, h.requireSettlement_eq]
    cases s₂.requireSettlement id with
    | error e => exact ⟨rfl, h⟩
    | ok found => exact ⟨rfl, h.updateSettlement _ fun r => r.trade_claimed stamp.time⟩
  | claimPending limit =>
    have hclaim : claimFirst stamp.time limit.toNat s₁.settlements =
        claimFirst stamp.time limit.toNat s₂.settlements := congrArg _ h.settlements_eq
    exact ⟨reply_congr (congrArg Prod.fst hclaim), h.numbered, h.trades_eq,
      congrArg Prod.snd hclaim, h.nextSequence_eq⟩
  | recordAttempt id failure limit =>
    simp only [Store.perform, recordAttempt, h.requireSettlement_eq]
    cases s₂.requireSettlement id with
    | error e => exact ⟨rfl, h⟩
    | ok found =>
      exact ⟨rfl, h.updateSettlement _ fun r => r.trade_recordAttempt failure limit stamp.time⟩
  | releaseClaim id =>
    simp only [Store.perform, releaseClaim, h.requireSettlement_eq]
    cases s₂.requireSettlement id with
    | error e => exact ⟨rfl, h⟩
    | ok found => exact ⟨rfl, h.updateSettlement _ SettlementRecord.trade_releaseClaim⟩

end Alike

/-- All answers to a sequence of calls are the same. -/
def SameAnswers : List (Stamp × StoreCall) → Store → Store → Prop
  | [], _, _ => True
  | (stamp, c) :: calls, s₁, s₂ =>
    SameAnswer c (s₁.perform stamp c).1 (s₂.perform stamp c).1 ∧
      SameAnswers calls (s₁.perform stamp c).2 (s₂.perform stamp c).2

theorem Alike.afterCalls (h : s₁.Alike s₂) (calls : List (Stamp × StoreCall)) :
    SameAnswers calls s₁ s₂ ∧ (s₁.afterCalls calls).Alike (s₂.afterCalls calls) := by
  induction calls generalizing s₁ s₂ with
  | nil => exact ⟨trivial, h⟩
  | cons call calls ih =>
    obtain ⟨stamp, c⟩ := call
    obtain ⟨hanswer, hstore⟩ := h.perform stamp c
    obtain ⟨hanswers, hstores⟩ := ih hstore
    exact ⟨⟨hanswer, hanswers⟩, hstores⟩

/-! ### Down and up again -/

/-- The store that is built up again from its own snapshot. -/
def restart (s : Store) : Store := ofSnapshot s.snapshot

/-- The store, with all records given back that workers hold. -/
def released (s : Store) : Store :=
  s.withSettlements (s.settlements.map SettlementRecord.releaseClaim)

/-- A list of orders with distinct names is the table of itself. -/
theorem entries_ofList {l : List Order} (h : (l.map Order.id).Nodup) :
    (OrderTable.ofList l).entries = l := by
  have hput : ∀ (o : Order) (l : List Order), o.id ∉ l.map Order.id →
      OrderTable.putEntry o l = l ++ [o] := by
    intro o l ho
    induction l with
    | nil => rfl
    | cons p rest ih =>
      rw [List.map_cons, List.mem_cons, not_or] at ho
      rw [OrderTable.putEntry, if_neg (Ne.symm ho.1), ih ho.2, List.cons_append]
  have hfold : ∀ (l : List Order) (t : OrderTable), ((t.entries ++ l).map Order.id).Nodup →
      (l.foldl OrderTable.put t).entries = t.entries ++ l := by
    intro l
    induction l with
    | nil => exact fun t _ => (List.append_nil _).symm
    | cons o rest ih =>
      intro t ht
      have hentries : (t.put o).entries = t.entries ++ [o] := by
        refine hput o t.entries fun hmem => ?_
        rw [List.map_append, List.map_cons] at ht
        exact (List.nodup_append.1 ht).2.2 _ hmem _ List.mem_cons_self rfl
      rw [List.foldl_cons, ih, hentries, List.append_assoc, List.singleton_append]
      rwa [hentries, List.append_assoc, List.singleton_append]
  exact hfold l OrderTable.empty h

theorem entries_restart (s : Store) :
    s.restart.orders.entries = s.orders.entries.mergeSort insertedLe := by
  rw [restart, orders_ofSnapshot]
  refine entries_ofList ?_
  exact ((List.mergeSort_perm s.orders.entries insertedLe).map Order.id).nodup_iff.2
    s.orders.ids_nodup

theorem mem_orders_restart_iff {s : Store} {o : Order} :
    o ∈ s.restart.orders.entries ↔ o ∈ s.orders.entries := by
  rw [entries_restart, List.mem_mergeSort]

theorem trades_restart (s : Store) : s.restart.trades = s.trades :=
  trades_ofSnapshot s.snapshot

theorem tradesOfOrder_restart (s : Store) (id : OrderId) :
    s.restart.tradesOfOrder id = s.tradesOfOrder id := by
  rw [tradesOfOrder, tradesOfOrder, trades_restart]

theorem settlements_restart (s : Store) :
    s.restart.settlements = s.settlements.map SettlementRecord.releaseClaim :=
  settlements_ofSnapshot s.snapshot

theorem nextSequence_restart (s : Store) : s.restart.nextSequence = s.nextSequence :=
  nextSequence_ofSnapshot s.snapshot

theorem alike_restart (s : Store) : s.restart.Alike s.released where
  numbered n := by
    rw [entries_restart]
    refine filter_mergeSort sortsBy_insertedLe (fun a b ha hb => ?_) _
    rw [of_decide_eq_true ha, of_decide_eq_true hb]
  trades_eq := s.trades_restart
  settlements_eq := s.settlements_restart
  nextSequence_eq := s.nextSequence_restart

end Store

end Bourse
