import Bourse.Proofs.Matching.Agreement
import Bourse.Proofs.Matching.BestMatch
import Bourse.Proofs.Page
import Bourse.Proofs.Store.Numbered
import Bourse.Service

/-!
# Listings in pages

A user's orders and trades are handed out in pages, the latest first. Whoever asks for the pages one
after the other comes by each order and each trade of the user once. Where a store has its orders
does not matter: their numbers of insertion differ, so there is one way only to list them.
-/

namespace Bourse.Store

variable {s s' : Store} {user : UserId} {a b : Order}

/-- A list of a user's orders, each once, the latest first. -/
structure IsOrderListing (s : Store) (user : UserId) (listing : List Order) : Prop where
  nodup : listing.Nodup
  mem_iff : ∀ o, o ∈ listing ↔ o ∈ s.orders.entries ∧ o.userId = user
  latest_first : listing.Pairwise fun a b => b.CameBefore a

/-- Whoever asks a store comes to this result, wherever it has its orders and whatever the ledger
says, and leaves the store as it is. -/
def Serves {α : Type} (s : Store) (t : Task ServiceError α) (a : α) : Prop :=
  ∀ s' : Store, s'.orders.entries.Perm s.orders.entries → s'.trades = s.trades →
    ∀ (stamps : ℕ → Stamp) (answers : LedgerAnswers) (drawn asked : ℕ),
      ∃ y, Task.Ends (Desk.handler stamps answers) t ⟨s', drawn, asked⟩ (.ok a) y ∧ y.store = s'

/-! ### Orders -/

theorem pairwise_ordersOf (s : Store) (user : UserId) :
    (s.ordersOf user).Pairwise fun a b => ¬a.CameBefore b :=
  (pairwise_mergeSort_key sortsBy_timeLe_dual _).imp fun h =>
    timeLe_iff_not_cameBefore.1 ((sortsBy_timeLe_dual _ _).2 h)

theorem mem_ordersOf_iff : a ∈ s.ordersOf user ↔ a ∈ s.orders.entries ∧ a.userId = user := by
  rw [ordersOf, List.mem_mergeSort, List.mem_filter, decide_eq_true_eq]

/-- Of two stored orders one came before the other. -/
theorem Numbered.cameBefore_or (h : s.Numbered) (ha : a ∈ s.orders.entries)
    (hb : b ∈ s.orders.entries) (hne : a ≠ b) : a.CameBefore b ∨ b.CameBefore a := by
  have hsequence : a.sequence.toNat ≠ b.sequence.toNat := fun hsame =>
    hne (h.eq_of_sequence ha hb (UInt64.toNat_inj.1 hsame))
  simp only [Order.CameBefore, UInt64.lt_iff_toNat_lt]
  omega

theorem Numbered.isOrderListing (h : s.Numbered) (user : UserId) :
    s.IsOrderListing user (s.ordersOf user) := by
  have hnodup : (s.ordersOf user).Nodup :=
    (List.mergeSort_perm _ _).nodup_iff.2 (s.orders.nodup_entries.filter _)
  refine ⟨hnodup, fun o => mem_ordersOf_iff, ?_⟩
  refine ((pairwise_ordersOf s user).and hnodup).imp_of_mem fun ha hb hab => ?_
  exact (h.cameBefore_or (mem_ordersOf_iff.1 ha).1 (mem_ordersOf_iff.1 hb).1 hab.2).resolve_left
    hab.1

/-- The same orders are listed in one way only. -/
theorem Numbered.ordersOf_eq (h : s.Numbered) (hperm : s'.orders.entries.Perm s.orders.entries)
    (user : UserId) : s'.ordersOf user = s.ordersOf user := by
  refine List.Perm.eq_of_pairwise (fun a b ha hb hab hba => ?_) (pairwise_ordersOf s' user)
    (pairwise_ordersOf s user) ?_
  · by_contra hne
    exact (h.cameBefore_or (hperm.mem_iff.1 (mem_ordersOf_iff.1 ha).1) (mem_ordersOf_iff.1 hb).1
      hne).elim hab hba
  · exact (List.mergeSort_perm _ _).trans
      ((hperm.filter _).trans (List.mergeSort_perm _ _).symm)

/-- There are fewer orders than numbers. -/
theorem Numbered.length_lt (h : s.Numbered) : s.orders.entries.length < 2 ^ 64 := by
  have hnodup : ((s.orders.entries.map Order.sequence).map UInt64.toNat).Nodup :=
    h.distinct.map fun _ _ hsame => UInt64.toNat_inj.1 hsame
  have hnumbers : (s.orders.entries.map Order.sequence).map UInt64.toNat ⊆
      List.range' 1 (2 ^ 64 - 1) := by
    simp only [List.subset_def, List.forall_mem_map]
    intro o ho
    have hpos := UInt64.lt_iff_toNat_lt.1 (h.pos o ho)
    have hlt := o.sequence.toNat_lt
    rw [List.mem_range'_1]
    exact ⟨hpos, by omega⟩
  have hle := (List.subperm_of_subset hnodup hnumbers).length_le
  rw [List.length_map, List.length_map, List.length_range'] at hle
  omega

theorem Numbered.serves_listOrders (h : s.Numbered) (user : UserId) (page : PageRequest) :
    s.Serves (Service.listOrders user page) (Page.ofList (s.ordersOf user) page) := by
  intro s' hperm _ stamps answers drawn asked
  refine ⟨⟨s', drawn + 1, asked⟩, ?_, rfl⟩
  rw [← h.ordersOf_eq hperm]
  rfl

/-! ### Trades -/

/-- The trades that are committed while several things are done to a store, in their order. -/
def committedBy (s : Store) : List StoreAct → List Trade
  | [] => []
  | a :: rest => (s.act a).trades.drop s.trades.length ++ (s.act a).committedBy rest

/-- A trade that is committed stands behind all trades that there were. -/
theorem trades_prefix_act (s : Store) (a : StoreAct) : s.trades <+: (s.act a).trades := by
  cases a with
  | restart => exact s.trades_restart ▸ List.prefix_refl _
  | call stamp c =>
    show s.trades <+: (s.perform stamp c).2.trades
    cases ordersStep s stamp c with
    | unchanged _ htrades => rw [htrades]
    | inserted _ _ htrades => rw [htrades]
    | transitioned _ _ _ htrades => rw [htrades]
    | matched _ _ htrades =>
      rw [htrades]
      exact List.prefix_append _ _

/-- By induction on what is done: the trades stand in the order in which they are committed. -/
theorem trades_afterActs (s : Store) (acts : List StoreAct) :
    (s.afterActs acts).trades = s.trades ++ s.committedBy acts := by
  induction acts generalizing s with
  | nil => exact (List.append_nil _).symm
  | cons a rest ih =>
    obtain ⟨added, hadded⟩ := s.trades_prefix_act a
    show ((s.act a).afterActs rest).trades = _
    rw [ih, committedBy, ← hadded, List.drop_left, List.append_assoc]

theorem tradesOf_eq (s : Store) (user : UserId) : s.tradesOf user =
    (s.trades.filter fun t => t.buyerUserId = user ∨ t.sellerUserId = user).reverse := by
  rw [tradesOf, List.filter_reverse]
  congr 2
  funext t
  simp [Trade.involves]

theorem serves_listTrades (s : Store) (user : UserId) (page : PageRequest) :
    s.Serves (Service.listTrades user page) (Page.ofList (s.tradesOf user) page) := by
  intro s' _ htrades stamps answers drawn asked
  refine ⟨⟨s', drawn + 1, asked⟩, ?_, rfl⟩
  rw [tradesOf, ← htrades]
  rfl

/-! ### Pages -/

/-- After any number of calls and restarts with fewer than `2 ^ 64` insertions, the pages of a
user's orders are, one after the other, all of the user's orders, each once, the latest first. The
same holds of the trades in which the user buys or sells, in the reverse order of their commits; the
list of trades is one whose length a 64-bit word can hold. -/
theorem pages_partition_listings (acts : List StoreAct)
    (hcount : acts.countP StoreAct.isInsertion < 2 ^ 64) (user : UserId) (size : UInt64) :
    let s := empty.afterActs acts
    (∃ listing pages, s.IsOrderListing user listing ∧
      (∀ page, s.Serves (Service.listOrders user (.clamped page size)) (pages page)) ∧
      Page.Partition (PageRequest.sizeFor size) listing pages) ∧
    (s.trades.length < 2 ^ 64 → ∃ pages,
      (∀ page, s.Serves (Service.listTrades user (.clamped page size)) (pages page)) ∧
      Page.Partition (PageRequest.sizeFor size)
        ((empty.committedBy acts).filter fun t =>
          t.buyerUserId = user ∨ t.sellerUserId = user).reverse pages) := by
  intro s
  have hnumbered : s.Numbered := numbered_afterActs hcount
  constructor
  · have hlen : (s.ordersOf user).length < 2 ^ 64 := by
      rw [ordersOf, List.length_mergeSort]
      exact lt_of_le_of_lt (List.length_filter_le _ _) hnumbered.length_lt
    exact ⟨_, _, hnumbered.isOrderListing user, fun page => hnumbered.serves_listOrders user _,
      Page.partition_clamped hlen size⟩
  · intro htrades
    have hcommitted : s.trades = empty.committedBy acts := trades_afterActs empty acts
    have hlen : (s.tradesOf user).length < 2 ^ 64 := by
      refine lt_of_le_of_lt (List.length_filter_le _ _) ?_
      rwa [List.length_reverse]
    rw [← hcommitted, ← tradesOf_eq]
    exact ⟨_, fun page => s.serves_listTrades user _, Page.partition_clamped hlen size⟩

/-- A user places three orders. A buy meets a sell of the user's own, and then a sell of another. -/
def threeOrders : List StoreAct :=
  let call (c : StoreCall) : StoreAct := .call ⟨.ofNat 4, .epoch⟩ c
  [call (.insertOrder (.gold 1 .buy (.ofWord 3) (.ofWord 100) 1)), .restart,
    call (.insertOrder (.gold 2 .sell .one (.ofWord 100) 1)),
    call (.insertOrder (.gold 3 .sell .one (.ofWord 100) 2)),
    call (.insertOrder (.gold 4 .sell .one (.ofWord 200) 1)),
    call (.transitionOrder ⟨.ofNat 1⟩ .confirm), call (.transitionOrder ⟨.ofNat 2⟩ .confirm),
    call (.transitionOrder ⟨.ofNat 3⟩ .confirm),
    call (.commitMatch ⟨.ofNat 2⟩ ⟨.ofNat 1⟩ .one .zero),
    call (.commitMatch ⟨.ofNat 1⟩ ⟨.ofNat 3⟩ .one .zero)]

/-- In pages of two there are two pages of orders, and one of trades. -/
theorem pages_partition_listings_threeOrders :
    let s := empty.afterActs threeOrders
    (threeOrders.countP StoreAct.isInsertion < 2 ^ 64 ∧ s.trades.length < 2 ^ 64) ∧
    (s.orders.entries.countP (fun o => o.userId = ⟨1⟩) = 3 ∧
      (empty.committedBy threeOrders).map (fun t => (t.buyerUserId, t.sellerUserId)) =
        [(⟨1⟩, ⟨1⟩), (⟨1⟩, ⟨2⟩)]) ∧
    (∃ listing pages, s.IsOrderListing ⟨1⟩ listing ∧
      (∀ page, s.Serves (Service.listOrders ⟨1⟩ (.clamped page 2)) (pages page)) ∧
      Page.Partition 2 listing pages) ∧
    ∃ pages,
      (∀ page, s.Serves (Service.listTrades ⟨1⟩ (.clamped page 2)) (pages page)) ∧
      Page.Partition 2 (empty.committedBy threeOrders).reverse pages := by
  have hcount : threeOrders.countP StoreAct.isInsertion < 2 ^ 64 := by decide +kernel
  have htrades : (empty.afterActs threeOrders).trades.length < 2 ^ 64 := by decide +kernel
  obtain ⟨horders, hlisted⟩ := pages_partition_listings threeOrders hcount ⟨1⟩ 2
  have hall : (empty.committedBy threeOrders).filter (fun t =>
      t.buyerUserId = ⟨1⟩ ∨ t.sellerUserId = ⟨1⟩) = empty.committedBy threeOrders := by
    decide +kernel
  refine ⟨⟨hcount, htrades⟩, ⟨by decide +kernel, by decide +kernel⟩, horders, ?_⟩
  rw [← hall]
  exact hlisted htrades

end Bourse.Store
