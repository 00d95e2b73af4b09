import Bourse.Store
import Mathlib.Data.List.Basic

/-!
# The index of settlement records

The index of a store is exact at all times, so a record that is found for a trade is one of this
trade, and none is missed. Nothing but the records is needed to know it: stores with the same orders,
trades and records are the same. So what a call does to a store can be told by the records alone.
-/

namespace Bourse

/-! ### Last places -/

section LastPlace

variable {id : TradeId} {names : List TradeId} {place : ℕ}

theorem getElem?_of_lastPlace? (h : lastPlace? id names = some place) :
    names[place]? = some id := by
  induction names generalizing place with
  | nil => cases h
  | cons name names ih =>
    unfold lastPlace? at h
    split at h
    · rename_i k hk
      obtain rfl := Option.some.inj h
      exact ih hk
    · split at h
      · rename_i hname
        obtain rfl := Option.some.inj h
        exact congrArg some hname
      · cases h

theorem lastPlace?_eq_none_iff : lastPlace? id names = none ↔ id ∉ names := by
  induction names with
  | nil => simp [lastPlace?]
  | cons name names ih =>
    cases hk : lastPlace? id names with
    | some k =>
      have hsome : lastPlace? id (name :: names) = some (k + 1) := by rw [lastPlace?, hk]
      have hmem : id ∈ names := List.mem_of_getElem? (getElem?_of_lastPlace? hk)
      rw [hsome]
      exact iff_of_false (by simp) fun h => h (List.mem_cons_of_mem name hmem)
    | none =>
      have hmem : id ∉ names := ih.1 hk
      by_cases hname : name = id
      · simp [lastPlace?, hk, hname]
      · simp [lastPlace?, hk, hname, hmem, Ne.symm hname]

/-- Where no name comes twice, a name is found at its place. -/
theorem lastPlace?_eq_some_iff (h : names.Nodup) :
    lastPlace? id names = some place ↔ names[place]? = some id := by
  refine ⟨getElem?_of_lastPlace?, fun hplace => ?_⟩
  cases hfound : lastPlace? id names with
  | none => exact absurd (List.mem_of_getElem? hplace) (lastPlace?_eq_none_iff.1 hfound)
  | some k =>
    have hk := getElem?_of_lastPlace? hfound
    have hlt : k < names.length := (List.getElem?_eq_some_iff.1 hk).1
    exact congrArg some ((List.getElem?_inj hlt h).1 (hk.trans hplace.symm))

end LastPlace

namespace Store

variable {s s' : Store} {id : TradeId} {place : ℕ} {r r' : SettlementRecord}
  {records : List SettlementRecord} {now : Instant}

/-! ### What is found -/

theorem settlementPlace?_eq (s : Store) (id : TradeId) :
    s.settlementPlace? id = lastPlace? id (s.settlements.map (·.trade.id)) :=
  s.index_exact id

/-- The index leads to a record of the trade. -/
theorem exists_of_settlementPlace? (h : s.settlementPlace? id = some place) :
    ∃ r, s.settlements[place]? = some r ∧ r.trade.id = id := by
  rw [settlementPlace?_eq] at h
  have hplace := getElem?_of_lastPlace? h
  rw [List.getElem?_map] at hplace
  exact Option.map_eq_some_iff.1 hplace

theorem settlementPlace?_eq_none_iff :
    s.settlementPlace? id = none ↔ ∀ r ∈ s.settlements, r.trade.id ≠ id := by
  rw [settlementPlace?_eq, lastPlace?_eq_none_iff, List.mem_map]
  exact ⟨fun h r hr hid => h ⟨r, hr, hid⟩, fun h ⟨r, hr, hid⟩ => h r hr hid⟩

/-- The record of a trade is the one that is found. -/
theorem requireSettlement_eq_ok (h : s.requireSettlement id = .ok (place, r)) :
    s.settlements[place]? = some r ∧ r.trade.id = id := by
  unfold requireSettlement at h
  split at h
  · cases h
  · rename_i n hn
    obtain ⟨p, hp, hid⟩ := exists_of_settlementPlace? hn
    rw [hp] at h
    cases h
    exact ⟨hp, hid⟩

/-- The record of a trade is missing just if there is none. -/
theorem requireSettlement_eq_error {e : StoreError} (h : s.requireSettlement id = .error e) :
    e = .settlementNotFound id ∧ ∀ r ∈ s.settlements, r.trade.id ≠ id := by
  unfold requireSettlement at h
  split at h
  · rename_i hn
    cases h
    exact ⟨rfl, settlementPlace?_eq_none_iff.1 hn⟩
  · rename_i n hn
    obtain ⟨p, hp, -⟩ := exists_of_settlementPlace? hn
    rw [hp] at h
    cases h

/-- Where no trade has two records, a record is found at its place. -/
theorem settlementPlace?_eq_some_iff (h : (s.settlements.map (·.trade.id)).Nodup) :
    s.settlementPlace? id = some place ↔ ∃ r, s.settlements[place]? = some r ∧ r.trade.id = id := by
  rw [settlementPlace?_eq, lastPlace?_eq_some_iff h, List.getElem?_map, Option.map_eq_some_iff]

theorem requireSettlement_eq_ok_iff (h : (s.settlements.map (·.trade.id)).Nodup) :
    s.requireSettlement id = .ok (place, r) ↔ s.settlements[place]? = some r ∧ r.trade.id = id := by
  refine ⟨requireSettlement_eq_ok, fun hr => ?_⟩
  unfold requireSettlement
  rw [(settlementPlace?_eq_some_iff h).2 ⟨r, hr⟩]
  dsimp only
  rw [hr.1]

/-! ### Stores told by their records -/

/-- The records of a store settle its index. -/
theorem eq_of_parts (horders : s.orders = s'.orders) (htrades : s.trades = s'.trades)
    (hsettlements : s.settlements = s'.settlements) (hsequence : s.nextSequence = s'.nextSequence) :
    s = s' := by
  have hexact := s.index_exact
  rw [hsettlements] at hexact
  have hindex : s.index = s'.index := hexact.unique s'.index_exact
  cases s
  cases s'
  dsimp only at horders htrades hsettlements hindex hsequence
  subst horders htrades hsettlements hindex hsequence
  rfl

/-- Records of the same trades have the same index. -/
theorem index_eq_of_map_trade
    (h : s'.settlements.map (·.trade) = s.settlements.map (·.trade)) : s'.index = s.index := by
  have hexact := s.index_exact
  rw [map_id_of_map_trade h] at hexact
  exact s'.index_exact.unique hexact

/-- What becomes of a store when records are added one after the other. -/
theorem foldl_pushSettlement (s : Store) (records : List SettlementRecord) :
    (records.foldl pushSettlement s).settlements = s.settlements ++ records ∧
      (records.foldl pushSettlement s).orders = s.orders ∧
      (records.foldl pushSettlement s).trades = s.trades ∧
      (records.foldl pushSettlement s).nextSequence = s.nextSequence := by
  induction records generalizing s with
  | nil => exact ⟨(List.append_nil _).symm, rfl, rfl, rfl⟩
  | cons r rest ih =>
    obtain ⟨hsettlements, hparts⟩ := ih (s.pushSettlement r)
    refine ⟨hsettlements.trans ?_, hparts⟩
    show s.settlements ++ [r] ++ rest = _
    rw [List.append_assoc, List.singleton_append]

/-- The index of a list of records. -/
def indexOf (records : List SettlementRecord) : TradeIndex :=
  (records.foldl pushSettlement empty).index

theorem exact_indexOf (records : List SettlementRecord) :
    (indexOf records).Exact (records.map (·.trade.id)) := by
  have hexact := (records.foldl pushSettlement empty).index_exact
  rwa [(foldl_pushSettlement empty records).1] at hexact

/-- The store with other settlement records, and with their index. -/
def withSettlements (s : Store) (records : List SettlementRecord) : Store :=
  { s with
    settlements := records
    index := indexOf records
    index_exact := exact_indexOf records }

@[simp] theorem settlements_withSettlements (s : Store) (records : List SettlementRecord) :
    (s.withSettlements records).settlements = records := rfl

/-- The store with another record at a place. -/
def setSettlement (s : Store) (place : ℕ) (r : SettlementRecord) : Store :=
  s.withSettlements (s.settlements.set place r)

theorem withSettlements_self (s : Store) : s.withSettlements s.settlements = s :=
  eq_of_parts rfl rfl rfl rfl

theorem updateSettlement_eq {f : SettlementRecord → SettlementRecord}
    (hf : ∀ r, (f r).trade = r.trade) (h : s.settlements[place]? = some r) :
    s.updateSettlement place f hf = s.setSettlement place (f r) := by
  refine eq_of_parts rfl rfl ?_ rfl
  show s.settlements.modify place f = s.settlements.set place (f r)
  rw [List.modify_eq_set_getElem?, h]
  rfl

/-- A record that is not in the queue stays as it is. -/
theorem setSettlement_claimed (h : s.settlements[place]? = some r) (hclaim : r.claim? now = none) :
    s.setSettlement place (r.claimed now) = s := by
  obtain ⟨hlt, hget⟩ := List.getElem?_eq_some_iff.1 h
  rw [setSettlement, SettlementRecord.claimed, hclaim, Option.getD_none, ← hget,
    List.set_getElem_self, withSettlements_self]

theorem claimPending_eq (s : Store) (limit : UInt64) (now : Instant) :
    s.claimPending limit now = ((claimFirst now limit.toNat s.settlements).1,
      s.withSettlements (claimFirst now limit.toNat s.settlements).2) :=
  Prod.ext rfl (eq_of_parts rfl rfl rfl rfl)

/-! ### Stores of snapshots -/

/-- A store is built up from the orders, the trades and the released records of a snapshot. -/
theorem parts_ofSnapshot (w : Snapshot) :
    (ofSnapshot w).settlements = w.settlements.map SettlementRecord.releaseClaim ∧
      (ofSnapshot w).orders = OrderTable.ofList w.orders ∧
      (ofSnapshot w).trades = w.trades ∧ (ofSnapshot w).nextSequence = w.nextSequence := by
  unfold ofSnapshot
  rw [← List.foldl_map]
  exact foldl_pushSettlement _ _

@[simp] theorem settlements_ofSnapshot (w : Snapshot) :
    (ofSnapshot w).settlements = w.settlements.map SettlementRecord.releaseClaim :=
  (parts_ofSnapshot w).1

@[simp] theorem orders_ofSnapshot (w : Snapshot) :
    (ofSnapshot w).orders = OrderTable.ofList w.orders :=
  (parts_ofSnapshot w).2.1

@[simp] theorem trades_ofSnapshot (w : Snapshot) : (ofSnapshot w).trades = w.trades :=
  (parts_ofSnapshot w).2.2.1

@[simp] theorem nextSequence_ofSnapshot (w : Snapshot) :
    (ofSnapshot w).nextSequence = w.nextSequence :=
  (parts_ofSnapshot w).2.2.2

end Store

end Bourse
