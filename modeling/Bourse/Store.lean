import Bourse.Book
import Bourse.Page
import Bourse.Settlement

/-!
# The store

The store holds the orders, the trades in the order of their matches, and a settlement record for
each trade in the same order. Orders are found by their names, which are distinct; each new order
gets the next number of insertion. A settlement record is found by its trade, with an index of the
places of the records. The index is kept up to date by every operation: a new record is entered in
it, and a record that changes stays at its place and stays the record of its trade. Should two
records have one trade, the later one is meant.

A match fills both orders, appends the trade and appends its settlement record. A store can be
taken down to a snapshot and built up again from one. A snapshot has no index, so the index is built
up with the records, one after the other. Records that a worker held at that time go back to the
queue.
-/

namespace Bourse

/-- Orders with distinct names. -/
structure OrderTable where
  /-- The orders, in no order that counts. -/
  entries : List Order
  /-- No two orders have one name. -/
  ids_nodup : (entries.map Order.id).Nodup

namespace OrderTable

/-- No orders. -/
def empty : OrderTable := ⟨[], List.nodup_nil⟩

/-- The order with a name. -/
def find? (t : OrderTable) (id : OrderId) : Option Order :=
  t.entries.find? (·.id = id)

/-- A list of orders after one of them is put in the place of the one with its name, or at the end
if there is none. -/
def putEntry (o : Order) : List Order → List Order
  | [] => [o]
  | p :: rest => if p.id = o.id then o :: rest else p :: putEntry o rest

/-- The names after an order is put: the new one comes last, unless it was there before. -/
theorem map_id_putEntry (o : Order) (l : List Order) :
    (putEntry o l).map Order.id =
      if o.id ∈ l.map Order.id then l.map Order.id else l.map Order.id ++ [o.id] := by
  induction l with
  | nil => simp [putEntry]
  | cons p rest ih =>
    by_cases h : p.id = o.id
    · simp [putEntry, h]
    · have h' : ¬ o.id = p.id := fun e => h e.symm
      by_cases hm : o.id ∈ rest.map Order.id <;> simp_all [putEntry]

theorem nodup_putEntry (o : Order) {l : List Order} (h : (l.map Order.id).Nodup) :
    ((putEntry o l).map Order.id).Nodup := by
  rw [map_id_putEntry]
  split
  · exact h
  · rename_i hm
    rw [List.nodup_append]
    refine ⟨h, by simp, ?_⟩
    intro a ha b hb
    simp only [List.mem_singleton] at hb
    rintro rfl
    exact hm (hb ▸ ha)

/-- Puts an order in the place of the one with its name, or at the end if there is none. -/
def put (t : OrderTable) (o : Order) : OrderTable :=
  ⟨putEntry o t.entries, nodup_putEntry o t.ids_nodup⟩

theorem find?_putEntry (o : Order) (l : List Order) (id : OrderId) :
    (putEntry o l).find? (·.id = id) = if o.id = id then some o else l.find? (·.id = id) := by
  induction l with
  | nil => by_cases h : o.id = id <;> simp [putEntry, h]
  | cons p rest ih =>
    by_cases hp : p.id = o.id
    · by_cases h : o.id = id <;> simp [putEntry, hp, h]
    · by_cases h : o.id = id
      · have hpid : p.id ≠ id := fun e => hp (e.trans h.symm)
        simp_all [putEntry]
      · by_cases hpid : p.id = id <;> simp_all [putEntry]

/-- An order that is put is found under its name, and every other order is found as before. -/
theorem find?_put (t : OrderTable) (o : Order) (id : OrderId) :
    (t.put o).find? id = if o.id = id then some o else t.find? id :=
  find?_putEntry o t.entries id

/-- The table of a list of orders. The last one of each name counts. -/
def ofList (orders : List Order) : OrderTable :=
  orders.foldl put empty

end OrderTable

/-- Why the store does not do what it is asked. -/
inductive StoreError where
  /-- There is no order of that name. -/
  | orderNotFound (id : OrderId)
  /-- There is an order of that name already. -/
  | duplicateOrder (id : OrderId)
  /-- The trade has no settlement record. -/
  | settlementNotFound (id : TradeId)
  /-- The order itself refuses the step. -/
  | order (cause : OrderError)
  /-- The store cannot be reached. -/
  | unavailable (reason : String)
  deriving DecidableEq

def StoreError.message : StoreError → String
  | .orderNotFound id => "order " ++ id.toText ++ " not found"
  | .duplicateOrder id => "order " ++ id.toText ++ " already exists"
  | .settlementNotFound id => "settlement for trade " ++ id.toText ++ " not found"
  | .order cause => cause.message
  | .unavailable reason => "storage unavailable: " ++ reason

/-- Everything that a store holds, in the form in which it is written down. -/
structure Snapshot where
  /-- The orders. -/
  orders : List Order
  /-- The trades, the earliest first. -/
  trades : List Trade
  /-- The settlement records, the earliest first. -/
  settlements : List SettlementRecord
  /-- The number of insertion given last. -/
  nextSequence : UInt64

/-! ### The index of settlement records -/

/-- The last place of a name in a list of names. -/
def lastPlace? (id : TradeId) : List TradeId → Option Nat
  | [] => none
  | name :: names =>
    match lastPlace? id names with
    | some place => some (place + 1)
    | none => if name = id then some 0 else none

/-- A name that comes last has its last place there, and other names have theirs as before. -/
theorem lastPlace?_append_singleton (id name : TradeId) (names : List TradeId) :
    lastPlace? id (names ++ [name]) =
      if name = id then some names.length else lastPlace? id names := by
  induction names with
  | nil => rfl
  | cons first rest ih =>
    rw [List.cons_append, lastPlace?, ih]
    by_cases h : name = id
    · simp only [if_pos h, List.length_cons]
    · simp only [if_neg h, lastPlace?]

/-- An index of places. -/
abbrev TradeIndex := Std.ExtTreeMap TradeId Nat

namespace TradeIndex

/-- Each name is found in the index at its last place in the list, and no other name is found. -/
def Exact (index : TradeIndex) (names : List TradeId) : Prop :=
  ∀ id, index[id]? = lastPlace? id names

theorem Exact.empty : Exact ∅ [] := fun _ => Std.ExtTreeMap.getElem?_empty

/-- To enter a name with the length of the list keeps the index exact for the list with this name at
its end. -/
theorem Exact.insert {index : TradeIndex} {names : List TradeId} (h : index.Exact names)
    (name : TradeId) :
    Exact (Std.ExtTreeMap.insert index name names.length) (names ++ [name]) := by
  intro id
  rw [lastPlace?_append_singleton, ← h id, Std.ExtTreeMap.getElem?_insert]
  simp only [Std.compare_eq_iff_eq]

/-- A list has one exact index. -/
theorem Exact.unique {index index' : TradeIndex} {names : List TradeId} (h : index.Exact names)
    (h' : index'.Exact names) : index = index' :=
  Std.ExtTreeMap.ext_getElem? fun id => (h id).trans (h' id).symm

end TradeIndex

/-- The orders, trades and settlement records of the exchange. -/
structure Store where
  /-- The orders, each under its name. -/
  orders : OrderTable
  /-- The trades, the earliest first. -/
  trades : List Trade
  /-- The settlement records, the earliest first. -/
  settlements : List SettlementRecord
  /-- Where the settlement record of each trade is. -/
  index : TradeIndex
  /-- The number of insertion given last. -/
  nextSequence : UInt64
  /-- The index has the last record of each trade, and no other trade. -/
  index_exact : index.Exact (settlements.map (·.trade.id))

namespace Store

/-- Records of the same trades have the same names in the index. -/
theorem map_id_of_map_trade {l l' : List SettlementRecord}
    (h : l'.map (·.trade) = l.map (·.trade)) :
    l.map (·.trade.id) = l'.map (·.trade.id) := by
  have hid := congrArg (List.map Trade.id) h
  rw [List.map_map, List.map_map] at hid
  exact hid.symm

theorem map_id_modify {f : SettlementRecord → SettlementRecord} (hf : ∀ r, (f r).trade = r.trade)
    (l : List SettlementRecord) (place : Nat) :
    l.map (·.trade.id) = (l.modify place f).map (·.trade.id) := by
  refine map_id_of_map_trade (List.ext_getElem? fun i => ?_)
  rw [List.getElem?_map, List.getElem?_map, List.getElem?_modify]
  cases l[i]? with
  | none => rfl
  | some r => by_cases h : place = i <;> simp [h, hf]

/-- A store in which nothing is kept. -/
def empty : Store where
  orders := OrderTable.empty
  trades := []
  settlements := []
  index := ∅
  nextSequence := 0
  index_exact := .empty

/-! ### Orders -/

/-- Adds a new order and gives it the next number of insertion. -/
def insertOrder (s : Store) (o : Order) : Except StoreError (Order × Store) :=
  match s.orders.find? o.id with
  | some _ => .error (.duplicateOrder o.id)
  | none =>
    let sequence := s.nextSequence + 1
    let o := { o with sequence }
    .ok (o, { s with orders := s.orders.put o, nextSequence := sequence })

/-- Applies a step to an order, if the order allows it. -/
def transitionOrder (s : Store) (id : OrderId) (t : Transition) (now : Instant) :
    Except StoreError (Order × Store) :=
  match s.orders.find? id with
  | none => .error (.orderNotFound id)
  | some o =>
    match t.apply o now with
    | .error e => .error (.order e)
    | .ok o => .ok (o, { s with orders := s.orders.put o })

/-- The orders of one side of a market that have something left to trade. -/
def restingOrders (s : Store) (market : Market) (side : Side) : List Order :=
  s.orders.entries.filter fun o => o.isResting && o.side = side && o.market = market

/-- The markets with resting orders, each once, in ascending order. -/
def activeMarkets (s : Store) : List Market :=
  Market.sort ((s.orders.entries.filter Order.isResting).map Order.market).eraseDups

/-- A user's orders, the latest first. -/
def ordersOf (s : Store) (user : UserId) : List Order :=
  (s.orders.entries.filter fun o => o.userId = user).mergeSort fun a b => Order.timeLe b a

/-- A user's orders that can be cancelled, the earliest first. -/
def cancellableOrders (s : Store) (user : UserId) : List Order :=
  (s.orders.entries.filter fun o => o.userId = user && o.status.isCancellable).mergeSort
    Order.timeLe

/-- How many orders there are, or how many of one status. -/
def countOrders (s : Store) (status : Option OrderStatus) : Nat :=
  match status with
  | none => s.orders.entries.length
  | some status => s.orders.entries.countP fun o => o.status = status

/-! ### Trades -/

/-- The trades in which a user buys or sells, the latest first. -/
def tradesOf (s : Store) (user : UserId) : List Trade :=
  s.trades.reverse.filter fun t => t.involves user

/-- The trades of an order, the earliest first. -/
def tradesOfOrder (s : Store) (id : OrderId) : List Trade :=
  s.trades.filter fun t => t.involvesOrder id

/-- The limit of the buyer in a pair. -/
def buyLimit (maker taker : Order) : Decimal :=
  match maker.side with
  | .buy => maker.price
  | .sell => taker.price

/-- The outcome of an attempt that changes nothing. -/
def conflict (s : Store) (cause : MatchConflict) : Checked MatchOutcome × Store :=
  (.ok (.conflict cause), s)

/-- The store after the orders of a match are filled and its trade is recorded. -/
def record (s : Store) (m : Match) : Store :=
  { s with orders := (s.orders.put m.maker).put m.taker, trades := s.trades ++ [m.trade] }

/-- Adds a settlement record and enters it in the index. -/
def pushSettlement (s : Store) (r : SettlementRecord) : Store :=
  { s with
    settlements := s.settlements ++ [r]
    index := s.index.insert r.trade.id s.settlements.length
    index_exact := by
      have h := s.index_exact.insert r.trade.id
      rw [List.length_map] at h
      rw [List.map_append]
      exact h }

/-- Matches two orders. If the release of the buyer's reserve overflows, the match stands without a
settlement record. -/
def commitMatch (s : Store) (stamp : Stamp) (makerId takerId : OrderId) (quantity : Decimal)
    (fees : FeeSchedule) : Checked MatchOutcome × Store :=
  if makerId = takerId then s.conflict (.invalidPair .oneOrder)
  else
    match s.orders.find? makerId, s.orders.find? takerId with
    | none, _ => s.conflict (.orderMissing makerId)
    | some _, none => s.conflict (.orderMissing takerId)
    | some maker, some taker =>
      match (Match.execute stamp maker taker quantity fees).run with
      | .error e => (.error e, s)
      | .ok (.error cause) => s.conflict cause
      | .ok (.ok m) =>
        match SettlementRecord.create stamp.time m.trade (buyLimit m.maker m.taker) with
        | .error e => (.error e, s.record m)
        | .ok r => (.ok (.executed m.trade), (s.record m).pushSettlement r)

/-! ### Settlements -/

/-- The place of the record of a trade, as the index has it. -/
def settlementPlace? (s : Store) (id : TradeId) : Option Nat :=
  s.index[id]?

/-- The settlement record of a trade. -/
def settlement? (s : Store) (id : TradeId) : Option SettlementRecord :=
  (s.settlementPlace? id).bind (s.settlements[·]?)

/-- The record of a trade with its place, or an error. -/
def requireSettlement (s : Store) (id : TradeId) : Except StoreError (Nat × SettlementRecord) :=
  match s.settlementPlace? id with
  | none => .error (.settlementNotFound id)
  | some place =>
    match s.settlements[place]? with
    | none => .error (.settlementNotFound id)
    | some r => .ok (place, r)

/-- Changes the record at a place. It stays the record of its trade, so the index stays. -/
def updateSettlement (s : Store) (place : Nat) (f : SettlementRecord → SettlementRecord)
    (hf : ∀ r, (f r).trade = r.trade) : Store :=
  { s with
    settlements := s.settlements.modify place f
    index_exact := map_id_modify hf s.settlements place ▸ s.index_exact }

/-- Claims the record of a trade, if it is in the queue. -/
def claimSettlement (s : Store) (id : TradeId) (now : Instant) :
    Except StoreError (Option SettlementRecord × Store) := do
  let (place, r) ← s.requireSettlement id
  return (r.claim? now, s.updateSettlement place (·.claimed now) fun r => r.trade_claimed now)

/-- Claims the first `limit` records in the queue. The first list holds the claimed records, the
second one all of them. -/
def claimFirst (now : Instant) :
    Nat → List SettlementRecord → List SettlementRecord × List SettlementRecord
  | _, [] => ([], [])
  | 0, records => ([], records)
  | limit + 1, r :: rest =>
    match r.claim? now with
    | some r =>
      let (claimed, rest) := claimFirst now limit rest
      (r :: claimed, r :: rest)
    | none =>
      let (claimed, rest) := claimFirst now (limit + 1) rest
      (claimed, r :: rest)

theorem map_trade_claimFirst (now : Instant) (limit : Nat) (records : List SettlementRecord) :
    (claimFirst now limit records).2.map (·.trade) = records.map (·.trade) := by
  induction records generalizing limit with
  | nil => cases limit <;> rfl
  | cons r rest ih =>
    cases limit with
    | zero => rfl
    | succ limit =>
      unfold claimFirst
      cases h : r.claim? now with
      | some r' => simp only [List.map_cons, ih, SettlementRecord.trade_of_claim? h]
      | none => simp only [List.map_cons, ih]

/-- Claims the first `limit` records in the queue. -/
def claimPending (s : Store) (limit : UInt64) (now : Instant) : List SettlementRecord × Store :=
  let claims := claimFirst now limit.toNat s.settlements
  (claims.1, { s with
    settlements := claims.2
    index_exact := map_id_of_map_trade (map_trade_claimFirst now limit.toNat s.settlements) ▸
      s.index_exact })

/-- Records how an attempt to settle a trade ended. -/
def recordAttempt (s : Store) (id : TradeId) (failure : Option String) (maxAttempts : UInt32)
    (now : Instant) : Except StoreError (SettlementRecord × Store) := do
  let (place, r) ← s.requireSettlement id
  return (r.recordAttempt failure maxAttempts now,
    s.updateSettlement place (·.recordAttempt failure maxAttempts now) fun r =>
      r.trade_recordAttempt failure maxAttempts now)

/-- Returns a claimed record to the queue. -/
def releaseClaim (s : Store) (id : TradeId) : Except StoreError Store := do
  let (place, _) ← s.requireSettlement id
  return s.updateSettlement place SettlementRecord.releaseClaim SettlementRecord.trade_releaseClaim

/-! ### Snapshots -/

/-- Whether `a` was inserted before `b` or together with it. -/
def insertedLe (a b : Order) : Bool :=
  a.sequence ≤ b.sequence

/-- Everything in the store, the orders in the order of insertion. -/
def snapshot (s : Store) : Snapshot where
  orders := s.orders.entries.mergeSort insertedLe
  trades := s.trades
  settlements := s.settlements
  nextSequence := s.nextSequence

/-- The store of a snapshot. The index is built up with the records, which no worker holds. -/
def ofSnapshot (s : Snapshot) : Store :=
  s.settlements.foldl (fun t r => t.pushSettlement r.releaseClaim)
    { empty with
      orders := OrderTable.ofList s.orders
      trades := s.trades
      nextSequence := s.nextSequence }

end Store

end Bourse
