import Bourse.Call

/-!
# Faults

How the exchange behaves when calls fail can be tried out with planned faults. A fault is meant for
a kind of call. It may let some calls pass before it strikes, and strikes a number of times.
-/

namespace Bourse

/-- The kinds of calls that faults can be planned for. -/
inductive CallKind where
  | validateBalance
  | lockBalance
  | unlockBalance
  | settleTrade
  | insertOrder
  | getOrder
  | transitionOrder
  | activeMarkets
  | restingOrders
  | commitMatch
  | ordersForUser
  | cancellableOrders
  | tradesForUser
  | claimSettlement
  | claimPending
  | recordAttempt
  | releaseClaim
  deriving DecidableEq

namespace CallKind

/-- The kinds with the names by which a plan calls them. -/
def names : List (String × CallKind) :=
  [ ("ledger.validate_balance", .validateBalance),
    ("ledger.lock_balance", .lockBalance),
    ("ledger.unlock_balance", .unlockBalance),
    ("ledger.settle_trade", .settleTrade),
    ("store.insert_order", .insertOrder),
    ("store.get_order", .getOrder),
    ("store.transition_order", .transitionOrder),
    ("store.active_markets", .activeMarkets),
    ("store.resting_orders", .restingOrders),
    ("store.commit_match", .commitMatch),
    ("store.orders_for_user", .ordersForUser),
    ("store.cancellable_orders_for_user", .cancellableOrders),
    ("store.trades_for_user", .tradesForUser),
    ("store.claim_settlement", .claimSettlement),
    ("store.claim_pending_settlements", .claimPending),
    ("store.record_settlement_attempt", .recordAttempt),
    ("store.release_settlement_claim", .releaseClaim) ]

end CallKind

/-- The kind of a call, if faults can be planned for it. -/
def StoreCall.kind? : StoreCall → Option CallKind
  | .insertOrder _ => some .insertOrder
  | .getOrder _ => some .getOrder
  | .transitionOrder _ _ => some .transitionOrder
  | .activeMarkets => some .activeMarkets
  | .restingOrders _ _ => some .restingOrders
  | .commitMatch _ _ _ _ => some .commitMatch
  | .ordersForUser _ _ => some .ordersForUser
  | .cancellableOrders _ => some .cancellableOrders
  | .tradesForUser _ _ => some .tradesForUser
  | .tradesForOrder _ => none
  | .countOrders _ => none
  | .getSettlement _ => none
  | .claimSettlement _ => some .claimSettlement
  | .claimPending _ => some .claimPending
  | .recordAttempt _ _ _ => some .recordAttempt
  | .releaseClaim _ => some .releaseClaim

def LedgerCall.kind : LedgerCall → CallKind
  | .validate _ _ _ => .validateBalance
  | .lock _ _ _ => .lockBalance
  | .unlock _ _ _ => .unlockBalance
  | .settle _ _ => .settleTrade

/-- The kind of a step, if faults can be planned for it. -/
def Call.kind? : Call → Option CallKind
  | .stamp => none
  | .store c => c.kind?
  | .ledger c => some c.kind

/-- The order that an error about a call names. -/
def StoreCall.namedOrder : StoreCall → OrderId
  | .getOrder id => id
  | .transitionOrder id _ => id
  | _ => ⟨Uuid.nil⟩

/-- What a fault does to a call. -/
inductive FaultKind where
  | rejected
  | unavailable
  /-- The call is reported as given up. -/
  | timedOut
  /-- The call takes its time. -/
  | stall
  /-- A match is refused. -/
  | conflict
  | orderNotFound
  | duplicateOrder
  /-- The order is said to refuse the step. -/
  | order

/-- A planned fault. -/
structure Fault where
  on : Option CallKind
  kind : FaultKind
  message : String
  /-- The milliseconds after which a call is reported as given up, or for which it stalls. -/
  ms : Nat
  /-- How many calls pass before the fault strikes. -/
  skip : Nat
  /-- How often the fault strikes. -/
  times : Nat
  /-- Whether the call is carried out before it is reported as failed. -/
  after : Bool

namespace Fault

/-- How a fault makes a ledger call fail. A fault of a kind that no ledger call can fail with makes
the call stall instead. -/
def ledgerError? (f : Fault) : Option LedgerError :=
  match f.kind with
  | .rejected => some (.rejected (.other f.message))
  | .unavailable => some (.unavailable f.message)
  | .timedOut => some (.timedOut f.ms)
  | _ => none

/-- The fault of a call that is given up at a time limit. -/
def givenUp (f : Fault) (limit : Nat) : Fault :=
  { f with kind := .timedOut, ms := limit, after := false }

/-- How a fault makes a store call fail. -/
def storeError (f : Fault) (named : OrderId) : StoreError :=
  match f.kind with
  | .orderNotFound => .orderNotFound named
  | .duplicateOrder => .duplicateOrder named
  | .order => .order (.invalidArgument (.other f.message))
  | _ => .unavailable f.message

/-- What a fault makes of a store call. -/
def storeOutcome (f : Fault) : (c : StoreCall) → Outcome StoreError c.Answer
  | .commitMatch _ _ _ _ =>
    match f.kind with
    | .conflict => .ok (.ok (.conflict (.invalidPair (.other f.message))))
    | _ => .ok (.error (.unavailable f.message))
  | c => .ok (.error (f.storeError c.namedOrder))

/-- The fault that strikes a call of a kind, and the plan after the call. Only the first fault for
the kind that is not used up counts. -/
def strike (kind : CallKind) : List Fault → Option Fault × List Fault
  | [] => (none, [])
  | f :: rest =>
    if f.on = some kind ∧ 0 < f.times then
      if 0 < f.skip then (none, { f with skip := f.skip - 1 } :: rest)
      else (some f, { f with times := f.times - 1 } :: rest)
    else
      let (struck, rest) := strike kind rest
      (struck, f :: rest)

end Fault

end Bourse
