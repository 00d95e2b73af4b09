import Bourse.Proofs.Matching.Runs
import Bourse.Proofs.Service
import Bourse.Proofs.Settlement.Calls
import Bourse.Proofs.SideBySide

/-!
# Who inserts orders

Of all that the exchange is asked to do, only placing an order inserts one. Passes, settlements,
confirmations and cancellations make other calls only, whatever they are answered.
-/

namespace Bourse

/-- A call that inserts no order. -/
def Call.InsertsNone : Call → Prop
  | .store (.insertOrder _) => False
  | _ => True

theorem Call.OfSettler.insertsNone {c : Call} (h : c.OfSettler) : c.InsertsNone := by
  unfold InsertsNone
  split
  · exact h
  · trivial

namespace Engine

theorem only_sideOf (market : Market) (side : Side) :
    (sideOf market side).Only Call.InsertsNone := by
  have hread : (Task.store (.restingOrders market side)).Only Call.InsertsNone := .store trivial
  exact hread.bind fun _ => .pure

theorem only_bestCandidate (e : Engine) (market : Market) :
    (e.bestCandidate market).Only Call.InsertsNone := by
  refine (only_sideOf market .buy).bind fun buys => ?_
  split
  · exact .pure
  · exact (only_sideOf market .sell).bind fun _ => .pure

theorem only_execute (e : Engine) (c : MatchCandidate) : (e.execute c).Only Call.InsertsNone := by
  have hcommit :
      (Task.store (.commitMatch c.makerOrderId c.takerOrderId c.quantity e.fees)).Only
        Call.InsertsNone := .store trivial
  refine hcommit.bind fun outcome => ?_
  cases outcome with
  | executed trade =>
    have hsettle : (e.settler.settle trade.id).Only Call.InsertsNone :=
      (e.settler.only_settle trade.id).mono fun _ h => h.insertsNone
    exact hsettle.attempt.bind fun _ => .pure
  | conflict cause => exact .pure

theorem only_marketWork (e : Engine) (market : Market) :
    (e.marketWork market).Only Call.InsertsNone := by
  refine Work.only_of_wp (wp_marketWork (P := fun _ => True) (C := fun _ _ => True)
    (fun c s _ _ => ?_) (fun s _ => ?_) trivial)
  · exact Task.wp_mono ((e.only_execute c).keeps s trivial) fun _ _ _ => trivial
  · exact Task.wp_mono ((e.only_bestCandidate market).keeps s trivial) fun _ _ _ =>
      ⟨trivial, fun _ _ _ _ => trivial⟩

theorem only_runPass (e : Engine) (turns : List ℕ) :
    (e.runPass turns).Only Call.InsertsNone := by
  have hread : (Task.store .activeMarkets).Only Call.InsertsNone := .store trivial
  refine hread.bind fun markets => (Task.Only.ofSure ?_).bind fun _ => .pure
  refine Work.only_sideBySide turns fun w hw => ?_
  obtain ⟨market, -, rfl⟩ := List.mem_map.1 hw
  exact e.only_marketWork market

end Engine

namespace Service

theorem only_findOrder (id : OrderId) : (findOrder id).Only Call.InsertsNone := by
  have hread : (Task.store (.getOrder id)).Only Call.InsertsNone := .store trivial
  exact hread.mapError

theorem only_confirmIfPending (id : OrderId) : (confirmIfPending id).Only Call.InsertsNone := by
  have hconfirm : (Task.store (.transitionOrder id .confirm)).Only Call.InsertsNone :=
    .store trivial
  exact Task.only_of_keeps (keeps_confirmIfPending (only_findOrder id).keeps hconfirm.keeps)

theorem only_releaseReserve (o : Order) : (releaseReserve o).Only Call.InsertsNone := by
  unfold releaseReserve
  split
  · exact .pure
  · cases o.reserveFor o.remaining with
    | ok reserve =>
      have hunlock : (Task.ledger (.unlock o.userId reserve.asset reserve.amount)).Only
          Call.InsertsNone := .ledger trivial
      exact hunlock.attempt.bind fun _ => .pure
    | error e => exact .pure

theorem only_cancelOrder (id : OrderId) (user : UserId) (reason : String) :
    (cancelOrder id user reason).Only Call.InsertsNone := by
  have hget : (getOrder id).Only Call.InsertsNone := by
    refine (only_findOrder id).bind fun found => ?_
    cases found with
    | some o => exact .pure
    | none => exact .throw
  have hcancel : (Task.store (.transitionOrder id (.cancel reason))).Only Call.InsertsNone :=
    .store trivial
  refine hget.bind fun o => ?_
  dsimp only
  split
  · exact .throw
  · split
    · exact hcancel.mapError.bind fun cancelled =>
        (only_releaseReserve cancelled).bind fun _ => .pure
    · exact .throw

theorem only_cancelEach (reason : String) (orders : List Order) :
    (cancelEach reason orders).Only Call.InsertsNone := by
  induction orders with
  | nil => exact .pure
  | cons o rest ih =>
    have hcancel : (Task.store (.transitionOrder o.id (.cancel reason))).Only Call.InsertsNone :=
      .store trivial
    refine hcancel.attempt.bind fun result => ?_
    match result with
    | .ok cancelled =>
      exact (only_releaseReserve cancelled).bind fun _ => ih.bind fun _ => .pure
    | .error (.order _) => exact ih
    | .error (.orderNotFound _) => exact .throw
    | .error (.duplicateOrder _) => exact .throw
    | .error (.settlementNotFound _) => exact .throw
    | .error (.unavailable _) => exact .throw

theorem only_cancelAll (user : UserId) (reason : String) :
    (cancelAll user reason).Only Call.InsertsNone := by
  have hread : (Task.store (.cancellableOrders user)).Only Call.InsertsNone := .store trivial
  exact hread.mapError.bind fun orders => only_cancelEach reason orders

end Service

end Bourse
