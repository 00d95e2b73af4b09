import Bourse.Proofs.Matching.Candidates
import Bourse.Proofs.Matching.Runs
import Bourse.Proofs.Reserve.Settling

/-!
# Matching keeps the balance

Pairs are chosen from stored orders, so the quantity of a match has as few digits as theirs. A match
is recorded, and the settlement of its trade then succeeds. Between the two, the other markets of a
pass make their calls. That does not matter, since each market has a duty of its own.
-/

namespace Bourse.Setting

variable {w : Setting} {x : Exchange} {e : Engine} {ε : Type}

theorem runs_sideOf (w : Setting) (market : Market) (side : Side) :
    w.Runs (Engine.sideOf market side) fun orders => ∀ o ∈ orders, o.Funded w.precision := by
  have hread : w.Runs (Task.store (.restingOrders market side))
      fun orders : List Order => ∀ o ∈ orders, o.Funded w.precision := by
    refine fun k hk => Task.wp_store.2 fun _ => ⟨.restingOrders market side k, ?_⟩
    rintro reply k' ⟨rfl, horders⟩
    exact ⟨hk, horders⟩
  refine hread.bind fun orders horders => .pure fun o ho => horders o ?_
  rw [sortByPriority, List.mem_mergeSort] at ho
  exact (List.mem_filter.1 ho).1

/-- The quantity of a candidate has the digits of an amount. -/
def Measured (w : Setting) (c : MatchCandidate) : Prop :=
  HasDigits w.precision.amount c.quantity.toRat

theorem measured_between {buy sell : Order} (hbuy : buy.Funded w.precision)
    (hsell : sell.Funded w.precision) : w.Measured (.between buy sell) := by
  show HasDigits _ (buy.remaining.min sell.remaining).toRat
  rw [Decimal.toRat_min]
  rcases min_choice buy.remaining.toRat sell.remaining.toRat with h | h <;> rw [h]
  · exact hbuy.measured.remaining_digits
  · exact hsell.measured.remaining_digits

theorem runs_bestCandidate (w : Setting) (e : Engine) (market : Market) :
    w.Runs (e.bestCandidate market) fun found => ∀ c, found = some c → w.Measured c := by
  refine Task.Keeps.bind (runs_sideOf w market .buy) fun buys hbuys => ?_
  split
  · exact Task.Keeps.pure fun c hc => (by cases hc)
  · refine Task.Keeps.bind (runs_sideOf w market .sell) fun sells hsells => ?_
    refine Task.Keeps.pure fun c hc => ?_
    obtain ⟨buy, hbuy, sell, hsell, -, rfl⟩ := bestMatch_eq_some hc
    exact measured_between (hbuys buy hbuy) (hsells sell hsell)

theorem runs_incomingCandidate (w : Setting) (e : Engine) (id : OrderId) :
    w.Runs (e.incomingCandidate id) fun found => ∀ c, found = some c → w.Measured c := by
  have hread : w.Runs (Task.store (.getOrder id))
      fun found : Option Order => ∀ o, found = some o → o.Funded w.precision := by
    refine fun k hk => Task.wp_store.2 fun _ => ⟨.getOrder id k, ?_⟩
    rintro reply k' ⟨rfl, hfound⟩
    exact ⟨hk, fun found hreply o ho => hfound o (ho ▸ hreply)⟩
  refine hread.bind fun found hfound => ?_
  cases found with
  | none => exact Task.Keeps.pure fun c hc => (by cases hc)
  | some incoming =>
    dsimp only
    split
    · refine Task.Keeps.bind (runs_sideOf w _ _) fun opposite hopposite => ?_
      refine Task.Keeps.pure fun c hc => ?_
      obtain ⟨other, hother, -, rfl⟩ := counterparty_eq_some hc
      obtain ⟨hbuy, hsell⟩ := forall_asBuyAndSell (hfound incoming rfl) (hopposite other hother)
      exact measured_between hbuy hsell
    · exact Task.Keeps.pure fun c hc => (by cases hc)

/-- A match is recorded, and its trade is settled. -/
theorem runs_execute (hfees : e.fees.Within w.precision) {c : MatchCandidate}
    (hc : w.Measured c) : w.Runs (e.execute c) fun _ => True := by
  have hcommit : w.Runs (Task.store (.commitMatch c.makerOrderId c.takerOrderId c.quantity e.fees))
      fun _ => True := by
    refine fun k hk => Task.wp_store.2 fun _ => ⟨.commitMatch hfees hc, ?_⟩
    rintro reply k' rfl
    exact ⟨hk, fun _ _ => trivial⟩
  refine hcommit.bind fun outcome _ => ?_
  cases outcome with
  | executed trade => exact (runs_settle w e.settler trade.id).attempt.bind fun _ _ => .pure trivial
  | conflict cause => exact .pure trivial

theorem wp_execute (hfees : e.fees.Within w.precision) (c : MatchCandidate) (k : Duty)
    (hk : k.IsFree) (hc : w.Measured c) :
    (e.execute c).wp w.learns (fun _ _ => True) w.Proper (fun _ => Duty.IsFree) k :=
  Task.wp_mono (runs_execute hfees hc k hk) fun _ _ h => h.1

theorem runs_matchIncoming (hfees : e.fees.Within w.precision) (id : OrderId) :
    w.Runs (e.matchIncoming id) fun _ => True :=
  Engine.keeps_matchIncoming (wp_execute hfees) (runs_incomingCandidate w e id)

/-- A pass keeps the balance, whatever the turns of its markets are. -/
theorem keeps_runPass (hfees : e.fees.Within w.precision) (turns : List ℕ) :
    w.Keeps (e.runPass turns) fun _ => True := by
  refine fun x hx => Task.wp_bind.2 (wp_store.2 fun _ => ?_)
  refine Task.wp_mono (Engine.wp_matchMarkets (Q := Duty.IsFree) w.moves
    (.of_balanced hx.unchanged) rfl (wp_execute hfees) (fun market => runs_bestCandidate w e market)
    turns x.store.activeMarkets) ?_
  rintro r x' ⟨duties, hx', hfree⟩
  exact ⟨hx'.balanced hfree, fun _ _ => trivial⟩

end Bourse.Setting
