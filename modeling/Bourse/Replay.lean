import Bourse.Service

/-!
# Replays

A list of requests is handed to the service one by one. Requests that are refused are counted, and
a failure of the store ends the replay.
-/

namespace Bourse

/-- The totals of a replay. -/
structure ReplaySummary where
  accepted : Nat
  rejected : Nat
  trades : Nat
  deriving DecidableEq

/-- Places one order and counts it. -/
def replayOne (e : Engine) (request : NewOrder) (summary : ReplaySummary) :
    Task ServiceError ReplaySummary := do
  match ← (Service.createOrder e request).attempt with
  | .ok placement =>
    return { summary with
      accepted := summary.accepted + 1
      trades := summary.trades + placement.trades.length }
  | .error (.store cause) => throw (.store cause)
  | .error _ => return { summary with rejected := summary.rejected + 1 }

/-- Places the orders of a list of requests. -/
def replay (e : Engine) : List NewOrder → ReplaySummary → Task ServiceError ReplaySummary
  | [], summary => return summary
  | request :: rest, summary => do replay e rest (← replayOne e request summary)

end Bourse
