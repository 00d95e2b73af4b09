import Bourse.Rehearsal.Alone
import Bourse.Replay

/-!
# Replays at a pace

A replay may rest after every order, whether it was accepted or refused.
-/

namespace Bourse.Rehearsal

/-- Places the orders of a list of requests, and rests for so many milliseconds after each. -/
def replay (stamps : Nat → Stamp) (limit : Option Nat) (e : Engine) (rest : Nat) :
    List NewOrder → ReplaySummary → Rehearsal → Outcome ServiceError ReplaySummary × Rehearsal
  | [], summary, r => (.ok (.ok summary), r)
  | request :: requests, summary, r =>
    match r.run stamps limit (replayOne e request summary) with
    | (.ok (.ok summary), r) =>
      replay stamps limit e rest requests summary { r with elapsed := r.elapsed + rest }
    | (stopped, r) => (stopped, r)

end Bourse.Rehearsal
