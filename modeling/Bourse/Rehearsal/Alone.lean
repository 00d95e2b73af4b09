import Bourse.Rehearsal.Steps

/-!
# Working alone

Who works alone is served at once, and has all the turns. Time passes only while a call stalls.
-/

namespace Bourse.Rehearsal

variable {α : Type}

/-- Waits for a need of work that is done alone. -/
def await : Need → Rehearsal → Waking × Rehearsal
  | .turn, r => (.met none, r)
  | .desk _ _, r => (.met none, r)
  | .stall ms limit, r =>
    if ms = 0 then (.met none, r)
    else
      let sleep := Sleep.start r.elapsed ms limit
      ((sleep.waking? sleep.next).getD (.met none), { r with elapsed := sleep.next })

/-- Does the steps of a piece of work, one after the other. -/
def runSteps (stamps : Nat → Stamp) : Steps α → Rehearsal → α × Rehearsal
  | .done a, r => (a, r)
  | .make c next, r =>
    let (struck, r) := r.make c
    runSteps stamps (next struck) r
  | .await n next, r =>
    let (waking, r) := r.await n
    runSteps stamps (next waking) r
  | .answer struck c next, r =>
    let (reply, r) := r.answer stamps struck c
    runSteps stamps (next reply) r

/-- Does a task with nothing else under way. -/
def run {ε : Type} (stamps : Nat → Stamp) (limit : Option Nat) (t : Task ε α) (r : Rehearsal) :
    Outcome ε α × Rehearsal :=
  runSteps stamps (Steps.ofWork limit t.work) r

end Bourse.Rehearsal
