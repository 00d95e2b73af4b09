import Bourse.Engine
import Bourse.Rehearsal.Alone
import Bourse.Rehearsal.Turns

/-!
# Passes in a rehearsal

The markets of a pass are matched side by side: while the settlement of one market's trade stalls,
the others go on. The pass ends when the last of them is done.

A pass may be started while another is under way, and ticks may come at regular intervals. Such a
pass is a piece of work among the others: who runs it takes turns with the markets, and begins with
the first turn of a round.
-/

namespace Bourse.Rehearsal

variable (stamps : Nat → Stamp) (limit : Option Nat)

/-- Matches every market with resting orders. If the pass is run by an overseer, so many turns were
given in the round before and are given after it. -/
def overseePass (e : Engine) (overseer : Option Nat) (r : Rehearsal) :
    (Outcome StoreError PassSummary × Option Nat) × Rehearsal :=
  let found : Outcome StoreError (List Market) × Rehearsal :=
    r.run stamps limit (Task.store .activeMarkets)
  match found with
  | (.ok (.ok markets), r) =>
    let ((runs, overseer), r) :=
      r.runTogether stamps limit overseer (markets.map e.marketWork)
    ((.ok (.ok (runs.foldl PassSummary.count ⟨markets.length, 0, 0⟩)), overseer), r)
  | (.ok (.error e), r) => ((.ok (.error e), overseer), r)
  | (.error overflow, r) => ((.error overflow, overseer), r)

/-- A pass that is run from outside, by no overseer. -/
def runPass (e : Engine) (r : Rehearsal) : Outcome StoreError PassSummary × Rehearsal :=
  let ((pass, _), r) := r.overseePass stamps limit e none
  (pass, r)

/-- A pass that starts one millisecond after another one, and only if that one is done by then. -/
def overlap (e : Engine) (r : Rehearsal) :
    (Outcome StoreError PassSummary × Option (Outcome StoreError PassSummary)) × Rehearsal :=
  let start := r.elapsed
  let ((first, _), r) := r.overseePass stamps limit e (some 1)
  if start < r.elapsed then ((first, none), r)
  else
    let (second, r) := { r with elapsed := start + 1 }.runPass stamps limit e
    ((first, some second), r)

/-- A pass, and then a round of settlements. Neither depends on the other's success. The tick is run
by an overseer. -/
def tick (e : Engine) (overseer : Nat) (r : Rehearsal) : Checked Nat × Rehearsal :=
  match r.overseePass stamps limit e (some overseer) with
  | ((.error overflow, _), r) => (.error overflow, r)
  | ((.ok _, overseer), r) =>
    let start := r.elapsed
    let (drained, r) := r.run stamps limit e.settler.drain
    let given := if start < r.elapsed then 1 else overseer.getD 1
    (drained.map fun _ => given, r)

/-- When a tick that was due at one time and came at another is followed by the next. A tick that
came more than five milliseconds late is followed at the next regular time. -/
def nextDue (interval due now : Nat) : Nat :=
  if due + 5 < now then now + interval - (now - due) % interval else due + interval

/-- Ticks at regular intervals until a time is reached, which is given in half milliseconds. An
overseer who waits for a tick begins a round with it. -/
def tickUntil (e : Engine) (interval stop : Nat) :
    Nat → Nat → Nat → Rehearsal → Checked Unit × Rehearsal
  | 0, _, _, r => (.ok (), r)
  | n + 1, due, given, r =>
    let now := max r.elapsed due
    if stop ≤ 2 * now then (.ok (), r)
    else
      let given := if r.elapsed < due then 1 else given
      match { r with elapsed := now }.tick stamps limit e given with
      | (.error overflow, r) => (.error overflow, r)
      | (.ok given, r) => tickUntil e interval stop n (nextDue interval due now) given r

/-- Ticks for half an interval less than so many intervals: the first tick comes at once. All is
over when that time is reached and the last tick is done. -/
def runLoop (e : Engine) (interval ticks : Nat) (r : Rehearsal) : Checked Unit × Rehearsal :=
  let stop := 2 * r.elapsed + (2 * ticks * interval - interval)
  let (done, r) := r.tickUntil stamps limit e interval stop ticks r.elapsed 1
  (done, { r with elapsed := max r.elapsed ((stop + 1) / 2) })

end Bourse.Rehearsal
