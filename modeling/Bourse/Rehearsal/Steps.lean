import Bourse.Rehearsal

/-!
# Work step by step

In a rehearsal a piece of work goes on by single steps. It makes a call, which may be struck by a
fault. It waits for what the call needs. Then the call is answered.

A call waits until it is served: the store and the ledger are desks that serve one call at a time. A
call that fails without an effect is not taken to a desk. A ledger call may stall before it is
served. The ledger may be reached with a time limit: a call that still stalls when the limit is
reached is given up, and never takes effect. So is a call that stalls until the limit and is then
not served at once.

However its calls are struck and answered, and however its waits end, a piece of work comes to its
end: no step can be followed by other steps without end.
-/

namespace Bourse.Rehearsal

variable {α : Type}

/-- Where calls are served, one at a time. -/
inductive Desk where
  | store
  | ledger
  deriving DecidableEq

/-- What a piece of work may have to wait for. -/
inductive Need where
  /-- That its turn is not used up. -/
  | turn
  /-- That so many milliseconds pass, or so many that are the time limit. -/
  | stall (ms : Nat) (limit : Option Nat)
  /-- That it is served at a desk. It has to be at once if a time limit is reached already. -/
  | desk (d : Desk) (reached : Option Nat)

/-- How a wait ends. -/
inductive Waking where
  /-- The need is met. A time limit may be reached as well. -/
  | met (reached : Option Nat)
  /-- The time limit is reached, and the need is not met. -/
  | late (limit : Nat)

/-- A stall with the times at which it is over and at which its time limit is reached. -/
structure Sleep where
  ends : Nat
  /-- The limit and its time. -/
  limit : Option (Nat × Nat)

namespace Sleep

/-- The longest time for which an alarm can be set: 2^36 - 2 milliseconds, a little more than two
years. An alarm for a longer time rings then, so that longer stalls end in the order in which they
began. -/
def longest : Nat := 68719476734

/-- A stall that begins at some time. -/
def start (now ms : Nat) (limit : Option Nat) : Sleep :=
  ⟨now + min ms longest, limit.map fun l => (l, now + min l longest)⟩

/-- When the next of its alarms rings. -/
def next (s : Sleep) : Nat :=
  match s.limit with
  | none => s.ends
  | some (_, time) => min s.ends time

/-- How the stall ends by some time, if it does. -/
def waking? (now : Nat) (s : Sleep) : Option Waking :=
  let reached := (s.limit.filter fun l => l.2 ≤ now).map Prod.fst
  if s.ends ≤ now then some (.met reached) else reached.map .late

end Sleep

/-- A piece of work that is broken down into steps. -/
inductive Steps (α : Type) where
  | done (a : α)
  /-- A call is made, and perhaps struck by a fault. -/
  | make (c : Call) (next : Option Fault → Steps α)
  /-- Something has to be waited for. -/
  | await (n : Need) (next : Waking → Steps α)
  /-- A call that was made is answered. -/
  | answer (struck : Option Fault) (c : Call) (next : c.Reply → Steps α)

namespace Steps

/-- Waits until a ledger call that stalls can be answered. -/
def awaitStall (limit : Option Nat) (f : Fault) (next : Option Fault → Steps α) : Steps α :=
  await .turn fun _ =>
    await (.stall f.ms limit) fun
      | .late l => next (some (f.givenUp l))
      | .met reached =>
        await (.desk .ledger reached) fun
          | .late l => next (some (f.givenUp l))
          | .met _ => next none

/-- Waits until a call that was made can be answered. -/
def awaitAnswer (limit : Option Nat) (struck : Option Fault) (c : Call)
    (next : Option Fault → Steps α) : Steps α :=
  match struck, c with
  | _, .stamp => next struck
  | none, .store _ => await (.desk .store none) fun _ => next none
  | some _, .store _ => next struck
  | none, .ledger _ => await (.desk .ledger none) fun _ => next none
  | some f, .ledger _ =>
    match f.ledgerError? with
    | none => awaitStall limit f next
    | some _ => if f.after then await (.desk .ledger none) fun _ => next struck else next struck

/-- The steps of a piece of work. -/
def ofWork (limit : Option Nat) : Work α → Steps α
  | .done a => done a
  | .call c next =>
    make c fun struck =>
      awaitAnswer limit struck c fun struck => answer struck c fun r => ofWork limit (next r)

/-- What is left of a piece of work when one step is done. -/
inductive Follows : Steps α → Steps α → Prop where
  | make {c : Call} {next : Option Fault → Steps α} (struck : Option Fault) :
      Follows (next struck) (make c next)
  | await {n : Need} {next : Waking → Steps α} (w : Waking) : Follows (next w) (await n next)
  | answer {struck : Option Fault} {c : Call} {next : c.Reply → Steps α} (r : c.Reply) :
      Follows (next r) (answer struck c next)

theorem follows_acc (s : Steps α) : Acc Follows s := by
  induction s with
  | done a => exact ⟨_, fun t h => nomatch h⟩
  | make c next ih =>
    refine ⟨_, fun t h => ?_⟩
    cases h with
    | make struck => exact ih struck
  | await n next ih =>
    refine ⟨_, fun t h => ?_⟩
    cases h with
    | await w => exact ih w
  | answer struck c next ih =>
    refine ⟨_, fun t h => ?_⟩
    cases h with
    | answer r => exact ih r

/-- What is left when at least one step is done. -/
abbrev Later : Steps α → Steps α → Prop := Relation.TransGen Follows

theorem later_acc (s : Steps α) : Acc Later s :=
  (follows_acc s).transGen

theorem later_of_follows {s t u : Steps α} (h : s = t ∨ Later s t) (htu : Follows t u) :
    Later s u := by
  rcases h with rfl | h
  · exact .single htu
  · exact .tail h htu

/-- One piece of work in a list has gone on. -/
inductive OneLater : List (Steps α) → List (Steps α) → Prop where
  | head {s t : Steps α} {ts : List (Steps α)} : Later s t → OneLater (s :: ts) (t :: ts)
  | tail {t : Steps α} {ss ts : List (Steps α)} : OneLater ss ts → OneLater (t :: ss) (t :: ts)

theorem oneLater_acc_cons {t : Steps α} {ts : List (Steps α)} (ht : Acc Later t)
    (hts : Acc OneLater ts) : Acc OneLater (t :: ts) := by
  induction ht generalizing ts with
  | intro t _ iht =>
    induction hts with
    | intro ts hts ihts =>
      refine ⟨_, fun ss h => ?_⟩
      cases h with
      | head h => exact iht _ h ⟨_, hts⟩
      | tail h => exact ihts _ h

theorem oneLater_acc (ts : List (Steps α)) : Acc OneLater ts := by
  induction ts with
  | nil => exact ⟨_, fun ss h => nomatch h⟩
  | cons t ts ih => exact oneLater_acc_cons (later_acc t) ih

end Steps

end Bourse.Rehearsal
