import Bourse.Call

/-!
# Tasks

A piece of work is a tree of calls: either it is done, or it makes a call and goes on with the
reply. A handler says how calls are answered in a state, and running a piece of work under a
handler answers its calls one after the other. Several pieces of work are done one after the other
or side by side, with their calls in any order.

A task is a piece of work that may fail with an error or end in an overflow. Its calls hand their
errors and overflows on.
-/

namespace Bourse

/-- A piece of work. -/
inductive Work (α : Type) where
  /-- It is done, with a result. -/
  | done (a : α)
  /-- It makes a call, and what comes back decides how it goes on. -/
  | call (c : Call) (next : c.Reply → Work α)

namespace Work

variable {α β γ σ : Type}

/-- Goes on with the result of a piece of work. -/
def bind : Work α → (α → Work β) → Work β
  | done a, f => f a
  | call c next, f => call c fun r => (next r).bind f

instance : Monad Work where
  pure := done
  bind := bind

theorem bind_done (w : Work α) : w.bind done = w := by
  induction w with
  | done a => rfl
  | call c next ih => simp only [bind, ih]

theorem bind_assoc (w : Work α) (f : α → Work β) (g : β → Work γ) :
    (w.bind f).bind g = w.bind fun a => (f a).bind g := by
  induction w with
  | done a => rfl
  | call c next ih => simp only [bind, ih]

instance : LawfulMonad Work :=
  LawfulMonad.mk' Work bind_done (fun _ _ => rfl) bind_assoc

/-- How calls are answered in a state. -/
abbrev Handler (σ : Type) := (c : Call) → σ → c.Reply × σ

/-- Does a piece of work from a state. -/
def run (h : Handler σ) : Work α → σ → α × σ
  | done a, s => (a, s)
  | call c next, s =>
    let (r, s) := h c s
    (next r).run h s

theorem run_bind (h : Handler σ) (w : Work α) (f : α → Work β) (s : σ) :
    (w.bind f).run h s = (f (w.run h s).1).run h (w.run h s).2 := by
  induction w generalizing s with
  | done a => rfl
  | call c next ih => simp only [bind, run, ih]

/-- Does pieces of work one after the other. -/
def inSequence : List (Work α) → Work (List α)
  | [] => done []
  | w :: ws => w.bind fun a => (inSequence ws).bind fun l => done (a :: l)

/-- Does pieces of work side by side. At each turn the one at a place makes its next call, unless it
is done. When all turns are taken, what is left is done one after the other. -/
def sideBySide : List Nat → List (Work α) → Work (List α)
  | [], ws => inSequence ws
  | place :: turns, ws =>
    match ws[place]? with
    | some (call c next) => call c fun r => sideBySide turns (ws.set place (next r))
    | _ => sideBySide turns ws

end Work

/-- A piece of work that may fail or end in an overflow. -/
abbrev Task (ε : Type) := ExceptT ε (ExceptT Overflow Work)

namespace Task

variable {ε δ α : Type}

/-- The work of a task, with its outcome. -/
def work (t : Task ε α) : Work (Outcome ε α) := t

/-- The task of a piece of work that comes to an outcome. -/
def ofWork (w : Work (Outcome ε α)) : Task ε α := w

/-- Asks for a new name and the time. -/
def stamp : Task ε Stamp :=
  ofWork (.call .stamp fun s => .done (.ok (.ok s)))

/-- Asks the store. -/
def store (c : StoreCall) : Task StoreError c.Answer :=
  ofWork (.call (.store c) .done)

/-- Asks the ledger. -/
def ledger (c : LedgerCall) : Task LedgerError c.Answer :=
  ofWork (.call (.ledger c) .done)

/-- A task with its errors put in other words. -/
def mapError (f : ε → δ) (t : Task ε α) : Task δ α :=
  ofWork (do return (← t.work).map fun r => r.mapError f)

/-- A task whose error is a result. -/
def attempt (t : Task ε α) : Task δ (Except ε α) :=
  ofWork (do return (← t.work).map .ok)

/-- The task of a piece of work that always comes to a result. -/
def ofSure (w : Work α) : Task ε α :=
  ofWork (do return .ok (.ok (← w)))

/-- A result, or an overflow that ends the task. -/
def ofChecked (a : Checked α) : Task ε α :=
  ofWork (.done (a.map .ok))

/-- A result, or an error that ends the task. -/
def ofExcept (a : Except ε α) : Task ε α :=
  ofWork (.done (.ok a))

end Task

end Bourse
