import Bourse.Task

/-!
# What a piece of work leads to

`Work.wp` says what must hold in a state for a piece of work to end well from there, as long as each
call on the way is made in a state in which it is allowed: every such call is a good one, and the
result and the final state are as wanted. The rules below take a task apart along its construction.
-/

namespace Bourse

/-- How calls may be answered: with which reply, and with which state afterwards. -/
abbrev Work.Answers (σ : Type) := (c : Call) → σ → c.Reply → σ → Prop

/-- The answers of a handler. -/
def Work.Handler.answers {σ : Type} (h : Work.Handler σ) : Work.Answers σ :=
  fun c s reply s' => h c s = (reply, s')

variable {σ α β ε δ : Type} {answers : Work.Answers σ} {allowed good : Call → σ → Prop}

namespace Work

/-- As long as calls are allowed, every call is a good one in the state in which it is made, and `Q`
holds in the end. -/
def wp (answers : Answers σ) (allowed good : Call → σ → Prop) :
    Work α → (α → σ → Prop) → σ → Prop
  | done a, Q, s => Q a s
  | call c next, Q, s =>
    allowed c s → good c s ∧ ∀ reply s', answers c s reply s' →
      (next reply).wp answers allowed good Q s'

/-- Every call of a piece of work is a good one in the state in which it is made. -/
def EachCall (h : Handler σ) (good : Call → σ → Prop) : Work α → σ → Prop
  | done _, _ => True
  | call c next, s => good c s ∧ (next (h c s).1).EachCall h good (h c s).2

/-- Whatever the answers are, all calls of a piece of work are of one kind. -/
def Only (p : Call → Prop) : Work α → Prop
  | done _ => True
  | call c next => p c ∧ ∀ reply, (next reply).Only p

variable {w : Work α} {s : σ}

theorem wp_bind {f : α → Work β} {Q : β → σ → Prop} :
    (w.bind f).wp answers allowed good Q s ↔
      w.wp answers allowed good (fun a s => (f a).wp answers allowed good Q s) s := by
  induction w generalizing s with
  | done a => rfl
  | call c next ih =>
    refine imp_congr_right fun _ => and_congr_right' ?_
    exact forall_congr' fun reply => forall_congr' fun s' => imp_congr_right fun _ => ih reply

theorem wp_mono {Q Q' : α → σ → Prop} (hw : w.wp answers allowed good Q s)
    (hQ : ∀ a s, Q a s → Q' a s) :
    w.wp answers allowed good Q' s := by
  induction w generalizing s with
  | done a => exact hQ a s hw
  | call c next ih =>
    exact fun hc => ⟨(hw hc).1, fun reply s' hr => ih reply ((hw hc).2 reply s' hr)⟩

section Only

variable {p q : Call → Prop}

theorem Only.bind {f : α → Work β} (hw : w.Only p) (hf : ∀ a, (f a).Only p) :
    (w.bind f).Only p := by
  induction w with
  | done a => exact hf a
  | call c next ih => exact ⟨hw.1, fun reply => ih reply (hw.2 reply)⟩

theorem Only.mono (hw : w.Only p) (hpq : ∀ c, p c → q c) : w.Only q := by
  induction w with
  | done a => trivial
  | call c next ih => exact ⟨hpq c hw.1, fun reply => ih reply (hw.2 reply)⟩

/-- What each of the calls preserves, whatever the answer, holds in the end. -/
theorem Only.wp {P : σ → Prop} (hw : w.Only p) (hgood : ∀ c s, p c → good c s)
    (hstep : ∀ c s reply s', p c → P s → answers c s reply s' → P s') (hs : P s) :
    w.wp answers allowed good (fun _ => P) s := by
  induction w generalizing s with
  | done a => exact hs
  | call c next ih =>
    exact fun _ => ⟨hgood c s hw.1, fun reply s' h =>
      ih reply (hw.2 reply) (hstep c s reply s' hw.1 hs h)⟩

theorem only_of_forall (hp : ∀ c, p c) : w.Only p := by
  induction w with
  | done a => trivial
  | call c next ih => exact ⟨hp c, ih⟩

/-- Work that makes only good calls whatever the answers are makes only such calls. -/
theorem only_of_wp {Q : α → Unit → Prop}
    (hw : w.wp (fun _ _ _ _ => True) (fun _ _ => True) (fun c _ => p c) Q ()) : w.Only p := by
  induction w with
  | done a => trivial
  | call c next ih =>
    exact ⟨(hw trivial).1, fun reply => ih reply ((hw trivial).2 reply () trivial)⟩

/-- What each of the calls preserves, the whole work preserves. -/
theorem Only.run {h : Handler σ} {P : σ → Prop} (hw : w.Only p)
    (hstep : ∀ c s, p c → P s → P (h c s).2) (hs : P s) : P (w.run h s).2 := by
  induction w generalizing s with
  | done a => exact hs
  | call c next ih => exact ih _ (hw.2 _) (hstep c s hw.1 hs)

end Only

section Run

variable {h : Handler σ} {Q : α → σ → Prop}

theorem run_of_wp (hw : w.wp h.answers allowed good Q s) (hc : w.EachCall h allowed s) :
    Q (w.run h s).1 (w.run h s).2 := by
  induction w generalizing s with
  | done a => exact hw
  | call c next ih => exact ih _ ((hw hc.1).2 _ _ rfl) hc.2

theorem eachCall_of_wp (hw : w.wp h.answers allowed good Q s) (hc : w.EachCall h allowed s) :
    w.EachCall h good s := by
  induction w generalizing s with
  | done a => trivial
  | call c next ih => exact ⟨(hw hc.1).1, ih _ ((hw hc.1).2 _ _ rfl) hc.2⟩

/-- For a handler, what a piece of work leads to is what its run comes to. -/
theorem wp_iff_run :
    w.wp h.answers (fun _ _ => True) (fun _ _ => True) Q s ↔ Q (w.run h s).1 (w.run h s).2 := by
  induction w generalizing s with
  | done a => rfl
  | call c next ih =>
    constructor
    · exact fun hw => (ih _).1 ((hw trivial).2 _ _ rfl)
    · rintro hQ -
      refine ⟨trivial, fun reply s' hr => (ih reply).2 ?_⟩
      simp only [run, show h c s = _ from hr] at hQ
      exact hQ

end Run

end Work

namespace Task

/-- Does a task, whatever it comes to. -/
def ignoring (t : Task ε α) : Work Unit :=
  t.work.bind fun _ => .done ()

/-- The same for tasks: `Q` is about the outcome. -/
def wp (answers : Work.Answers σ) (allowed good : Call → σ → Prop) (t : Task ε α)
    (Q : Outcome ε α → σ → Prop) : σ → Prop :=
  t.work.wp answers allowed good Q

/-- What is wanted of the outcome of a task that goes on with its result. -/
def onResult (next : α → σ → Prop) (Q : Outcome ε β → σ → Prop) : Outcome ε α → σ → Prop
  | .ok (.ok a), s => next a s
  | .ok (.error e), s => Q (.ok (.error e)) s
  | .error overflow, s => Q (.error overflow) s

variable {t : Task ε α} {Q : Outcome ε α → σ → Prop} {s : σ}

theorem wp_mono {Q' : Outcome ε α → σ → Prop} (ht : t.wp answers allowed good Q s)
    (hQ : ∀ r s, Q r s → Q' r s) : t.wp answers allowed good Q' s :=
  Work.wp_mono ht hQ

theorem wp_bind {f : α → Task ε β} {Q : Outcome ε β → σ → Prop} :
    (t >>= f).wp answers allowed good Q s ↔
      t.wp answers allowed good (onResult (fun a => (f a).wp answers allowed good Q) Q) s := by
  refine Work.wp_bind.trans ⟨fun ht => Work.wp_mono ht ?_, fun ht => Work.wp_mono ht ?_⟩ <;>
  · rintro (_ | _ | _) s hr
    · exact hr
    · exact hr
    · exact hr

theorem wp_pure {a : α} :
    (pure a : Task ε α).wp answers allowed good Q s ↔ Q (.ok (.ok a)) s := Iff.rfl

theorem wp_throw {e : ε} :
    (throw e : Task ε α).wp answers allowed good Q s ↔ Q (.ok (.error e)) s := Iff.rfl

theorem wp_store {c : StoreCall} {Q : Outcome StoreError c.Answer → σ → Prop} :
    (store c).wp answers allowed good Q s ↔
      (allowed (.store c) s → good (.store c) s ∧
        ∀ reply s', answers (.store c) s reply s' → Q reply s') := Iff.rfl

theorem wp_ledger {c : LedgerCall} {Q : Outcome LedgerError c.Answer → σ → Prop} :
    (ledger c).wp answers allowed good Q s ↔
      (allowed (.ledger c) s → good (.ledger c) s ∧
        ∀ reply s', answers (.ledger c) s reply s' → Q reply s') := Iff.rfl

theorem wp_mapError {f : ε → δ} {Q : Outcome δ α → σ → Prop} :
    (t.mapError f).wp answers allowed good Q s ↔
      t.wp answers allowed good (fun r => Q (r.map fun r => r.mapError f)) s :=
  Work.wp_bind

theorem wp_attempt {Q : Outcome δ (Except ε α) → σ → Prop} :
    (t.attempt : Task δ (Except ε α)).wp answers allowed good Q s ↔
      t.wp answers allowed good (fun r => Q (r.map .ok)) s :=
  Work.wp_bind

theorem wp_ofChecked {a : Checked α} :
    (ofChecked a : Task ε α).wp answers allowed good Q s ↔ Q (a.map .ok) s := Iff.rfl

theorem wp_ofExcept {a : Except ε α} :
    (ofExcept a : Task ε α).wp answers allowed good Q s ↔ Q (.ok a) s := Iff.rfl

theorem wp_ofSure {w : Work α} :
    (ofSure w : Task ε α).wp answers allowed good Q s ↔
      w.wp answers allowed good (fun a => Q (.ok (.ok a))) s :=
  Work.wp_bind

/-! ### Tasks that are run -/

section Run

variable {h : Work.Handler σ}

/-- The second step of a task is done if the first one comes to a result. -/
theorem run_bind (t : Task ε α) (f : α → Task ε β) (x : σ) :
    (t >>= f).work.run h x =
      match t.work.run h x with
      | (.error e, y) => (.error e, y)
      | (.ok (.error e), y) => (.ok (.error e), y)
      | (.ok (.ok a), y) => (f a).work.run h y := by
  refine (Work.run_bind h t.work _ x).trans ?_
  rcases t.work.run h x with ⟨_ | _ | _, y⟩ <;> rfl

theorem run_attempt (t : Task ε α) (x : σ) :
    (t.attempt : Task δ (Except ε α)).work.run h x =
      ((t.work.run h x).1.map .ok, (t.work.run h x).2) :=
  Work.run_bind h t.work _ x

end Run

/-! ### Tasks that end

A handler leads a task from each state to one outcome. The rules below follow a task to its end, as
long as nothing overflows on the way.
-/

section Ends

variable {h : Work.Handler σ} {x y z : σ}

/-- Done from a state, a task comes to a result and to a state. -/
def Ends (h : Work.Handler σ) (t : Task ε α) (x : σ) (r : Except ε α) (y : σ) : Prop :=
  t.work.run h x = (.ok r, y)

theorem Ends.run_bind {f : α → Task ε β} {a : α} (ht : Ends h t x (.ok a) y) :
    (t >>= f).work.run h x = (f a).work.run h y := by
  rw [Task.run_bind, show t.work.run h x = _ from ht]

theorem Ends.bind {f : α → Task ε β} {a : α} {r : Except ε β} (ht : Ends h t x (.ok a) y)
    (hf : Ends h (f a) y r z) : Ends h (t >>= f) x r z :=
  ht.run_bind.trans hf

theorem Ends.bind_error {f : α → Task ε β} {e : ε} (ht : Ends h t x (.error e) y) :
    Ends h (t >>= f) x (.error e) y := by
  refine (Task.run_bind t f x).trans ?_
  rw [show t.work.run h x = _ from ht]

/-- A task with two steps that comes to a result has come to one of the first step. -/
theorem ends_bind_iff {f : α → Task ε β} {b : β} : Ends h (t >>= f) x (.ok b) z ↔
    ∃ a y, Ends h t x (.ok a) y ∧ Ends h (f a) y (.ok b) z := by
  constructor
  · intro hends
    have hrun := (Task.run_bind t f x).symm.trans hends
    cases ht : t.work.run h x with
    | mk r y =>
      rw [ht] at hrun
      obtain overflow | error | a := r
      · cases hrun
      · cases hrun
      · exact ⟨a, y, ht, hrun⟩
  · rintro ⟨a, y, ht, hf⟩
    exact ht.bind hf

theorem Ends.unique {r r' : Except ε α} (ht : Ends h t x r y) (ht' : Ends h t x r' z) :
    r = r' ∧ y = z := by
  obtain ⟨hr, hy⟩ := Prod.mk.inj (ht.symm.trans ht')
  exact ⟨Except.ok.inj hr, hy⟩

theorem Ends.pure {a : α} : Ends h (pure a : Task ε α) x (.ok a) x := rfl

theorem Ends.throw {e : ε} : Ends h (throw e : Task ε α) x (.error e) x := rfl

theorem Ends.attempt {r : Except ε α} (ht : Ends h t x r y) :
    Ends h (t.attempt : Task δ (Except ε α)) x (.ok r) y := by
  refine (Work.run_bind h t.work _ x).trans ?_
  rw [show t.work.run h x = _ from ht]
  rfl

theorem Ends.mapError {f : ε → δ} {r : Except ε α} (ht : Ends h t x r y) :
    Ends h (t.mapError f) x (r.mapError f) y := by
  refine (Work.run_bind h t.work _ x).trans ?_
  rw [show t.work.run h x = _ from ht]
  rfl

theorem ends_ofSure {w : Work α} :
    Ends h (ofSure w : Task ε α) x (.ok (w.run h x).1) (w.run h x).2 :=
  Work.run_bind h w _ x

theorem Ends.wp {r : Except ε α} (ht : Ends h t x r y) (hQ : Q (.ok r) y) :
    t.wp h.answers (fun _ _ => True) (fun _ _ => True) Q x := by
  refine Work.wp_iff_run.2 ?_
  rw [show t.work.run h x = _ from ht]
  exact hQ

end Ends

/-! ### Tasks that make calls of one kind only -/

/-- Whatever the answers are, all calls of a task are of one kind. -/
def Only (p : Call → Prop) (t : Task ε α) : Prop :=
  t.work.Only p

section Only

variable {p : Call → Prop}

theorem Only.bind {f : α → Task ε β} (ht : t.Only p) (hf : ∀ a, (f a).Only p) :
    (t >>= f).Only p := by
  refine Work.Only.bind ht ?_
  rintro (_ | _ | a)
  · trivial
  · trivial
  · exact hf a

theorem Only.pure {a : α} : (pure a : Task ε α).Only p := trivial

theorem Only.throw {e : ε} : (throw e : Task ε α).Only p := trivial

theorem Only.store {c : StoreCall} (hc : p (.store c)) : (Task.store c).Only p :=
  ⟨hc, fun _ => trivial⟩

theorem Only.ledger {c : LedgerCall} (hc : p (.ledger c)) : (Task.ledger c).Only p :=
  ⟨hc, fun _ => trivial⟩

theorem Only.mapError {f : ε → δ} (ht : t.Only p) : (t.mapError f).Only p :=
  Work.Only.bind ht fun _ => trivial

theorem Only.attempt (ht : t.Only p) : (t.attempt : Task δ (Except ε α)).Only p :=
  Work.Only.bind ht fun _ => trivial

theorem Only.ofSure {w : Work α} (hw : w.Only p) : (ofSure w : Task ε α).Only p :=
  Work.Only.bind hw fun _ => trivial

theorem Only.ignoring (ht : t.Only p) : (ignoring t).Only p :=
  Work.Only.bind ht fun _ => trivial

end Only

/-! ### Tasks that keep an invariant -/

/-- From a state with `P`, a task comes to one with `P` again, and `R` holds of its result. -/
def Keeps (answers : Work.Answers σ) (allowed good : Call → σ → Prop) (P : σ → Prop) (t : Task ε α)
    (R : α → Prop) : Prop :=
  ∀ s, P s → t.wp answers allowed good (fun r s => P s ∧ ∀ a, r = .ok (.ok a) → R a) s

section Keeps

variable {P : σ → Prop} {R : α → Prop} {R' : β → Prop}

theorem Keeps.bind {f : α → Task ε β} (ht : Keeps answers allowed good P t R)
    (hf : ∀ a, R a → Keeps answers allowed good P (f a) R') :
    Keeps answers allowed good P (t >>= f) R' := by
  intro s hs
  refine wp_bind.2 (wp_mono (ht s hs) ?_)
  rintro (overflow | e | a) s ⟨hs, ha⟩
  · exact ⟨hs, fun _ h => (by cases h)⟩
  · exact ⟨hs, fun _ h => (by cases h)⟩
  · exact hf a (ha a rfl) s hs

theorem Keeps.pure {a : α} (ha : R a) : Keeps answers allowed good P (pure a : Task ε α) R := by
  intro s hs
  refine wp_pure.2 ⟨hs, ?_⟩
  rintro a' ha'
  cases ha'
  exact ha

theorem Keeps.throw {e : ε} : Keeps answers allowed good P (throw e : Task ε α) R :=
  fun _ hs => wp_throw.2 ⟨hs, fun _ h => (by cases h)⟩

theorem Keeps.mapError {f : ε → δ} (ht : Keeps answers allowed good P t R) :
    Keeps answers allowed good P (t.mapError f) R := by
  intro s hs
  refine wp_mapError.2 (wp_mono (ht s hs) ?_)
  rintro (overflow | e | a) s ⟨hs, ha⟩
  · exact ⟨hs, fun _ h => (by cases h)⟩
  · exact ⟨hs, fun _ h => (by cases h)⟩
  · refine ⟨hs, fun a' h => ?_⟩
    cases h
    exact ha a rfl

theorem Keeps.attempt (ht : Keeps answers allowed good P t R) :
    Keeps answers allowed good P (t.attempt : Task δ (Except ε α))
      (fun r => ∀ a, r = .ok a → R a) := by
  intro s hs
  refine wp_attempt.2 (wp_mono (ht s hs) ?_)
  rintro (overflow | r) s ⟨hs, ha⟩
  · exact ⟨hs, fun _ h => (by cases h)⟩
  · refine ⟨hs, fun r' h a hr => ?_⟩
    cases h
    exact ha a (congrArg Except.ok hr)

theorem Keeps.ofExcept {a : Except ε α} (ha : ∀ b, a = .ok b → R b) :
    Keeps answers allowed good P (ofExcept a) R := by
  intro s hs
  refine wp_ofExcept.2 ⟨hs, fun b hb => ha b ?_⟩
  cases hb
  rfl

theorem Keeps.ofChecked {a : Checked α} (ha : ∀ b, a = .ok b → R b) :
    Keeps answers allowed good P (ofChecked a : Task ε α) R := by
  intro s hs
  refine wp_ofChecked.2 ⟨hs, fun b hb => ha b ?_⟩
  cases a with
  | error e => cases hb
  | ok a =>
    cases hb
    rfl

theorem Only.keeps {p : Call → Prop} (ht : t.Only p) :
    t.Keeps answers allowed (fun c _ => p c) (fun _ => True) fun _ => True := fun _ _ =>
  Work.wp_mono (Work.Only.wp ht (P := fun _ => True) (fun _ _ hc => hc)
    (fun _ _ _ _ _ _ _ => trivial) trivial) fun _ _ _ => ⟨trivial, fun _ _ => trivial⟩

theorem only_of_keeps {p : Call → Prop}
    (ht : t.Keeps (fun _ _ _ _ => True) (fun _ _ => True) (fun c (_ : Unit) => p c)
      (fun _ => True) R) : t.Only p :=
  Work.only_of_wp (ht () trivial)

end Keeps

end Task

end Bourse
