import Bourse.Decimal.Arithmetic

/-!
# Results of computations that may fail

When a computation that may fail, or that may overflow as well, comes to a result: each of its steps
does, and every check in it is passed.
-/

namespace Bourse

section Fail

variable {ε α β : Type} {x : Except ε α} {f : α → Except ε β} {a a' : α} {b : β} {e : ε} {c : Prop}
  [Decidable c]

theorem bind_eq_ok_iff : (x >>= f) = .ok b ↔ ∃ a, x = .ok a ∧ f a = .ok b := by
  cases x <;> simp [bind, Except.bind]

theorem pure_eq_ok_iff : (pure a : Except ε α) = .ok a' ↔ a' = a := by
  simp [pure, Except.pure, eq_comm]

theorem throw_bind (e : ε) (f : α → Except ε β) : (throw e >>= f) = throw e := rfl

theorem ite_throw_eq_ok_iff : (if c then x else throw e) = .ok a ↔ c ∧ x = .ok a := by
  by_cases h : c <;> simp [h, throw, throwThe, MonadExceptOf.throw]

theorem throw_ite_eq_ok_iff : (if c then throw e else x) = .ok a ↔ ¬c ∧ x = .ok a := by
  by_cases h : c <;> simp [h, throw, throwThe, MonadExceptOf.throw]

theorem mapError_eq_ok_iff {δ : Type} {g : ε → δ} : x.mapError g = .ok a ↔ x = .ok a := by
  cases x with
  | ok b =>
    exact ⟨fun h => congrArg Except.ok (Except.ok.inj h),
      fun h => congrArg Except.ok (Except.ok.inj h)⟩
  | error e => exact ⟨fun h => (by cases h), fun h => (by cases h)⟩

theorem mem_toOption_iff : a ∈ x.toOption ↔ x = .ok a := by
  cases x <;> simp [Except.toOption]

end Fail

section FailOrOverflow

variable {ε α β : Type} {x : ExceptT ε Checked α} {f : α → ExceptT ε Checked β} {a a' : α} {b : β}
  {e : ε} {c : Prop} [Decidable c]

theorem run_bind_eq_ok_iff :
    (x >>= f).run = .ok (.ok b) ↔ ∃ a, x.run = .ok (.ok a) ∧ (f a).run = .ok (.ok b) := by
  rw [ExceptT.run_bind, bind_eq_ok_iff]
  constructor
  · rintro ⟨r, hr, h⟩
    cases r with
    | error e => cases h
    | ok a => exact ⟨a, hr, h⟩
  · rintro ⟨a, ha, h⟩
    exact ⟨_, ha, h⟩

theorem run_pure_eq_ok_iff : (pure a : ExceptT ε Checked α).run = .ok (.ok a') ↔ a' = a := by
  rw [ExceptT.run_pure, pure_eq_ok_iff, Except.ok.injEq]

theorem run_ite_throw_eq_ok_iff :
    (if c then x else throw e).run = .ok (.ok a) ↔ c ∧ x.run = .ok (.ok a) := by
  by_cases h : c <;> simp [h, pure, Except.pure]

theorem run_throw_ite_eq_ok_iff :
    (if c then throw e else x).run = .ok (.ok a) ↔ ¬c ∧ x.run = .ok (.ok a) := by
  by_cases h : c <;> simp [h, pure, Except.pure]

theorem run_lift_checked_eq_ok_iff {y : Checked α} :
    (liftM y : ExceptT ε Checked α).run = .ok (.ok a) ↔ y = .ok a := by
  cases y <;> simp [Functor.map, Except.map]

theorem run_lift_except_eq_ok_iff {y : Except ε α} :
    (liftM y : ExceptT ε Checked α).run = .ok (.ok a) ↔ y = .ok a := by
  cases y <;> simp [liftM, monadLift, MonadLift.monadLift, ExceptT.mk, ExceptT.run,
    MonadLiftT.monadLift, pure, Except.pure]

end FailOrOverflow

end Bourse
