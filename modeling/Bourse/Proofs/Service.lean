import Bourse.Proofs.Order.Steps
import Bourse.Proofs.Task
import Bourse.Service

/-!
# Parts of a request

What the calls of these parts of a request preserve, the parts preserve.
-/

namespace Bourse.Service

variable {σ : Type} {answers : Work.Answers σ} {allowed good : Call → σ → Prop} {P : σ → Prop}

/-- The order of a request is a new one, of the quantity and the price asked for. -/
theorem keeps_buildOrder
    (hstamp : (Task.stamp : Task ServiceError Stamp).Keeps answers allowed good P fun _ => True)
    (request : NewOrder) :
    (buildOrder request).Keeps answers allowed good P fun o => ∃ stamp terms,
      Order.create stamp terms = .ok o ∧ o.amount = request.quantity ∧
        o.price = request.price := by
  refine Task.Keeps.bind (Task.Keeps.ofExcept (R := fun _ => True) fun _ _ => trivial)
    fun symbol _ => hstamp.bind fun stamp _ => Task.Keeps.ofExcept fun o ho => ?_
  have hcreate := mapError_eq_ok_iff.1 ho
  obtain ⟨-, -, -, rfl⟩ := Order.create_eq_ok_iff.1 hcreate
  exact ⟨stamp, _, hcreate, rfl, rfl⟩

theorem keeps_confirmIfPending {id : OrderId}
    (hfind : (findOrder id).Keeps answers allowed good P fun _ => True)
    (hconfirm : (Task.store (.transitionOrder id .confirm)).Keeps answers allowed good P
      fun _ => True) :
    (confirmIfPending id).Keeps answers allowed good P fun _ => True := by
  refine hfind.bind fun found _ => ?_
  cases found with
  | none => exact .pure trivial
  | some o =>
    dsimp only
    split
    · refine hconfirm.attempt.bind fun confirmed _ => ?_
      match confirmed with
      | .ok _ => exact .pure trivial
      | .error (.order _) => exact .pure trivial
      | .error (.orderNotFound _) => exact .pure trivial
      | .error (.duplicateOrder _) => exact .throw
      | .error (.settlementNotFound _) => exact .throw
      | .error (.unavailable _) => exact .throw
    · exact .pure trivial

end Bourse.Service
