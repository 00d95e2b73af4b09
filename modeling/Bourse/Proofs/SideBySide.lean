import Bourse.Proofs.Task
import Mathlib.Data.Nat.Notation
import Mathlib.Logic.Function.Basic

/-!
# Work that is done side by side

Between two calls of one piece of work, the others make theirs. What each of them can rely on is told
beside the state: every piece of work has its own stage, which only its own calls move. If each call
that is proper at its stage keeps what holds of the state and of all the stages together, then this
holds in the end, whatever the turns were, and each stage is one at which its work may be done.
-/

namespace Bourse.Work

variable {σ τ α : Type}

section Only

variable {p : Call → Prop} {works : List (Work α)}

theorem only_inSequence (h : ∀ w ∈ works, w.Only p) : (inSequence works).Only p := by
  induction works with
  | nil => trivial
  | cons w works ih =>
    obtain ⟨hw, hworks⟩ := List.forall_mem_cons.1 h
    exact hw.bind fun a => (ih hworks).bind fun l => trivial

/-- Work side by side makes no other calls than its parts. -/
theorem only_sideBySide (turns : List ℕ) (h : ∀ w ∈ works, w.Only p) :
    (sideBySide turns works).Only p := by
  induction turns generalizing works with
  | nil => exact only_inSequence h
  | cons place turns ih =>
    unfold sideBySide
    split
    · rename_i c next hplace
      obtain ⟨hc, hnext⟩ := h _ (List.mem_of_getElem? hplace)
      refine ⟨hc, fun reply => ih fun w hw => ?_⟩
      rcases List.mem_or_eq_of_mem_set hw with hw | rfl
      · exact h w hw
      · exact hnext reply
    · exact ih h

end Only

section Stages

/-- A call that is proper at the stage of one piece of work is a good one. Its reply moves the work to
a next stage, and `I` holds of the new state and stages. -/
def Moves (answers : Answers σ) (allowed good : Call → σ → Prop) (learns : Answers τ)
    (proper : Call → τ → Prop) (I : (ℕ → τ) → σ → Prop) : Prop :=
  ∀ (stages : ℕ → τ) (place : ℕ) (c : Call) (s : σ), I stages s → proper c (stages place) →
    allowed c s → good c s ∧ ∀ reply s', answers c s reply s' →
      ∃ k, learns c (stages place) reply k ∧ I (Function.update stages place k) s'

variable {answers : Answers σ} {allowed good : Call → σ → Prop} {learns : Answers τ}
  {proper : Call → τ → Prop} {I : (ℕ → τ) → σ → Prop} {stages : ℕ → τ} {s : σ}

/-- One piece of work is done, and the others wait. -/
theorem wp_alone (hmoves : Moves answers allowed good learns proper I) (hs : I stages s)
    (place : ℕ) {w : Work α} {Q : α → τ → Prop}
    (hw : w.wp learns (fun _ _ => True) proper Q (stages place)) :
    w.wp answers allowed good
      (fun a s' => ∃ k, Q a k ∧ I (Function.update stages place k) s') s := by
  induction w generalizing stages s with
  | done a => exact ⟨stages place, hw, by rwa [Function.update_eq_self]⟩
  | call c next ih =>
    intro hc
    obtain ⟨hproper, hnext⟩ := hw trivial
    obtain ⟨hgood, hreply⟩ := hmoves stages place c s hs hproper hc
    refine ⟨hgood, fun reply s' hs' => ?_⟩
    obtain ⟨k, hk, hI⟩ := hreply reply s' hs'
    refine wp_mono (ih reply hI ?_) ?_
    · rw [Function.update_self]
      exact hnext reply k hk
    · rintro a s'' ⟨k', hQ, hI'⟩
      rw [Function.update_idem] at hI'
      exact ⟨k', hQ, hI'⟩

variable {works : List (Work α)} {R : α → Prop} {Q : τ → Prop}

/-- The pieces of work from one place on are done one after the other. -/
theorem wp_inSequence (hmoves : Moves answers allowed good learns proper I) (hs : I stages s)
    (first : ℕ) (hworks : ∀ (i : ℕ) (w : Work α), works[i]? = some w →
      w.wp learns (fun _ _ => True) proper (fun a k => R a ∧ Q k) (stages (first + i)))
    (hothers : ∀ place, place < first ∨ first + works.length ≤ place → Q (stages place)) :
    (inSequence works).wp answers allowed good
      (fun l s' => (∀ a ∈ l, R a) ∧ ∃ stages', I stages' s' ∧ ∀ place, Q (stages' place)) s := by
  induction works generalizing first stages s with
  | nil =>
    exact ⟨fun a h => (by cases h), stages, hs, fun place =>
      hothers place (Nat.lt_or_ge place first)⟩
  | cons w works ih =>
    refine wp_bind.2 (wp_mono (wp_alone hmoves hs first (hworks 0 w rfl)) ?_)
    rintro a s₁ ⟨k, ⟨ha, hk⟩, hs₁⟩
    refine wp_bind.2 (wp_mono (ih hs₁ (first + 1) (fun i w' hw' => ?_) (fun place h => ?_))
      fun l _ h => ⟨List.forall_mem_cons.2 ⟨ha, h.1⟩, h.2⟩)
    · rw [Function.update_of_ne (by omega), Nat.add_assoc, Nat.add_comm 1 i]
      exact hworks (i + 1) w' hw'
    · by_cases hplace : place = first
      · rw [hplace, Function.update_self]
        exact hk
      · rw [Function.update_of_ne hplace]
        refine hothers place ?_
        rw [List.length_cons]
        omega

/-- Pieces of work are done side by side, whatever the turns are. `R` holds of what they come to. -/
theorem wp_sideBySide (hmoves : Moves answers allowed good learns proper I) (hs : I stages s)
    (turns : List ℕ) (hworks : ∀ (i : ℕ) (w : Work α), works[i]? = some w →
      w.wp learns (fun _ _ => True) proper (fun a k => R a ∧ Q k) (stages i))
    (hothers : ∀ place, works.length ≤ place → Q (stages place)) :
    (sideBySide turns works).wp answers allowed good
      (fun l s' => (∀ a ∈ l, R a) ∧ ∃ stages', I stages' s' ∧ ∀ place, Q (stages' place)) s := by
  induction turns generalizing works stages s with
  | nil =>
    refine wp_inSequence hmoves hs 0 (fun i w hw => ?_) fun place h => ?_
    · rw [Nat.zero_add]
      exact hworks i w hw
    · exact hothers place (by omega)
  | cons place turns ih =>
    unfold sideBySide
    split
    · rename_i c next hplace
      intro hc
      obtain ⟨hproper, hnext⟩ := hworks place _ hplace trivial
      obtain ⟨hgood, hreply⟩ := hmoves stages place c s hs hproper hc
      refine ⟨hgood, fun reply s' hs' => ?_⟩
      obtain ⟨k, hk, hI⟩ := hreply reply s' hs'
      have hlt : place < works.length := (List.getElem?_eq_some_iff.1 hplace).1
      refine ih hI (fun i w hw => ?_) fun other h => ?_
      · by_cases hi : i = place
        · rw [hi, List.getElem?_set_self hlt] at hw
          obtain rfl := Option.some.inj hw
          rw [hi, Function.update_self]
          exact hnext reply k hk
        · rw [List.getElem?_set_ne (Ne.symm hi)] at hw
          rw [Function.update_of_ne hi]
          exact hworks i w hw
      · rw [List.length_set] at h
        rw [Function.update_of_ne (by omega)]
        exact hothers other h
    · exact ih hs hworks hothers

end Stages

end Bourse.Work
