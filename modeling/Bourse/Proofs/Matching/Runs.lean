import Bourse.Engine
import Bourse.Proofs.SideBySide

/-!
# Runs of the engine

What finding a pair and matching it preserve, every run of the engine preserves: the run of a market,
the runs of several markets side by side, and the matching of an incoming order.
-/

namespace Bourse.Engine

variable {σ ε : Type} {answers : Work.Answers σ} {allowed good : Call → σ → Prop} {P : σ → Prop}
  {C : MatchCandidate → σ → Prop} {e : Engine} {market : Market} {id : OrderId}

/-- From a state with `P`, a search comes to one with `P` again, and `C` holds of the pair that it
finds. -/
def Finds (answers : Work.Answers σ) (allowed good : Call → σ → Prop) (P : σ → Prop)
    (t : Task ε (Option MatchCandidate)) (C : MatchCandidate → σ → Prop) : Prop :=
  ∀ s, P s → t.wp answers allowed good
    (fun r s' => P s' ∧ ∀ found, r = .ok (.ok found) → ∀ c, found = some c → C c s') s

section Keeps

variable (hexecute : ∀ c s, P s → C c s → (e.execute c).wp answers allowed good (fun _ => P) s)

include hexecute

theorem keeps_matchRepeatedly (hfind : Finds answers allowed good P (e.bestCandidate market) C)
    (n : Nat) :
    (e.matchRepeatedly market n : Task ε _).Keeps answers allowed good P fun _ => True := by
  induction n with
  | zero => exact .pure trivial
  | succ n ih =>
    intro s hs
    refine Task.wp_bind.2 (Task.wp_attempt.2 (Task.wp_mono (hfind s hs) ?_))
    rintro (overflow | error | _ | c) s₁ ⟨hs₁, hfound⟩
    · exact ⟨hs₁, fun _ _ => trivial⟩
    · exact ⟨hs₁, fun _ _ => trivial⟩
    · exact ⟨hs₁, fun _ _ => trivial⟩
    · refine Task.wp_bind.2 (Task.wp_attempt.2 (Task.wp_mono
        (hexecute c s₁ hs₁ (hfound _ rfl c rfl)) ?_))
      rintro (overflow | error | _ | trade) s₂ hs₂
      · exact ⟨hs₂, fun _ _ => trivial⟩
      · exact ⟨hs₂, fun _ _ => trivial⟩
      · exact ⟨hs₂, fun _ _ => trivial⟩
      · exact Task.Keeps.bind ih (fun _ _ => .pure trivial) s₂ hs₂

theorem keeps_matchMarket (hfind : Finds answers allowed good P (e.bestCandidate market) C) :
    (e.matchMarket market : Task ε MarketRun).Keeps answers allowed good P fun _ => True :=
  (keeps_matchRepeatedly hexecute hfind _).bind fun _ _ => .pure trivial

theorem wp_marketWork (hfind : Finds answers allowed good P (e.bestCandidate market) C) {s : σ}
    (hs : P s) : (e.marketWork market).wp answers allowed good (fun _ => P) s := by
  refine Work.wp_bind.2 (Work.wp_mono (keeps_matchMarket hexecute hfind s hs) ?_)
  rintro (overflow | never | run) s' ⟨hs', -⟩
  · exact hs'
  · exact never.elim
  · exact hs'

theorem keeps_matchIncoming (hfind : Finds answers allowed good P (e.incomingCandidate id) C) :
    (e.matchIncoming id).Keeps answers allowed good P fun _ => True := by
  unfold matchIncoming
  induction e.maxIterations.toNat with
  | zero => exact .pure trivial
  | succ n ih =>
    intro s hs
    refine Task.wp_bind.2 (Task.wp_mono (hfind s hs) ?_)
    rintro (overflow | error | _ | c) s₁ ⟨hs₁, hfound⟩
    · exact ⟨hs₁, fun _ _ => trivial⟩
    · exact ⟨hs₁, fun _ _ => trivial⟩
    · exact ⟨hs₁, fun _ _ => trivial⟩
    · refine Task.wp_bind.2 (Task.wp_mono (hexecute c s₁ hs₁ (hfound _ rfl c rfl)) ?_)
      rintro (overflow | error | _ | trade) s₂ hs₂
      · exact ⟨hs₂, fun _ _ => trivial⟩
      · exact ⟨hs₂, fun _ _ => trivial⟩
      · exact ⟨hs₂, fun _ _ => trivial⟩
      · exact Task.Keeps.bind ih (fun _ _ => .pure trivial) s₂ hs₂

end Keeps

/-- Markets are matched side by side, whatever the turns are. Each has a stage of its own, at which
what it does is proper. -/
theorem wp_matchMarkets {τ : Type} {learns : Work.Answers τ} {proper : Call → τ → Prop}
    {I : (ℕ → τ) → σ → Prop} {Q : τ → Prop} {D : MatchCandidate → τ → Prop} {first : τ} {s : σ}
    (hmoves : Work.Moves answers allowed good learns proper I) (hs : I (fun _ => first) s)
    (hfirst : Q first)
    (hexecute : ∀ c k, Q k → D c k →
      (e.execute c).wp learns (fun _ _ => True) proper (fun _ => Q) k)
    (hfind : ∀ market, Finds learns (fun _ _ => True) proper Q (e.bestCandidate market) D)
    (turns : List ℕ) (markets : List Market) :
    (e.matchMarkets turns markets : Task ε PassSummary).wp answers allowed good
      (fun _ s' => ∃ stages, I stages s' ∧ ∀ place, Q (stages place)) s := by
  refine Task.wp_bind.2 (Task.wp_ofSure.2 (Work.wp_mono (Work.wp_sideBySide (R := fun _ => True)
    hmoves hs turns (fun i work hwork => ?_) fun _ _ => hfirst) ?_))
  · obtain ⟨market, -, rfl⟩ := List.mem_map.1 (List.mem_of_getElem? hwork)
    exact Work.wp_mono (wp_marketWork hexecute (hfind market) hfirst) fun _ _ hk => ⟨trivial, hk⟩
  · exact fun runs s' h => Task.wp_pure.2 h.2

end Bourse.Engine
