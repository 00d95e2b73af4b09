import Bourse.Proofs.Settlement.Records
import Bourse.Proofs.Task
import Bourse.Settler
import Mathlib.Order.Defs.PartialOrder

/-!
# Settlers among others

A settler works while others change the store and the ledger between its calls. What it can rely on
is what stays true whatever others do: a trade that has a record keeps it, and a trade that is
settled stays settled. From that alone a settler asks the ledger only for trades that have records,
and records a success only for a trade that the ledger has settled.
-/

namespace Bourse

/-- What stays true: which trades have records, with what they release, and which are settled. -/
structure Known where
  records : List (Trade × Decimal)
  settled : List TradeId

namespace Known

/-- Nothing known is forgotten. -/
structure Le (k k' : Known) : Prop where
  records : k.records ⊆ k'.records
  settled : k.settled ⊆ k'.settled

instance : Preorder Known where
  le := Le
  le_refl _ := ⟨List.Subset.refl _, List.Subset.refl _⟩
  le_trans _ _ _ h h' :=
    ⟨List.Subset.trans h.records h'.records, List.Subset.trans h.settled h'.settled⟩

end Known

/-- The calls that a settler makes, in view of what is known. -/
inductive Honest : Call → Known → Prop where
  | claimSettlement (id : TradeId) (k : Known) : Honest (.store (.claimSettlement id)) k
  | claimPending (limit : UInt64) (k : Known) : Honest (.store (.claimPending limit)) k
  | releaseClaim (id : TradeId) (k : Known) : Honest (.store (.releaseClaim id)) k
  /-- A success is recorded only of a trade that is settled. -/
  | recordAttempt {id : TradeId} {failure : Option String} {limit : UInt32} {k : Known}
    (settled : failure = none → id ∈ k.settled) :
    Honest (.store (.recordAttempt id failure limit)) k
  /-- Only recorded trades are taken to the ledger. -/
  | settle {trade : Trade} {release : Decimal} {k : Known}
    (recorded : (trade, release) ∈ k.records) : Honest (.ledger (.settle trade release)) k

/-- What a settler learns from a reply. -/
def Truthful : (c : Call) → c.Reply → Known → Prop
  | .store (.claimSettlement _), reply, k =>
    ∀ r, reply = .ok (.ok (some r)) → SettlementRecord.terms r ∈ k.records
  | .store (.claimPending _), reply, k =>
    ∀ l : List SettlementRecord, reply = .ok (.ok l) → ∀ r ∈ l, r.terms ∈ k.records
  | .ledger (.settle trade _), reply, k => reply = .ok (.ok ()) → trade.id ∈ k.settled
  | _, _, _ => True

/-- Between two calls, others may add to what is known. -/
def Known.answers : Work.Answers Known :=
  fun c k reply k' => k ≤ k' ∧ Truthful c reply k'

theorem Honest.mono {c : Call} {k k' : Known} (h : Honest c k) (hk : k ≤ k') : Honest c k' := by
  cases h with
  | claimSettlement id => exact .claimSettlement id k'
  | claimPending limit => exact .claimPending limit k'
  | releaseClaim id => exact .releaseClaim id k'
  | recordAttempt settled => exact .recordAttempt fun hf => hk.settled (settled hf)
  | settle recorded => exact .settle (hk.records recorded)

/-- What a store answers is true of the records it has afterwards. -/
theorem Store.truthful_perform (s : Store) (stamp : Stamp) (c : StoreCall) {k : Known}
    (hk : ∀ r ∈ (s.perform stamp c).2.settlements, r.terms ∈ k.records) :
    Truthful (.store c) (s.perform stamp c).1 k := by
  cases c with
  | claimSettlement id =>
    simp only [perform] at hk ⊢
    intro r hr
    cases h : s.claimSettlement id stamp.time with
    | error e =>
      rw [h] at hr
      cases hr
    | ok found =>
      obtain ⟨found, s'⟩ := found
      rw [h] at hr hk
      cases hr
      obtain ⟨place, r₀, hr₀, ⟨-, hnone, -⟩ | ⟨r', -, hfound, hs'⟩⟩ := claimSettlement_eq_ok h
      · cases hnone
      · cases hfound
        have hplace := (List.getElem?_eq_some_iff.1 (requireSettlement_eq_ok hr₀).1).1
        refine hk r ?_
        rw [hs']
        exact List.mem_set hplace r
  | claimPending limit =>
    intro l hl r hr
    cases hl
    have hclaimed := SettlementRecord.claimed_claimFirst stamp.time limit.toNat s.settlements
    exact hk r (hclaimed.2 r hr)
  | _ => trivial

/-- A piece of work that makes only honest calls, from now on and whatever others do. -/
def Trusted (work : Work Unit) (k : Known) : Prop :=
  work.wp Known.answers (fun _ _ => True) Honest (fun _ _ => True) k

theorem Trusted.mono {work : Work Unit} {k k' : Known} (h : Trusted work k) (hk : k ≤ k') :
    Trusted work k' := by
  cases work with
  | done a => trivial
  | call c next =>
    intro _
    obtain ⟨hc, hnext⟩ := h trivial
    exact ⟨hc.mono hk, fun reply k'' hr => hnext reply k'' ⟨hk.trans hr.1, hr.2⟩⟩

namespace Settler

variable {k : Known} {ε α : Type}

/-- What a task of a settler leads to among others. -/
abbrev wp (t : Task ε α) (Q : Outcome ε α → Known → Prop) (k : Known) : Prop :=
  t.wp Known.answers (fun _ _ => True) Honest Q k

theorem wp_giveBack (id : TradeId) :
    wp (giveBack id : Task ε Unit) (fun _ k' => k ≤ k') k := by
  refine Task.wp_bind.2 (Task.wp_attempt.2 (Task.wp_store.2 fun _ => ⟨.releaseClaim id k, ?_⟩))
  rintro (overflow | reply) k' ⟨hk, -⟩
  · exact hk
  · exact hk

theorem wp_giveBackAll (records : List SettlementRecord) :
    wp (giveBackAll records : Task ε Unit) (fun _ k' => k ≤ k') k := by
  induction records generalizing k with
  | nil => exact le_refl k
  | cons r rest ih =>
    refine Task.wp_bind.2 (Task.wp_mono (wp_giveBack r.trade.id) ?_)
    rintro (overflow | e | u) k' hk
    · exact hk
    · exact hk
    · exact Task.wp_mono ih fun _ _ hk' => hk.trans hk'

/-- An attempt is recorded as a success only after the ledger has answered with success. -/
theorem wp_settleClaimed (s : Settler) {r : SettlementRecord} (hr : r.terms ∈ k.records) :
    wp (s.settleClaimed r) (fun _ k' => k ≤ k') k := by
  refine Task.wp_bind.2 (Task.wp_attempt.2 (Task.wp_ledger.2 fun _ => ⟨.settle hr, ?_⟩))
  rintro (overflow | answer) k₁ ⟨hk₁, hsettled⟩
  · exact hk₁
  · have hhonest :
        Honest (.store (.recordAttempt r.trade.id (failure? answer) s.maxAttempts)) k₁ := by
      refine .recordAttempt fun hnone => ?_
      refine hsettled (congrArg Except.ok ?_)
      cases answer with
      | ok u => rfl
      | error e => cases hnone
    refine Task.wp_bind.2 (Task.wp_attempt.2 (Task.wp_store.2 fun _ => ⟨hhonest, ?_⟩))
    rintro (overflow | e | r') k₂ ⟨hk₂, -⟩
    · exact hk₁.trans hk₂
    · refine Task.wp_bind.2 (Task.wp_mono (wp_giveBack r.trade.id) ?_)
      rintro (overflow | e' | u) k₃ hk₃ <;> exact (hk₁.trans hk₂).trans hk₃
    · exact hk₁.trans hk₂

theorem wp_settle (s : Settler) (id : TradeId) : wp (s.settle id) (fun _ _ => True) k := by
  refine Task.wp_bind.2 (Task.wp_store.2 fun _ => ⟨.claimSettlement id k, ?_⟩)
  rintro (overflow | e | found) k' ⟨-, hfound⟩
  · trivial
  · trivial
  · cases found with
    | none => trivial
    | some r =>
      refine Task.wp_bind.2 (Task.wp_mono (wp_settleClaimed s (hfound r rfl)) ?_)
      rintro (overflow | e | r') k'' - <;> trivial

theorem wp_settleAll (s : Settler) {rest : List SettlementRecord} {summary : DrainSummary}
    (hrest : ∀ r ∈ rest, r.terms ∈ k.records) :
    wp (s.settleAll rest summary) (fun _ _ => True) k := by
  induction rest generalizing k summary with
  | nil => trivial
  | cons r rest ih =>
    refine Task.wp_bind.2 (Task.wp_attempt.2 (Task.wp_mono
      (wp_settleClaimed s (hrest r List.mem_cons_self)) ?_))
    rintro (overflow | e | r') k' hk
    · trivial
    · refine Task.wp_bind.2 (Task.wp_mono (wp_giveBackAll rest) ?_)
      rintro (overflow | e' | u) k'' - <;> trivial
    · exact ih fun q hq => hk.records (hrest q (List.mem_cons_of_mem r hq))

theorem wp_drain (s : Settler) : wp s.drain (fun _ _ => True) k := by
  refine Task.wp_bind.2 (Task.wp_store.2 fun _ => ⟨.claimPending s.batchSize k, ?_⟩)
  rintro (overflow | e | claimed) k' ⟨-, hclaimed⟩
  · trivial
  · trivial
  · exact wp_settleAll s (hclaimed claimed rfl)

end Settler

end Bourse
