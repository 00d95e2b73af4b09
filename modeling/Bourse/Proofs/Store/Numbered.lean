import Bourse.Proofs.Settlement.Outbox

/-!
# Numbers of insertion

A store numbers its orders as they come. However it is used and restarted, no two of its orders have
the same number, as long as there are numbers left: an order keeps the number that it was given, and
a new one is given the next number after all that were given before.
-/

namespace Bourse

/-- Whether an order is to be inserted. -/
def StoreAct.isInsertion : StoreAct → Bool
  | .call _ (.insertOrder _) => true
  | _ => false

namespace Store

/-- The numbers of the orders are distinct and between one and the number given last. -/
structure Numbered (s : Store) : Prop where
  distinct : (s.orders.entries.map Order.sequence).Nodup
  pos : ∀ o ∈ s.orders.entries, 0 < o.sequence
  le_next : ∀ o ∈ s.orders.entries, o.sequence ≤ s.nextSequence

variable {s s' : Store} {o p : Order}

theorem numbered_empty : empty.Numbered where
  distinct := List.nodup_nil
  pos _ ho := absurd ho List.not_mem_nil
  le_next _ ho := absurd ho List.not_mem_nil

/-- Orders whose names are distinct have distinct numbers if no number has two names. -/
theorem nodup_sequences {t : OrderTable}
    (h : ∀ o ∈ t.entries, ∀ p ∈ t.entries, o.sequence = p.sequence → o.id = p.id) :
    (t.entries.map Order.sequence).Nodup := by
  refine List.Nodup.map_on (fun o ho p hp hsame => ?_) t.nodup_entries
  exact List.inj_on_of_nodup_map t.ids_nodup ho hp (h o ho p hp hsame)

namespace Numbered

theorem eq_of_sequence (h : s.Numbered) (ho : o ∈ s.orders.entries) (hp : p ∈ s.orders.entries)
    (hsame : o.sequence = p.sequence) : o = p :=
  List.inj_on_of_nodup_map h.distinct ho hp hsame

/-- Orders that have changed keep their numbers. -/
theorem of_before (h : s.Numbered) (hnext : s'.nextSequence = s.nextSequence)
    (hbefore : ∀ p ∈ s'.orders.entries, ∃ o ∈ s.orders.entries, o.SameTerms p) : s'.Numbered where
  distinct := by
    refine nodup_sequences fun p hp q hq hsame => ?_
    obtain ⟨o, ho, hop⟩ := hbefore p hp
    obtain ⟨r, hr, hrq⟩ := hbefore q hq
    rw [hop.sequence_eq, hrq.sequence_eq] at hsame
    rw [hop.id_eq, hrq.id_eq, h.eq_of_sequence ho hr hsame]
  pos p hp := by
    obtain ⟨o, ho, hop⟩ := hbefore p hp
    rw [hop.sequence_eq]
    exact h.pos o ho
  le_next p hp := by
    obtain ⟨o, ho, hop⟩ := hbefore p hp
    rw [hop.sequence_eq, hnext]
    exact h.le_next o ho

/-- A new order gets a number that no other one has, unless the numbers start over. -/
theorem inserted (h : s.Numbered) (hroom : s.nextSequence.toNat + 1 < 2 ^ 64)
    (horders : s'.orders = s.orders.put { o with sequence := s.nextSequence + 1 })
    (hnext : s'.nextSequence = s.nextSequence + 1) : s'.Numbered := by
  have hsucc : (s.nextSequence + 1).toNat = s.nextSequence.toNat + 1 := by
    rw [UInt64.toNat_add]
    exact Nat.mod_eq_of_lt hroom
  have hcases : ∀ p ∈ s'.orders.entries,
      p = { o with sequence := s.nextSequence + 1 } ∨ p ∈ s.orders.entries := by
    intro p hp
    rw [horders, OrderTable.mem_put_iff] at hp
    exact hp.imp_right And.left
  have hold : ∀ p ∈ s.orders.entries, p.sequence < s.nextSequence + 1 := by
    intro p hp
    have hle := UInt64.le_iff_toNat_le.1 (h.le_next p hp)
    rw [UInt64.lt_iff_toNat_lt, hsucc]
    exact Nat.lt_succ_of_le hle
  refine ⟨nodup_sequences fun p hp q hq hsame => ?_, fun p hp => ?_, fun p hp => ?_⟩
  · rcases hcases p hp with rfl | hp <;> rcases hcases q hq with rfl | hq
    · rfl
    · exact absurd hsame.symm (UInt64.ne_of_lt (hold q hq))
    · exact absurd hsame (UInt64.ne_of_lt (hold p hp))
    · rw [h.eq_of_sequence hp hq hsame]
  · rcases hcases p hp with rfl | hp
    · rw [UInt64.lt_iff_toNat_lt]
      show 0 < (s.nextSequence + 1).toNat
      rw [hsucc]
      exact Nat.succ_pos _
    · exact h.pos p hp
  · rw [hnext]
    rcases hcases p hp with rfl | hp
    · exact UInt64.le_refl _
    · exact UInt64.le_of_lt (hold p hp)

end Numbered

section NotInserting

variable {stamp : Stamp} {c : StoreCall} (hc : ∀ o, c ≠ .insertOrder o)

include hc

/-- A number is given to a new order only. -/
theorem nextSequence_perform : (s.perform stamp c).2.nextSequence = s.nextSequence := by
  cases c with
  | insertOrder o => exact absurd rfl (hc o)
  | transitionOrder id t =>
    simp only [perform, transitionOrder]
    cases s.orders.find? id with
    | none => rfl
    | some o =>
      dsimp only
      cases t.apply o stamp.time <;> rfl
  | commitMatch makerId takerId quantity fees =>
    simp only [perform]
    obtain ⟨cause, h⟩ | ⟨e, h⟩ | ⟨maker, taker, m, -, ⟨e, -, h⟩ | ⟨r, -, h⟩⟩ :=
      commitMatch_cases s stamp makerId takerId quantity fees <;> rw [h] <;> rfl
  | claimSettlement id =>
    simp only [perform]
    cases h : s.claimSettlement id stamp.time with
    | error e => rfl
    | ok result =>
      obtain ⟨found, s'⟩ := result
      obtain ⟨place, r, -, ⟨-, -, rfl⟩ | ⟨r', -, -, rfl⟩⟩ := claimSettlement_eq_ok h <;> rfl
  | recordAttempt id failure maxAttempts =>
    simp only [perform]
    cases h : s.recordAttempt id failure maxAttempts stamp.time with
    | error e => rfl
    | ok result =>
      obtain ⟨r', s'⟩ := result
      obtain ⟨place, r, -, -, rfl⟩ := recordAttempt_eq_ok h
      rfl
  | releaseClaim id =>
    simp only [perform]
    cases h : s.releaseClaim id with
    | error e => rfl
    | ok s' =>
      obtain ⟨place, r, -, rfl⟩ := releaseClaim_eq_ok h
      rfl
  | _ => rfl

theorem exists_sameTerms_before (hp : p ∈ (s.perform stamp c).2.orders.entries) :
    ∃ o ∈ s.orders.entries, o.SameTerms p := by
  obtain ⟨o, ho, rfl | hchanges⟩ | ⟨o, hinsert, -⟩ := exists_before_perform hp
  · exact ⟨p, ho, .refl p⟩
  · exact ⟨o, ho, hchanges.sameTerms⟩
  · exact absurd hinsert (hc o)

end NotInserting

/-- Whatever is done to a store, its orders stay numbered, and at most one number is given. -/
theorem Numbered.act (h : s.Numbered) {a : StoreAct}
    (hroom : s.nextSequence.toNat + a.isInsertion.toNat < 2 ^ 64) :
    (s.act a).Numbered ∧
      (s.act a).nextSequence.toNat ≤ s.nextSequence.toNat + a.isInsertion.toNat := by
  cases a with
  | restart =>
    have hnext : (s.act .restart).nextSequence = s.nextSequence := s.nextSequence_restart
    refine ⟨h.of_before hnext fun p hp => ⟨p, mem_orders_restart_iff.1 hp, .refl p⟩, ?_⟩
    rw [hnext]
    exact Nat.le_add_right _ _
  | call stamp c =>
    by_cases hc : ∀ o, c ≠ .insertOrder o
    · have hnext : (s.act (.call stamp c)).nextSequence = s.nextSequence := nextSequence_perform hc
      refine ⟨h.of_before hnext fun p hp => exists_sameTerms_before hc hp, ?_⟩
      rw [hnext]
      exact Nat.le_add_right _ _
    · push Not at hc
      obtain ⟨o, rfl⟩ := hc
      simp only [Store.act, perform, insertOrder]
      cases s.orders.find? o.id with
      | some p => exact ⟨h, Nat.le_add_right _ _⟩
      | none =>
        refine ⟨h.inserted hroom rfl rfl, ?_⟩
        show (s.nextSequence + 1).toNat ≤ s.nextSequence.toNat + 1
        rw [UInt64.toNat_add]
        exact Nat.mod_le _ _

/-- By induction on what is done: there is a number left for each order that is still to come. -/
theorem Numbered.afterActs {acts : List StoreAct} (h : s.Numbered)
    (hroom : s.nextSequence.toNat + acts.countP StoreAct.isInsertion < 2 ^ 64) :
    (s.afterActs acts).Numbered := by
  induction acts generalizing s with
  | nil => exact h
  | cons a rest ih =>
    have hcount : (a :: rest).countP StoreAct.isInsertion =
        a.isInsertion.toNat + rest.countP StoreAct.isInsertion := by
      rw [List.countP_cons, Nat.add_comm]
      cases a.isInsertion <;> rfl
    rw [hcount] at hroom
    obtain ⟨hnumbered, hnext⟩ := h.act (a := a) (by omega)
    exact ih hnumbered (by omega)

/-- With fewer than `2 ^ 64` insertions, the orders of a store are numbered. -/
theorem numbered_afterActs {acts : List StoreAct}
    (hcount : acts.countP StoreAct.isInsertion < 2 ^ 64) : (empty.afterActs acts).Numbered :=
  numbered_empty.afterActs (by
    rw [show empty.nextSequence.toNat = 0 from rfl, Nat.zero_add]
    exact hcount)

end Store

end Bourse
