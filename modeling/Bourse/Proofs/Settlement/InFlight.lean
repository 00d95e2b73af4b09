import Bourse.Proofs.Settlement.Claims
import Bourse.Proofs.Settlement.Records

/-!
# Records in flight

The records in flight are just those that are held, each held once, and every record counts the
attempts that were recorded of it, up to a limit. The calls of a settler keep it so, whatever the
others hold. A finished record stays as it is.
-/

namespace Bourse

/-- A split of a list at a place. -/
theorem exists_split {α : Type} {l : List α} {place : ℕ} {a : α} (h : l[place]? = some a) :
    ∃ l₁ l₂, l = l₁ ++ a :: l₂ ∧ ∀ b, l.set place b = l₁ ++ b :: l₂ := by
  obtain ⟨hlt, rfl⟩ := List.getElem?_eq_some_iff.1 h
  refine ⟨l.take place, l.drop (place + 1), ?_, fun b => ?_⟩
  · rw [List.cons_getElem_drop_succ, List.take_append_drop]
  · rw [List.set_eq_take_append_cons_drop, if_pos hlt]

namespace SettlementRecord

variable {r r' : SettlementRecord} {now : Instant} {l₁ l₂ : List SettlementRecord}

/-- A record that waits or is in flight has attempts left, a settled one used no more than there
are, and a failed one used all. -/
def Within (limit : UInt32) (r : SettlementRecord) : Prop :=
  match r.status with
  | .pending | .inFlight => r.attempts < limit
  | .settled => r.attempts ≤ limit
  | .failed => r.attempts = limit

/-- Whether a worker holds the record. -/
def isInFlight (r : SettlementRecord) : Bool := r.status = .inFlight

theorem isInFlight_iff : r.isInFlight = true ↔ r.status = .inFlight := decide_eq_true_iff

theorem isInFlight_claim (h : r.claim? now = some r') :
    r.isInFlight = false ∧ r'.isInFlight = true := by
  obtain ⟨hstatus, rfl⟩ := claim?_eq_some_iff.1 h
  exact ⟨by simp [isInFlight, hstatus], by simp [isInFlight]⟩

/-- The count does not run over, because there is a larger number. -/
theorem nextAttempt_of_lt {attempts limit : UInt32} (h : attempts < limit) :
    (attempts + 1).toNat = attempts.toNat + 1 ∧ attempts + 1 ≤ limit := by
  have hlimit := limit.toNat_lt
  rw [UInt32.lt_iff_toNat_lt] at h
  have hsucc : (attempts + 1).toNat = attempts.toNat + 1 := by
    rw [UInt32.toNat_add, UInt32.toNat_one, Nat.mod_eq_of_lt (by omega)]
  exact ⟨hsucc, by rw [UInt32.le_iff_toNat_le, hsucc]; exact h⟩

/-- An attempt settles a record in flight, or fails as the last one, or leaves attempts. -/
theorem recordAttempt_cases (h : r.status = .inFlight) (failure : Option String) (limit : UInt32)
    (now : Instant) :
    (r.recordAttempt failure limit now).attempts = r.attempts + 1 ∧
      ((r.recordAttempt failure limit now).status = .settled ∨
        limit ≤ r.attempts + 1 ∧ (r.recordAttempt failure limit now).status = .failed ∨
        ¬limit ≤ r.attempts + 1 ∧ (r.recordAttempt failure limit now).status = .pending) := by
  rw [recordAttempt, h, if_neg (by decide)]
  refine ⟨rfl, ?_⟩
  cases failure with
  | none => exact Or.inl rfl
  | some reason =>
    by_cases hfull : limit ≤ r.attempts + 1
    · exact Or.inr (Or.inl ⟨hfull, if_pos hfull⟩)
    · exact Or.inr (Or.inr ⟨hfull, if_neg hfull⟩)

/-- What is in flight with one record in front. -/
theorem perm_filter_of_in (h : r.isInFlight = true) :
    ((l₁ ++ r :: l₂).filter isInFlight).Perm (r :: (l₁ ++ l₂).filter isInFlight) := by
  rw [← List.filter_cons_of_pos h]
  exact List.perm_middle.filter isInFlight

theorem filter_of_out (h : r.isInFlight = false) :
    (l₁ ++ r :: l₂).filter isInFlight = (l₁ ++ l₂).filter isInFlight := by
  rw [List.filter_append, List.filter_cons_of_neg (by simp [h]), ← List.filter_append]

/-- What has been claimed is exactly what is in flight in addition. -/
theorem perm_claimFirst (now : Instant) (limit : ℕ) (records : List SettlementRecord) :
    ((Store.claimFirst now limit records).2.filter isInFlight).Perm
      ((Store.claimFirst now limit records).1 ++ records.filter isInFlight) := by
  induction records generalizing limit with
  | nil => cases limit <;> exact .nil
  | cons q rest ih =>
    cases limit with
    | zero => exact .refl _
    | succ limit =>
      unfold Store.claimFirst
      cases hc : q.claim? now with
      | some q' =>
        obtain ⟨hq, hq'⟩ := isInFlight_claim hc
        dsimp only
        rw [List.filter_cons_of_pos hq', List.filter_cons_of_neg (by simp [hq])]
        exact (ih limit).cons q'
      | none =>
        dsimp only
        by_cases hq : q.isInFlight = true
        · rw [List.filter_cons_of_pos hq, List.filter_cons_of_pos hq]
          exact ((ih (limit + 1)).cons q).trans List.perm_middle.symm
        · rw [List.filter_cons_of_neg hq, List.filter_cons_of_neg hq]
          exact ih (limit + 1)

end SettlementRecord

/-! ### Records and claims -/

/-- What is held is just what is in flight, and each record counts the attempts that were recorded
of it, within the limit. -/
structure Accounted (limit : UInt32) (records held : List SettlementRecord) (log : List TradeId) :
    Prop where
  names_nodup : (records.map SettlementRecord.tradeId).Nodup
  held_perm : held.Perm (records.filter SettlementRecord.isInFlight)
  attempts_eq : ∀ r ∈ records, r.attempts.toNat = log.count r.tradeId
  within : ∀ r ∈ records, r.Within limit

namespace Accounted

variable {limit : UInt32} {records held held' l₁ l₂ : List SettlementRecord}
  {log log' : List TradeId} {r r' : SettlementRecord} {now : Instant}

theorem mem_iff (h : Accounted limit records held log) :
    r ∈ held ↔ r ∈ records ∧ r.status = .inFlight := by
  rw [h.held_perm.mem_iff, List.mem_filter, SettlementRecord.isInFlight_iff]

theorem perm (h : Accounted limit records held log) (hperm : held'.Perm held) :
    Accounted limit records held' log :=
  ⟨h.names_nodup, hperm.trans h.held_perm, h.attempts_eq, h.within⟩

theorem held_names_nodup (h : Accounted limit records held log) :
    (held.map SettlementRecord.tradeId).Nodup :=
  (h.held_perm.map _).nodup_iff.2 (h.names_nodup.sublist (List.filter_sublist.map _))

/-- One record is replaced. -/
theorem set (h : Accounted limit (l₁ ++ r :: l₂) held log) (hid : r'.tradeId = r.tradeId)
    (hheld : held'.Perm ((l₁ ++ r' :: l₂).filter SettlementRecord.isInFlight))
    (hlog : ∀ id, id ≠ r.tradeId → log'.count id = log.count id)
    (hcount : r'.attempts.toNat = log'.count r.tradeId) (hwithin : r'.Within limit) :
    Accounted limit (l₁ ++ r' :: l₂) held' log' := by
  have hnames : (l₁ ++ r' :: l₂).map SettlementRecord.tradeId =
      (l₁ ++ r :: l₂).map SettlementRecord.tradeId := by
    simp only [List.map_append, List.map_cons, hid]
  have hne : ∀ q, q ∈ l₁ ∨ q ∈ l₂ → q.tradeId ≠ r.tradeId := by
    have hnodup := h.names_nodup
    rw [(List.perm_middle.map _).nodup_iff, List.map_cons, List.nodup_cons] at hnodup
    intro q hq e
    exact hnodup.1 (e ▸ List.mem_map_of_mem (List.mem_append.2 hq))
  have hother : ∀ q ∈ l₁ ++ r' :: l₂, q = r' ∨ q.tradeId ≠ r.tradeId ∧ q ∈ l₁ ++ r :: l₂ := by
    intro q hq
    rcases List.mem_append.1 hq with hq | hq
    · exact Or.inr ⟨hne q (Or.inl hq), List.mem_append_left _ hq⟩
    · rcases List.mem_cons.1 hq with rfl | hq
      · exact Or.inl rfl
      · exact Or.inr ⟨hne q (Or.inr hq), List.mem_append_right _ (List.mem_cons_of_mem _ hq)⟩
  refine ⟨hnames ▸ h.names_nodup, hheld, fun q hq => ?_, fun q hq => ?_⟩
  · rcases hother q hq with rfl | ⟨hq', hmem⟩
    · rw [hid, hcount]
    · rw [hlog _ hq', h.attempts_eq q hmem]
  · rcases hother q hq with rfl | ⟨-, hmem⟩
    · exact hwithin
    · exact h.within q hmem

theorem claimOne (h : Accounted limit (l₁ ++ r :: l₂) held log) (hclaim : r.claim? now = some r')
    (hheld : held'.Perm (r' :: held)) : Accounted limit (l₁ ++ r' :: l₂) held' log := by
  obtain ⟨hout, hin⟩ := SettlementRecord.isInFlight_claim hclaim
  obtain ⟨hstatus, hr'⟩ := SettlementRecord.claim?_eq_some_iff.1 hclaim
  have hmem : r ∈ l₁ ++ r :: l₂ := by simp
  have hwithin := h.within r hmem
  rw [SettlementRecord.Within, hstatus] at hwithin
  refine h.set (by rw [hr']) ?_ (fun _ _ => rfl) (by rw [hr', ← h.attempts_eq r hmem]) ?_
  · have hold := h.held_perm
    rw [SettlementRecord.filter_of_out hout] at hold
    exact hheld.trans ((hold.cons r').trans (SettlementRecord.perm_filter_of_in hin).symm)
  · rw [SettlementRecord.Within, hr']
    exact hwithin

/-- A record that is held is released from flight. -/
theorem land (h : Accounted limit (l₁ ++ r :: l₂) held log) (hheld : held.Perm (r :: held'))
    (hid : r'.tradeId = r.tradeId) (hout : r'.isInFlight = false)
    (hlog : ∀ id, id ≠ r.tradeId → log'.count id = log.count id)
    (hcount : r'.attempts.toNat = log'.count r.tradeId) (hwithin : r'.Within limit) :
    Accounted limit (l₁ ++ r' :: l₂) held' log' := by
  have hin : r.isInFlight = true :=
    SettlementRecord.isInFlight_iff.2 (h.mem_iff.1 (hheld.mem_iff.2 List.mem_cons_self)).2
  have hold := h.held_perm.trans (SettlementRecord.perm_filter_of_in hin)
  refine h.set hid ?_ hlog hcount hwithin
  rw [SettlementRecord.filter_of_out hout]
  exact (hheld.symm.trans hold).cons_inv

theorem recordAttempt (h : Accounted limit (l₁ ++ r :: l₂) held log)
    (hheld : held.Perm (r :: held')) (failure : Option String) (now : Instant) :
    Accounted limit (l₁ ++ r.recordAttempt failure limit now :: l₂) held' (log ++ [r.tradeId]) := by
  have hmem := h.mem_iff.1 (hheld.mem_iff.2 List.mem_cons_self)
  have hlt := h.within r hmem.1
  rw [SettlementRecord.Within, hmem.2] at hlt
  obtain ⟨hsucc, hle⟩ := SettlementRecord.nextAttempt_of_lt hlt
  obtain ⟨hattempts, hstatus⟩ := SettlementRecord.recordAttempt_cases hmem.2 failure limit now
  refine h.land hheld
    (congrArg Trade.id (r.sameOrigin_recordAttempt failure limit now).trade_eq) ?_ ?_ ?_ ?_
  · obtain hs | ⟨-, hs⟩ | ⟨-, hs⟩ := hstatus <;> simp [SettlementRecord.isInFlight, hs]
  · intro id hid
    rw [List.count_append, List.count_singleton, if_neg (by simpa using hid.symm), add_zero]
  · rw [List.count_append, List.count_singleton_self, ← h.attempts_eq r hmem.1, hattempts, hsucc]
  · obtain hs | ⟨hfull, hs⟩ | ⟨hleft, hs⟩ := hstatus <;> rw [SettlementRecord.Within, hs, hattempts]
    · exact hle
    · exact UInt32.le_antisymm hle hfull
    · exact UInt32.not_le.1 hleft

theorem releaseClaim (h : Accounted limit (l₁ ++ r :: l₂) held log)
    (hheld : held.Perm (r :: held')) : Accounted limit (l₁ ++ r.releaseClaim :: l₂) held' log := by
  have hmem := h.mem_iff.1 (hheld.mem_iff.2 List.mem_cons_self)
  have hwithin := h.within r hmem.1
  rw [SettlementRecord.Within, hmem.2] at hwithin
  have hr' : r.releaseClaim = { r with status := .pending } := by
    rw [SettlementRecord.releaseClaim, if_pos hmem.2]
  rw [hr']
  exact h.land hheld rfl rfl (fun _ _ => rfl) (h.attempts_eq r hmem.1) hwithin

theorem claimFirst (h : Accounted limit records held log) (now : Instant) (size : ℕ)
    (hheld : held'.Perm ((Store.claimFirst now size records).1 ++ held)) :
    Accounted limit (Store.claimFirst now size records).2 held' log := by
  have hclaimed := (SettlementRecord.claimed_claimFirst now size records).1
  have hback : ∀ q ∈ (Store.claimFirst now size records).2, ∃ r ∈ records,
      q.tradeId = r.tradeId ∧ q.attempts = r.attempts ∧ (r.Within limit → q.Within limit) := by
    intro q hq
    obtain ⟨r, hr, rfl | hc⟩ := SettlementRecord.exists_of_claimed hclaimed hq
    · exact ⟨_, hr, rfl, rfl, id⟩
    · obtain ⟨hstatus, rfl⟩ := SettlementRecord.claim?_eq_some_iff.1 hc
      refine ⟨r, hr, rfl, rfl, fun hwithin => ?_⟩
      rw [SettlementRecord.Within, hstatus] at hwithin
      exact hwithin
  refine ⟨?_, ?_, fun q hq => ?_, fun q hq => ?_⟩
  · have hterms := congrArg (List.map fun p : Trade × Decimal => p.1.id)
      (SettlementRecord.map_terms_eq hclaimed)
    rw [List.map_map, List.map_map] at hterms
    exact (show _ = records.map SettlementRecord.tradeId from hterms) ▸ h.names_nodup
  · exact hheld.trans ((h.held_perm.append_left _).trans
      (SettlementRecord.perm_claimFirst now size records).symm)
  · obtain ⟨r, hr, hid, hattempts, -⟩ := hback q hq
    rw [hid, hattempts, h.attempts_eq r hr]
  · obtain ⟨r, hr, -, -, hwithin⟩ := hback q hq
    exact hwithin (h.within r hr)

/-- A new record of a new trade. -/
theorem add (h : Accounted limit records held log) (hlimit : 1 ≤ limit)
    (hstatus : r.status = .pending) (hattempts : r.attempts = 0)
    (hnew : ∀ q ∈ records, q.tradeId ≠ r.tradeId) (hlog : r.tradeId ∉ log) :
    Accounted limit (records ++ [r]) held log := by
  have hout : r.isInFlight = false := by simp [SettlementRecord.isInFlight, hstatus]
  refine ⟨?_, ?_, fun q hq => ?_, fun q hq => ?_⟩
  · rw [List.map_append, List.nodup_append]
    refine ⟨h.names_nodup, List.nodup_singleton _, fun id hid id' hid' => ?_⟩
    obtain ⟨q, hq, rfl⟩ := List.mem_map.1 hid
    rw [List.mem_singleton.1 hid']
    exact hnew q hq
  · rw [List.filter_append, List.filter_cons_of_neg (by simp [hout]), List.filter_nil,
      List.append_nil]
    exact h.held_perm
  · rcases List.mem_append.1 hq with hq | hq
    · exact h.attempts_eq q hq
    · rw [List.mem_singleton.1 hq, hattempts, List.count_eq_zero.2 hlog]
      rfl
  · rcases List.mem_append.1 hq with hq | hq
    · exact h.within q hq
    · rw [List.mem_singleton.1 hq, SettlementRecord.Within, hstatus, hattempts]
      exact UInt32.lt_iff_toNat_lt.2 (UInt32.le_iff_toNat_le.1 hlimit)

end Accounted

/-! ### The calls of a settler -/

/-- The trades of recorded attempts after a call. -/
def recordedAfter : (c : Call) → c.Reply → List TradeId → List TradeId
  | .store (.recordAttempt id _ _), .ok (.ok _), log => log ++ [id]
  | _, _, log => log

/-- How a call is answered. The ledger answers as it likes. -/
def Store.answer (s : Store) (stamp : Stamp)
    (ledger : (c : LedgerCall) → Except LedgerError c.Answer) : (c : Call) → c.Reply × Store
  | .stamp => (stamp, s)
  | .store c => s.perform stamp c
  | .ledger c => (.ok (ledger c), s)

/-- What becomes of the claim of a record: it is still held, or an attempt is recorded, or the
record is back in the queue with its attempts as they were. -/
def Follows (limit : UInt32) (r : SettlementRecord) (held records : List SettlementRecord)
    (log log' : List TradeId) : Prop :=
  r ∈ held ∧ r ∈ records ∨
    (∃ failure now, r.recordAttempt failure limit now ∈ records ∧ log' = log ++ [r.tradeId]) ∨
    { r with status := .pending } ∈ records ∧ log' = log

/-- Finished records stay as they are, at their places. -/
def KeepsFinished (records records' : List SettlementRecord) : Prop :=
  ∀ (place : ℕ) (r : SettlementRecord), records[place]? = some r → r.status.isFinished = true →
    records'[place]? = some r

theorem KeepsFinished.refl (records : List SettlementRecord) : KeepsFinished records records :=
  fun _ _ h _ => h

theorem KeepsFinished.trans {l₁ l₂ l₃ : List SettlementRecord} (h : KeepsFinished l₁ l₂)
    (h' : KeepsFinished l₂ l₃) : KeepsFinished l₁ l₃ :=
  fun place r hr hf => h' place r (h place r hr hf) hf

theorem KeepsFinished.set {records : List SettlementRecord} {place : ℕ} {r : SettlementRecord}
    (hr : records[place]? = some r) (hstatus : r.status.isFinished = false)
    (r' : SettlementRecord) : KeepsFinished records (records.set place r') := by
  intro place' q hq hf
  have hne : place ≠ place' := by
    rintro rfl
    obtain rfl := Option.some.inj (hr.symm.trans hq)
    rw [hstatus] at hf
    cases hf
  rw [List.getElem?_set_ne hne, hq]

theorem KeepsFinished.of_claimed {records records' : List SettlementRecord} {now : Instant}
    (h : List.Forall₂ (SettlementRecord.Claimed now) records records') :
    KeepsFinished records records' := by
  intro place r hr hf
  induction h generalizing place with
  | nil => cases hr
  | cons hclaimed _ ih =>
    cases place with
    | zero =>
      cases hr
      rcases hclaimed with rfl | hc
      · rfl
      · rw [(SettlementRecord.claim?_eq_some_iff.1 hc).1] at hf
        cases hf
    | succ place => exact ih place hr

theorem KeepsFinished.append (records new : List SettlementRecord) :
    KeepsFinished records (records ++ new) := by
  intro place r hr _
  rwa [List.getElem?_append_left (List.getElem?_eq_some_iff.1 hr).1]

/-- What a dutiful call of a settler does. The other settlers hold `others`. -/
structure Proceeds (limit : UInt32) (c : Call) (reply : c.Reply) (s s' : Store)
    (held others : List SettlementRecord) (log : List TradeId) : Prop where
  dependable : Dependable c reply
  accounted : Accounted limit s'.settlements (heldAfter c reply held ++ others)
    (recordedAfter c reply log)
  trades_eq : s'.trades = s.trades
  terms_eq : s'.settlements.map SettlementRecord.terms = s.settlements.map SettlementRecord.terms
  finished : KeepsFinished s.settlements s'.settlements
  follows : ∀ r ∈ held,
    Follows limit r (heldAfter c reply held) s'.settlements log (recordedAfter c reply log)

section Proceeds

variable {limit : UInt32} {s : Store}
  {ledger : (c : LedgerCall) → Except LedgerError c.Answer} {held others : List SettlementRecord}
  {log : List TradeId} {id : TradeId} {r r' : SettlementRecord} {place : ℕ}

/-- A call that neither ends nor makes a claim. -/
theorem Proceeds.unchanged (h : Accounted limit s.settlements (held ++ others) log) {c : Call}
    {reply : c.Reply} (hreply : Dependable c reply) (hheld : heldAfter c reply held = held)
    (hlog : recordedAfter c reply log = log) : Proceeds limit c reply s s held others log where
  dependable := hreply
  accounted := by
    rw [hheld, hlog]
    exact h
  trades_eq := rfl
  terms_eq := rfl
  finished := .refl _
  follows r hr := by
    rw [hheld]
    exact Or.inl ⟨hr, (h.mem_iff.1 (List.mem_append_left _ hr)).1⟩

theorem proceeds_claimSettlement (stamp : Stamp)
    (h : Accounted limit s.settlements others log) (id : TradeId) :
    Proceeds limit (.store (.claimSettlement id)) (s.perform stamp (.claimSettlement id)).1 s
      (s.perform stamp (.claimSettlement id)).2 [] others log := by
  simp only [Store.perform]
  cases hclaim : s.claimSettlement id stamp.time with
  | error e => exact .unchanged h ⟨_, rfl⟩ rfl rfl
  | ok found =>
    obtain ⟨found, s'⟩ := found
    obtain ⟨place, r, hr, ⟨-, rfl, rfl⟩ | ⟨r', hc, rfl, rfl⟩⟩ := Store.claimSettlement_eq_ok hclaim
    · exact .unchanged h ⟨_, rfl⟩ rfl rfl
    · have hplace := (Store.requireSettlement_eq_ok hr).1
      obtain ⟨l₁, l₂, hl, hset⟩ := exists_split hplace
      have hstatus := (SettlementRecord.claim?_eq_some_iff.1 hc).1
      refine ⟨⟨_, rfl⟩, ?_, rfl,
        SettlementRecord.map_terms_set hplace (SettlementRecord.Claimed.terms_eq (Or.inr hc)), ?_,
        fun q hq => (by cases hq)⟩
      · show Accounted limit (s.settlements.set place r') (r' :: others) log
        rw [hset]
        rw [hl] at h
        exact h.claimOne hc (.refl _)
      · exact .set hplace (by rw [hstatus]; rfl) r'

theorem proceeds_claimPending (stamp : Stamp)
    (h : Accounted limit s.settlements others log) (size : UInt64) :
    Proceeds limit (.store (.claimPending size)) (s.perform stamp (.claimPending size)).1 s
      (s.perform stamp (.claimPending size)).2 [] others log := by
  have hclaimed := (SettlementRecord.claimed_claimFirst stamp.time size.toNat s.settlements).1
  have haccounted := h.claimFirst stamp.time size.toNat (.refl _)
  refine ⟨⟨_, rfl, ?_⟩, haccounted, rfl, SettlementRecord.map_terms_eq hclaimed,
    .of_claimed hclaimed, fun q hq => (by cases hq)⟩
  have hnodup := haccounted.held_names_nodup
  rw [List.map_append] at hnodup
  exact hnodup.of_append_left

/-- A held record is the one that is found for its trade. -/
theorem Accounted.exists_requireSettlement (h : Accounted limit s.settlements (held ++ others) log)
    (hid : id ∈ held.map SettlementRecord.tradeId) :
    ∃ r place, r ∈ held ∧ r.tradeId = id ∧ r.status = .inFlight ∧
      s.settlements[place]? = some r ∧ s.requireSettlement id = .ok (place, r) ∧
      (held ++ others).Perm (r :: (without id held ++ others)) := by
  obtain ⟨r, hr, rfl⟩ := List.mem_map.1 hid
  obtain ⟨hmem, hstatus⟩ := h.mem_iff.1 (List.mem_append_left others hr)
  obtain ⟨place, hplace⟩ := List.mem_iff_getElem?.1 hmem
  refine ⟨r, place, hr, rfl, hstatus, hplace,
    (Store.requireSettlement_eq_ok_iff h.names_nodup).2 ⟨hplace, rfl⟩, ?_⟩
  have hnodup := h.held_names_nodup
  rw [List.map_append] at hnodup
  obtain ⟨l₁, l₂, rfl⟩ := List.append_of_mem hr
  have hcons : ((r :: (l₁ ++ l₂)).map SettlementRecord.tradeId).Nodup :=
    (List.perm_middle.map _).nodup_iff.1 hnodup.of_append_left
  have hwithout : without r.tradeId (l₁ ++ r :: l₂) = l₁ ++ l₂ := by
    have hfilter := without_cons hcons
    rw [without, List.filter_cons_of_neg (by simp)] at hfilter
    rw [without, List.filter_append, List.filter_cons_of_neg (by simp), ← List.filter_append]
    exact hfilter
  rw [hwithout]
  exact List.perm_middle.append_right others

/-- What a call leaves that ends the claim of a record: its record is replaced. -/
theorem Proceeds.ended (h : Accounted limit s.settlements (held ++ others) log) {c : Call}
    {reply : c.Reply} {log' : List TradeId} (hreply : Dependable c reply)
    (hheld : heldAfter c reply held = without id held) (hlog : recordedAfter c reply log = log')
    (hplace : s.settlements[place]? = some r) (hid : r.tradeId = id)
    (hstatus : r.status = .inFlight) (hterms : r'.terms = r.terms)
    (haccounted : Accounted limit (s.settlements.set place r') (without id held ++ others) log')
    (hfollows : r' ∈ s.settlements.set place r' →
      Follows limit r (without id held) (s.settlements.set place r') log log') :
    Proceeds limit c reply s (s.setSettlement place r') held others log where
  dependable := hreply
  accounted := by
    rw [hheld, hlog]
    exact haccounted
  trades_eq := rfl
  terms_eq := SettlementRecord.map_terms_set hplace hterms
  finished := .set hplace (by rw [hstatus]; rfl) r'
  follows q hq := by
    rw [hheld, hlog]
    have hlt := (List.getElem?_eq_some_iff.1 hplace).1
    by_cases heq : q.tradeId = id
    · have hmem := (h.mem_iff.1 (List.mem_append_left _ hq)).1
      have hsame : q = r := List.inj_on_of_nodup_map h.names_nodup hmem
        (List.mem_of_getElem? hplace) (heq.trans hid.symm)
      rw [hsame]
      exact hfollows (List.mem_set hlt r')
    · have hkept := mem_without_iff.2 ⟨hq, heq⟩
      exact Or.inl ⟨hkept, (haccounted.mem_iff.1 (List.mem_append_left _ hkept)).1⟩

theorem proceeds_recordAttempt (stamp : Stamp)
    (h : Accounted limit s.settlements (held ++ others) log)
    (hid : id ∈ held.map SettlementRecord.tradeId) (failure : Option String) :
    Proceeds limit (.store (.recordAttempt id failure limit))
      (s.perform stamp (.recordAttempt id failure limit)).1 s
      (s.perform stamp (.recordAttempt id failure limit)).2 held others log := by
  obtain ⟨r, place, hr, hrid, hstatus, hplace, hfound, hperm⟩ := h.exists_requireSettlement hid
  rw [Store.perform_recordAttempt hfound]
  refine .ended h ⟨_, rfl⟩ rfl rfl hplace hrid hstatus
    (r.terms_recordAttempt failure limit stamp.time) ?_ fun hmem => ?_
  · obtain ⟨l₁, l₂, hl, hset⟩ := exists_split hplace
    rw [hl] at h
    rw [hset]
    exact hrid ▸ h.recordAttempt hperm failure stamp.time
  · exact Or.inr (Or.inl ⟨failure, stamp.time, hmem, congrArg (fun id => log ++ [id]) hrid.symm⟩)

theorem proceeds_releaseClaim (stamp : Stamp)
    (h : Accounted limit s.settlements (held ++ others) log)
    (hid : id ∈ held.map SettlementRecord.tradeId) :
    Proceeds limit (.store (.releaseClaim id)) (s.perform stamp (.releaseClaim id)).1 s
      (s.perform stamp (.releaseClaim id)).2 held others log := by
  obtain ⟨r, place, hr, hrid, hstatus, hplace, hfound, hperm⟩ := h.exists_requireSettlement hid
  rw [Store.perform_releaseClaim hfound]
  refine .ended h rfl rfl rfl hplace hrid hstatus r.terms_releaseClaim ?_ fun hmem => ?_
  · obtain ⟨l₁, l₂, hl, hset⟩ := exists_split hplace
    rw [hl] at h
    rw [hset]
    exact h.releaseClaim hperm
  · have hreleased : r.releaseClaim = { r with status := .pending } := if_pos hstatus
    exact Or.inr (Or.inr ⟨hreleased ▸ hmem, rfl⟩)

/-- Every dutiful call leaves records and claims accounted for. -/
theorem proceeds_answer {stamp : Stamp} (h : Accounted limit s.settlements (held ++ others) log)
    {c : Call} (hc : Dutiful limit c held) :
    Proceeds limit c (s.answer stamp ledger c).1 s (s.answer stamp ledger c).2 held others log := by
  cases hc with
  | claimSettlement id => exact proceeds_claimSettlement stamp h id
  | claimPending size => exact proceeds_claimPending stamp h size
  | recordAttempt holds => exact proceeds_recordAttempt stamp h holds _
  | releaseClaim holds => exact proceeds_releaseClaim stamp h holds
  | settle holds => exact .unchanged h ⟨_, rfl⟩ rfl rfl

theorem mem_recordedAfter {c : Call} (hc : Dutiful limit c held) {reply : c.Reply}
    (hid : id ∈ recordedAfter c reply log) : id ∈ log ∨ id ∈ held.map SettlementRecord.tradeId := by
  cases hc with
  | recordAttempt holds =>
    rcases reply with overflow | e | r
    · exact Or.inl hid
    · exact Or.inl hid
    · rcases List.mem_append.1 hid with hid | hid
      · exact Or.inl hid
      · rw [List.mem_singleton.1 hid]
        exact Or.inr holds
  | _ => exact Or.inl hid

end Proceeds

end Bourse
