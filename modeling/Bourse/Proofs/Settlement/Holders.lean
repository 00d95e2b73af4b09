import Bourse.Proofs.Settlement.InFlight
import Bourse.Proofs.Store.Conservation

/-!
# Every claim has one holder

Any number of settlers work on one store, all with the same limit of attempts, while others use the
store and the ledger answers as it likes. Their calls come in any order, and an attempt may fail to
be recorded. However this goes, the records that are in flight are just those that the settlers
hold, each held once.

From that follows the rest: nobody records an attempt of another's record, so attempts are counted
right and stop at the limit; no trade is taken to the ledger by two settlers at a time; and since a
settler that is done holds nothing, no record is left in flight.
-/

namespace Bourse

/-- A settler at work, with the records that it holds. -/
structure Worker where
  work : Work Unit
  held : List SettlementRecord

namespace Worker

/-- The settler holds the record of a trade. -/
def Holds (w : Worker) (id : TradeId) : Prop := id ∈ w.held.map SettlementRecord.tradeId

/-- The settler has a call to the ledger in progress that is to settle a trade. -/
def Settles (w : Worker) (id : TradeId) : Prop :=
  ∃ trade release next, w.work = .call (.ledger (.settle trade release)) next ∧ trade.id = id

end Worker

/-- Settlers at work on one store, and the trades of the attempts that were recorded. -/
structure Pool where
  store : Store
  workers : List Worker
  recorded : List TradeId

namespace Pool

/-- An empty store, on which nobody works. -/
def empty : Pool := ⟨Store.empty, [], []⟩

/-- What can happen next. -/
inductive Act where
  /-- A call of anyone but a settler. -/
  | call (stamp : Stamp) (c : StoreCall)
  | settle (batchSize : UInt64) (id : TradeId)
  | drain (batchSize : UInt64)
  /-- A settler makes its next call. -/
  | advance (worker : ℕ) (stamp : Stamp) (ledger : (c : LedgerCall) → Except LedgerError c.Answer)
  /-- The next call of a settler is to record an attempt, and fails without an effect. -/
  | lose (worker : ℕ) (e : StoreError)

/-- Makes a call to the store. A new trade must have a new name. -/
def callStore? (p : Pool) (stamp : Stamp) (c : StoreCall) : Option Pool :=
  let store := (p.store.perform stamp c).2
  if ∀ t ∈ store.trades.drop p.store.trades.length, ∀ t' ∈ p.store.trades, t'.id ≠ t.id then
    some { p with store }
  else none

/-- Adds a settler. -/
def employ (p : Pool) (work : Work Unit) : Pool :=
  { p with workers := p.workers ++ [⟨work, []⟩] }

/-- What has happened once a call of a settler is answered. -/
def proceed (p : Pool) (store : Store) (worker : ℕ) (held : List SettlementRecord) (c : Call)
    (next : c.Reply → Work Unit) (reply : c.Reply) : Pool where
  store := store
  workers := p.workers.set worker ⟨next reply, heldAfter c reply held⟩
  recorded := recordedAfter c reply p.recorded

/-- The pool after something has happened, if it can. All settlers have one limit of attempts. -/
def act? (limit : UInt32) (p : Pool) : Act → Option Pool
  | .call _ (.claimSettlement _) => none
  | .call _ (.claimPending _) => none
  | .call _ (.recordAttempt _ _ _) => none
  | .call _ (.releaseClaim _) => none
  | .call stamp c => p.callStore? stamp c
  | .settle batchSize id => some (p.employ (Task.ignoring (Settler.settle ⟨limit, batchSize⟩ id)))
  | .drain batchSize => some (p.employ (Task.ignoring (Settler.drain ⟨limit, batchSize⟩)))
  | .advance worker stamp ledger =>
    match p.workers[worker]? with
    | some ⟨.call c next, held⟩ =>
      let (reply, store) := p.store.answer stamp ledger c
      some (p.proceed store worker held c next reply)
    | _ => none
  | .lose worker e =>
    match p.workers[worker]? with
    | some ⟨.call (.store (.recordAttempt id failure limit)) next, held⟩ =>
      some (p.proceed p.store worker held (.store (.recordAttempt id failure limit)) next
        (.ok (.error e)))
    | _ => none

/-- The pool after several things have happened. -/
def run? (limit : UInt32) (p : Pool) (acts : List Act) : Option Pool :=
  acts.foldlM (act? limit) p

/-- The records that are held. -/
def held (p : Pool) : List SettlementRecord := p.workers.flatMap Worker.held

/-- What holds of every pool. -/
structure Sound (limit : UInt32) (p : Pool) : Prop where
  accounted : Accounted limit p.store.settlements p.held p.recorded
  traded : ∀ r ∈ p.store.settlements, r.trade ∈ p.store.trades
  named : ∀ id ∈ p.recorded, ∃ t ∈ p.store.trades, t.id = id
  keeps : ∀ w ∈ p.workers, KeepsClaims limit w.work w.held

/-- What one step leads to. -/
structure Leads (limit : UInt32) (p p' : Pool) : Prop where
  sound : p'.Sound limit
  finished : KeepsFinished p.store.settlements p'.store.settlements
  follows : ∀ (i : ℕ) (w : Worker), p.workers[i]? = some w → ∃ w', p'.workers[i]? = some w' ∧
    ∀ r ∈ w.held, Follows limit r w'.held p'.store.settlements p.recorded p'.recorded

variable {limit : UInt32} {p p' : Pool} {stamp : Stamp} {w : Worker} {i j : ℕ} {id : TradeId}

theorem mem_held_of_getElem? (hw : p.workers[i]? = some w) {r : SettlementRecord}
    (hr : r ∈ w.held) : r ∈ p.held :=
  List.mem_flatMap.2 ⟨w, List.mem_of_getElem? hw, hr⟩

/-- The records that the others hold. -/
theorem exists_others (hw : p.workers[i]? = some w) :
    ∃ others, p.held.Perm (w.held ++ others) ∧
      ∀ w', ((p.workers.set i w').flatMap Worker.held).Perm (w'.held ++ others) := by
  obtain ⟨l₁, l₂, hl, hset⟩ := exists_split hw
  have hperm : ∀ w' : Worker, ((l₁ ++ w' :: l₂).flatMap Worker.held).Perm
      (w'.held ++ (l₁ ++ l₂).flatMap Worker.held) := fun w' =>
    List.Perm.flatMap_right _ List.perm_middle
  refine ⟨(l₁ ++ l₂).flatMap Worker.held, ?_, fun w' => ?_⟩
  · rw [held, hl]
    exact hperm w
  · rw [hset]
    exact hperm w'

/-- A settler that goes on as it was. -/
theorem Sound.follows_same (hs' : p'.Sound limit) (hw : p'.workers[i]? = some w)
    {log : List TradeId} : ∃ w', p'.workers[i]? = some w' ∧
      ∀ r ∈ w.held, Follows limit r w'.held p'.store.settlements log p'.recorded :=
  ⟨w, hw, fun _ hr =>
    Or.inl ⟨hr, (hs'.accounted.mem_iff.1 (mem_held_of_getElem? hw hr)).1⟩⟩

/-- A settler goes on with the answer to its call. -/
theorem Sound.proceed (hs : p.Sound limit) {c : Call} {next : c.Reply → Work Unit}
    {held : List SettlementRecord} (hw : p.workers[i]? = some ⟨.call c next, held⟩)
    {reply : c.Reply} {store : Store}
    (h : ∀ others, Accounted limit p.store.settlements (held ++ others) p.recorded →
      Dutiful limit c held → Proceeds limit c reply p.store store held others p.recorded) :
    p.Leads limit (p.proceed store i held c next reply) := by
  obtain ⟨hdutiful, hnext⟩ := hs.keeps _ (List.mem_of_getElem? hw) trivial
  obtain ⟨others, hperm, hset⟩ := exists_others hw
  have hp := h others (hs.accounted.perm hperm.symm) hdutiful
  have hsound : (p.proceed store i held c next reply).Sound limit := by
    refine ⟨hp.accounted.perm (hset _), fun r hr => ?_, fun id hid => ?_, fun w hw' => ?_⟩
    · have hterms : r.terms ∈ store.settlements.map SettlementRecord.terms :=
        List.mem_map_of_mem hr
      rw [hp.terms_eq] at hterms
      obtain ⟨q, hq, heq⟩ := List.mem_map.1 hterms
      show r.trade ∈ store.trades
      rw [hp.trades_eq, ← show q.trade = r.trade from congrArg Prod.fst heq]
      exact hs.traded q hq
    · show ∃ t ∈ store.trades, t.id = id
      rw [hp.trades_eq]
      rcases mem_recordedAfter hdutiful hid with hid | hid
      · exact hs.named id hid
      · obtain ⟨r, hr, rfl⟩ := List.mem_map.1 hid
        have hmem := hs.accounted.mem_iff.1 (mem_held_of_getElem? hw hr)
        exact ⟨r.trade, hs.traded r hmem.1, rfl⟩
    · rcases List.mem_or_eq_of_mem_set hw' with hw' | rfl
      · exact hs.keeps w hw'
      · exact hnext reply _ ⟨hp.dependable, rfl⟩
  refine ⟨hsound, hp.finished, fun j w hj => ?_⟩
  by_cases hij : i = j
  · subst hij
    obtain rfl := Option.some.inj (hw.symm.trans hj)
    exact ⟨_, List.getElem?_set_self (List.getElem?_eq_some_iff.1 hw).1, hp.follows⟩
  · exact hsound.follows_same ((List.getElem?_set_ne hij).trans hj)

/-- Anyone but a settler uses the store. -/
theorem Sound.callStore (hs : p.Sound limit) (hlimit : 1 ≤ limit) {c : StoreCall}
    (hc : ¬c.OfSettlements) (h : p.callStore? stamp c = some p') : p.Leads limit p' := by
  rw [callStore?, Option.ite_none_right_eq_some] at h
  obtain ⟨hfresh, h⟩ := h
  cases h
  have hstep := Store.recordsStep p.store stamp c
  have hrecords : Accounted limit (p.store.perform stamp c).2.settlements p.held p.recorded ∧
      KeepsFinished p.store.settlements (p.store.perform stamp c).2.settlements := by
    rcases Store.settlements_cases p.store stamp hc with heq | ⟨r, hstatus, hattempts, heq, htrades⟩
    · rw [heq]
      exact ⟨hs.accounted, .refl _⟩
    · have hnew : ∀ t ∈ p.store.trades, t.id ≠ r.tradeId := by
        refine hfresh r.trade ?_
        rw [htrades, List.drop_left]
        exact List.mem_singleton_self _
      have hlog : r.tradeId ∉ p.recorded := by
        intro hid
        obtain ⟨t, ht, heq⟩ := hs.named _ hid
        exact hnew t ht heq
      rw [heq]
      exact ⟨hs.accounted.add hlimit hstatus hattempts (fun q hq => hnew _ (hs.traded q hq)) hlog,
        .append _ _⟩
  have hsound : Sound limit { p with store := (p.store.perform stamp c).2 } := by
    refine ⟨hrecords.1, fun r hr => hstep.trade_mem hs.traded hr, fun id hid => ?_, hs.keeps⟩
    obtain ⟨t, ht, rfl⟩ := hs.named id hid
    exact ⟨t, hstep.trades_subset ht, rfl⟩
  exact ⟨hsound, hrecords.2, fun j w hj => hsound.follows_same hj⟩

theorem Sound.employ (hs : p.Sound limit) {work : Work Unit} (hwork : KeepsClaims limit work []) :
    p.Leads limit (p.employ work) := by
  have hheld : (p.employ work).held = p.held := by
    simp [held, Pool.employ]
  have hsound : (p.employ work).Sound limit := by
    refine ⟨hheld ▸ hs.accounted, hs.traded, hs.named, fun w hw => ?_⟩
    rcases List.mem_append.1 hw with hw | hw
    · exact hs.keeps w hw
    · rw [List.mem_singleton.1 hw]
      exact hwork
  refine ⟨hsound, .refl _, fun j w hj => hsound.follows_same ?_⟩
  exact (List.getElem?_append_left (List.getElem?_eq_some_iff.1 hj).1).trans hj

theorem Sound.act (hs : p.Sound limit) (hlimit : 1 ≤ limit) {act : Act}
    (h : p.act? limit act = some p') : p.Leads limit p' := by
  cases act with
  | call stamp c =>
    cases c with
    | claimSettlement id => cases h
    | claimPending size => cases h
    | recordAttempt id failure limit => cases h
    | releaseClaim id => cases h
    | _ => exact hs.callStore hlimit id h
  | settle batchSize id =>
    cases h
    exact hs.employ (Settler.keepsClaims_settle limit batchSize id)
  | drain batchSize =>
    cases h
    exact hs.employ (Settler.keepsClaims_drain limit batchSize)
  | advance worker stamp ledger =>
    rw [act?] at h
    split at h
    · next c next held hw =>
      cases h
      exact hs.proceed hw fun others haccounted hdutiful => proceeds_answer haccounted hdutiful
    · cases h
  | lose worker e =>
    rw [act?] at h
    split at h
    · next id failure maxAttempts next held hw =>
      cases h
      exact hs.proceed hw fun others haccounted _ => .unchanged haccounted ⟨_, rfl⟩ rfl rfl
    · cases h

theorem sound_empty : empty.Sound limit := by
  refine ⟨⟨List.nodup_nil, .nil, ?_, ?_⟩, ?_, ?_, ?_⟩ <;>
  · intro a ha
    cases ha

theorem Sound.run {acts : List Act} (hs : p.Sound limit) (hlimit : 1 ≤ limit)
    (h : p.run? limit acts = some p') :
    p'.Sound limit ∧ KeepsFinished p.store.settlements p'.store.settlements := by
  induction acts generalizing p with
  | nil =>
    cases h
    exact ⟨hs, .refl _⟩
  | cons act acts ih =>
    rw [run?, List.foldlM_cons] at h
    obtain ⟨p₁, hact, hrest⟩ := Option.bind_eq_some_iff.1 h
    have hleads := hs.act hlimit hact
    obtain ⟨hs', hfinished⟩ := ih hleads.sound hrest
    exact ⟨hs', hleads.finished.trans hfinished⟩

/-- A record is held by one settler only. -/
theorem Sound.holder_unique (hs : p.Sound limit) {w' : Worker} (hw : p.workers[i]? = some w)
    (hw' : p.workers[j]? = some w') (h : w.Holds id) (h' : w'.Holds id) : i = j := by
  have hnodup := hs.accounted.held_names_nodup
  rw [held, List.map_flatMap, List.nodup_flatMap, List.pairwise_iff_getElem] at hnodup
  obtain ⟨hi, rfl⟩ := List.getElem?_eq_some_iff.1 hw
  obtain ⟨hj, rfl⟩ := List.getElem?_eq_some_iff.1 hw'
  rcases Nat.lt_trichotomy i j with hlt | heq | hlt
  · exact (hnodup.2 i j hi hj hlt h h').elim
  · exact heq
  · exact (hnodup.2 j i hj hi hlt h' h).elim

/-- A record is in flight just when a settler holds it. -/
theorem Sound.inFlight_iff (hs : p.Sound limit) {r : SettlementRecord}
    (hr : r ∈ p.store.settlements) :
    r.status = .inFlight ↔ ∃ (i : ℕ) (w : Worker), p.workers[i]? = some w ∧ w.Holds r.tradeId := by
  constructor
  · intro hstatus
    obtain ⟨w, hw, hheld⟩ := List.mem_flatMap.1 (hs.accounted.mem_iff.2 ⟨hr, hstatus⟩)
    obtain ⟨i, hi⟩ := List.mem_iff_getElem?.1 hw
    exact ⟨i, w, hi, List.mem_map_of_mem hheld⟩
  · rintro ⟨i, w, hw, hholds⟩
    obtain ⟨q, hq, hid⟩ := List.mem_map.1 hholds
    obtain ⟨hmem, hstatus⟩ := hs.accounted.mem_iff.1 (mem_held_of_getElem? hw hq)
    rwa [← List.inj_on_of_nodup_map hs.accounted.names_nodup hmem hr hid]

/-- A settler calls the ledger for what it holds. -/
theorem Sound.holds_of_settles (hs : p.Sound limit) (hw : w ∈ p.workers) (h : w.Settles id) :
    w.Holds id := by
  obtain ⟨trade, release, next, hwork, rfl⟩ := h
  have hkeeps := hs.keeps w hw
  rw [KeepsClaims, hwork] at hkeeps
  obtain ⟨hdutiful, -⟩ := hkeeps trivial
  cases hdutiful with
  | settle holds => exact List.mem_map_of_mem holds

/-- However settlers, their ledger and the others take turns: a record is in flight just when one
settler holds it, and no other; its attempts are those that were recorded, within the limit; no two
settlers have calls for the same trade in progress; a settler that is done holds nothing; finished
records stay as they are; and the claim of a record lasts, with the record as it is, until an
attempt is recorded or the record is back in the queue with no attempt more. -/
theorem one_holder (hlimit : 1 ≤ limit) {acts : List Act} (h : empty.run? limit acts = some p) :
    (∀ r ∈ p.store.settlements,
      (r.status = .inFlight ↔ ∃! i : ℕ, ∃ w : Worker, p.workers[i]? = some w ∧ w.Holds r.tradeId) ∧
      r.attempts.toNat = p.recorded.count r.tradeId ∧ r.Within limit) ∧
    (∀ (i j : ℕ) (w w' : Worker) (id : TradeId), p.workers[i]? = some w → p.workers[j]? = some w' →
      w.Settles id → w'.Settles id → i = j) ∧
    (∀ w ∈ p.workers, w.work = .done () → w.held = []) ∧
    (∀ acts' p', p.run? limit acts' = some p' →
      KeepsFinished p.store.settlements p'.store.settlements) ∧
    ∀ act p', p.act? limit act = some p' → ∀ (i : ℕ) (w : Worker), p.workers[i]? = some w →
      ∃ w', p'.workers[i]? = some w' ∧
        ∀ r ∈ w.held, Follows limit r w'.held p'.store.settlements p.recorded p'.recorded := by
  have hs : p.Sound limit := (sound_empty.run hlimit h).1
  refine ⟨fun r hr => ⟨?_, hs.accounted.attempts_eq r hr, hs.accounted.within r hr⟩,
    fun i j w w' id hw hw' hsettles hsettles' => ?_, fun w hw hdone => ?_,
    fun acts' p' hrun => (hs.run hlimit hrun).2, fun act p' hact => (hs.act hlimit hact).follows⟩
  · rw [hs.inFlight_iff hr]
    refine ⟨fun ⟨i, hi⟩ => ⟨i, hi, ?_⟩, ExistsUnique.exists⟩
    rintro j ⟨w', hw', hholds'⟩
    obtain ⟨w, hw, hholds⟩ := hi
    exact hs.holder_unique hw' hw hholds' hholds
  · exact hs.holder_unique hw hw' (hs.holds_of_settles (List.mem_of_getElem? hw) hsettles)
      (hs.holds_of_settles (List.mem_of_getElem? hw') hsettles')
  · have hkeeps := hs.keeps w hw
    rw [KeepsClaims, hdone] at hkeeps
    exact hkeeps

/-- A first settler fails and cannot even record that, while a second one comes too early. A third
one has the trade in progress. -/
def lostRecord : List Act :=
  let stamp : Stamp := ⟨.ofNat 9, .epoch⟩
  let fails (worker : ℕ) : Act := .advance worker stamp fun _ => .error (.unavailable "timeout")
  Store.matchedPair.map (fun c => .call c.1 c.2) ++
    [.drain 10, .settle 10 ⟨.ofNat 3⟩, fails 0, fails 1, fails 0,
      .lose 0 (.unavailable "connection lost"), fails 0, .settle 10 ⟨.ofNat 3⟩, fails 2]

theorem one_holder_lostRecord : 1 ≤ (2 : UInt32) ∧ ∃ p, empty.run? 2 lostRecord = some p ∧
    p.store.settlements.map (fun r => (r.tradeId, r.status, r.attempts)) =
      [(⟨.ofNat 3⟩, .inFlight, 0)] ∧
    p.workers.map (fun w => w.held.map SettlementRecord.tradeId) = [[], [], [⟨.ofNat 3⟩]] ∧
    ∀ r ∈ p.store.settlements,
      (r.status = .inFlight ↔ ∃! i : ℕ, ∃ w : Worker, p.workers[i]? = some w ∧ w.Holds r.tradeId) ∧
      r.attempts.toNat = p.recorded.count r.tradeId ∧ r.Within 2 := by
  have hrun : (empty.run? 2 lostRecord).map (fun p =>
      (p.store.settlements.map fun r => (r.tradeId, r.status, r.attempts),
        p.workers.map fun w => w.held.map SettlementRecord.tradeId)) =
      some ([(⟨.ofNat 3⟩, .inFlight, 0)], [[], [], [⟨.ofNat 3⟩]]) := by
    decide +kernel
  obtain ⟨p, hp, heq⟩ := Option.map_eq_some_iff.1 hrun
  obtain ⟨hrecords, hheld⟩ := Prod.mk.inj heq
  exact ⟨by decide, p, hp, hrecords, hheld, (one_holder (by decide) hp).1⟩

end Pool

end Bourse
