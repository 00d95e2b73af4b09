import Bourse.Proofs.Settlement.Log
import Bourse.Proofs.Settlement.Workers
import Bourse.Proofs.Store.Conservation

/-!
# Settling exactly once

Any number of settlers work at the same time on a ledger that they reach only through an unreliable
relay. A store may be taken down to a snapshot and built up again at any time, while settlers go on
with the old one, and orders are matched and funds moved in between.

However this goes: what is on the ledger is what the movements and the transfers of the settled
trades come to, each of these made exactly once.
-/

namespace Bourse

/-- How a call to settle a trade gets to the ledger, and its answer to the caller. -/
inductive Relay where
  /-- The call does not get to the ledger. -/
  | dropped (e : LedgerError)
  /-- The ledger does what it is asked, and its answer comes through. -/
  | passed
  /-- The ledger does what it is asked, and its answer is lost. -/
  | unacknowledged (e : LedgerError)

namespace Relay

/-- A call to settle a trade, as it comes through a relay. -/
def settle (l : Ledger) (t : Trade) (release : Decimal) : Relay → Ledger.Result Unit
  | dropped e => (.ok (.error e), l)
  | passed => l.settle t release
  | unacknowledged e => ((l.settle t release).1.map fun _ => .error e, (l.settle t release).2)

/-- Carries out a call. Only calls that settle a trade are relayed. -/
def perform (relay : Relay) (l : Ledger) : (c : LedgerCall) → Outcome LedgerError c.Answer × Ledger
  | .settle trade release => relay.settle l trade release
  | c => l.perform c

end Relay

/-- A ledger, the stores that were built up so far, and settlers at work, each on one of the stores.
The history holds the movements on the ledger. -/
structure Site where
  stores : List Store
  ledger : Ledger
  history : List Movement
  workers : List (ℕ × Work Unit)

namespace Site

/-- A site with one store. -/
def empty : Site := ⟨[Store.empty], Ledger.empty, [], []⟩

/-- No trade has this name. -/
def Unused (s : Site) (id : TradeId) : Prop :=
  ∀ store ∈ s.stores, ∀ t ∈ store.trades, t.id ≠ id

instance (s : Site) (id : TradeId) : Decidable (s.Unused id) :=
  inferInstanceAs (Decidable (∀ store ∈ s.stores, ∀ t ∈ store.trades, t.id ≠ id))

/-- Makes a call to one of the stores. A new trade must have a new name. -/
def callStore? (s : Site) (place : ℕ) (stamp : Stamp) (c : StoreCall) :
    Option (Outcome StoreError c.Answer × Site) :=
  match s.stores[place]? with
  | none => none
  | some store =>
    let (reply, store') := store.perform stamp c
    if ∀ t ∈ store'.trades.drop store.trades.length, s.Unused t.id then
      some (reply, { s with stores := s.stores.set place store' })
    else none

/-- Answers a call of a settler, unless the ledger overflows. -/
def answer? (s : Site) (place : ℕ) (stamp : Stamp) (relay : Relay) :
    (c : Call) → Option (c.Reply × Site)
  | .stamp => some (stamp, s)
  | .store c => s.callStore? place stamp c
  | .ledger c =>
    match relay.perform s.ledger c with
    | (.ok answer, ledger) => some (.ok answer, { s with ledger })
    | (.error _, _) => none

/-- What can happen next. -/
inductive Act where
  /-- A call to a store, of anyone but a settler. -/
  | call (place : ℕ) (stamp : Stamp) (c : StoreCall)
  | move (m : Movement)
  /-- A store is built up again from a snapshot. -/
  | restart (place : ℕ)
  | settle (place : ℕ) (settler : Settler) (id : TradeId)
  | drain (place : ℕ) (settler : Settler)
  /-- A settler makes its next call. -/
  | advance (worker : ℕ) (stamp : Stamp) (relay : Relay)

/-- Adds a settler that works on one of the stores. -/
def employ (s : Site) (place : ℕ) (work : Work Unit) : Site :=
  { s with workers := s.workers ++ [(place, work)] }

/-- The site after something has happened, if it can. -/
def act? (s : Site) : Act → Option Site
  | .call _ _ (.recordAttempt _ _ _) => none
  | .call place stamp c => (s.callStore? place stamp c).map Prod.snd
  | .move m =>
    match s.ledger.move m with
    | .ok ledger => some { s with ledger, history := s.history ++ [m] }
    | .error _ => none
  | .restart place =>
    s.stores[place]?.map fun store =>
      { s with stores := s.stores ++ [Store.ofSnapshot store.snapshot] }
  | .settle place settler id => some (s.employ place (Task.ignoring (settler.settle id)))
  | .drain place settler => some (s.employ place (Task.ignoring settler.drain))
  | .advance worker stamp relay =>
    match s.workers[worker]? with
    | some (place, .call c next) =>
      (s.answer? place stamp relay c).map fun answer =>
        { answer.2 with workers := s.workers.set worker (place, next answer.1) }
    | _ => none

/-- The site after several things have happened. -/
def run? (s : Site) (acts : List Act) : Option Site :=
  acts.foldlM act? s

/-- What is known at a site. -/
def known (s : Site) : Known where
  records := s.stores.flatMap fun store => store.settlements.map SettlementRecord.terms
  settled := s.ledger.settled

/-- A log tells what has happened to the ledger: all movements, and the transfers of each settled
trade once. -/
structure Logged (s : Site) (log : List Entry) : Prop where
  replay_eq : Ledger.empty.replay log = .ok (s.ledger.marked [])
  movements_eq : log.filterMap Entry.movement? = s.history
  settled_eq : (log.filterMap Entry.transfer?).map (fun p => p.1.id) = s.ledger.settled.reverse
  settled_nodup : s.ledger.settled.Nodup
  recorded : ∀ p ∈ log.filterMap Entry.transfer?, p ∈ s.known.records

/-- What holds at every site. -/
structure Sound (s : Site) : Prop where
  logged : ∃ log, s.Logged log
  recorded : ∀ store ∈ s.stores, ∀ r ∈ store.settlements, r.trade ∈ store.trades
  agreed : ∀ p ∈ s.known.records, ∀ q ∈ s.known.records, p.1.id = q.1.id → p = q
  settled : ∀ store ∈ s.stores, ∀ r ∈ store.settlements, r.status = .settled →
    r.trade.id ∈ s.ledger.settled
  trusted : ∀ w ∈ s.workers, Trusted w.2 s.known

variable {s s' : Site} {place : ℕ} {stamp : Stamp} {relay : Relay}

theorem mem_records {p : Trade × Decimal} :
    p ∈ s.known.records ↔ ∃ store ∈ s.stores, p ∈ store.settlements.map SettlementRecord.terms :=
  List.mem_flatMap

theorem Logged.congr {log : List Entry} (h : s.Logged log) (hledger : s'.ledger = s.ledger)
    (hhistory : s'.history = s.history) (hknown : s.known ≤ s'.known) : s'.Logged log where
  replay_eq := by rw [hledger, h.replay_eq]
  movements_eq := by rw [hhistory, h.movements_eq]
  settled_eq := by rw [hledger, h.settled_eq]
  settled_nodup := by
    rw [hledger]
    exact h.settled_nodup
  recorded p hp := hknown.records (h.recorded p hp)

/-! ### Stores -/

theorem mem_set {store store' : Store} (hplace : s.stores[place]? = some store) {p : Store}
    (hp : p ∈ s.stores) : p = store ∨ p ∈ s.stores.set place store' := by
  obtain ⟨i, hi⟩ := List.mem_iff_getElem?.1 hp
  by_cases heq : place = i
  · subst heq
    left
    rw [hplace] at hi
    exact (Option.some.inj hi).symm
  · right
    rw [← List.getElem?_set_ne heq] at hi
    exact List.mem_of_getElem? hi

/-- Records that agree still do with one more, if its trade has another name than theirs. -/
theorem agree_of_new {old new : List (Trade × Decimal)} {r : Trade × Decimal}
    (hagreed : ∀ p ∈ old, ∀ q ∈ old, p.1.id = q.1.id → p = q)
    (hback : ∀ p ∈ new, p ∈ old ∨ p = r) (hunused : ∀ p ∈ old, p.1.id ≠ r.1.id) :
    ∀ p ∈ new, ∀ q ∈ new, p.1.id = q.1.id → p = q := by
  intro p hp q hq hid
  rcases hback p hp with hp | rfl
  · rcases hback q hq with hq | rfl
    · exact hagreed p hp q hq hid
    · exact absurd hid (hunused p hp)
  · rcases hback q hq with hq | rfl
    · exact absurd hid.symm (hunused q hq)
    · rfl

/-- One of the stores goes on as another one. -/
theorem Sound.proceed (hs : s.Sound) {store store' : Store} {c : StoreCall} {stores : List Store}
    (hmem : store ∈ s.stores) (hstep : Store.RecordsStep store store' c)
    (hc : ∀ id limit, c = .recordAttempt id none limit → id ∈ s.ledger.settled)
    (hnew : ∀ t ∈ store'.trades.drop store.trades.length, s.Unused t.id)
    (hstores : ∀ q ∈ stores, q ∈ s.stores ∨ q = store')
    (hknown : s.known ≤ { s with stores }.known) : Sound { s with stores } := by
  have hold : ∀ p ∈ { s with stores }.known.records,
      p ∈ s.known.records ∨ p ∈ store'.settlements.map SettlementRecord.terms := by
    intro p hp
    obtain ⟨q, hq, hpq⟩ := mem_records.1 hp
    rcases hstores q hq with hq | rfl
    · exact Or.inl (mem_records.2 ⟨q, hq, hpq⟩)
    · exact Or.inr hpq
  have hstored : ∀ p ∈ store.settlements.map SettlementRecord.terms, p ∈ s.known.records :=
    fun p hp => mem_records.2 ⟨store, hmem, hp⟩
  constructor
  · obtain ⟨log, hlog⟩ := hs.logged
    exact ⟨log, hlog.congr rfl rfl hknown⟩
  · intro q hq r hr
    rcases hstores q hq with hq | rfl
    · exact hs.recorded q hq r hr
    · exact hstep.trade_mem (hs.recorded store hmem) hr
  · rcases hstep.terms_cases with heq | ⟨r, hr, heq⟩
    · have hback : ∀ p ∈ { s with stores }.known.records, p ∈ s.known.records := by
        intro p hp
        rcases hold p hp with hp | hp
        · exact hp
        · rw [heq] at hp
          exact hstored p hp
      exact fun p hp q hq => hs.agreed p (hback p hp) q (hback q hq)
    · have hback : ∀ p ∈ { s with stores }.known.records, p ∈ s.known.records ∨ p = r.terms := by
        intro p hp
        rcases hold p hp with hp | hp
        · exact Or.inl hp
        · rw [heq] at hp
          rcases List.mem_append.1 hp with hp | hp
          · exact Or.inl (hstored p hp)
          · exact Or.inr (List.mem_singleton.1 hp)
      -- The trade of the new record is unlike all recorded ones by its name.
      have hunused : ∀ p ∈ s.known.records, p.1.id ≠ r.trade.id := by
        intro p hp
        obtain ⟨q, hq, hpq⟩ := mem_records.1 hp
        obtain ⟨r', hr', rfl⟩ := List.mem_map.1 hpq
        exact hnew r.trade hr q hq r'.trade (hs.recorded q hq r' hr')
      exact agree_of_new hs.agreed hback hunused
  · intro q hq r hr hsettled
    rcases hstores q hq with hq | rfl
    · exact hs.settled q hq r hr hsettled
    · rcases hstep.settled hr hsettled with ⟨r₀, hr₀, hid, hsettled₀⟩ | ⟨limit, hcall⟩
      · have h := hs.settled store hmem r₀ hr₀ hsettled₀
        rwa [hid] at h
      · exact hc _ _ hcall
  · exact fun w hw => (hs.trusted w hw).mono hknown

/-- A call to a store leaves everything in order, if it records a success only of a trade that is
settled. -/
theorem Sound.callStore (hs : s.Sound) {c : StoreCall} {reply : Outcome StoreError c.Answer}
    (hc : ∀ id limit, c = .recordAttempt id none limit → id ∈ s.ledger.settled)
    (h : s.callStore? place stamp c = some (reply, s')) :
    s'.Sound ∧ s'.workers = s.workers ∧ Known.answers (.store c) s.known reply s'.known := by
  unfold callStore? at h
  cases hplace : s.stores[place]? with
  | none =>
    rw [hplace] at h
    cases h
  | some store =>
    rw [hplace] at h
    dsimp only at h
    split at h
    · rename_i hnew
      cases h
      have hstep := store.recordsStep stamp c
      have hmem' : (store.perform stamp c).2 ∈ s.stores.set place (store.perform stamp c).2 :=
        List.mem_set (List.getElem?_eq_some_iff.1 hplace).1 _
      have hknown : s.known ≤
          { s with stores := s.stores.set place (store.perform stamp c).2 }.known := by
        refine ⟨?_, List.Subset.refl _⟩
        intro p hp
        obtain ⟨q, hq, hpq⟩ := mem_records.1 hp
        rcases mem_set hplace hq with rfl | hq
        · exact mem_records.2 ⟨_, hmem', hstep.terms_subset hpq⟩
        · exact mem_records.2 ⟨q, hq, hpq⟩
      refine ⟨?_, rfl, hknown, ?_⟩
      · exact hs.proceed (List.mem_of_getElem? hplace) hstep hc hnew
          (fun q hq => List.mem_or_eq_of_mem_set hq) hknown
      · exact store.truthful_perform stamp c fun r hr =>
          mem_records.2 ⟨_, hmem', List.mem_map_of_mem hr⟩
    · cases h

/-- Building a store up again from a snapshot leaves everything in order. -/
theorem Sound.restart (hs : s.Sound) {store : Store} (hmem : store ∈ s.stores) :
    Sound { s with stores := s.stores ++ [Store.ofSnapshot store.snapshot] } := by
  have hkept := store.recordsKept_ofSnapshot .activeMarkets
  have htrades : (Store.ofSnapshot store.snapshot).trades = store.trades :=
    Store.trades_ofSnapshot store.snapshot
  refine hs.proceed hmem (.kept hkept htrades) ?_ ?_ ?_ ?_
  · intro id limit h
    cases h
  · intro t ht
    rw [htrades, List.drop_length] at ht
    cases ht
  · intro q hq
    rcases List.mem_append.1 hq with hq | hq
    · exact Or.inl hq
    · exact Or.inr (List.mem_singleton.1 hq)
  · refine ⟨?_, List.Subset.refl _⟩
    intro p hp
    obtain ⟨q, hq, hpq⟩ := mem_records.1 hp
    exact mem_records.2 ⟨q, List.mem_append_left _ hq, hpq⟩

/-! ### The ledger -/

/-- An entry that is made on the ledger is added to the log. -/
theorem Logged.enter {log : List Entry} (h : s.Logged log) {e : Entry} {l : Ledger}
    (he : s.ledger.enter e = .ok l) :
    Ledger.empty.replay (log ++ [e]) = .ok (l.marked []) := by
  rw [Ledger.replay_concat, h.replay_eq]
  show (s.ledger.marked []).enter e = _
  rw [Ledger.enter_marked, he]
  rfl

theorem Sound.move (hs : s.Sound) {m : Movement} {l : Ledger} (h : s.ledger.move m = .ok l) :
    Sound { s with ledger := l, history := s.history ++ [m] } := by
  have hsettled : l.settled = s.ledger.settled := Ledger.settled_of_enter (e := .movement m) h
  have hknown : s.known = { s with ledger := l, history := s.history ++ [m] }.known := by
    rw [known, known, hsettled]
  constructor
  · obtain ⟨log, hlog⟩ := hs.logged
    have hreplay : Ledger.empty.replay (log ++ [.movement m]) = .ok (l.marked []) := hlog.enter h
    refine ⟨log ++ [.movement m], hreplay, ?_, ?_, ?_, ?_⟩
    · rw [List.filterMap_append, hlog.movements_eq]
      rfl
    · rw [List.filterMap_append, hsettled, ← hlog.settled_eq]
      exact congrArg _ (List.append_nil _)
    · rw [hsettled]
      exact hlog.settled_nodup
    · intro p hp
      rw [List.filterMap_append] at hp
      rcases List.mem_append.1 hp with hp | hp
      · exact hlog.recorded p hp
      · cases hp
  · exact hs.recorded
  · exact hs.agreed
  · intro q hq r hr hstatus
    rw [hsettled]
    exact hs.settled q hq r hr hstatus
  · intro w hw
    rw [← hknown]
    exact hs.trusted w hw

/-- Settling a recorded trade leaves everything in order. -/
theorem Sound.markSettled (hs : s.Sound) {t : Trade} {release : Decimal} {l : Ledger}
    (hrecorded : (t, release) ∈ s.known.records) (hnew : t.id ∉ s.ledger.settled)
    (h : s.ledger.enter (.transfer t release) = .ok l) :
    Sound { s with ledger := l.markSettled t.id } ∧
      s.known ≤ { s with ledger := l.markSettled t.id }.known := by
  have hsettled : (l.markSettled t.id).settled = t.id :: s.ledger.settled :=
    congrArg _ (Ledger.settled_of_enter h)
  have hknown : s.known ≤ { s with ledger := l.markSettled t.id }.known := by
    refine ⟨List.Subset.refl _, ?_⟩
    show s.ledger.settled ⊆ (l.markSettled t.id).settled
    rw [hsettled]
    exact List.subset_cons_self _ _
  refine ⟨?_, hknown⟩
  constructor
  · obtain ⟨log, hlog⟩ := hs.logged
    have hreplay : Ledger.empty.replay (log ++ [.transfer t release]) = .ok (l.marked []) :=
      hlog.enter h
    refine ⟨log ++ [.transfer t release], hreplay, ?_, ?_, ?_, ?_⟩
    · rw [List.filterMap_append, hlog.movements_eq]
      exact List.append_nil _
    · rw [List.filterMap_append, List.map_append, hlog.settled_eq, hsettled, List.reverse_cons]
      rfl
    · rw [hsettled]
      exact List.nodup_cons.2 ⟨hnew, hlog.settled_nodup⟩
    · intro p hp
      rw [List.filterMap_append] at hp
      rcases List.mem_append.1 hp with hp | hp
      · exact hlog.recorded p hp
      · rw [List.mem_singleton.1 hp]
        exact hrecorded
  · exact hs.recorded
  · exact hs.agreed
  · intro q hq r hr hstatus
    exact hknown.settled (hs.settled q hq r hr hstatus)
  · exact fun w hw => (hs.trusted w hw).mono hknown

/-- However a call to settle a trade is relayed: the ledger is as before, or the trade was new and
its transfers are made. An answer of success is true. -/
theorem relay_settle_eq_ok {l l' : Ledger} {t : Trade} {release : Decimal}
    {answer : Except LedgerError Unit} (h : relay.settle l t release = (.ok answer, l')) :
    (l' = l ∧ (answer = .ok () → t.id ∈ l.settled)) ∨
      ∃ l₁, t.id ∉ l.settled ∧ l.enter (.transfer t release) = .ok l₁ ∧
        l' = l₁.markSettled t.id := by
  cases relay with
  | dropped e =>
    cases h
    exact Or.inl ⟨rfl, fun h => (by cases h)⟩
  | passed => exact Ledger.settle_eq_ok h
  | unacknowledged e =>
    rw [Relay.settle] at h
    cases hsettle : l.settle t release with
    | mk result l₁ =>
      rw [hsettle] at h
      cases result with
      | error overflow => cases h
      | ok answer₁ =>
        cases h
        rcases Ledger.settle_eq_ok hsettle with ⟨heq, -⟩ | hnew
        · exact Or.inl ⟨heq, fun h => (by cases h)⟩
        · exact Or.inr hnew

theorem Sound.relayed (hs : s.Sound) {t : Trade} {release : Decimal} {l : Ledger}
    {answer : Except LedgerError Unit} (hrecorded : (t, release) ∈ s.known.records)
    (h : relay.settle s.ledger t release = (.ok answer, l)) :
    Sound { s with ledger := l } ∧
      Known.answers (.ledger (.settle t release)) s.known (.ok answer)
        { s with ledger := l }.known := by
  rcases relay_settle_eq_ok h with ⟨rfl, hmem⟩ | ⟨l₁, hnew, henter, rfl⟩
  · refine ⟨hs, le_refl _, fun hreply => hmem ?_⟩
    exact Except.ok.inj hreply
  · obtain ⟨hsound, hknown⟩ := hs.markSettled hrecorded hnew henter
    exact ⟨hsound, hknown, fun _ => List.mem_cons_self⟩

/-! ### Runs -/

/-- Answering an honest call leaves everything in order. -/
theorem Sound.answer (hs : s.Sound) {c : Call} {reply : c.Reply} (hc : Honest c s.known)
    (h : s.answer? place stamp relay c = some (reply, s')) :
    s'.Sound ∧ s'.workers = s.workers ∧ Known.answers c s.known reply s'.known := by
  cases hc with
  | claimSettlement id => exact hs.callStore (fun _ _ hcall => (by cases hcall)) h
  | claimPending limit => exact hs.callStore (fun _ _ hcall => (by cases hcall)) h
  | releaseClaim id =>
    have hcall : s.callStore? place stamp (.releaseClaim id) = some (reply, s') := h
    exact hs.callStore (fun _ _ hcall => (by cases hcall)) hcall
  | recordAttempt settled =>
    refine hs.callStore (fun id limit hcall => ?_) h
    cases hcall
    exact settled rfl
  | @settle trade release _ recorded =>
    cases hrelay : relay.settle s.ledger trade release with
    | mk result l =>
      have hanswer : relay.perform s.ledger (.settle trade release) = (result, l) := hrelay
      rw [answer?, hanswer] at h
      cases result with
      | error overflow => cases h
      | ok answer =>
        cases h
        obtain ⟨hsound, hanswers⟩ := hs.relayed recorded hrelay
        exact ⟨hsound, rfl, hanswers⟩

theorem Sound.employ (hs : s.Sound) {work : Work Unit} (hwork : Trusted work s.known) :
    (s.employ place work).Sound := by
  refine ⟨?_, hs.recorded, hs.agreed, hs.settled, ?_⟩
  · obtain ⟨log, hlog⟩ := hs.logged
    exact ⟨log, hlog.congr rfl rfl (le_refl _)⟩
  · intro w hw
    rcases List.mem_append.1 hw with hw | hw
    · exact hs.trusted w hw
    · rw [List.mem_singleton.1 hw]
      exact hwork

theorem trusted_ignoring {ε α : Type} {t : Task ε α} {k : Known}
    (ht : Settler.wp t (fun _ _ => True) k) : Trusted (Task.ignoring t) k :=
  Work.wp_bind.2 ht

/-- A settler makes its next call, and goes on with the answer. -/
theorem Sound.advance (hs : s.Sound) {worker : ℕ} {c : Call} {next : c.Reply → Work Unit}
    {reply : c.Reply} (hworker : s.workers[worker]? = some (place, .call c next))
    (h : s.answer? place stamp relay c = some (reply, s')) :
    Sound { s' with workers := s.workers.set worker (place, next reply) } := by
  obtain ⟨honest, hnext⟩ := hs.trusted _ (List.mem_of_getElem? hworker) trivial
  obtain ⟨hsound, hworkers, hanswers⟩ := hs.answer honest h
  refine ⟨?_, hsound.recorded, hsound.agreed, hsound.settled, ?_⟩
  · obtain ⟨log, hlog⟩ := hsound.logged
    exact ⟨log, hlog.congr rfl rfl (le_refl _)⟩
  · intro w hw
    rcases List.mem_or_eq_of_mem_set hw with hw | rfl
    · rw [← hworkers] at hw
      exact hsound.trusted w hw
    · exact hnext reply _ hanswers

theorem Sound.act (hs : s.Sound) {act : Act} (h : s.act? act = some s') : s'.Sound := by
  cases act with
  | call place stamp c =>
    cases c with
    | recordAttempt id failure limit => cases h
    | _ =>
      obtain ⟨⟨reply, site⟩, hcall, rfl⟩ := Option.map_eq_some_iff.1 h
      exact (hs.callStore (fun _ _ hcall => (by cases hcall)) hcall).1
  | move m =>
    rw [act?] at h
    cases hmove : s.ledger.move m with
    | error overflow =>
      rw [hmove] at h
      cases h
    | ok l =>
      rw [hmove] at h
      cases h
      exact hs.move hmove
  | restart place =>
    obtain ⟨store, hplace, rfl⟩ := Option.map_eq_some_iff.1 h
    exact hs.restart (List.mem_of_getElem? hplace)
  | settle place settler id =>
    cases h
    exact hs.employ (trusted_ignoring (settler.wp_settle id))
  | drain place settler =>
    cases h
    exact hs.employ (trusted_ignoring settler.wp_drain)
  | advance worker stamp relay =>
    rw [act?] at h
    cases hworker : s.workers[worker]? with
    | none =>
      rw [hworker] at h
      cases h
    | some w =>
      obtain ⟨place, work⟩ := w
      rw [hworker] at h
      cases work with
      | done u => cases h
      | call c next =>
        obtain ⟨⟨reply, site⟩, hanswer, rfl⟩ := Option.map_eq_some_iff.1 h
        exact hs.advance hworker hanswer

theorem sound_empty : empty.Sound := by
  have hnone : ∀ store ∈ empty.stores, store.settlements = [] := by
    intro store hstore
    rw [List.mem_singleton.1 hstore]
    rfl
  refine ⟨⟨[], rfl, rfl, rfl, List.nodup_nil, ?_⟩, ?_, ?_, ?_, ?_⟩
  · intro p hp
    cases hp
  · intro store hstore r hr
    rw [hnone store hstore] at hr
    cases hr
  · intro p hp
    cases hp
  · intro store hstore r hr
    rw [hnone store hstore] at hr
    cases hr
  · intro w hw
    cases hw

theorem Sound.run {acts : List Act} (hs : s.Sound) (h : s.run? acts = some s') : s'.Sound := by
  induction acts generalizing s with
  | nil =>
    cases h
    exact hs
  | cons act acts ih =>
    rw [run?, List.foldlM_cons] at h
    obtain ⟨s₁, hact, hrest⟩ := Option.bind_eq_some_iff.1 h
    exact ih (hs.act hact) hrest

end Site

/-- Whatever happens at a site: the accounts are what the history of movements and the transfers of
the settled trades come to, each trade made exactly once and with the release of its record. Every
record that says so is settled, and settling a trade again changes nothing. -/
theorem Site.settled_once {acts : List Site.Act} {s : Site} (h : Site.empty.run? acts = some s) :
    (∃ log : List Entry,
      Ledger.empty.replay log = .ok (s.ledger.marked []) ∧
      log.filterMap Entry.movement? = s.history ∧
      (log.filterMap Entry.transfer?).map (fun p => p.1.id) = s.ledger.settled.reverse ∧
      s.ledger.settled.Nodup ∧
      ∀ p ∈ log.filterMap Entry.transfer?, ∃ store ∈ s.stores, ∃ r ∈ store.settlements,
        r.trade ∈ store.trades ∧ r.terms = p) ∧
    (∀ store ∈ s.stores, ∀ r ∈ store.settlements, ∀ store' ∈ s.stores, ∀ r' ∈ store'.settlements,
      r.trade.id = r'.trade.id → r.terms = r'.terms) ∧
    (∀ store ∈ s.stores, ∀ r ∈ store.settlements, r.status = .settled →
      r.trade.id ∈ s.ledger.settled) ∧
    ∀ (relay : Relay) (t : Trade) (release : Decimal), t.id ∈ s.ledger.settled →
      (relay.settle s.ledger t release).2 = s.ledger := by
  have hs := Site.sound_empty.run h
  have hknown : ∀ store ∈ s.stores, ∀ r ∈ store.settlements, r.terms ∈ s.known.records :=
    fun store hstore r hr => Site.mem_records.2 ⟨store, hstore, List.mem_map_of_mem hr⟩
  refine ⟨?_, ?_, hs.settled, ?_⟩
  · obtain ⟨log, hlog⟩ := hs.logged
    refine ⟨log, hlog.replay_eq, hlog.movements_eq, hlog.settled_eq, hlog.settled_nodup, ?_⟩
    intro p hp
    obtain ⟨store, hstore, hmem⟩ := Site.mem_records.1 (hlog.recorded p hp)
    obtain ⟨r, hr, rfl⟩ := List.mem_map.1 hmem
    exact ⟨store, hstore, r, hr, hs.recorded store hstore r hr, rfl⟩
  · intro store hstore r hr store' hstore' r' hr' hid
    exact hs.agreed _ (hknown store hstore r hr) _ (hknown store' hstore' r' hr') hid
  · intro relay t release hmem
    cases relay with
    | dropped e => rfl
    | passed => exact Ledger.settle_settled hmem release
    | unacknowledged e => exact Ledger.settle_settled hmem release

/-- Two orders are funded and matched. The first answer of the ledger is lost; after a restart the
trade is settled again. -/
def Site.lostAnswer : List Site.Act :=
  let stamp : Stamp := ⟨.ofNat 9, .epoch⟩
  let cash := Decimal.ofWord 250
  let lost : Relay := .unacknowledged (.unavailable "connection lost")
  [.move (.deposit ⟨1⟩ "USD" cash), .move (.lock ⟨1⟩ "USD" cash),
    .move (.deposit ⟨2⟩ "XAU" Store.oneAndHalf), .move (.lock ⟨2⟩ "XAU" Store.oneAndHalf)] ++
  Store.matchedPair.map (fun c => .call 0 c.1 c.2) ++
  [.settle 0 (.create 3 10) ⟨.ofNat 3⟩, .advance 0 stamp lost, .advance 0 stamp lost, .restart 0,
    .advance 0 stamp .passed, .drain 1 (.create 3 10), .advance 1 stamp .passed,
    .advance 1 stamp .passed, .advance 1 stamp .passed]

theorem Site.settled_once_lostAnswer : ∃ s, Site.empty.run? Site.lostAnswer = some s ∧
    s.ledger.settled = [⟨.ofNat 3⟩] ∧
    s.stores.map (fun store => store.settlements.map SettlementRecord.status) =
      [[.pending], [.settled]] ∧
    ∃ log : List Entry, Ledger.empty.replay log = .ok (s.ledger.marked []) ∧
      (log.filterMap Entry.transfer?).map (fun p => p.1.id) = s.ledger.settled.reverse := by
  have hrun : (Site.empty.run? Site.lostAnswer).map (fun s => (s.ledger.settled,
      s.stores.map fun store => store.settlements.map SettlementRecord.status)) =
      some ([⟨.ofNat 3⟩], [[.pending], [.settled]]) := by
    decide +kernel
  obtain ⟨s, hs, heq⟩ := Option.map_eq_some_iff.1 hrun
  obtain ⟨hsettled, hstatus⟩ := Prod.mk.inj heq
  obtain ⟨⟨log, hreplay, -, htransfers, -⟩, -⟩ := Site.settled_once hs
  exact ⟨s, hs, hsettled, hstatus, log, hreplay, htransfers⟩

end Bourse
