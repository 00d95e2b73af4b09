import Bourse.Proofs.Matching.Agreement
import Bourse.Proofs.Matching.Candidates
import Bourse.Proofs.Matching.Priority
import Bourse.Proofs.Matching.Runs
import Bourse.Proofs.Settlement.Calls
import Bourse.Proofs.SideBySide
import Bourse.Proofs.Trade.Legitimate

/-!
# Every trade is legitimate

Orders are placed and changed while an engine matches any number of markets and incoming orders, all
at the same time. Each piece of work makes its calls one after the other, with calls of others in
between, and the ledger answers as it likes.

A pair is chosen from a view of the book that may be out of date when the pair is matched. Whose
orders they are and which one came first is not looked at again then. It need not be, as it is part
of the terms of the two orders.
-/

namespace Bourse

/-- A store, and the work that is being done on it. -/
structure Floor where
  store : Store
  workers : List (Work Unit)

namespace Floor

/-- A floor with no orders and no work. -/
def empty : Floor := ⟨Store.empty, []⟩

/-- What can happen next. -/
inductive Act where
  /-- An order is built from its terms and inserted. -/
  | insert (stamp : Stamp) (terms : OrderTerms)
  | transition (stamp : Stamp) (id : OrderId) (t : Transition)
  | matchIncoming (id : OrderId)
  | matchMarket (market : Market)
  /-- The markets of a pass take turns. -/
  | pass (turns : List ℕ)
  /-- A piece of work makes its next call. The ledger may answer anything. -/
  | advance (worker : ℕ) (stamp : Stamp) (ledger : (c : LedgerCall) → Outcome LedgerError c.Answer)

/-- The floor after a call to the store. -/
def perform (x : Floor) (stamp : Stamp) (c : StoreCall) : Floor :=
  { x with store := (x.store.perform stamp c).2 }

/-- The floor with one more piece of work. -/
def start {ε α : Type} (x : Floor) (t : Task ε α) : Floor :=
  { x with workers := x.workers ++ [Task.ignoring t] }

/-- Answers a call. -/
def answer (s : Store) (stamp : Stamp) (ledger : (c : LedgerCall) → Outcome LedgerError c.Answer) :
    (c : Call) → c.Reply × Store
  | .stamp => (stamp, s)
  | .store c => s.perform stamp c
  | .ledger c => (ledger c, s)

/-- The floor after something has happened. Work that is done makes no more calls. -/
def act (e : Engine) (x : Floor) : Act → Floor
  | .insert stamp terms =>
    match Order.create stamp terms with
    | .ok o => x.perform stamp (.insertOrder o)
    | .error _ => x
  | .transition stamp id t => x.perform stamp (.transitionOrder id t)
  | .matchIncoming id => x.start (e.matchIncoming id)
  | .matchMarket market => x.start (e.matchMarket market : Task Empty MarketRun)
  | .pass turns => x.start (e.runPass turns)
  | .advance worker stamp ledger =>
    match x.workers[worker]? with
    | some (.call c next) =>
      let (reply, store) := answer x.store stamp ledger c
      { store, workers := x.workers.set worker (next reply) }
    | _ => x

/-- The floor after several things have happened. -/
def after (e : Engine) (x : Floor) (acts : List Act) : Floor :=
  acts.foldl (act e) x

/-! ### What an engine relies on -/

/-- An order of the store as it was seen earlier. -/
def Seen (s : Store) (o : Order) : Prop := ∃ p ∈ s.orders.entries, o.SameTerms p

/-- A match is asked for only with the engine's fees and of a pair that may be matched. -/
def Proper (e : Engine) : Call → Store → Prop
  | .store (.commitMatch makerId takerId _ fees), s =>
    fees = e.fees ∧ s.MayPair e.allowSelfTrade makerId takerId
  | _, _ => True

/-- The orders of an answer are orders of the store. -/
def Faithful : (c : Call) → c.Reply → Store → Prop
  | .store (.getOrder _), reply, s => ∀ o : Order, reply = .ok (.ok (some o)) → Seen s o
  | .store (.restingOrders _ _), reply, s =>
    ∀ orders : List Order, reply = .ok (.ok orders) → ∀ o ∈ orders, Seen s o
  | _, _, _ => True

/-- Others may add to the store in the meantime. -/
def answers : Work.Answers Store :=
  fun c s reply s' => s.Grows s' ∧ Faithful c reply s'

/-- A piece of work that makes only proper calls, from now on and whatever others do. -/
def Trusted (e : Engine) (work : Work Unit) (s : Store) : Prop :=
  work.wp answers (fun _ _ => True) (Proper e) (fun _ _ => True) s

/-- A task makes only proper calls, and `R` holds of its result and of the store in the end. -/
def Safe {ε α : Type} (e : Engine) (t : Task ε α) (R : α → Store → Prop) (s : Store) : Prop :=
  t.wp answers (fun _ _ => True) (Proper e)
    (fun r s' => s.Grows s' ∧ ∀ a, r = .ok (.ok a) → R a s') s

variable {e : Engine} {s s' : Store} {ε δ α β : Type} {t : Task ε α} {R : α → Store → Prop}

theorem Seen.grows {o : Order} (h : Seen s o) (hs : s.Grows s') : Seen s' o := by
  obtain ⟨p, hp, hop⟩ := h
  obtain ⟨q, hq, hpq⟩ := hs.orders p hp
  exact ⟨q, hq, hop.trans hpq⟩

theorem Proper.grows {c : Call} (h : Proper e c s) (hs : s.Grows s') : Proper e c s' := by
  unfold Proper at h ⊢
  split
  · exact ⟨h.1, hs.mayPair h.2⟩
  · trivial

theorem Trusted.grows {work : Work Unit} (h : Trusted e work s) (hs : s.Grows s') :
    Trusted e work s' := by
  cases work with
  | done a => trivial
  | call c next =>
    intro _
    obtain ⟨hc, hnext⟩ := h trivial
    exact ⟨hc.grows hs, fun reply s'' hr => hnext reply s'' ⟨hs.trans hr.1, hr.2⟩⟩

namespace Safe

theorem bind {f : α → Task ε β} {R' : β → Store → Prop} (ht : Safe e t R s)
    (hf : ∀ a s', s.Grows s' → R a s' → Safe e (f a) R' s') : Safe e (t >>= f) R' s := by
  refine Task.wp_bind.2 (Task.wp_mono ht ?_)
  rintro (overflow | error | a) s' ⟨hs, ha⟩
  · exact ⟨hs, fun _ h => (by cases h)⟩
  · exact ⟨hs, fun _ h => (by cases h)⟩
  · exact Task.wp_mono (hf a s' hs (ha a rfl)) fun r s'' h => ⟨hs.trans h.1, h.2⟩

theorem pure {a : α} (ha : R a s) : Safe e (pure a : Task ε α) R s := by
  refine Task.wp_pure.2 ⟨.refl s, ?_⟩
  rintro a' ha'
  cases ha'
  exact ha

theorem attempt (ht : Safe e t R s) :
    Safe e (t.attempt : Task δ (Except ε α)) (fun r s' => ∀ a, r = .ok a → R a s') s := by
  refine Task.wp_attempt.2 (Task.wp_mono ht ?_)
  rintro (overflow | r) s' ⟨hs, ha⟩
  · exact ⟨hs, fun _ h => (by cases h)⟩
  · refine ⟨hs, fun r' h a hr => ?_⟩
    cases h
    exact ha a (congrArg Except.ok hr)

theorem store {c : StoreCall} {R : c.Answer → Store → Prop} (hc : Proper e (.store c) s)
    (hR : ∀ reply s', s.Grows s' → Faithful (.store c) reply s' →
      ∀ a, reply = .ok (.ok a) → R a s') : Safe e (Task.store c) R s :=
  Task.wp_store.2 fun _ => ⟨hc, fun reply s' h => ⟨h.1, hR reply s' h.1 h.2⟩⟩

theorem settle (settler : Settler) (id : TradeId) :
    Safe e (settler.settle id) (fun _ _ => True) s := by
  refine Task.wp_mono (Q := fun _ s' => s.Grows s') ?_ fun _ _ h => ⟨h, fun _ _ => trivial⟩
  refine (settler.only_settle id).wp (P := s.Grows) ?_ ?_ (.refl s)
  · intro c s' hc
    unfold Proper
    split
    · cases hc
    · trivial
  · exact fun c s' reply s'' _ hs' h => hs'.trans h.1

theorem of_keeps {R : α → Prop}
    (ht : t.Keeps answers (fun _ _ => True) (Proper e) s.Grows R) :
    Safe e t (fun a _ => R a) s :=
  ht s (.refl s)

theorem trusted (ht : Safe e t R s) : Trusted e (Task.ignoring t) s :=
  Work.wp_bind.2 (Work.wp_mono ht fun _ _ _ => trivial)

end Safe

/-! ### The work of an engine -/

theorem safe_sideOf (market : Market) (side : Side) :
    Safe e (Engine.sideOf market side) (fun orders s' => ∀ o ∈ orders, Seen s' o) s := by
  refine Safe.bind (R := fun (orders : List Order) s' => ∀ o ∈ orders, Seen s' o)
    (.store trivial fun reply s' _ h => h) fun orders s' _ horders => .pure fun o ho => ?_
  rw [sortByPriority, List.mem_mergeSort] at ho
  exact horders o (List.mem_filter.1 ho).1

/-- The earlier one of two orders is the maker. -/
theorem mayPair_between {buy sell : Order} (hbuy : Seen s buy) (hsell : Seen s sell)
    (howners : ownersMayTrade e.allowSelfTrade buy sell = true) :
    s.MayPair e.allowSelfTrade (MatchCandidate.between buy sell).makerOrderId
      (MatchCandidate.between buy sell).takerOrderId := by
  obtain ⟨buy', hbuy', hb⟩ := hbuy
  obtain ⟨sell', hsell', hs⟩ := hsell
  rw [ownersMayTrade_iff, ← hb.userId_eq, ← hs.userId_eq] at howners
  unfold MatchCandidate.between MatchCandidate.makerAndTaker
  by_cases htime : Order.timeLe buy sell = true
  · rw [if_pos htime]
    exact ⟨buy', hbuy', sell', hsell', hb.id_eq, hs.id_eq,
      Trade.timeLe_of_sameTerms hb hs htime, howners⟩
  · rw [if_neg htime]
    exact ⟨sell', hsell', buy', hbuy', hs.id_eq, hb.id_eq,
      Trade.timeLe_of_sameTerms hs hb (timeLe_total htime), howners.imp id Ne.symm⟩

theorem safe_bestCandidate (market : Market) :
    Safe e (e.bestCandidate market) (fun found s' => ∀ c, found = some c →
      s'.MayPair e.allowSelfTrade c.makerOrderId c.takerOrderId) s := by
  refine (safe_sideOf market .buy).bind fun buys s₁ _ hbuys => ?_
  split
  · exact .pure fun c hc => (by cases hc)
  · refine (safe_sideOf market .sell).bind fun sells s₂ hgrows hsells => .pure fun c hc => ?_
    obtain ⟨buy, hbuy, sell, hsell, howners, rfl⟩ := bestMatch_eq_some hc
    exact mayPair_between ((hbuys buy hbuy).grows hgrows) (hsells sell hsell) howners

theorem safe_incomingCandidate (id : OrderId) :
    Safe e (e.incomingCandidate id) (fun found s' => ∀ c, found = some c →
      s'.MayPair e.allowSelfTrade c.makerOrderId c.takerOrderId) s := by
  refine Safe.bind (R := fun (found : Option Order) s' => ∀ o, found = some o → Seen s' o)
    (.store trivial fun reply s' _ h a ha o ho => h o (by rw [ha, ho])) ?_
  intro found s₁ _ hfound
  cases found with
  | none => exact .pure fun c hc => (by cases hc)
  | some incoming =>
    dsimp only
    split
    · refine (safe_sideOf _ _).bind fun opposite s₂ hgrows hopposite => .pure fun c hc => ?_
      obtain ⟨other, hother, howners, rfl⟩ := counterparty_eq_some hc
      have hincoming := (hfound incoming rfl).grows hgrows
      have hother := hopposite other hother
      obtain ⟨hbuy, hsell⟩ := forall_asBuyAndSell hincoming hother
      refine mayPair_between hbuy hsell ?_
      unfold asBuyAndSell
      cases incoming.side with
      | buy => exact howners
      | sell => rwa [ownersMayTrade_comm]
    · exact .pure fun c hc => (by cases hc)

theorem safe_execute {c : MatchCandidate}
    (hc : s.MayPair e.allowSelfTrade c.makerOrderId c.takerOrderId) :
    Safe e (e.execute c) (fun _ _ => True) s := by
  refine Safe.bind (R := fun _ _ => True) (.store ⟨rfl, hc⟩ fun _ _ _ _ _ _ => trivial) ?_
  intro outcome s' _ _
  cases outcome with
  | executed trade => exact (Safe.settle _ _).attempt.bind fun _ _ _ _ => .pure trivial
  | conflict cause => exact .pure trivial

theorem wp_execute (c : MatchCandidate) (s₁ : Store) (hs : s.Grows s₁)
    (hc : s₁.MayPair e.allowSelfTrade c.makerOrderId c.takerOrderId) :
    (e.execute c).wp answers (fun _ _ => True) (Proper e) (fun _ => s.Grows) s₁ :=
  Task.wp_mono (safe_execute hc) fun _ _ h => hs.trans h.1

theorem finds {t : Task StoreError (Option MatchCandidate)}
    (ht : ∀ s, Safe e t (fun found s' => ∀ c, found = some c →
      s'.MayPair e.allowSelfTrade c.makerOrderId c.takerOrderId) s) :
    Engine.Finds answers (fun _ _ => True) (Proper e) s.Grows t
      (fun c s' => s'.MayPair e.allowSelfTrade c.makerOrderId c.takerOrderId) :=
  fun s₁ hs => Task.wp_mono (ht s₁) fun _ _ h => ⟨hs.trans h.1, h.2⟩

theorem safe_matchMarket (market : Market) :
    Safe e (e.matchMarket market : Task ε MarketRun) (fun _ _ => True) s :=
  .of_keeps (Engine.keeps_matchMarket wp_execute (finds fun _ => safe_bestCandidate market))

/-- What a piece of work relies on stays true while the others go on. -/
theorem moves_grows (e : Engine) :
    Work.Moves answers (fun _ _ => True) (Proper e) answers (Proper e)
      fun (stages : ℕ → Store) s => ∀ place, (stages place).Grows s := by
  intro stages place c s hs hproper _
  refine ⟨hproper.grows (hs place), fun reply s' hreply => ⟨s', ?_, ?_⟩⟩
  · exact ⟨(hs place).trans hreply.1, hreply.2⟩
  · exact (Function.forall_update_iff stages fun _ seen => seen.Grows s').2
      ⟨.refl s', fun other _ => (hs other).trans hreply.1⟩

theorem safe_runPass (turns : List ℕ) : Safe e (e.runPass turns) (fun _ _ => True) s := by
  have hread : Safe e (Task.store .activeMarkets) (fun _ _ => True) s :=
    .store trivial fun _ _ _ _ _ _ => trivial
  refine hread.bind fun markets s₁ _ _ => ?_
  refine Task.wp_mono (Engine.wp_matchMarkets (Q := s₁.Grows) (moves_grows e) (fun _ => .refl s₁)
    (.refl s₁) wp_execute (fun market => finds fun _ => safe_bestCandidate market) turns markets) ?_
  rintro r s₂ ⟨stages, hs₂, hstages⟩
  exact ⟨(hstages 0).trans (hs₂ 0), fun _ _ => trivial⟩

theorem safe_matchIncoming (id : OrderId) : Safe e (e.matchIncoming id) (fun _ _ => True) s :=
  .of_keeps (Engine.keeps_matchIncoming wp_execute (finds fun _ => safe_incomingCandidate id))

/-! ### Runs -/

/-- What holds at every time. -/
structure Sound (e : Engine) (x : Floor) : Prop where
  legitimate : x.store.Legitimate e.fees e.allowSelfTrade
  trusted : ∀ w ∈ x.workers, Trusted e w x.store

variable {x : Floor}

theorem grows_answer (s : Store) (stamp : Stamp)
    (ledger : (c : LedgerCall) → Outcome LedgerError c.Answer) (c : Call) :
    s.Grows (answer s stamp ledger c).2 := by
  cases c with
  | store c => exact s.grows_perform stamp c
  | _ => exact .refl s

theorem faithful_answer (s : Store) (stamp : Stamp)
    (ledger : (c : LedgerCall) → Outcome LedgerError c.Answer) (c : Call) :
    Faithful c (answer s stamp ledger c).1 (answer s stamp ledger c).2 := by
  unfold Faithful
  split
  · rename_i id
    intro o ho
    have hfound : s.orders.find? id = some o := Except.ok.inj (Except.ok.inj ho)
    exact ⟨o, OrderTable.mem_of_find? hfound, .refl o⟩
  · rename_i market side
    intro orders horders o ho
    have heq : s.restingOrders market side = orders := Except.ok.inj (Except.ok.inj horders)
    rw [← heq] at ho
    exact ⟨o, (List.mem_filter.1 ho).1, .refl o⟩
  · trivial

/-- A proper call leaves everything in order. -/
theorem Sound.perform (hx : x.Sound e) (stamp : Stamp) {c : StoreCall}
    (hc : Proper e (.store c) x.store) : (x.perform stamp c).Sound e := by
  refine ⟨hx.legitimate.perform stamp ?_, fun w hw => ?_⟩
  · rintro makerId takerId quantity fees rfl
    exact hc
  · exact (hx.trusted w hw).grows (x.store.grows_perform stamp c)

theorem Sound.start (hx : x.Sound e) (ht : Safe e t R x.store) : (x.start t).Sound e := by
  refine ⟨hx.legitimate, fun w hw => ?_⟩
  rcases List.mem_append.1 hw with hw | hw
  · exact hx.trusted w hw
  · rw [List.mem_singleton.1 hw]
    exact ht.trusted

/-- A piece of work makes its next call, and goes on with the answer. -/
theorem Sound.advance (hx : x.Sound e) {worker : ℕ} {c : Call} {next : c.Reply → Work Unit}
    (hworker : x.workers[worker]? = some (.call c next)) (stamp : Stamp)
    (ledger : (c : LedgerCall) → Outcome LedgerError c.Answer) :
    Sound e
      { store := (answer x.store stamp ledger c).2
        workers := x.workers.set worker (next (answer x.store stamp ledger c).1) } := by
  obtain ⟨hproper, hnext⟩ := hx.trusted _ (List.mem_of_getElem? hworker) trivial
  have hgrows := grows_answer x.store stamp ledger c
  have hlegitimate : (answer x.store stamp ledger c).2.Legitimate e.fees e.allowSelfTrade := by
    cases c with
    | store c => exact (hx.perform stamp hproper).legitimate
    | _ => exact hx.legitimate
  refine ⟨hlegitimate, fun w hw => ?_⟩
  rcases List.mem_or_eq_of_mem_set hw with hw | rfl
  · exact (hx.trusted w hw).grows hgrows
  · exact hnext _ _ ⟨hgrows, faithful_answer x.store stamp ledger c⟩

/-- Whatever happens, the floor is in order afterwards, and nothing is lost from its store. -/
theorem Sound.act (hx : x.Sound e) (a : Act) :
    (x.act e a).Sound e ∧ x.store.Grows (x.act e a).store := by
  cases a with
  | insert stamp terms =>
    rw [Floor.act]
    cases Order.create stamp terms with
    | ok o => exact ⟨hx.perform stamp trivial, x.store.grows_perform stamp _⟩
    | error error => exact ⟨hx, .refl _⟩
  | transition stamp id t => exact ⟨hx.perform stamp trivial, x.store.grows_perform stamp _⟩
  | matchIncoming id => exact ⟨hx.start (safe_matchIncoming id), .refl _⟩
  | matchMarket market => exact ⟨hx.start (safe_matchMarket market), .refl _⟩
  | pass turns => exact ⟨hx.start (safe_runPass turns), .refl _⟩
  | advance worker stamp ledger =>
    rw [Floor.act]
    match hworker : x.workers[worker]? with
    | some (.call c next) =>
      exact ⟨hx.advance hworker stamp ledger, grows_answer x.store stamp ledger c⟩
    | some (.done u) => exact ⟨hx, .refl _⟩
    | none => exact ⟨hx, .refl _⟩

theorem Sound.after (hx : x.Sound e) (acts : List Act) :
    (x.after e acts).Sound e ∧ x.store.Grows (x.after e acts).store := by
  induction acts generalizing x with
  | nil => exact ⟨hx, .refl _⟩
  | cons a acts ih =>
    obtain ⟨hsound, hgrows⟩ := hx.act a
    obtain ⟨hsound', hgrows'⟩ := ih hsound
    exact ⟨hsound', hgrows.trans hgrows'⟩

theorem sound_empty (e : Engine) : empty.Sound e :=
  ⟨fun _ ht => (by cases ht), fun _ hw => (by cases hw)⟩

/-- Whatever happens on an empty floor, and however the work of the engine is interleaved: each trade
is a legitimate one between two stored orders, and trades are only ever added at the end. -/
theorem trades_legitimate (e : Engine) (acts later : List Act) :
    let x := empty.after e acts
    (∀ t ∈ x.store.trades, ∃ buy ∈ x.store.orders.entries, ∃ sell ∈ x.store.orders.entries,
      t.Legitimate e.fees e.allowSelfTrade buy sell) ∧
    x.store.trades <+: (x.after e later).store.trades := by
  intro x
  have hx := ((sound_empty e).after acts).1
  exact ⟨hx.legitimate, (hx.after later).2.trades⟩

/-- A buy and a sell of gold, and two pieces of work that choose them at the same time. -/
def race : List Act :=
  let gold := Order.goldSymbol
  let stamp (n : ℕ) : Stamp := ⟨.ofNat n, .epoch⟩
  let next (worker : ℕ) : Act :=
    .advance worker (stamp 9) fun _ => .ok (.error (.unavailable "down"))
  [.insert (stamp 1) ⟨gold, .ofWord 2, .ofWord 100, ⟨1⟩, .buy, .spot, none⟩,
    .insert (stamp 2) ⟨gold, .ofWord 3, .ofWord 98, ⟨2⟩, .sell, .spot, none⟩,
    .transition (stamp 3) ⟨.ofNat 1⟩ .confirm, .transition (stamp 3) ⟨.ofNat 2⟩ .confirm,
    .matchMarket ⟨gold, .spot⟩, .matchIncoming ⟨.ofNat 2⟩,
    next 0, next 0, next 1, next 1, next 0, next 1]

/-- Only one of the two makes a trade. -/
example :
    let e : Engine := ⟨.standard, .create 3 10, 100, false⟩
    (empty.after e race).store.trades.map (fun t => (t.makerOrderId, t.takerOrderId)) =
      [(⟨.ofNat 1⟩, ⟨.ofNat 2⟩)] := by
  decide +kernel

end Floor

end Bourse
