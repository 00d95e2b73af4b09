import Bourse.Proofs.Matching.MarketRun

/-!
# Markets do not influence each other

The markets of a pass are matched at the same time, over one store and one ledger. Each run makes its
calls one after the other, with calls of the other runs in between. Which call comes when makes no
difference: each run comes to what the view of its market says at the beginning, so the orders, the
trades of each market, the reasons for which the runs end and the totals are the same for every
interleaving. A pass of the engine is one of the interleavings, whatever the turns are that its
markets take.
-/

namespace Bourse

variable {e : Engine} {markets markets' : List Market} {market : Market} {s s' s'' : Store}

/-! ### What runs lead to -/

/-- What the runs of some markets make of a store: each leaves its market as its view says, and the
other markets are left alone. -/
structure Store.Matched (e : Engine) (markets : List Market) (s s' : Store) : Prop where
  ids_eq : s'.orders.entries.map Order.id = s.orders.entries.map Order.id
  view_eq : ∀ market ∈ markets, s'.view market = (s.view market).final e
  orders_eq : ∀ market ∉ markets, s'.ordersIn market = s.ordersIn market
  trades_eq : ∀ market ∉ markets, s'.tradesIn market = s.tradesIn market

/-- Lists with the same sequence of names are equal if what is in one is in the other. -/
theorem eq_of_map_id_eq {l l' : List Order} (hids : l.map Order.id = l'.map Order.id)
    (hnodup : (l'.map Order.id).Nodup) (hsub : ∀ o ∈ l, o ∈ l') : l = l' := by
  have hlength : l.length = l'.length := by simpa using congrArg List.length hids
  refine List.ext_getElem hlength fun i hi hi' => ?_
  have hid : l[i].id = l'[i].id := by
    have hget : (l.map Order.id)[i]? = (l'.map Order.id)[i]? := by rw [hids]
    simpa [hi, hi'] using hget
  exact List.inj_on_of_nodup_map hnodup (hsub _ (List.getElem_mem hi)) (List.getElem_mem hi') hid

/-- Stores with the same sequence of names and the same views have the same orders. -/
theorem Store.sameOrders_of_view (hids : s.orders.entries.map Order.id =
    s'.orders.entries.map Order.id) (hview : ∀ market, s.view market = s'.view market) :
    s.SameOrders s' := by
  have hid : ∀ l : List Order, (l.map Order.timeless).map Order.id = l.map Order.id := by
    intro l
    rw [List.map_map]
    rfl
  refine eq_of_map_id_eq (by rw [hid, hid, hids]) (by rw [hid]; exact s'.orders.ids_nodup) ?_
  intro o ho
  obtain ⟨p, hp, rfl⟩ := List.mem_map.1 ho
  have hin : p.timeless ∈ (s.view p.market).orders :=
    List.mem_map_of_mem (List.mem_filter.2 ⟨hp, decide_eq_true rfl⟩)
  rw [hview] at hin
  obtain ⟨q, hq, heq⟩ := List.mem_map.1 hin
  rw [← heq]
  exact List.mem_map_of_mem (List.mem_filter.1 hq).1

namespace Store.Matched

/-- Runs of the same markets from one store lead to the same orders and trades. -/
theorem view_unique (h : s.Matched e markets s') (h' : s.Matched e markets' s'')
    (hperm : markets.Perm markets') (market : Market) : s'.view market = s''.view market := by
  by_cases hin : market ∈ markets
  · rw [h.view_eq market hin, h'.view_eq market (hperm.mem_iff.1 hin)]
  · have hout : market ∉ markets' := fun hmem => hin (hperm.mem_iff.2 hmem)
    rw [view, view, h.orders_eq market hin, h.trades_eq market hin, h'.orders_eq market hout,
      h'.trades_eq market hout]

theorem sameOrders (h : s.Matched e markets s') (h' : s.Matched e markets' s'')
    (hperm : markets.Perm markets') : s'.SameOrders s'' :=
  sameOrders_of_view (h.ids_eq.trans h'.ids_eq.symm) (h.view_unique h' hperm)

end Store.Matched

/-! ### Totals -/

namespace PassSummary

/-- It makes no difference which of two runs is counted first. -/
theorem count_count_comm (summary : PassSummary) (a b : Checked MarketRun) :
    (summary.count a).count b = (summary.count b).count a := by
  cases a with
  | error overflow => rfl
  | ok a =>
    cases b with
    | error overflow => rfl
    | ok b =>
      unfold PassSummary.count
      by_cases ha : a.stop = .conflict <;> by_cases hb : b.stop = .conflict <;>
        simp [ha, hb, Nat.add_right_comm]

instance : RightCommutative count := ⟨count_count_comm⟩

/-- A run counts the same whatever its trades are called. -/
theorem count_unnamed (summary : PassSummary) (run : MarketRun) :
    summary.count (.ok run.unnamed) = summary.count (.ok run) := by
  dsimp only [count, MarketRun.unnamed]
  rw [List.length_map]

/-- The totals of the runs of some markets. -/
def ofViews (e : Engine) (s : Store) (markets : List Market) : PassSummary :=
  (markets.map fun market => .ok ((s.view market).result e market)).foldl count
    ⟨markets.length, 0, 0⟩

theorem ofViews_perm (hperm : markets.Perm markets') : ofViews e s markets = ofViews e s markets' := by
  unfold ofViews
  rw [hperm.length_eq]
  exact (hperm.map _).foldl_eq _

end PassSummary

/-! ### Runs at the same time -/

/-- A store, and the runs of markets that are being made on it. -/
structure Scan where
  store : Store
  runs : List (Market × Work (Checked MarketRun))

namespace Scan

/-- A run makes its next call. The ledger gives any answer. -/
structure Step where
  place : ℕ
  stamp : Stamp
  ledger : (c : LedgerCall) → Except LedgerError c.Answer

/-- The run of each market is begun. -/
def start (e : Engine) (s : Store) (markets : List Market) : Scan where
  store := s
  runs := markets.map fun market => (market, e.marketWork market)

/-- The scan after a step. A run that is over makes no more calls. -/
def step (x : Scan) (a : Step) : Scan :=
  match x.runs[a.place]? with
  | some (market, .call call next) =>
    let (reply, store) := Floor.answer x.store a.stamp (fun c => .ok (a.ledger c)) call
    { store, runs := x.runs.set a.place (market, next reply) }
  | _ => x

/-- What is left after several steps. -/
def after (x : Scan) (steps : List Step) : Scan :=
  steps.foldl step x

/-- All runs are over. -/
def Complete (x : Scan) : Prop :=
  ∀ r ∈ x.runs, ∃ outcome, r.2 = .done outcome

/-- What is learned of the runs that are over. -/
def outcomes (x : Scan) : List (Checked MarketRun) :=
  x.runs.filterMap fun r =>
    match r.2 with
    | .done outcome => some outcome
    | .call _ _ => none

/-- A run of the scan is over. Its trades are given without names and times. -/
def Reports (x : Scan) (run : MarketRun) : Prop :=
  ∃ run', (run.market, .done (.ok run')) ∈ x.runs ∧ run'.unnamed = run

/-- In whatever order the runs that are over are counted, these are the totals. -/
def Counts (x : Scan) (summary : PassSummary) : Prop :=
  ∀ counted : List (Checked MarketRun), counted.Perm x.outcomes →
    counted.foldl PassSummary.count ⟨x.runs.length, 0, 0⟩ = summary

/-- What holds of a scan at every time. -/
structure Sound (e : Engine) (markets : List Market) (s : Store) (x : Scan) : Prop where
  regular : x.store.Regular
  ids_eq : x.store.orders.entries.map Order.id = s.orders.entries.map Order.id
  markets_eq : x.runs.map Prod.fst = markets
  orders_eq : ∀ market ∉ markets, x.store.ordersIn market = s.ordersIn market
  trades_eq : ∀ market ∉ markets, x.store.tradesIn market = s.tradesIn market
  /-- From the view as it is now, each run still comes to what the first view says. -/
  leads : ∀ (place : ℕ) market (work : Work (Checked MarketRun)),
    x.runs[place]? = some (market, work) →
      work.wp (MarketView.answers market) (fun _ _ => True) Call.Within
        (MarketView.Finishes e market (s.view market)) (x.store.view market)

variable {x : Scan}

theorem sound_start (hs : s.Regular) (markets : List Market) :
    (start e s markets).Sound e markets s := by
  refine ⟨hs, rfl, ?_, fun _ _ => rfl, fun _ _ => rfl, ?_⟩
  · unfold start
    rw [List.map_map]
    exact List.map_id' _
  · intro place market work hwork
    have hmem := List.mem_of_getElem? hwork
    obtain ⟨market', -, heq⟩ := List.mem_map.1 hmem
    cases heq
    exact MarketView.leads_marketWork e market (s.view market)

namespace Sound

/-- A call of one run changes nothing of what the others see. -/
theorem step (hx : x.Sound e markets s) (hnodup : markets.Nodup) (a : Step) :
    (x.step a).Sound e markets s := by
  unfold Scan.step
  split
  case h_2 => exact hx
  case h_1 market call next hplace =>
  let ledger : (c : LedgerCall) → Outcome LedgerError c.Answer := fun c => .ok (a.ledger c)
  obtain ⟨hwithin, hnext⟩ := hx.leads _ _ _ hplace trivial
  have hregular := hwithin.regular hx.regular a.stamp ledger
  have hchanges := hwithin.changesOnly a.stamp ledger
  have hlabel : ∀ {place : ℕ} {other work}, x.runs[place]? = some (other, work) →
      markets[place]? = some other := by
    intro place other work h
    rw [← hx.markets_eq, List.getElem?_map, h]
    rfl
  have hmarket : market ∈ markets := List.mem_of_getElem? (hlabel hplace)
  refine ⟨hregular, hchanges.ids_eq.trans hx.ids_eq, ?_, fun other hother => ?_,
    fun other hother => ?_, ?_⟩
  · dsimp only
    rw [List.map_set, hx.markets_eq]
    obtain ⟨hlt, hget⟩ := List.getElem?_eq_some_iff.1 (hlabel hplace)
    rw [← hget]
    exact List.set_getElem_self hlt
  · have hne : other ≠ market := fun heq => hother (heq ▸ hmarket)
    exact (hchanges.orders_eq other hne).trans (hx.orders_eq other hother)
  · have hne : other ≠ market := fun heq => hother (heq ▸ hmarket)
    exact (hchanges.trades_eq other hne).trans (hx.trades_eq other hother)
  · intro place other work hwork
    rw [List.getElem?_set] at hwork
    by_cases hsame : a.place = place
    · rw [if_pos hsame, if_pos (List.getElem?_eq_some_iff.1 hplace).1] at hwork
      cases hwork
      exact hnext _ _ ⟨x.store, a.stamp, a.ledger, hx.regular, rfl, rfl, rfl⟩
    · rw [if_neg hsame] at hwork
      have hne : other ≠ market := by
        rintro rfl
        have hlt := (List.getElem?_eq_some_iff.1 (hlabel hplace)).1
        exact hsame ((List.getElem?_inj hlt hnodup).1
          ((hlabel hplace).trans (hlabel hwork).symm))
      show work.wp _ _ _ _ ((Floor.answer x.store a.stamp ledger call).2.view other)
      rw [hchanges.view_eq hne]
      exact hx.leads _ _ _ hwork

theorem after (hx : x.Sound e markets s) (hnodup : markets.Nodup) (steps : List Step) :
    (x.after steps).Sound e markets s := by
  induction steps generalizing x with
  | nil => exact hx
  | cons a steps ih => exact ih (hx.step hnodup a)

/-- The orders of other markets are there as they were. -/
theorem find?_eq (hx : x.Sound e markets s) {o : Order} (ho : o ∈ s.orders.entries)
    (hmarket : o.market ∉ markets) : x.store.orders.find? o.id = some o := by
  have hin : o ∈ s.ordersIn o.market := List.mem_filter.2 ⟨ho, decide_eq_true rfl⟩
  rw [← hx.orders_eq _ hmarket] at hin
  exact OrderTable.find?_of_mem (List.mem_filter.1 hin).1

section Complete

variable (hx : x.Sound e markets s) (hcomplete : x.Complete)

include hx hcomplete

/-- Each run has come to what its view said. -/
theorem finishes {r : Market × Work (Checked MarketRun)} (hr : r ∈ x.runs) :
    ∃ outcome, r.2 = .done outcome ∧
      MarketView.Finishes e r.1 (s.view r.1) outcome (x.store.view r.1) := by
  obtain ⟨market, work⟩ := r
  obtain ⟨outcome, rfl⟩ := hcomplete _ hr
  obtain ⟨place, hplace⟩ := List.mem_iff_getElem?.1 hr
  exact ⟨outcome, rfl, hx.leads _ _ _ hplace⟩

theorem exists_run (hmarket : market ∈ markets) : ∃ outcome, (market, .done outcome) ∈ x.runs ∧
    MarketView.Finishes e market (s.view market) outcome (x.store.view market) := by
  rw [← hx.markets_eq] at hmarket
  obtain ⟨⟨market, work⟩, hmem, rfl⟩ := List.mem_map.1 hmarket
  obtain ⟨outcome, rfl, hfinishes⟩ := hx.finishes hcomplete hmem
  exact ⟨outcome, hmem, hfinishes⟩

theorem matched : s.Matched e markets x.store := by
  refine ⟨hx.ids_eq, fun market hmarket => ?_, hx.orders_eq, hx.trades_eq⟩
  obtain ⟨outcome, -, hview, -⟩ := hx.exists_run hcomplete hmarket
  exact hview

/-- What is reported is what the views say. -/
theorem reports_iff {run : MarketRun} :
    x.Reports run ↔ ∃ market ∈ markets, run = (s.view market).result e market := by
  constructor
  · rintro ⟨run', hmem, hunnamed⟩
    obtain ⟨outcome, hdone, -, run'', rfl, hresult⟩ := hx.finishes hcomplete hmem
    have hsame : run' = run'' := Except.ok.inj (Work.done.inj hdone)
    rw [← hsame, hunnamed] at hresult
    refine ⟨run.market, ?_, hresult⟩
    rw [← hx.markets_eq]
    exact List.mem_map_of_mem hmem
  · rintro ⟨market, hmarket, rfl⟩
    obtain ⟨outcome, hmem, -, run, rfl, hunnamed⟩ := hx.exists_run hcomplete hmarket
    exact ⟨run, hmem, hunnamed⟩

theorem outcomes_eq : x.outcomes.map (fun outcome => outcome.map MarketRun.unnamed) =
    markets.map fun market => .ok ((s.view market).result e market) := by
  unfold outcomes
  rw [← hx.markets_eq, List.map_map, List.map_filterMap, ← List.filterMap_eq_map']
  refine List.filterMap_congr fun r hr => ?_
  obtain ⟨outcome, hdone, -, run, rfl, hunnamed⟩ := hx.finishes hcomplete hr
  rw [hdone, Function.comp_apply, ← hunnamed]
  rfl

theorem counts : x.Counts (.ofViews e s markets) := by
  intro counted hperm
  have hlength : x.runs.length = markets.length := by rw [← hx.markets_eq, List.length_map]
  have hcount : ∀ (summary : PassSummary) (outcome : Checked MarketRun),
      summary.count (outcome.map MarketRun.unnamed) = summary.count outcome := by
    intro summary outcome
    cases outcome with
    | ok run => exact summary.count_unnamed run
    | error overflow => rfl
  rw [hperm.foldl_eq, PassSummary.ofViews, ← hx.outcomes_eq hcomplete, List.foldl_map, hlength]
  simp only [hcount]

end Complete

end Sound

/-! ### Every pass is a scan -/

theorem after_append (x : Scan) (steps more : List Step) :
    x.after (steps ++ more) = (x.after steps).after more :=
  List.foldl_append

section Pass

variable (stamps : ℕ → Stamp) (answers : LedgerAnswers) {d : Desk} (hd : d.store = x.store)

include hd

/-- A call that is made at a desk is a step. -/
theorem step_eq {place : ℕ} {call : Call} {next : call.Reply → Work (Checked MarketRun)}
    (hplace : x.runs[place]? = some (market, .call call next)) :
    x.step ⟨place, stamps d.drawn, answers d.asked⟩ =
      { store := (Desk.handler stamps answers call d).2.store
        runs := x.runs.set place (market, next (Desk.handler stamps answers call d).1) } := by
  simp only [step, hplace, ← hd]
  cases call <;> rfl

/-- A run that is left alone comes to its end. -/
theorem exists_after_run {place : ℕ} {work : Work (Checked MarketRun)}
    (hplace : x.runs[place]? = some (market, work)) :
    ∃ steps, x.after steps =
      { store := (work.run (Desk.handler stamps answers) d).2.store
        runs := x.runs.set place (market, .done (work.run (Desk.handler stamps answers) d).1) } := by
  induction work generalizing x d with
  | done outcome =>
    obtain ⟨hlt, hget⟩ := List.getElem?_eq_some_iff.1 hplace
    refine ⟨[], ?_⟩
    rw [Work.run, ← hget, List.set_getElem_self, hd]
    rfl
  | call call next ih =>
    have hfirst := step_eq stamps answers hd hplace
    obtain ⟨steps, hsteps⟩ := ih (Desk.handler stamps answers call d).1
      (x := x.step ⟨place, stamps d.drawn, answers d.asked⟩)
      (d := (Desk.handler stamps answers call d).2) (by rw [hfirst])
      (by rw [hfirst, List.getElem?_set_self (List.getElem?_eq_some_iff.1 hplace).1])
    refine ⟨⟨place, stamps d.drawn, answers d.asked⟩ :: steps, hsteps.trans ?_⟩
    rw [hfirst, List.set_set]
    rfl

theorem exists_after_inSequence {front back : List (Market × Work (Checked MarketRun))}
    (hruns : x.runs = front ++ back) :
    let result := (Work.inSequence (back.map Prod.snd)).run (Desk.handler stamps answers) d
    ∃ steps, (x.after steps).store = result.2.store ∧
      (x.after steps).runs.map Prod.snd = front.map Prod.snd ++ result.1.map .done := by
  induction back generalizing x d front with
  | nil =>
    refine ⟨[], hd.symm, ?_⟩
    show x.runs.map Prod.snd = front.map Prod.snd ++ []
    rw [hruns, List.append_nil, List.append_nil]
  | cons r back ih =>
    obtain ⟨market, work⟩ := r
    have hplace : x.runs[front.length]? = some (market, work) := by
      rw [hruns]
      simp
    obtain ⟨steps, hsteps⟩ := exists_after_run stamps answers hd hplace
    have hnext : (x.after steps).runs =
        (front ++ [(market, .done (work.run (Desk.handler stamps answers) d).1)]) ++ back := by
      rw [hsteps, hruns]
      simp
    obtain ⟨more, hstore, hmore⟩ := ih (x := x.after steps)
      (d := (work.run (Desk.handler stamps answers) d).2) (by rw [hsteps]) hnext
    refine ⟨steps ++ more, ?_, ?_⟩
    · rw [after_append, hstore, List.map_cons, Work.inSequence, Work.run_bind, Work.run_bind]
      rfl
    · rw [after_append, hmore, List.map_cons, Work.inSequence, Work.run_bind, Work.run_bind]
      simp [Work.run]

/-- Whatever the turns are in which markets are matched side by side, this is one of the
interleavings of their calls. -/
theorem exists_after_sideBySide (turns : List ℕ) :
    let result := (Work.sideBySide turns (x.runs.map Prod.snd)).run (Desk.handler stamps answers) d
    ∃ steps, (x.after steps).store = result.2.store ∧
      (x.after steps).runs.map Prod.snd = result.1.map .done := by
  induction turns generalizing x d with
  | nil =>
    have hruns : x.runs = [] ++ x.runs := rfl
    exact exists_after_inSequence stamps answers hd hruns
  | cons place turns ih =>
    unfold Work.sideBySide
    split
    · rename_i call next hwork
      rw [List.getElem?_map] at hwork
      obtain ⟨⟨market, work⟩, hplace, rfl⟩ := Option.map_eq_some_iff.1 hwork
      have hfirst := step_eq stamps answers hd hplace
      obtain ⟨steps, hafter⟩ := ih
        (x := x.step ⟨place, stamps d.drawn, answers d.asked⟩)
        (d := (Desk.handler stamps answers call d).2) (by rw [hfirst])
      have hworks : (x.step ⟨place, stamps d.drawn, answers d.asked⟩).runs.map Prod.snd =
          (x.runs.map Prod.snd).set place (next (Desk.handler stamps answers call d).1) := by
        rw [hfirst, List.map_set]
      rw [hworks] at hafter
      exact ⟨⟨place, stamps d.drawn, answers d.asked⟩ :: steps, hafter⟩
    · exact ih hd

end Pass

section Outcomes

variable {l : List (Checked MarketRun)} (hl : x.runs.map Prod.snd = l.map .done)

include hl

theorem complete_of_map : x.Complete := by
  intro r hr
  have hmem : r.2 ∈ l.map Work.done := hl ▸ List.mem_map_of_mem hr
  obtain ⟨outcome, -, hdone⟩ := List.mem_map.1 hmem
  exact ⟨outcome, hdone.symm⟩

theorem outcomes_of_map : x.outcomes = l := by
  let outcome? : Work (Checked MarketRun) → Option (Checked MarketRun)
    | .done outcome => some outcome
    | .call _ _ => none
  have hresult : x.outcomes = (x.runs.map Prod.snd).filterMap outcome? := by
    rw [List.filterMap_map]
    rfl
  rw [hresult, hl, List.filterMap_map]
  exact List.filterMap_some

end Outcomes

theorem exists_complete (x : Scan) : ∃ steps, (x.after steps).Complete := by
  obtain ⟨steps, -, hruns⟩ := exists_after_sideBySide (x := x) (d := ⟨x.store, 0, 0⟩)
    (fun _ => .blank) .down rfl []
  exact ⟨steps, complete_of_map hruns⟩

/-- Markets that are matched side by side, whatever the turns are. -/
theorem ends_matchMarkets (hs : s.Regular) (hnodup : markets.Nodup) (stamps : ℕ → Stamp)
    (answers : LedgerAnswers) (turns : List ℕ) :
    ∃ y, Task.Ends (Desk.handler stamps answers)
        (e.matchMarkets turns markets : Task StoreError PassSummary) ⟨s, 0, 0⟩
        (.ok (.ofViews e s markets)) y ∧
      s.Matched e markets y.store := by
  obtain ⟨steps, hstore, hruns⟩ := exists_after_sideBySide (x := start e s markets)
    (d := ⟨s, 0, 0⟩) stamps answers rfl turns
  have hworks : (start e s markets).runs.map Prod.snd = markets.map e.marketWork := by
    rw [start, List.map_map]
    rfl
  rw [hworks] at hstore hruns
  have hx := (sound_start (e := e) hs markets).after hnodup steps
  have hdone := complete_of_map hruns
  have hlength : ((start e s markets).after steps).runs.length = markets.length := by
    have hmarkets := congrArg List.length hx.markets_eq
    rwa [List.length_map] at hmarkets
  have hsummary := hx.counts hdone _ (.of_eq (outcomes_of_map hruns).symm)
  refine ⟨_, Task.ends_ofSure.bind ?_, hstore ▸ hx.matched hdone⟩
  rw [hlength] at hsummary
  rw [hsummary]
  exact Task.Ends.pure

/-- However a store is used, and restarted in between, with created orders, and whatever markets are
matched then, and whatever the ledger answers: no order of another market changes. Every
interleaving can be completed. Any two complete ones, with the runs begun in any order, leave the
same orders but for clock readings and the same trades of each market but for names and times, and
have the same trades and the same reason to stop for each market. The totals are the same in
whatever order the runs are counted, and those that the engine reports when it matches the markets
side by side, in whatever turns: one market after the other if there are none. -/
theorem markets_independent (e : Engine) {acts : List StoreAct}
    (hcreated : ∀ a ∈ acts, a.InsertsCreated) (hnodup : markets.Nodup)
    (hperm : markets.Perm markets') (steps steps' : List Step) :
    let s := Store.empty.afterActs acts
    let x := (start e s markets).after steps
    let x' := (start e s markets').after steps'
    (∀ o ∈ s.orders.entries, o.market ∉ markets → x.store.orders.find? o.id = some o) ∧
    (∃ more, (x.after more).Complete) ∧
    (x.Complete → x'.Complete →
      x.store.SameOrders x'.store ∧
      (∀ market, (x.store.tradesIn market).map Trade.unnamed =
        (x'.store.tradesIn market).map Trade.unnamed) ∧
      (∀ market ∈ markets, ∃! run, run.market = market ∧ x.Reports run) ∧
      (∀ run, x.Reports run ↔ x'.Reports run) ∧
      ∃ summary, x.Counts summary ∧ x'.Counts summary ∧
        ∀ stamps answers turns, ∃ y,
          Task.Ends (Desk.handler stamps answers)
            (e.matchMarkets turns markets' : Task StoreError _) ⟨s, 0, 0⟩
            (.ok summary) y ∧
          y.store.SameOrders x.store) := by
  intro s x x'
  have hs : s.Regular := Store.regular_afterActs hcreated
  have hnodup' : markets'.Nodup := hperm.nodup_iff.1 hnodup
  have hx : x.Sound e markets s := (sound_start hs markets).after hnodup steps
  have hx' : x'.Sound e markets' s := (sound_start hs markets').after hnodup' steps'
  refine ⟨fun o ho hmarket => hx.find?_eq ho hmarket, exists_complete x, fun hdone hdone' => ?_⟩
  have hmatched := hx.matched hdone
  have hmatched' := hx'.matched hdone'
  have hview := hmatched.view_unique hmatched' hperm
  refine ⟨hmatched.sameOrders hmatched' hperm, fun market => congrArg MarketView.trades (hview market),
    fun market hmarket => ?_, fun run => ?_, .ofViews e s markets, hx.counts hdone, ?_,
    fun stamps answers turns => ?_⟩
  · refine ⟨(s.view market).result e market,
      ⟨rfl, (hx.reports_iff hdone).2 ⟨market, hmarket, rfl⟩⟩, ?_⟩
    rintro run ⟨rfl, hrun⟩
    obtain ⟨market, -, heq⟩ := (hx.reports_iff hdone).1 hrun
    have hmarket : run.market = market := congrArg MarketRun.market heq
    rw [hmarket]
    exact heq
  · rw [hx.reports_iff hdone, hx'.reports_iff hdone']
    simp only [hperm.mem_iff]
  · rw [PassSummary.ofViews_perm hperm]
    exact hx'.counts hdone'
  · obtain ⟨y, hends, hy⟩ := ends_matchMarkets (e := e) hs hnodup' stamps answers turns
    rw [PassSummary.ofViews_perm hperm]
    exact ⟨y, hends, hy.sameOrders hmatched hperm.symm⟩

/-- A pair of gold and a pair of gold futures. The owner of the first sell is the owner of the second
buy. -/
def twoMarkets : List StoreAct :=
  let futures (o : Order) : Order := { o with tradingType := .futures }
  let calls : List StoreCall :=
    [.insertOrder (.gold 1 .sell .one .one 1), .insertOrder (.gold 2 .buy .one .one 2),
      .insertOrder (futures (.gold 3 .buy .one .one 1)),
      .insertOrder (futures (.gold 4 .sell .one .one 3)),
      .transitionOrder ⟨.ofNat 1⟩ .confirm, .transitionOrder ⟨.ofNat 2⟩ .confirm,
      .transitionOrder ⟨.ofNat 3⟩ .confirm, .transitionOrder ⟨.ofNat 4⟩ .confirm]
  calls.map fun c => .call ⟨.ofNat 9, .epoch⟩ c

/-- The spot market and the futures are matched call by call in turn, with a ledger that grants
everything, and the futures before the spot market, with a ledger that is down. -/
theorem markets_independent_twoMarkets :
    let e : Engine := ⟨.standard, .create 3 10, 100, false⟩
    let spot : Market := ⟨Order.goldSymbol, .spot⟩
    let futures : Market := ⟨Order.goldSymbol, .futures⟩
    let markets := [spot, futures]
    let markets' := [futures, spot]
    let next (n place : ℕ) : Step := ⟨place, ⟨.ofNat n, .epoch⟩, LedgerAnswers.granting 0⟩
    let next' (n place : ℕ) : Step := ⟨place, ⟨.ofNat n, .epoch⟩, LedgerAnswers.down 0⟩
    let steps := (List.replicate 7 [next 5 0, next 6 1]).flatten
    let steps' := List.replicate 7 (next' 7 0) ++ List.replicate 7 (next' 8 1)
    ((∀ a ∈ twoMarkets, a.InsertsCreated) ∧ markets.Nodup ∧ markets.Perm markets') ∧
    let s := Store.empty.afterActs twoMarkets
    let x := (start e s markets).after steps
    let x' := (start e s markets').after steps'
    (x.outcomes.map fun o => o.toOption.map fun run => (run.trades.length, run.stop)) =
      [some (1, .exhausted), some (1, .exhausted)] ∧
    x'.outcomes.length = 2 ∧
    (∀ o ∈ s.orders.entries, o.market ∉ markets → x.store.orders.find? o.id = some o) ∧
    (∃ more, (x.after more).Complete) ∧
    (x.Complete → x'.Complete →
      x.store.SameOrders x'.store ∧
      (∀ market, (x.store.tradesIn market).map Trade.unnamed =
        (x'.store.tradesIn market).map Trade.unnamed) ∧
      (∀ market ∈ markets, ∃! run, run.market = market ∧ x.Reports run) ∧
      (∀ run, x.Reports run ↔ x'.Reports run) ∧
      ∃ summary, x.Counts summary ∧ x'.Counts summary ∧
        ∀ stamps answers turns, ∃ y,
          Task.Ends (Desk.handler stamps answers)
            (e.matchMarkets turns markets' : Task StoreError _) ⟨s, 0, 0⟩
            (.ok summary) y ∧
          y.store.SameOrders x.store) := by
  intro e spot futures markets markets' next next' steps steps'
  have hcreated : ∀ a ∈ twoMarkets, a.InsertsCreated := by
    simp only [twoMarkets, List.map_cons, List.map_nil, List.forall_mem_cons]
    refine ⟨?_, ?_, ?_, ?_, trivial, trivial, trivial, trivial, by simp⟩ <;>
      exact Order.exists_create rfl (by decide) (by decide) ⟨_, rfl⟩
  have hnodup : markets.Nodup := by decide +kernel
  have hperm : markets.Perm markets' := List.Perm.swap _ _ _
  exact ⟨⟨hcreated, hnodup, hperm⟩, by decide +kernel, by decide +kernel,
    markets_independent e hcreated hnodup hperm steps steps'⟩

end Scan

end Bourse
