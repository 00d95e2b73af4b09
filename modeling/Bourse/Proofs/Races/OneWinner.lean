import Bourse.Proofs.Races.Office

/-!
# Races have one winner

What a clerk has read may be out of date when it acts on it. Since an order takes a transition only
once, each order is confirmed by at most one clerk and cancelled by at most one, which alone gives
back its reserve, and an order that is cancelled never trades.
-/

namespace Bourse

namespace Office

open Deed

/-- A clerk is done with its errand. -/
def Ended (x : Office) (clerk : ℕ) (e : Errand) (r : Outcome ServiceError e.Receipt) : Prop :=
  x.clerks[clerk]? = some ⟨e, .done r⟩

/-- A clerk has returned an order as cancelled. -/
def Returns (x : Office) (clerk : ℕ) (o : Order) : Prop :=
  ∃ e receipt, x.Ended clerk e (.ok (.ok receipt)) ∧ o ∈ e.cancelled receipt

/-- What holds of the clerks' races at every time. -/
structure OneWinner (x : Office) : Prop where
  /-- A clerk comes back from confirming, and says that it did just if it has moved the order. -/
  confirmed_iff : ∀ {i id r}, x.Ended i (.confirm id) r →
    ∃ b : Bool, r = .ok (.ok b) ∧ (b = true ↔ ∃ d ∈ of i x.log, d.Moves id .pending .confirmed)
  confirmed_once : ∀ {i j id}, x.Ended i (.confirm id) (.ok (.ok true)) →
    x.Ended j (.confirm id) (.ok (.ok true)) → i = j
  returned_cancelled : ∀ {i o}, x.Returns i o → o.status = .cancelled
  returned_once : ∀ {i j o o'}, x.Returns i o → x.Returns j o' → o.id = o'.id → i = j
  returned_nodup : ∀ {i e receipt}, x.Ended i e (.ok (.ok receipt)) →
    ((e.cancelled receipt).map Order.id).Nodup
  /-- The ledger is called only to give back the whole reserve of an order that is cancelled. -/
  released_whole : ∀ {held c}, (held, c) ∈ releases x.log → ∃ o, held = some o ∧
    o.Unlocks o.amount c ∧ o.status = .cancelled ∧ x.store.orders.find? o.id = some o
  released_once : ((releases x.log).map fun r => r.1.map Order.id).Nodup
  /-- A clerk that is refused has left the store as it was, call by call, and never called the
  ledger. -/
  refused : ∀ {i e error}, x.Ended i e (.ok (.error error)) →
    ∀ d ∈ of i x.log, d.after = d.before ∧ ∀ c, d.call ≠ .ledger c

variable {x : Office} {i j : ℕ} {d : Deed}

/-! ### What follows -/

/-- An order is confirmed by a deed that moves it there. -/
theorem moves_iff_of_effect (hd : d.Effect) (id : OrderId) :
    d.Moves id .pending .confirmed ↔
      ∃ o, d.moved? = some o ∧ o.id = id ∧ o.status = .confirmed := by
  cases hd with
  | idle after_eq hidle =>
    refine iff_of_false ?_ fun ⟨o, ho, _⟩ => by
      rw [hidle] at ho
      cases ho
    rintro ⟨o, o', ho, hs, ho', hs'⟩
    rw [after_eq, ho] at ho'
    obtain rfl := Option.some.inj ho'
    rw [hs] at hs'
    cases hs'
  | @moved t now p q found applied _ after_eq moved_eq _ =>
    constructor
    · rintro ⟨o, o', ho, hs, ho', hs'⟩
      rw [after_eq, OrderTable.find?_put] at ho'
      by_cases hid : q.id = id
      · rw [if_pos hid] at ho'
        obtain rfl := Option.some.inj ho'
        exact ⟨q, moved_eq, hid, hs'⟩
      · rw [if_neg hid, ho] at ho'
        obtain rfl := Option.some.inj ho'
        rw [hs] at hs'
        cases hs'
    · rintro ⟨o, ho, rfl, hs⟩
      obtain rfl := Option.some.inj (moved_eq.symm.trans ho)
      refine ⟨p, q, found, ?_, ?_, hs⟩
      · obtain ⟨status, notes, rfl, ⟨-, hp, -⟩ | ⟨-, -, rfl⟩ | ⟨-, -, rfl⟩⟩ :=
          Transition.apply_eq_ok applied
        · exact hp
        · cases hs
        · cases hs
      · rw [after_eq, OrderTable.find?_put, if_pos rfl]

theorem Sound.confirmed (hx : x.Sound) {id : OrderId} {r : Outcome ServiceError Bool}
    (h : x.Ended i (.confirm id) r) :
    ∃ b : Bool, r = .ok (.ok b) ∧ (b = true ↔ ∃ d ∈ of i x.log, d.Moves id .pending .confirmed) := by
  obtain ⟨b, hr, hmoves⟩ : Errand.Confirms id r (moves (of i x.log)) := hx.trusted i _ h
  have hiff : ∀ d ∈ of i x.log, d.Moves id .pending .confirmed ↔
      ∃ o, d.moved? = some o ∧ o.id = id ∧ o.status = .confirmed := fun d hd =>
    moves_iff_of_effect (hx.effects d (mem_of_iff.1 hd).1) id
  refine ⟨b, hr, ?_⟩
  cases b with
  | true =>
    refine iff_of_true rfl ?_
    have hmem : (id, OrderStatus.confirmed) ∈ (moves (of i x.log)).map fun o => (o.id, o.status) := by
      rw [hmoves]
      exact List.mem_cons_self
    obtain ⟨o, ho, heq⟩ := List.mem_map.1 hmem
    obtain ⟨hid, hstatus⟩ := Prod.mk.inj heq
    obtain ⟨d, hd, hmoved⟩ := mem_moves_iff.1 ho
    exact ⟨d, hd, (hiff d hd).2 ⟨o, hmoved, hid, hstatus⟩⟩
  | false =>
    refine iff_of_false (by decide) ?_
    rintro ⟨d, hd, hdmoves⟩
    obtain ⟨o, hmoved, -⟩ := (hiff d hd).1 hdmoves
    have hnil : moves (of i x.log) = [] := List.map_eq_nil_iff.1 hmoves
    have hmem : o ∈ moves (of i x.log) := mem_moves_iff.2 ⟨d, hd, hmoved⟩
    rw [hnil] at hmem
    cases hmem

/-- Clerks who have moved one order to one status are one clerk. -/
theorem Sound.clerk_eq (hx : x.Sound) {d d' : Deed} {o o' : Order} (hd : d ∈ x.log)
    (hd' : d' ∈ x.log) (ho : d.moved? = some o) (ho' : d'.moved? = some o') (hid : o.id = o'.id)
    (hstatus : o.status = o'.status) : d.clerk = d'.clerk := by
  by_contra hne
  have hdd' : d ≠ d' := by
    rintro rfl
    exact hne rfl
  exact hx.apart.forall hd hd' hdd' o o' ho ho' hid hstatus

theorem Sound.confirmed_once (hx : x.Sound) {id : OrderId}
    (hi : x.Ended i (.confirm id) (.ok (.ok true))) (hj : x.Ended j (.confirm id) (.ok (.ok true))) :
    i = j := by
  have hdeed : ∀ {k}, x.Ended k (.confirm id) (.ok (.ok true)) →
      ∃ d ∈ x.log, d.clerk = k ∧ ∃ o, d.moved? = some o ∧ o.id = id ∧ o.status = .confirmed := by
    intro k hk
    obtain ⟨b, hb, hiff⟩ := hx.confirmed hk
    obtain rfl : true = b := Except.ok.inj (Except.ok.inj hb)
    obtain ⟨d, hd, hmoves⟩ := hiff.1 rfl
    obtain ⟨hlog, hclerk⟩ := mem_of_iff.1 hd
    exact ⟨d, hlog, hclerk, (moves_iff_of_effect (hx.effects d hlog) id).1 hmoves⟩
  obtain ⟨d, hd, rfl, o, ho, hid, hs⟩ := hdeed hi
  obtain ⟨d', hd', rfl, o', ho', hid', hs'⟩ := hdeed hj
  exact hx.clerk_eq hd hd' ho ho' (hid.trans hid'.symm) (hs.trans hs'.symm)

/-- What a clerk returns as cancelled it has cancelled. -/
theorem Sound.returned (hx : x.Sound) {e : Errand} {receipt : e.Receipt}
    (h : x.Ended i e (.ok (.ok receipt))) :
    e.cancelled receipt = [] ∨
      e.cancelled receipt = (moves (of i x.log)).reverse ∧
        ∀ o ∈ moves (of i x.log), o.status = .cancelled := by
  have hends := hx.trusted i _ h
  cases e with
  | confirm id => exact Or.inl rfl
  | cancel id user reason =>
    obtain ⟨horders, hstatus⟩ := hends.1 receipt rfl
    exact Or.inr ⟨horders.symm, hstatus⟩
  | cancelAll user reason =>
    obtain ⟨horders, hstatus⟩ := hends.1 receipt rfl
    exact Or.inr ⟨horders.symm, hstatus⟩

theorem Sound.exists_of_returns (hx : x.Sound) {o : Order} (h : x.Returns i o) :
    o.status = .cancelled ∧ ∃ d ∈ x.log, d.clerk = i ∧ d.moved? = some o := by
  obtain ⟨e, receipt, hended, ho⟩ := h
  obtain hnil | ⟨heq, hstatus⟩ := hx.returned hended
  · rw [hnil] at ho
    cases ho
  · rw [heq, List.mem_reverse] at ho
    obtain ⟨d, hd, hmoved⟩ := mem_moves_iff.1 ho
    obtain ⟨hlog, hclerk⟩ := mem_of_iff.1 hd
    exact ⟨hstatus o ho, d, hlog, hclerk, hmoved⟩

theorem Sound.returned_nodup (hx : x.Sound) {e : Errand} {receipt : e.Receipt}
    (h : x.Ended i e (.ok (.ok receipt))) : ((e.cancelled receipt).map Order.id).Nodup := by
  obtain hnil | ⟨heq, hstatus⟩ := hx.returned h
  · rw [hnil]
    exact List.nodup_nil
  · have hdeeds : (of i x.log).Pairwise Apart := hx.apart.sublist List.filter_sublist
    have hmoves : (moves (of i x.log)).Pairwise fun o o' => o.id = o'.id → o.status ≠ o'.status :=
      List.pairwise_filterMap.2 (hdeeds.imp fun h o ho o' ho' => h o o' ho ho')
    rw [heq, List.map_reverse, List.nodup_reverse]
    refine List.pairwise_map.2 (hmoves.imp_of_mem fun ho ho' h hid => ?_)
    exact h hid ((hstatus _ ho).trans (hstatus _ ho').symm)

theorem Sound.released_whole (hx : x.Sound) {held : Option Order} {c : LedgerCall}
    (h : (held, c) ∈ releases x.log) : ∃ o, held = some o ∧ o.Unlocks o.amount c ∧
      o.status = .cancelled ∧ x.store.orders.find? o.id = some o := by
  obtain ⟨o, rfl, hunlocks⟩ := hx.released _ h
  obtain ⟨d, hd, hmoved, hstatus⟩ := exists_of_mem_releases h rfl
  obtain ⟨hremaining, p, hp, hlater⟩ := hx.moved o (mem_moves_iff.2 ⟨d, hd, hmoved⟩)
  obtain rfl := hlater.finished (by rw [hstatus]; rfl)
  rw [hremaining] at hunlocks
  exact ⟨p, rfl, hunlocks, hstatus, hp⟩

theorem Sound.refused (hx : x.Sound) {e : Errand} {error : ServiceError}
    (h : x.Ended i e (.ok (.error error))) :
    ∀ d ∈ of i x.log, d.after = d.before ∧ ∀ c, d.call ≠ .ledger c := by
  have hnil : moves (of i x.log) = [] := by
    have hends := hx.trusted i _ h
    cases e with
    | confirm id =>
      obtain ⟨b, hb, -⟩ := hends
      cases hb
    | cancel id user reason => exact hends.2 error rfl
    | cancelAll user reason => exact hends.2 error rfl
  have hidle : ∀ d ∈ of i x.log, d.moved? = none := List.filterMap_eq_nil_iff.1 hnil
  intro d hd
  obtain ⟨hlog, hclerk⟩ := mem_of_iff.1 hd
  constructor
  · cases hx.effects d hlog with
    | idle after_eq _ => exact after_eq
    | moved _ _ _ _ moved_eq _ =>
      rw [hidle d hd] at moved_eq
      cases moved_eq
  · intro c hc
    obtain ⟨held, hheld, hcancelled⟩ := exists_release hlog hc
    obtain ⟨o, ho, -⟩ := hx.released _ hheld
    obtain ⟨d', hd', hmoved⟩ := hcancelled o ho
    rw [hclerk] at hd'
    rw [hidle d' hd'] at hmoved
    cases hmoved

theorem Sound.oneWinner (hx : x.Sound) : x.OneWinner where
  confirmed_iff h := hx.confirmed h
  confirmed_once hi hj := hx.confirmed_once hi hj
  returned_cancelled h := (hx.exists_of_returns h).1
  returned_once {i j o o'} hi hj hid := by
    obtain ⟨hs, d, hd, rfl, ho⟩ := hx.exists_of_returns hi
    obtain ⟨hs', d', hd', rfl, ho'⟩ := hx.exists_of_returns hj
    exact hx.clerk_eq hd hd' ho ho' hid (hs.trans hs'.symm)
  returned_nodup h := hx.returned_nodup h
  released_whole h := hx.released_whole h
  released_once := (nodup_releases hx.apart fun r hr => by
    obtain ⟨o, ho, -⟩ := hx.released r hr
    rw [ho]
    exact Option.some_ne_none o).1
  refused h := hx.refused h

/-- Whatever was done to a store before, and however the calls of any number of clerks are interleaved
with each other and with the calls of others: each race has one winner. And an order that is
cancelled stays so, and is in no trade, now and later. -/
theorem one_winner {past : List StoreAct} (hpast : ∀ a ∈ past, a.InsertsCreated) {acts : List Act}
    (hacts : ∀ a ∈ acts, a.InsertsCreated) :
    let x := (opened (Store.empty.afterActs past)).after acts
    x.OneWinner ∧
      ∀ o ∈ x.store.orders.entries, o.status = .cancelled →
        ∀ later, o ∈ (x.after later).store.orders.entries ∧
          ∀ t ∈ (x.after later).store.trades, t.involvesOrder o.id = false := by
  intro x
  have hx : x.Sound := (sound_opened hpast).after hacts
  exact ⟨hx.oneWinner, fun o ho hstatus later => cancelled_after hx.traders ho hstatus later⟩

/-- A buy and a sell of gold, of which the sell is confirmed. -/
def buyAndSell : List StoreAct :=
  let calls : List StoreCall :=
    [.insertOrder (.gold 1 .buy (.ofWord 2) (.ofWord 100) 1),
      .insertOrder (.gold 2 .sell (.ofWord 3) (.ofWord 98) 2), .transitionOrder ⟨.ofNat 2⟩ .confirm]
  calls.map fun c => .call ⟨.ofNat 3, .epoch⟩ c

/-- Two clerks confirm the buy, one cancels it, and one cancels all orders of the buyer. Each of them
reads before any of them acts. Then there is an attempt to match the orders. -/
def fourClerks : List Act :=
  let buy : OrderId := ⟨.ofNat 1⟩
  let stamp : Stamp := ⟨.ofNat 4, .epoch⟩
  let next (clerk : ℕ) : Act := .advance clerk stamp fun _ => .ok (.error (.unavailable "down"))
  [.start (.confirm buy), .start (.confirm buy), .start (.cancel buy ⟨1⟩ "changed my mind"),
    .start (.cancelAll ⟨1⟩ "leaving"), next 0, next 1, next 2, next 3,
    next 1, next 3, next 0, next 2, next 3,
    .call stamp (.commitMatch ⟨.ofNat 2⟩ buy (.ofWord 2) .zero)]

theorem one_winner_fourClerks :
    ((∀ a ∈ buyAndSell, a.InsertsCreated) ∧ ∀ a ∈ fourClerks, a.InsertsCreated) ∧
    let buy : OrderId := ⟨.ofNat 1⟩
    let x := (opened (Store.empty.afterActs buyAndSell)).after fourClerks
    (x.log.filterMap (fun d => d.moved?.map fun o => (d.clerk, o.id, o.status)) =
        [(3, buy, .cancelled), (1, buy, .confirmed)] ∧
      (releases x.log).map (fun r => r.1.map Order.id) = [some buy]) ∧
    x.OneWinner ∧
      ∀ o ∈ x.store.orders.entries, o.status = .cancelled →
        ∀ later, o ∈ (x.after later).store.orders.entries ∧
          ∀ t ∈ (x.after later).store.trades, t.involvesOrder o.id = false := by
  have hpast : ∀ a ∈ buyAndSell, a.InsertsCreated := by
    simp only [buyAndSell, List.map_cons, List.map_nil, List.forall_mem_cons]
    refine ⟨?_, ?_, trivial, by simp⟩
    · exact Order.create_gold 1 .buy 1 (by decide) (by decide) ⟨_, rfl⟩
    · exact Order.create_gold 2 .sell 2 (by decide) (by decide) ⟨_, rfl⟩
  have hacts : ∀ a ∈ fourClerks, a.InsertsCreated := by
    simp only [fourClerks, List.forall_mem_cons]
    exact ⟨trivial, trivial, trivial, trivial, trivial, trivial, trivial, trivial, trivial, trivial,
      trivial, trivial, trivial, trivial, by simp⟩
  exact ⟨⟨hpast, hacts⟩, ⟨by decide +kernel, by decide +kernel⟩, one_winner hpast hacts⟩

end Office

end Bourse
