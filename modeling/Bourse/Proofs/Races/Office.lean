import Bourse.Proofs.Races.Clerks
import Bourse.Proofs.Trade.Untraded

/-!
# Many clerks and one store

Any number of clerks confirm and cancel orders of one store, while others insert, move and match
them. Every call of anyone may come between two calls of a clerk. A log tells what the clerks have
done. By it, no order is moved to one status twice, and nothing is given back twice.
-/

namespace Bourse

/-- A clerk with an errand. -/
structure Clerk where
  errand : Errand
  /-- What is left to do. -/
  work : Work (Outcome ServiceError errand.Receipt)

/-- A store with the clerks that use it. -/
structure Office where
  store : Store
  clerks : List Clerk
  /-- What the clerks have done, the latest first. -/
  log : List Deed

namespace Deed

/-- What one clerk has done. -/
def of (clerk : ℕ) (log : List Deed) : List Deed :=
  log.filter fun d => d.clerk = clerk

/-- The calls to the ledger, each with the order that the clerk had cancelled just before, if it
had. -/
def releases : List Deed → List (Option Order × LedgerCall)
  | [] => []
  | d :: earlier =>
    match d.call with
    | .ledger c => (justCancelled (of d.clerk earlier), c) :: releases earlier
    | _ => releases earlier

end Deed

namespace Office

open Deed

/-- The office with a store, before the clerks come. -/
def opened (s : Store) : Office := ⟨s, [], []⟩

/-- What can happen next. -/
inductive Act where
  /-- Someone else uses the store. -/
  | call (stamp : Stamp) (c : StoreCall)
  /-- A clerk gets an errand. -/
  | start (e : Errand)
  /-- A clerk makes its next call. The ledger may answer anything. -/
  | advance (clerk : ℕ) (stamp : Stamp) (ledger : (c : LedgerCall) → Outcome LedgerError c.Answer)

/-- Only orders that have just been created are inserted. -/
def Act.InsertsCreated : Act → Prop
  | call _ c => Store.InsertsCreated c
  | _ => True

/-- The office after something has happened. A clerk that is done makes no more calls. -/
def act (x : Office) : Act → Office
  | .call stamp c => { x with store := (x.store.perform stamp c).2 }
  | .start e => { x with clerks := x.clerks ++ [⟨e, e.task.work⟩] }
  | .advance clerk stamp ledger =>
    match x.clerks[clerk]? with
    | some ⟨e, .call c next⟩ =>
      let (reply, store) := Floor.answer x.store stamp ledger c
      { store
        clerks := x.clerks.set clerk ⟨e, next reply⟩
        log := ⟨clerk, x.store, c, reply, store⟩ :: x.log }
    | _ => x

/-- The office after several things have happened. -/
def after (x : Office) (acts : List Act) : Office :=
  acts.foldl act x

end Office

/-! ### What a transition rules out -/

theorem OrderStatus.ne_pending_of_moves {a b : OrderStatus}
    (h : Relation.ReflTransGen OrderStatus.Moves a b) (ha : a ≠ .pending) : b ≠ .pending := by
  cases h with
  | refl => exact ha
  | tail _ hmoves => exact hmoves.ne_pending

/-- Once an order has come to a status by a transition, no transition takes it there again. -/
theorem Transition.status_ne_of_later {t : Transition} {o p p' : Order} {now : Instant}
    (hlater : o.Later p) (happly : t.apply p now = .ok p') : o.status ≠ p'.status := by
  intro hstatus
  have hfinished : o.status.isTerminal = true → p.status.isTerminal = true := by
    intro h
    rw [hlater.finished h]
    exact h
  obtain ⟨status, notes, rfl, ⟨-, hp, rfl⟩ | ⟨-, hp, rfl⟩ | ⟨-, hp, rfl⟩⟩ :=
    Transition.apply_eq_ok happly
  · have ho : o.status ≠ .pending := by
      rw [hstatus]
      exact fun e => (by cases e)
    exact OrderStatus.ne_pending_of_moves hlater.moves ho hp
  · have hterminal := hfinished (by rw [hstatus]; rfl)
    revert hp hterminal
    cases p.status <;> decide
  · have hterminal := hfinished (by rw [hstatus]; rfl)
    rw [hp] at hterminal
    cases hterminal

namespace Deed

variable {d d' : Deed} {log earlier : List Deed} {clerk : ℕ} {o o' : Order} {c : LedgerCall}

/-- A deed leaves the store alone, or it moves one order of it. -/
inductive Effect (d : Deed) : Prop where
  | idle (after_eq : d.after = d.before) (moved_eq : d.moved? = none)
  | moved {t : Transition} {now : Instant} {o o' : Order}
    (found : d.before.orders.find? o'.id = some o) (applied : t.apply o now = .ok o')
    (clerical : t = .confirm ∨ ∃ reason, t = .cancel reason)
    (after_eq : d.after.orders = d.before.orders.put o') (moved_eq : d.moved? = some o')
    (no_ledger : ∀ c, d.call ≠ .ledger c)

/-- Two deeds do not move one order to one status. -/
def Apart (d d' : Deed) : Prop :=
  ∀ o o', d.moved? = some o → d'.moved? = some o' → o.id = o'.id → o.status ≠ o'.status

instance : Std.Symm Apart := ⟨fun _ _ h o o' ho ho' hid hs => h o' o ho' ho hid.symm hs.symm⟩

theorem mem_moves_iff : o ∈ moves log ↔ ∃ d ∈ log, d.moved? = some o := List.mem_filterMap

theorem mem_of_iff : d ∈ of clerk log ↔ d ∈ log ∧ d.clerk = clerk := by
  rw [of, List.mem_filter, decide_eq_true_eq]

theorem of_cons_self (d : Deed) (log : List Deed) : of d.clerk (d :: log) = d :: of d.clerk log :=
  List.filter_cons_of_pos (by simp)

theorem of_cons_of_ne (h : d.clerk ≠ clerk) (log : List Deed) : of clerk (d :: log) = of clerk log :=
  List.filter_cons_of_neg (by simpa using h)

theorem exists_of_justCancelled (h : justCancelled (of clerk log) = some o) :
    ∃ d ∈ log, d.clerk = clerk ∧ d.moved? = some o ∧ o.status = .cancelled := by
  obtain ⟨hmoved, hstatus⟩ := Option.filter_eq_some_iff.1 h
  obtain ⟨d, hd, hmoved⟩ := Option.bind_eq_some_iff.1 hmoved
  obtain ⟨hlog, hclerk⟩ := mem_of_iff.1 (List.mem_of_head? hd)
  exact ⟨d, hlog, hclerk, hmoved, by simpa using hstatus⟩

/-- What is given back was cancelled by the clerk who gives it back. -/
theorem exists_of_mem_releases {r : Option Order × LedgerCall} (h : r ∈ releases log)
    (ho : r.1 = some o) : ∃ d ∈ log, d.moved? = some o ∧ o.status = .cancelled := by
  induction log with
  | nil => cases h
  | cons d earlier ih =>
    have hearlier : (∃ d ∈ earlier, d.moved? = some o ∧ o.status = .cancelled) →
        ∃ d' ∈ d :: earlier, d'.moved? = some o ∧ o.status = .cancelled :=
      fun ⟨d', hd', h⟩ => ⟨d', List.mem_cons_of_mem _ hd', h⟩
    unfold releases at h
    split at h
    · rcases List.mem_cons.1 h with rfl | h
      · obtain ⟨d', hd', -, hmoved⟩ := exists_of_justCancelled ho
        exact hearlier ⟨d', hd', hmoved⟩
      · exact hearlier (ih h)
    · exact hearlier (ih h)

/-- Each call to the ledger is among the releases. -/
theorem exists_release (hd : d ∈ log) (hc : d.call = .ledger c) :
    ∃ held, (held, c) ∈ releases log ∧
      ∀ o, held = some o → ∃ d' ∈ of d.clerk log, d'.moved? = some o := by
  induction log with
  | nil => cases hd
  | cons d₀ earlier ih =>
    have hsub : ∀ d' ∈ of d.clerk earlier, d' ∈ of d.clerk (d₀ :: earlier) := by
      intro d' hd'
      obtain ⟨hmem, hclerk⟩ := mem_of_iff.1 hd'
      exact mem_of_iff.2 ⟨List.mem_cons_of_mem _ hmem, hclerk⟩
    unfold releases
    rcases List.mem_cons.1 hd with rfl | hd
    · rw [hc]
      refine ⟨_, List.mem_cons_self, fun o ho => ?_⟩
      obtain ⟨d', hd', hclerk, hmoved, -⟩ := exists_of_justCancelled ho
      exact ⟨d', hsub d' (mem_of_iff.2 ⟨hd', hclerk⟩), hmoved⟩
    · obtain ⟨held, hheld, h⟩ := ih hd
      refine ⟨held, ?_, fun o ho => ?_⟩
      · split
        · exact List.mem_cons_of_mem _ hheld
        · exact hheld
      · obtain ⟨d', hd', hmoved⟩ := h o ho
        exact ⟨d', hsub d' hd', hmoved⟩

theorem moved?_of_ledger (h : d.call = .ledger c) : d.moved? = none := by
  obtain ⟨clerk, before, call, reply, after⟩ := d
  dsimp only at h
  subst h
  rfl

theorem releases_of_ledger (h : d.call = .ledger c) (earlier : List Deed) :
    releases (d :: earlier) = (justCancelled (of d.clerk earlier), c) :: releases earlier := by
  rw [releases, h]

theorem releases_of_not_ledger (h : ∀ c, d.call ≠ .ledger c) (earlier : List Deed) :
    releases (d :: earlier) = releases earlier := by
  rw [releases]
  split
  · rename_i c hc
    exact absurd hc (h c)
  · rfl

/-- What a clerk is about to give back after a further deed: what the deed has cancelled, if it is
the clerk's own. -/
theorem justCancelled_cons (h : justCancelled (of clerk (d :: earlier)) = some o) :
    (d.clerk = clerk ∧ d.moved? = some o ∧ o.status = .cancelled) ∨
      (d.clerk ≠ clerk ∧ justCancelled (of clerk earlier) = some o) := by
  by_cases hclerk : d.clerk = clerk
  · left
    subst hclerk
    rw [of_cons_self] at h
    obtain ⟨hmoved, hstatus⟩ := Option.filter_eq_some_iff.1 h
    exact ⟨rfl, hmoved, by simpa using hstatus⟩
  · right
    rw [of_cons_of_ne hclerk] at h
    exact ⟨hclerk, h⟩

/-- No order is given back twice, and none that a clerk is about to give back was given back. -/
theorem nodup_releases (hapart : log.Pairwise Apart) (hheld : ∀ r ∈ releases log, r.1 ≠ none) :
    ((releases log).map fun r => r.1.map Order.id).Nodup ∧
      ∀ clerk o, justCancelled (of clerk log) = some o →
        some o.id ∉ (releases log).map fun r => r.1.map Order.id := by
  induction log with
  | nil => exact ⟨List.nodup_nil, fun clerk o _ h => (by cases h)⟩
  | cons d earlier ih =>
    obtain ⟨hd, hearlier⟩ := List.pairwise_cons.1 hapart
    by_cases hcall : ∃ c, d.call = .ledger c
    · -- What was about to be given back is now, and what others have in hand are other orders.
      obtain ⟨c, hc⟩ := hcall
      rw [releases_of_ledger hc] at hheld ⊢
      obtain ⟨hfirst, hrest⟩ := List.forall_mem_cons.1 hheld
      obtain ⟨hnodup, hnotin⟩ := ih hearlier hrest
      obtain ⟨o, ho⟩ := Option.ne_none_iff_exists'.1 hfirst
      dsimp only at ho
      rw [List.map_cons, ho]
      refine ⟨List.nodup_cons.2 ⟨hnotin _ o ho, hnodup⟩, fun clerk o' ho' => ?_⟩
      obtain ⟨-, hmoved, -⟩ | ⟨hclerk, ho'⟩ := justCancelled_cons ho'
      · rw [moved?_of_ledger hc] at hmoved
        cases hmoved
      · rw [List.mem_cons, not_or]
        refine ⟨fun heq => ?_, hnotin _ o' ho'⟩
        obtain ⟨d₁, hd₁, hclerk₁, hmoved₁, hs₁⟩ := exists_of_justCancelled ho
        obtain ⟨d₂, hd₂, hclerk₂, hmoved₂, hs₂⟩ := exists_of_justCancelled ho'
        have hne : d₁ ≠ d₂ := by
          rintro rfl
          exact hclerk (hclerk₁.symm.trans hclerk₂)
        exact hearlier.forall hd₁ hd₂ hne o o' hmoved₁ hmoved₂ (Option.some.inj heq).symm
          (hs₁.trans hs₂.symm)
    · -- What a clerk has just cancelled was not cancelled before, so it was not given back.
      rw [releases_of_not_ledger (not_exists.1 hcall)] at hheld ⊢
      obtain ⟨hnodup, hnotin⟩ := ih hearlier hheld
      refine ⟨hnodup, fun clerk o ho hmem => ?_⟩
      obtain ⟨-, hmoved, hs⟩ | ⟨-, ho⟩ := justCancelled_cons ho
      · obtain ⟨r, hr, hid⟩ := List.mem_map.1 hmem
        obtain ⟨o', ho', hid⟩ := Option.map_eq_some_iff.1 hid
        obtain ⟨d', hd', hmoved', hs'⟩ := exists_of_mem_releases hr ho'
        exact hd d' hd' o o' hmoved hmoved' hid.symm (hs.trans hs'.symm)
      · exact hnotin clerk o ho hmem

end Deed

namespace Office

open Deed

/-- A clerk that makes only proper calls, and ends as it should. -/
def Trusted (s : Store) (log : List Deed) (i : ℕ) (k : Clerk) : Prop :=
  k.work.wp (Clerk.answers i) (fun _ _ => True) Clerk.Proper
    (fun r x => k.errand.Ends r (moves x.2)) (s, of i log)

/-- What holds at every time. -/
structure Sound (x : Office) : Prop where
  consistent : ∀ o ∈ x.store.orders.entries, o.Consistent
  traders : x.store.TradersStand
  effects : ∀ d ∈ x.log, d.Effect
  apart : x.log.Pairwise Apart
  /-- An order that was moved had not traded, and it is stored as it was left or further along. -/
  moved : ∀ o ∈ moves x.log, o.remaining = o.amount ∧
    ∃ p, x.store.orders.find? o.id = some p ∧ o.Later p
  released : ∀ r ∈ releases x.log, ∃ o, r.1 = some o ∧ o.Unlocks o.remaining r.2
  trusted : ∀ i k, x.clerks[i]? = some k → Trusted x.store x.log i k
  known : ∀ d ∈ x.log, d.clerk < x.clerks.length

variable {x : Office} {i j : ℕ} {k : Clerk} {s s' : Store} {log : List Deed} {d : Deed}

theorem Trusted.grows (h : Trusted s log i k) (hs : s.Grows s') : Trusted s' log i k := by
  obtain ⟨e, work⟩ := k
  cases work with
  | done r => exact h
  | call c next =>
    intro _
    obtain ⟨hc, hnext⟩ := h trivial
    refine ⟨?_, ?_⟩
    · revert hc
      unfold Clerk.Proper
      split <;> exact fun h => h
    · rintro reply x' ⟨s₁, stamp, ledger, hgrows, h⟩
      exact hnext reply x' ⟨s₁, stamp, ledger, hs.trans hgrows, h⟩

theorem Trusted.cons (h : Trusted s log i k) (hd : d.clerk ≠ i) : Trusted s (d :: log) i k := by
  unfold Trusted
  rw [of_cons_of_ne hd]
  exact h

/-! ### Single steps -/

theorem consistent_answer (h : ∀ o ∈ s.orders.entries, o.Consistent) (stamp : Stamp)
    (ledger : (c : LedgerCall) → Outcome LedgerError c.Answer) {c : Call} {deeds : List Deed}
    (hc : Clerk.Proper c (s, deeds)) :
    ∀ o ∈ (Floor.answer s stamp ledger c).2.orders.entries, o.Consistent := by
  cases c with
  | store c =>
    refine Store.consistent_perform h stamp ?_
    cases c with
    | insertOrder o => cases hc
    | _ => trivial
  | _ => exact h

theorem effect_transition (s : Store) (stamp : Stamp) (id : OrderId) {t : Transition}
    (ht : t = .confirm ∨ ∃ reason, t = .cancel reason) :
    Effect ⟨i, s, .store (.transitionOrder id t), (s.perform stamp (.transitionOrder id t)).1,
      (s.perform stamp (.transitionOrder id t)).2⟩ := by
  obtain ⟨-, hperform⟩ | ⟨e, hperform⟩ | ⟨o, o', hfound, happly, hperform⟩ :=
    s.perform_transitionOrder stamp id t
  · rw [hperform]
    exact .idle rfl rfl
  · rw [hperform]
    exact .idle rfl rfl
  · rw [hperform]
    have hid : o'.id = id :=
      (Order.Changes.applied happly).sameTerms.id_eq.trans (OrderTable.id_of_find? hfound)
    rw [← hid] at hfound
    exact .moved hfound happly ht rfl rfl fun c h => (by cases h)

/-- What a proper call does. -/
theorem effect_answer (s : Store) (stamp : Stamp)
    (ledger : (c : LedgerCall) → Outcome LedgerError c.Answer) {c : Call} {deeds : List Deed}
    (hc : Clerk.Proper c (s, deeds)) :
    Effect ⟨i, s, c, (Floor.answer s stamp ledger c).1, (Floor.answer s stamp ledger c).2⟩ := by
  cases c with
  | stamp => cases hc
  | ledger c => exact .idle rfl rfl
  | store c =>
    cases c with
    | getOrder id => exact .idle rfl rfl
    | cancellableOrders user => exact .idle rfl rfl
    | transitionOrder id t =>
      cases t with
      | confirm => exact effect_transition s stamp id (Or.inl rfl)
      | cancel reason => exact effect_transition s stamp id (Or.inr ⟨reason, rfl⟩)
      | fail reason => cases hc
    | _ => cases hc

theorem of_eq_nil (h : ∀ d ∈ log, d.clerk < i) : of i log = [] :=
  List.filter_eq_nil_iff.2 fun d hd => by simpa using (h d hd).ne

theorem Sound.start (hx : x.Sound) (e : Errand) : (x.act (.start e)).Sound where
  consistent := hx.consistent
  traders := hx.traders
  effects := hx.effects
  apart := hx.apart
  moved := hx.moved
  released := hx.released
  trusted := by
    intro i k hk
    rw [act, List.getElem?_append] at hk
    split at hk
    · exact hx.trusted i k hk
    · rename_i hi
      obtain ⟨hlt, rfl⟩ := List.getElem?_eq_some_iff.1 hk
      obtain rfl : i = x.clerks.length := by
        simp only [List.length_singleton] at hlt
        omega
      rw [List.getElem_singleton]
      show Trusted x.store x.log _ _
      unfold Trusted
      rw [of_eq_nil hx.known]
      exact Clerk.leads_task e x.store
  known := by
    intro d hd
    rw [act, List.length_append]
    exact Nat.lt_add_right _ (hx.known d hd)

/-- A call of someone else. -/
theorem Sound.perform (hx : x.Sound) (stamp : Stamp) {c : StoreCall}
    (hc : Store.InsertsCreated c) : (x.act (.call stamp c)).Sound where
  consistent := Store.consistent_perform hx.consistent stamp hc
  traders := hx.traders.perform stamp c
  effects := hx.effects
  apart := hx.apart
  moved o ho := ⟨(hx.moved o ho).1, Store.later_perform (hx.moved o ho).2 stamp c⟩
  released := hx.released
  trusted i k hk := (hx.trusted i k hk).grows (x.store.grows_perform stamp c)
  known := hx.known

/-- A deed moves no order to a status to which one was moved before. -/
theorem Sound.apart_of_effect (hx : x.Sound) (hbefore : d.before = x.store) (hd : d.Effect) :
    ∀ d' ∈ x.log, Apart d d' := by
  intro d' hd' o o' hmoved hmoved' hid hstatus
  cases hd with
  | idle _ hidle =>
    rw [hidle] at hmoved
    cases hmoved
  | @moved t now p q found applied _ _ moved_eq _ =>
    obtain rfl := Option.some.inj (hmoved.symm.trans moved_eq)
    obtain ⟨-, p', hp', hlater⟩ := hx.moved o' (mem_moves_iff.2 ⟨d', hd', hmoved'⟩)
    rw [hbefore, hid, hp'] at found
    obtain rfl := Option.some.inj found
    exact Transition.status_ne_of_later hlater applied hstatus.symm

/-- An order that a clerk moves has all of its amount remaining. -/
theorem remaining_eq_of_apply {t : Transition} {o o' : Order} {now : Instant} (ho : o.Consistent)
    (ht : t = .confirm ∨ ∃ reason, t = .cancel reason) (happly : t.apply o now = .ok o') :
    o'.remaining = o'.amount := by
  obtain ⟨status, notes, rfl, ⟨-, hs, -⟩ | ⟨-, hs, -⟩ | ⟨⟨reason, rfl⟩, -, -⟩⟩ :=
    Transition.apply_eq_ok happly
  · exact ho.untouched (Or.inl hs)
  · refine ho.untouched ?_
    revert hs
    cases o.status <;> decide
  · obtain h | ⟨reason', h⟩ := ht <;> cases h

theorem Sound.moved_cons (hx : x.Sound) (hbefore : d.before = x.store) (hd : d.Effect)
    (hlater : ∀ o : Order, (∃ p, x.store.orders.find? o.id = some p ∧ o.Later p) →
      ∃ p, d.after.orders.find? o.id = some p ∧ o.Later p) :
    ∀ o ∈ moves (d :: x.log), o.remaining = o.amount ∧
      ∃ p, d.after.orders.find? o.id = some p ∧ o.Later p := by
  intro o ho
  obtain ⟨d', hd', hmoved⟩ := mem_moves_iff.1 ho
  rcases List.mem_cons.1 hd' with rfl | hd'
  · cases hd with
    | idle _ hidle =>
      rw [hidle] at hmoved
      cases hmoved
    | @moved t now p q found applied clerical after_eq moved_eq _ =>
      obtain rfl := Option.some.inj (hmoved.symm.trans moved_eq)
      rw [hbefore] at found
      refine ⟨remaining_eq_of_apply (hx.consistent p (OrderTable.mem_of_find? found)) clerical
        applied, o, ?_, .refl o⟩
      rw [after_eq, OrderTable.find?_put, if_pos rfl]
  · obtain ⟨hremaining, hstored⟩ := hx.moved o (mem_moves_iff.2 ⟨d', hd', hmoved⟩)
    exact ⟨hremaining, hlater o hstored⟩

theorem Sound.released_cons (hx : x.Sound) (hd : Clerk.Proper d.call (s, of d.clerk x.log)) :
    ∀ r ∈ releases (d :: x.log), ∃ o, r.1 = some o ∧ o.Unlocks o.remaining r.2 := by
  by_cases hcall : ∃ c, d.call = .ledger c
  · obtain ⟨c, hc⟩ := hcall
    rw [hc] at hd
    rw [releases_of_ledger hc]
    exact List.forall_mem_cons.2 ⟨hd, hx.released⟩
  · rw [releases_of_not_ledger (not_exists.1 hcall)]
    exact hx.released

/-- A clerk makes its next call, and goes on with the answer. -/
theorem Sound.advance (hx : x.Sound) {e : Errand} {c : Call}
    {next : c.Reply → Work (Outcome ServiceError e.Receipt)}
    (hclerk : x.clerks[i]? = some ⟨e, .call c next⟩) (stamp : Stamp)
    (ledger : (c : LedgerCall) → Outcome LedgerError c.Answer) :
    let reply := (Floor.answer x.store stamp ledger c).1
    let store := (Floor.answer x.store stamp ledger c).2
    Sound ⟨store, x.clerks.set i ⟨e, next reply⟩, ⟨i, x.store, c, reply, store⟩ :: x.log⟩ := by
  intro reply store
  obtain ⟨hproper, hnext⟩ := hx.trusted i _ hclerk trivial
  have hgrows : x.store.Grows store := Floor.grows_answer x.store stamp ledger c
  let d : Deed := ⟨i, x.store, c, reply, store⟩
  have heffect : d.Effect := effect_answer x.store stamp ledger hproper
  have hlater : ∀ o : Order, (∃ p, x.store.orders.find? o.id = some p ∧ o.Later p) →
      ∃ p, store.orders.find? o.id = some p ∧ o.Later p := by
    intro o ho
    cases c with
    | store c => exact Store.later_perform ho stamp c
    | _ => exact ho
  have htraders : store.TradersStand := by
    cases c with
    | store c => exact hx.traders.perform stamp c
    | _ => exact hx.traders
  refine ⟨consistent_answer hx.consistent stamp ledger hproper, htraders,
    List.forall_mem_cons.2 ⟨heffect, hx.effects⟩,
    List.pairwise_cons.2 ⟨hx.apart_of_effect rfl heffect, hx.apart⟩,
    hx.moved_cons (d := d) rfl heffect hlater, hx.released_cons (d := d) hproper, ?_, ?_⟩
  · intro j k hk
    by_cases hij : i = j
    · subst hij
      rw [List.getElem?_set_self (List.getElem?_eq_some_iff.1 hclerk).1] at hk
      obtain rfl := Option.some.inj hk
      have hdeeds : of i (d :: x.log) = d :: of i x.log := of_cons_self d x.log
      show Trusted store (d :: x.log) i _
      unfold Trusted
      rw [hdeeds]
      exact hnext reply _ ⟨x.store, stamp, ledger, .refl _, rfl, rfl⟩
    · rw [List.getElem?_set_ne hij] at hk
      exact ((hx.trusted j k hk).grows hgrows).cons hij
  · rw [List.length_set]
    exact List.forall_mem_cons.2 ⟨(List.getElem?_eq_some_iff.1 hclerk).1, hx.known⟩

theorem Sound.act (hx : x.Sound) {a : Act} (ha : a.InsertsCreated) : (x.act a).Sound := by
  cases a with
  | call stamp c => exact hx.perform stamp ha
  | start e => exact hx.start e
  | advance clerk stamp ledger =>
    rw [Office.act]
    match hclerk : x.clerks[clerk]? with
    | some ⟨e, .call c next⟩ => exact hx.advance hclerk stamp ledger
    | some ⟨e, .done r⟩ => exact hx
    | none => exact hx

theorem Sound.after (hx : x.Sound) {acts : List Act} (hacts : ∀ a ∈ acts, a.InsertsCreated) :
    (x.after acts).Sound := by
  induction acts generalizing x with
  | nil => exact hx
  | cons a acts ih =>
    obtain ⟨ha, hacts⟩ := List.forall_mem_cons.1 hacts
    exact ih (hx.act ha) hacts

/-- Whatever was done to a store, an office that opens with it is in order. -/
theorem sound_opened {past : List StoreAct} (hpast : ∀ a ∈ past, a.InsertsCreated) :
    (opened (Store.empty.afterActs past)).Sound where
  consistent := by
    refine Store.afterActs_induction (P := fun s => ∀ o ∈ s.orders.entries, o.Consistent)
      (fun o ho => (by cases ho)) fun s a ha hs => ?_
    cases a with
    | call stamp c => exact Store.consistent_perform hs stamp (hpast _ ha)
    | restart => exact fun o ho => hs o (Store.mem_orders_restart_iff.1 ho)
  traders := .afterActs past
  effects := fun d hd => (by cases hd)
  apart := .nil
  moved := fun o ho => (by cases ho)
  released := fun r hr => (by cases hr)
  trusted := fun i k hk => (by cases hk)
  known := fun d hd => (by cases hd)

/-- Whatever happens adds at most one call to what was done to the store. -/
theorem store_act (x : Office) (a : Act) :
    (x.act a).store = x.store ∨ ∃ stamp c, (x.act a).store = (x.store.perform stamp c).2 := by
  cases a with
  | call stamp c => exact Or.inr ⟨stamp, c, rfl⟩
  | start e => exact Or.inl rfl
  | advance clerk stamp ledger =>
    rw [Office.act]
    match x.clerks[clerk]? with
    | some ⟨e, .call (.store c) next⟩ => exact Or.inr ⟨stamp, c, rfl⟩
    | some ⟨e, .call (.ledger c) next⟩ => exact Or.inl rfl
    | some ⟨e, .call .stamp next⟩ => exact Or.inl rfl
    | some ⟨e, .done r⟩ => exact Or.inl rfl
    | none => exact Or.inl rfl

/-- Whatever happens, a cancelled order stays as it is, and it is in no trade. -/
theorem cancelled_after {o : Order} (hx : x.store.TradersStand) (ho : o ∈ x.store.orders.entries)
    (hstatus : o.status = .cancelled) (acts : List Act) :
    o ∈ (x.after acts).store.orders.entries ∧
      ∀ t ∈ (x.after acts).store.trades, t.involvesOrder o.id = false := by
  induction acts generalizing x with
  | nil => exact ⟨ho, fun t ht => hx.involvesOrder_eq_false ho hstatus ht⟩
  | cons a acts ih =>
    refine ih (x := x.act a) ?_ ?_
    · obtain h | ⟨stamp, c, h⟩ := x.store_act a <;> rw [h]
      · exact hx
      · exact hx.perform stamp c
    · obtain h | ⟨stamp, c, h⟩ := x.store_act a <;> rw [h]
      · exact ho
      · have hstored : ∃ p, x.store.orders.find? o.id = some p ∧ o.Later p :=
          ⟨o, OrderTable.find?_of_mem ho, .refl o⟩
        obtain ⟨p, hp, hlater⟩ := Store.later_perform hstored stamp c
        obtain rfl := hlater.finished (by rw [hstatus]; rfl)
        exact OrderTable.mem_of_find? hp

end Office

end Bourse
