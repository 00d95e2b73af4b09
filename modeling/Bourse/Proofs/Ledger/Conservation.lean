import Bourse.Proofs.Ledger.Calls
import Bourse.Proofs.Order.Steps
import Bourse.Proofs.Settlement.Log
import Mathlib.Algebra.BigOperators.Finprod

/-!
# The ledger makes no money

A ledger is used in any way: deposits, locks, unlocks and settlements, with any users, assets,
amounts and trades, one after the other, and some of them refused. As long as nothing is lost by
rounding, what all users hold of an asset and the fees collected in it come to what was deposited.

A call makes none of its postings or all of them. Those of a deposit add up to the deposit. Those of
any other call add up to nothing in each asset, also where its accounts coincide.
-/

namespace Bourse

/-- What is done to a ledger. -/
inductive LedgerAct where
  | deposit (user : UserId) (asset : String) (amount : Decimal)
  | call (c : LedgerCall)

/-- What is deposited of an asset. -/
def LedgerAct.deposited (asset : String) : LedgerAct → ℚ
  | deposit _ a amount => if a = asset then amount.toRat else 0
  | call _ => 0

/-! ### All users together -/

instance : Finite UserId :=
  Finite.of_injective (fun user => user.number.toBitVec.toFin) fun _ _ h =>
    congrArg UserId.mk (UInt64.toBitVec_inj.1 (BitVec.toFin_inj.1 h))

/-- What there is of an asset is on the accounts of its users and on that of its fees. -/
theorem totalOf_eq_finsum (asset : String) (f : Account →₀ ℚ) :
    totalOf asset f =
      (∑ᶠ user, (f (.available user asset) + f (.locked user asset))) + f (.fees asset) := by
  induction f using Finsupp.induction_linear with
  | zero => simp
  | add f g hf hg =>
    have hsum : (∑ᶠ user, ((f + g) (.available user asset) + (f + g) (.locked user asset))) =
        (∑ᶠ user, (f (.available user asset) + f (.locked user asset))) +
          ∑ᶠ user, (g (.available user asset) + g (.locked user asset)) := by
      rw [← finsum_add_distrib (Set.toFinite _) (Set.toFinite _)]
      refine finsum_congr fun user => ?_
      rw [Finsupp.add_apply, Finsupp.add_apply]
      exact add_add_add_comm _ _ _ _
    rw [map_add, hf, hg, hsum, Finsupp.add_apply]
    exact add_add_add_comm _ _ _ _
  | single x v =>
    rw [totalOf_single]
    cases x with
    | available user a =>
      by_cases ha : a = asset
      · subst ha
        rw [finsum_eq_single _ user fun u hu => by simp [hu.symm]]
        simp [Account.asset]
      · simp [Account.asset, ha]
    | locked user a =>
      by_cases ha : a = asset
      · subst ha
        rw [finsum_eq_single _ user fun u hu => by simp [hu.symm]]
        simp [Account.asset]
      · simp [Account.asset, ha]
    | fees a =>
      by_cases ha : a = asset <;> simp [Account.asset, ha]

namespace Ledger

/-! ### Calls without loss -/

/-- Postings are made without loss, one after the other. -/
def PostsAllExactly (l : Ledger) : List Posting → Prop
  | [] => True
  | p :: ps => l.PostsExactly p ∧ ∀ l' ∈ (l.post p).toOption, l'.PostsAllExactly ps

/-- Every addition and every subtraction that is made on the way is exact. What a call refuses, and
what it does not do again, takes none. -/
def ComputesExactly (l : Ledger) : LedgerAct → Prop
  | .deposit user asset amount =>
    l.PostsAllExactly [.credit (.available user asset) (.ok amount)]
  | .call (.validate _ _ _) => True
  | .call (.lock user asset amount) =>
    amount.isPos = true → ¬l.balance (.available user asset) < amount →
      l.PostsAllExactly
        [.debit (.available user asset) (.ok amount), .credit (.locked user asset) (.ok amount)]
  | .call (.unlock user asset amount) =>
    amount.isPos = true → ¬l.balance (.locked user asset) < amount →
      l.PostsAllExactly
        [.debit (.locked user asset) (.ok amount), .credit (.available user asset) (.ok amount)]
  | .call (.settle t release) =>
    ¬release.isNeg = true → t.id ∉ l.settled →
      ExactSum t.quoteQuantity release ∧
      ∀ debit ∈ (t.quoteQuantity.add release).toOption,
        ¬l.balance (.locked t.buyerUserId t.symbol.quote) < debit →
        ¬l.balance (.locked t.sellerUserId t.symbol.base) < t.quantity →
          ExactDifference t.quantity t.buyerFee ∧ ExactDifference t.quoteQuantity t.sellerFee ∧
          l.PostsAllExactly (settlementPostings t debit release)

/-- The ledger after something is done to it, whether it succeeds or not. -/
def act (l : Ledger) : LedgerAct → Ledger
  | .deposit user asset amount => (l.deposit user asset amount).2
  | .call c => (l.perform c).2

/-- The ledger after several things are done to it. -/
def afterActs (l : Ledger) (acts : List LedgerAct) : Ledger :=
  acts.foldl act l

/-- Each of several acts is without loss on the ledger that it finds. -/
def RunsExactly (l : Ledger) : List LedgerAct → Prop
  | [] => True
  | a :: acts => l.ComputesExactly a ∧ (l.act a).RunsExactly acts

section Decidable

instance (l : Ledger) : (p : Posting) → Decidable (l.PostsExactly p)
  | .credit x amount =>
    inferInstanceAs (Decidable (∃ a ∈ amount.toOption, ExactSum (l.balance x) a))
  | .debit x amount =>
    inferInstanceAs (Decidable (∃ a ∈ amount.toOption, ExactDifference (l.balance x) a))

instance decidablePostsAllExactly :
    (ps : List Posting) → (l : Ledger) → Decidable (l.PostsAllExactly ps)
  | [], _ => .isTrue trivial
  | p :: ps, l =>
    have := decidablePostsAllExactly ps
    inferInstanceAs
      (Decidable (l.PostsExactly p ∧ ∀ l' ∈ (l.post p).toOption, l'.PostsAllExactly ps))

instance (l : Ledger) : (a : LedgerAct) → Decidable (l.ComputesExactly a)
  | .deposit _ _ _ => decidablePostsAllExactly _ l
  | .call (.validate _ _ _) => .isTrue trivial
  | .call (.lock _ _ _) => instDecidableForall
  | .call (.unlock _ _ _) => instDecidableForall
  | .call (.settle _ _) => instDecidableForall

instance decidableRunsExactly :
    (acts : List LedgerAct) → (l : Ledger) → Decidable (l.RunsExactly acts)
  | [], _ => .isTrue trivial
  | a :: acts, l =>
    have := decidableRunsExactly acts (l.act a)
    inferInstanceAs (Decidable (l.ComputesExactly a ∧ (l.act a).RunsExactly acts))

end Decidable

variable {l : Ledger} {ps : List Posting} {asset : String}

/-- Postings without loss are all made. -/
theorem PostsAllExactly.postAll_eq (h : l.PostsAllExactly ps) :
    ∃ l', l.postAll ps = (.ok (), l') ∧ l'.holdings = l.holdings + Posting.changes ps := by
  induction ps generalizing l with
  | nil => exact ⟨l, rfl, by rw [Posting.changes_nil, add_zero]⟩
  | cons p ps ih =>
    obtain ⟨hp, hps⟩ := h
    obtain ⟨l₁, hpost, hhold, -⟩ := post_eq_ok hp
    obtain ⟨l', hall, hhold'⟩ := ih (hps l₁ (mem_toOption_iff.2 hpost))
    refine ⟨l', ?_, ?_⟩
    · rw [postAll, hpost]
      exact hall
    · rw [hhold', hhold, Posting.changes_cons, add_assoc]

theorem totalOf_postAll (h : l.PostsAllExactly ps) (asset : String) :
    totalOf asset (l.postAll ps).2.holdings =
      totalOf asset l.holdings + totalOf asset (Posting.changes ps) := by
  obtain ⟨l', hall, hhold⟩ := h.postAll_eq
  rw [hall, hhold, map_add]

/-- A call that moves an amount within an asset, or is refused, leaves what there is of each. -/
theorem totalOf_move {α : Type} {x y : Account} {amount : Decimal} {cause cause' : Refusal}
    {value : Ledger → α} (hasset : x.asset = y.asset)
    (h : amount.isPos = true → ¬l.balance x < amount →
      l.PostsAllExactly [.debit x (.ok amount), .credit y (.ok amount)]) :
    totalOf asset (if !amount.isPos then l.refuse cause
      else if l.balance x < amount then l.refuse cause'
      else answer (l.postAll [.debit x (.ok amount), .credit y (.ok amount)]) value).2.holdings =
      totalOf asset l.holdings := by
  split
  · rfl
  · rename_i hpos
    split
    · rfl
    · rename_i hroom
      rw [answer, totalOf_postAll (h (by simpa using hpos) hroom), changes_move,
        totalOf_moved hasset, add_zero]

theorem totalOf_settle {t : Trade} {release : Decimal}
    (h : l.ComputesExactly (.call (.settle t release))) :
    totalOf asset (l.settle t release).2.holdings = totalOf asset l.holdings := by
  obtain ⟨cause, hsettle⟩ | ⟨-, hsettle⟩ | ⟨e, -, hsettle⟩ | ⟨debit, hadmits, hmade⟩ :=
    l.settle_cases t release
  · rw [hsettle]
    rfl
  · rw [hsettle]
  · rw [hsettle]
  · have hdebit := mem_toOption_iff.2 hadmits.debit_eq
    obtain ⟨⟨sum, hsum, hsum_eq⟩, hposts⟩ := h hadmits.not_neg hadmits.not_settled
    obtain rfl : debit = sum := Option.some.inj (hdebit.symm.trans hsum)
    obtain ⟨⟨net, hnet, hnet_eq⟩, ⟨netQuote, hnetQuote, hnetQuote_eq⟩, hexact⟩ :=
      hposts debit hdebit hadmits.buyer_covered hadmits.seller_covered
    obtain ⟨l₁, hl₁, hhold⟩ := hexact.postAll_eq
    obtain ⟨l', hall, hsettle⟩ | ⟨e, l', hall, -⟩ := hmade
    · obtain rfl : l₁ = l' := congrArg Prod.snd (hl₁.symm.trans hall)
      rw [hsettle, holdings_markSettled, hhold, changes_settlementPostings hsum_eq
        (mem_toOption_iff.1 hnet) hnet_eq (mem_toOption_iff.1 hnetQuote) hnetQuote_eq, map_add,
        totalOf_settlement, add_zero]
    · cases hl₁.symm.trans hall

/-- Only a deposit changes what there is of an asset. -/
theorem totalOf_act {a : LedgerAct} (h : l.ComputesExactly a) (asset : String) :
    totalOf asset (l.act a).holdings = totalOf asset l.holdings + a.deposited asset := by
  cases a with
  | deposit user b amount =>
    refine (totalOf_postAll h asset).trans ?_
    rw [changes_deposit, totalOf_single]
    rfl
  | call c =>
    rw [LedgerAct.deposited, add_zero]
    cases c with
    | validate user b amount =>
      simp only [act, perform, validate]
      split <;> rfl
    | lock user b amount => exact totalOf_move rfl h
    | unlock user b amount => exact totalOf_move rfl h
    | settle t release => exact totalOf_settle h

theorem RunsExactly.totalOf_eq {acts : List LedgerAct} (h : l.RunsExactly acts) (asset : String) :
    totalOf asset (l.afterActs acts).holdings =
      totalOf asset l.holdings + (acts.map (LedgerAct.deposited asset)).sum := by
  induction acts generalizing l with
  | nil => exact (add_zero _).symm
  | cons a acts ih =>
    obtain ⟨ha, hacts⟩ := h
    rw [List.map_cons, List.sum_cons, ← add_assoc, ← totalOf_act ha]
    exact ih hacts

/-- However a ledger is used, as long as nothing is lost by rounding: what all users have of an
asset, available or locked, and the fees collected in it come to what was deposited of it. And
whatever a trade says that has the name of a settled one, settling it changes nothing. -/
theorem available_add_locked_add_fees_eq {acts : List LedgerAct} (h : empty.RunsExactly acts) :
    let l := empty.afterActs acts
    (∀ asset, (∑ᶠ user, ((l.wallet user asset).available.toRat +
        (l.wallet user asset).locked.toRat)) + (l.collectedFees asset).toRat =
      (acts.map (LedgerAct.deposited asset)).sum) ∧
    ∀ (t : Trade) (release : Decimal), t.id ∈ l.settled → (l.settle t release).2 = l := by
  intro l
  refine ⟨fun asset => ?_, fun t release hmem => settle_settled hmem release⟩
  have htotal := h.totalOf_eq asset
  rw [holdings_empty, map_zero, zero_add] at htotal
  exact (totalOf_eq_finsum asset l.holdings).symm.trans htotal

/-- A settled trade of some quantity at the price of one. -/
def tradeAtOne (number : ℕ) (symbol : Symbol) (buyer seller quantity : UInt64) : Trade where
  id := ⟨.ofNat number⟩
  symbol := symbol
  tradingType := .spot
  buyOrderId := ⟨.ofNat 1⟩
  sellOrderId := ⟨.ofNat 2⟩
  makerOrderId := ⟨.ofNat 1⟩
  takerOrderId := ⟨.ofNat 2⟩
  price := .one
  quantity := .ofWord quantity
  quoteQuantity := .ofWord quantity
  buyerUserId := ⟨buyer⟩
  sellerUserId := ⟨seller⟩
  makerUserId := ⟨buyer⟩
  takerUserId := ⟨seller⟩
  makerFeeRate := .zero
  takerFeeRate := .zero
  buyerFee := .one
  sellerFee := .ofWord 2
  createdAt := .epoch

/-- A trade is settled, and a larger one of its name is not. A user settles a trade with themselves
in which dollars are paid for dollars, and unlocks more than is locked. -/
def entangledActs : List LedgerAct :=
  let gold := Order.goldSymbol
  let dollars : Symbol := { gold with base := gold.quote, base_code := gold.quote_code }
  [.deposit ⟨1⟩ "USD" (.ofWord 50), .call (.lock ⟨1⟩ "USD" (.ofWord 40)),
    .deposit ⟨2⟩ "XAU" (.ofWord 30), .call (.lock ⟨2⟩ "XAU" (.ofWord 30)),
    .call (.settle (tradeAtOne 1 gold 1 2 30) (.ofWord 5)),
    .call (.settle (tradeAtOne 1 gold 1 2 90) (.ofWord 7)),
    .deposit ⟨3⟩ "USD" (.ofWord 30), .call (.lock ⟨3⟩ "USD" (.ofWord 30)),
    .call (.settle (tradeAtOne 2 dollars 3 3 10) (.ofWord 5)),
    .call (.unlock ⟨3⟩ "USD" (.ofWord 9))]

theorem available_add_locked_add_fees_eq_entangledActs :
    empty.RunsExactly entangledActs ∧
    let l := empty.afterActs entangledActs
    l.settled = [⟨.ofNat 2⟩, ⟨.ofNat 1⟩] ∧
    (∀ asset, (∑ᶠ user, ((l.wallet user asset).available.toRat +
        (l.wallet user asset).locked.toRat)) + (l.collectedFees asset).toRat =
      (entangledActs.map (LedgerAct.deposited asset)).sum) ∧
    ∀ (t : Trade) (release : Decimal), t.id ∈ l.settled → (l.settle t release).2 = l := by
  have hexact : empty.RunsExactly entangledActs := by decide +kernel
  exact ⟨hexact, by decide +kernel, available_add_locked_add_fees_eq hexact⟩

end Ledger

end Bourse
