import Bourse.Proofs.Ledger.Conservation
import Bourse.Proofs.Store.Regular

/-!
# Overdrawn accounts

A posting leaves its account with nothing or more if it takes no more than is there. Every call to
the ledger makes sure of that with one exception. The settlement of a trade looks at what buyer and
seller have locked before it takes anything, and where a user trades an asset for itself with
themselves, it looks twice at one balance and then takes twice from it.

So the balances of all users stay at zero or above as long as no such trade is settled by a user
who has not locked enough for both sides, and after a settlement of such a trade the locked balance
is below zero.
-/

namespace Bourse

/-! ### Trades between orders -/

/-- The order was created. It may have been numbered and filled since. -/
def Order.Created (o : Order) : Prop :=
  ∃ stamp terms created sequence, Order.create stamp terms = .ok created ∧
    { created with sequence }.SameTerms o

theorem Order.Created.price_pos {o : Order} (h : o.Created) : 0 < o.price.toRat := by
  obtain ⟨stamp, terms, created, sequence, hcreate, hterms⟩ := h
  rw [hterms.price_eq]
  exact (Order.Regular.of_create hcreate).price_pos

namespace Trade

/-- The trade is one between two orders, at fees of less than the whole. -/
def Genuine (t : Trade) : Prop :=
  ∃ stamp maker taker quantity fees, maker.Created ∧ taker.Created ∧ fees.Fractions ∧
    Trade.create stamp maker taker quantity fees = .ok t

/-- Both sides of the trade pay out of one balance. -/
def OneBalance (t : Trade) : Prop :=
  t.buyerUserId = t.sellerUserId ∧ t.symbol.quote = t.symbol.base

instance (t : Trade) : Decidable t.OneBalance := inferInstanceAs (Decidable (_ ∧ _))

/-- Neither side of the trade pays a fee that is more than what it receives. -/
structure Fair (t : Trade) : Prop where
  quantity_pos : 0 < t.quantity.toRat
  buyerFee_nonneg : 0 ≤ t.buyerFee.toRat
  buyerFee_le : t.buyerFee.toRat ≤ t.quantity.toRat
  sellerFee_nonneg : 0 ≤ t.sellerFee.toRat
  sellerFee_le : t.sellerFee.toRat ≤ t.quoteQuantity.toRat

theorem Fair.quoteQuantity_nonneg {t : Trade} (h : t.Fair) : 0 ≤ t.quoteQuantity.toRat :=
  h.sellerFee_nonneg.trans h.sellerFee_le

/-- Rounding does not make a fee larger than the whole. -/
theorem Genuine.fair {t : Trade} (h : t.Genuine) : t.Fair := by
  obtain ⟨stamp, maker, taker, quantity, fees, hmaker, -, hfees, hcreate⟩ := h
  obtain ⟨-, -, hpos, quote, hquote, buyerFee, hbuyerFee, sellerFee, hsellerFee, rfl⟩ :=
    Trade.create_eq_ok_iff.1 hcreate
  have hquantity := Decimal.isPos_iff.1 hpos
  have hquote_nonneg := Decimal.mul?_nonneg hmaker.price_pos.le hquantity.le hquote
  have hfee : ∀ {a fee : Decimal} (role : OrderRole), 0 ≤ a.toRat →
      a.mul? (fees.rateFor role) = some fee → 0 ≤ fee.toRat ∧ fee.toRat ≤ a.toRat := by
    intro a fee role ha h
    exact ⟨Decimal.mul?_nonneg ha (hfees.nonneg role) h,
      Decimal.mul?_le ha (hfees.nonneg role) (hfees.lt_one role).le h⟩
  obtain ⟨hb0, hb⟩ := hfee _ hquantity.le hbuyerFee
  obtain ⟨hs0, hs⟩ := hfee _ hquote_nonneg hsellerFee
  exact ⟨hquantity, hb0, hb, hs0, hs⟩

end Trade

/-- Deposits are positive, and trades are between orders. -/
def LedgerAct.Proper : LedgerAct → Prop
  | deposit _ _ amount => amount.isPos = true
  | call (.settle t _) => t.Genuine
  | call _ => True

/-- The account that is credited or debited. -/
def Posting.account : Posting → Account
  | credit account _ | debit account _ => account

namespace Ledger

variable {l l' : Ledger} {p : Posting} {ps : List Posting} {x : Account} {amount : Decimal}
  {t : Trade} {release : Decimal}

/-! ### Postings -/

/-- No account is overdrawn. -/
def Solvent (l : Ledger) : Prop := ∀ x, 0 ≤ (l.balance x).toRat

/-- A posting gives an amount, or takes one that is there. -/
def Affords (l : Ledger) : Posting → Prop
  | .credit _ amount => ∀ a ∈ amount.toOption, 0 ≤ a.toRat
  | .debit x amount => ∀ a ∈ amount.toOption, 0 ≤ a.toRat ∧ a.toRat ≤ (l.balance x).toRat

/-- Each of several postings that is made finds what it takes. -/
def AffordsAll (l : Ledger) : List Posting → Prop
  | [] => True
  | p :: ps => l.Affords p ∧ ∀ l' ∈ (l.post p).toOption, l'.AffordsAll ps

theorem solvent_empty : empty.Solvent := fun _ => Decimal.toRat_zero.ge

theorem Solvent.setBalance (h : l.Solvent) (hamount : 0 ≤ amount.toRat) :
    (l.setBalance x amount).Solvent := by
  intro y
  rw [balance_setBalance]
  split
  · exact hamount
  · exact h y

theorem post_credit_eq_ok_iff {c : Checked Decimal} : l.post (.credit x c) = .ok l' ↔
    ∃ a, c = .ok a ∧ ∃ b, (l.balance x).add a = .ok b ∧ l' = l.setBalance x b := by
  simp only [post, bind_eq_ok_iff, pure_eq_ok_iff]

theorem post_debit_eq_ok_iff {c : Checked Decimal} : l.post (.debit x c) = .ok l' ↔
    ∃ a, c = .ok a ∧ ∃ b, (l.balance x).sub a = .ok b ∧ l' = l.setBalance x b := by
  simp only [post, bind_eq_ok_iff, pure_eq_ok_iff]

/-- A posting changes no account but its own. -/
theorem balance_post (h : l.post p = .ok l') (hx : x ≠ p.account) :
    l'.balance x = l.balance x := by
  cases p with
  | credit y amount =>
    obtain ⟨a, -, b, -, rfl⟩ := post_credit_eq_ok_iff.1 h
    exact (balance_setBalance l y x b).trans (if_neg hx)
  | debit y amount =>
    obtain ⟨a, -, b, -, rfl⟩ := post_debit_eq_ok_iff.1 h
    exact (balance_setBalance l y x b).trans (if_neg hx)

theorem balance_postAll {r : Checked Unit} (h : l.postAll ps = (r, l'))
    (hx : ∀ p ∈ ps, x ≠ p.account) : l'.balance x = l.balance x := by
  induction ps generalizing l with
  | nil =>
    obtain rfl := congrArg Prod.snd h
    rfl
  | cons p ps ih =>
    obtain ⟨hp, hps⟩ := List.forall_mem_cons.1 hx
    rw [postAll] at h
    cases hpost : l.post p with
    | error e =>
      rw [hpost] at h
      obtain rfl := congrArg Prod.snd h
      rfl
    | ok l₁ =>
      rw [hpost] at h
      exact (ih h hps).trans (balance_post hpost hp)

theorem Solvent.post (h : l.Solvent) (hp : l.Affords p) (hpost : l.post p = .ok l') :
    l'.Solvent := by
  cases p with
  | credit x amount =>
    obtain ⟨a, ha, b, hb, rfl⟩ := post_credit_eq_ok_iff.1 hpost
    exact h.setBalance (Decimal.add_toRat_nonneg (h x) (hp a (mem_toOption_iff.2 ha)) hb)
  | debit x amount =>
    obtain ⟨a, ha, b, hb, rfl⟩ := post_debit_eq_ok_iff.1 hpost
    obtain ⟨hnonneg, hle⟩ := hp a (mem_toOption_iff.2 ha)
    obtain ⟨c, hc, hc0, -⟩ := Decimal.sub_between hnonneg hle
    obtain rfl := Except.ok.inj (hc.symm.trans hb)
    exact h.setBalance hc0

/-- Also postings that stop at an overflow leave no account overdrawn. -/
theorem Solvent.postAll (h : l.Solvent) (hps : l.AffordsAll ps) : (l.postAll ps).2.Solvent := by
  induction ps generalizing l with
  | nil => exact h
  | cons p ps ih =>
    obtain ⟨hp, hrest⟩ := hps
    rw [Ledger.postAll]
    cases hpost : l.post p with
    | error e => exact h
    | ok l₁ => exact ih (h.post hp hpost) (hrest l₁ (mem_toOption_iff.2 hpost))

/-! ### Calls -/

theorem affordsAll_credits (h : ∀ p ∈ ps, ∃ x amount, p = .credit x amount ∧
    ∀ a ∈ amount.toOption, 0 ≤ a.toRat) : l.AffordsAll ps := by
  induction ps generalizing l with
  | nil => trivial
  | cons p ps ih =>
    obtain ⟨⟨x, amount, rfl, hamount⟩, hps⟩ := List.forall_mem_cons.1 h
    exact ⟨hamount, fun l' _ => ih hps⟩

theorem forall_mem_ok {P : Decimal → Prop} {a : Decimal} (ha : P a) :
    ∀ b ∈ (Except.ok a : Checked Decimal).toOption, P b := by
  intro b hb
  rwa [← Option.some.inj hb]

/-- What is left of a number from which a smaller one was taken. -/
theorem forall_mem_sub {a b : Decimal} (hb : 0 ≤ b.toRat) (hle : b.toRat ≤ a.toRat) :
    ∀ c ∈ (a.sub b).toOption, 0 ≤ c.toRat := by
  obtain ⟨c, hc, hc0, -⟩ := Decimal.sub_between hb hle
  rw [hc]
  exact forall_mem_ok hc0

/-- A call that moves an amount makes sure that it is there. -/
theorem Solvent.move {α : Type} {y : Account} {cause cause' : Refusal} {value : Ledger → α}
    (h : l.Solvent) :
    (if !amount.isPos then l.refuse cause
      else if l.balance x < amount then l.refuse cause'
      else answer (l.postAll [.debit x (.ok amount), .credit y (.ok amount)]) value).2.Solvent := by
  split
  · exact h
  · rename_i hpos
    have hamount := Decimal.isPos_iff.1 (by simpa using hpos)
    split
    · exact h
    · rename_i hroom
      exact h.postAll ⟨forall_mem_ok ⟨hamount.le, Decimal.not_lt_iff.1 hroom⟩,
        fun l' _ => ⟨forall_mem_ok hamount.le, fun _ _ => trivial⟩⟩

/-- The settlement of a trade passes both checks, and after the buyer has paid there is less than
the quantity left to the seller. -/
def Overdraws (l : Ledger) : LedgerAct → Prop
  | .call (.settle t release) =>
    let locked := l.balance (.locked t.sellerUserId t.symbol.base)
    t.OneBalance ∧ release.isNeg = false ∧ t.id ∉ l.settled ∧
      ∃ debit ∈ (t.quoteQuantity.add release).toOption, ¬locked < debit ∧ ¬locked < t.quantity ∧
        ∃ left ∈ (locked.sub debit).toOption, left < t.quantity
  | _ => False

instance (l : Ledger) : (a : LedgerAct) → Decidable (l.Overdraws a)
  | .deposit _ _ _ => .isFalse id
  | .call (.validate _ _ _) => .isFalse id
  | .call (.lock _ _ _) => .isFalse id
  | .call (.unlock _ _ _) => .isFalse id
  | .call (.settle _ _) => inferInstanceAs (Decidable (_ ∧ _))

/-- What the seller finds on the locked balance once the buyer has paid: what was there, or what
the buyer has left of it. -/
theorem sellerBalance_cases {l₁ l₂ l₃ : Ledger} {debit : Decimal} {c c' : Checked Decimal}
    (h₁ : l.post (.debit (.locked t.buyerUserId t.symbol.quote) (.ok debit)) = .ok l₁)
    (h₂ : l₁.post (.credit (.available t.buyerUserId t.symbol.quote) c) = .ok l₂)
    (h₃ : l₂.post (.credit (.available t.buyerUserId t.symbol.base) c') = .ok l₃) :
    let seller := Account.locked t.sellerUserId t.symbol.base
    t.OneBalance ∧ (l.balance seller).sub debit = .ok (l₃.balance seller) ∨
      ¬t.OneBalance ∧ l₃.balance seller = l.balance seller := by
  intro seller
  have hpaid : l₃.balance seller = l₁.balance seller :=
    (balance_post h₃ (by simp [seller, Posting.account])).trans
      (balance_post h₂ (by simp [seller, Posting.account]))
  by_cases hone : t.OneBalance
  · left
    have hbuyer : Account.locked t.buyerUserId t.symbol.quote = seller := by
      rw [hone.1, hone.2]
    obtain ⟨_, ha, left, hleft, rfl⟩ := post_debit_eq_ok_iff.1 h₁
    obtain rfl := Except.ok.inj ha
    rw [hbuyer] at hleft hpaid
    rw [hpaid, balance_setBalance, if_pos rfl]
    exact ⟨hone, hleft⟩
  · right
    refine ⟨hone, hpaid.trans (balance_post h₁ ?_)⟩
    intro e
    obtain ⟨huser, hasset⟩ := Account.locked.inj e
    exact hone ⟨huser.symm, hasset.symm⟩

/-- A settlement takes no more than is there, unless it takes twice from one balance. -/
theorem affordsAll_settlementPostings {debit : Decimal} (ht : t.Fair)
    (hrelease : 0 ≤ release.toRat) (hdebit : t.quoteQuantity.add release = .ok debit)
    (hbuyer : ¬l.balance (.locked t.buyerUserId t.symbol.quote) < debit)
    (hseller : ¬l.balance (.locked t.sellerUserId t.symbol.base) < t.quantity)
    (hboth : t.OneBalance →
      ∀ left ∈ ((l.balance (.locked t.sellerUserId t.symbol.base)).sub debit).toOption,
        ¬left < t.quantity) :
    l.AffordsAll (settlementPostings t debit release) := by
  have hdebit_nonneg := Decimal.add_toRat_nonneg ht.quoteQuantity_nonneg hrelease hdebit
  have hnet := forall_mem_sub ht.buyerFee_nonneg ht.buyerFee_le
  have hnetQuote := forall_mem_sub ht.sellerFee_nonneg ht.sellerFee_le
  refine ⟨forall_mem_ok ⟨hdebit_nonneg, Decimal.not_lt_iff.1 hbuyer⟩, fun l₁ h₁ =>
    ⟨forall_mem_ok hrelease, fun l₂ h₂ => ⟨hnet, fun l₃ h₃ =>
      ⟨forall_mem_ok ⟨ht.quantity_pos.le, ?_⟩, fun l₄ _ => affordsAll_credits ?_⟩⟩⟩⟩
  · obtain ⟨hone, hleft⟩ | ⟨-, hsame⟩ := sellerBalance_cases (mem_toOption_iff.1 h₁)
      (mem_toOption_iff.1 h₂) (mem_toOption_iff.1 h₃)
    · exact Decimal.not_lt_iff.1 (hboth hone _ (mem_toOption_iff.2 hleft))
    · rw [hsame]
      exact Decimal.not_lt_iff.1 hseller
  · simp only [List.forall_mem_cons, List.not_mem_nil, false_imp_iff, implies_true, and_true]
    exact ⟨⟨_, _, rfl, hnetQuote⟩, ⟨_, _, rfl, forall_mem_ok ht.buyerFee_nonneg⟩,
      ⟨_, _, rfl, forall_mem_ok ht.sellerFee_nonneg⟩⟩

theorem Solvent.settle (h : l.Solvent) (ht : t.Fair)
    (hcovers : ¬l.Overdraws (.call (.settle t release))) : (l.settle t release).2.Solvent := by
  obtain ⟨cause, hsettle⟩ | ⟨-, hsettle⟩ | ⟨e, -, hsettle⟩ | ⟨debit, hadmits, hmade⟩ :=
    l.settle_cases t release
  · rw [hsettle]
    exact h
  · rw [hsettle]
    exact h
  · rw [hsettle]
    exact h
  · have hrelease : 0 ≤ release.toRat := by
      simpa only [Decimal.isNeg_iff, not_lt] using hadmits.not_neg
    have hall := h.postAll (affordsAll_settlementPostings ht hrelease hadmits.debit_eq
      hadmits.buyer_covered hadmits.seller_covered fun hone left hleft hlt => hcovers
        ⟨hone, by simpa using hadmits.not_neg, hadmits.not_settled, debit,
          mem_toOption_iff.2 hadmits.debit_eq,
          by simpa only [hone.1, hone.2] using hadmits.buyer_covered, hadmits.seller_covered, left,
          hleft, hlt⟩)
    obtain ⟨l', hpost, hsettle⟩ | ⟨e, l', hpost, hsettle⟩ := hmade
    · rw [hpost] at hall
      rw [hsettle]
      exact hall
    · rw [hpost] at hall
      rw [hsettle]
      exact hall

/-- None of several acts overdraws the ledger that it finds. -/
def StaysCovered (l : Ledger) : List LedgerAct → Prop
  | [] => True
  | a :: acts => ¬l.Overdraws a ∧ (l.act a).StaysCovered acts

instance decidableStaysCovered :
    (acts : List LedgerAct) → (l : Ledger) → Decidable (l.StaysCovered acts)
  | [], _ => .isTrue trivial
  | a :: acts, l =>
    have := decidableStaysCovered acts (l.act a)
    inferInstanceAs (Decidable (¬l.Overdraws a ∧ (l.act a).StaysCovered acts))

/-- An act leaves no account overdrawn, whether it succeeds or not. -/
theorem Solvent.act (h : l.Solvent) {a : LedgerAct} (ha : a.Proper) (hcovers : ¬l.Overdraws a) :
    (l.act a).Solvent := by
  cases a with
  | deposit user asset amount =>
    exact h.postAll ⟨forall_mem_ok (Decimal.isPos_iff.1 ha).le, fun _ _ => trivial⟩
  | call c =>
    cases c with
    | validate user asset amount =>
      simp only [Ledger.act, perform, validate]
      split <;> exact h
    | lock user asset amount => exact h.move
    | unlock user asset amount => exact h.move
    | settle t release => exact h.settle ha.fair hcovers

theorem Solvent.afterActs {acts : List LedgerAct} (h : l.Solvent) (hacts : ∀ a ∈ acts, a.Proper)
    (hcovers : l.StaysCovered acts) : (l.afterActs acts).Solvent := by
  induction acts generalizing l with
  | nil => exact h
  | cons a acts ih =>
    obtain ⟨ha, hacts⟩ := List.forall_mem_cons.1 hacts
    exact ih (h.act ha hcovers.1) hacts hcovers.2

/-! ### One balance for both sides -/

theorem postAll_cons_eq_ok_iff :
    l.postAll (p :: ps) = (.ok (), l') ↔
      ∃ l₁, l.post p = .ok l₁ ∧ l₁.postAll ps = (.ok (), l') := by
  rw [Ledger.postAll]
  cases l.post p <;> simp

/-- An accepted settlement of a new trade made all of its postings. -/
theorem exists_postAll_of_settle (hnew : t.id ∉ l.settled)
    (h : (l.settle t release).1 = .ok (.ok ())) :
    ∃ debit l', t.quoteQuantity.add release = .ok debit ∧
      l.postAll (settlementPostings t debit release) = (.ok (), l') ∧
      (l.settle t release).2 = l'.markSettled t.id := by
  obtain ⟨cause, hsettle⟩ | ⟨hmem, -⟩ | ⟨e, -, hsettle⟩ |
    ⟨debit, hadmits, ⟨l', hall, hsettle⟩ | ⟨e, l', -, hsettle⟩⟩ := l.settle_cases t release
  · rw [hsettle] at h
    cases h
  · exact absurd hmem hnew
  · rw [hsettle] at h
    cases h
  · exact ⟨debit, l', hadmits.debit_eq, hall, by rw [hsettle]⟩
  · rw [hsettle] at h
    cases h

/-- A user who has not locked enough for both sides of a trade owes the difference afterwards. -/
theorem Overdraws.locked_lt_zero (h : l.Overdraws (.call (.settle t release))) (ht : t.Fair)
    (haccepted : (l.settle t release).1 = .ok (.ok ())) :
    ((l.settle t release).2.wallet t.sellerUserId t.symbol.base).locked.toRat < 0 := by
  obtain ⟨hone, -, hnew, debit, hdebit, -, -, left, hleft, hlt⟩ := h
  obtain ⟨debit', l', hdebit', hall, hl'⟩ := exists_postAll_of_settle hnew haccepted
  obtain rfl : debit = debit' := Except.ok.inj ((mem_toOption_iff.1 hdebit).symm.trans hdebit')
  obtain ⟨l₁, h₁, hall⟩ := postAll_cons_eq_ok_iff.1 hall
  obtain ⟨l₂, h₂, hall⟩ := postAll_cons_eq_ok_iff.1 hall
  obtain ⟨l₃, h₃, hall⟩ := postAll_cons_eq_ok_iff.1 hall
  obtain ⟨l₄, h₄, hall⟩ := postAll_cons_eq_ok_iff.1 hall
  obtain ⟨-, hpaid⟩ | ⟨hne, -⟩ := sellerBalance_cases h₁ h₂ h₃
  · rw [mem_toOption_iff] at hleft
    obtain rfl := Except.ok.inj (hleft.symm.trans hpaid)
    obtain ⟨_, ha, rest, hrest, rfl⟩ := post_debit_eq_ok_iff.1 h₄
    obtain rfl := Except.ok.inj ha
    have hlast := balance_postAll (x := .locked t.sellerUserId t.symbol.base) hall
      (by simp [Posting.account])
    rw [balance_setBalance, if_pos rfl] at hlast
    rw [hl']
    show (l'.balance _).toRat < 0
    rw [hlast]
    exact Decimal.sub_toRat_lt_zero (Decimal.lt_iff.1 hlt) ht.quantity_pos hrest
  · exact absurd hone hne

/-- However a ledger is used, with positive deposits and trades between orders: as long as nobody
settles a trade with themselves, in an asset for itself, for which they have not locked enough for
both sides, no user has less than nothing of an asset, available or locked. One accepted settlement
of such a trade leaves less than nothing. -/
theorem wallet_nonneg {acts : List LedgerAct} (hacts : ∀ a ∈ acts, a.Proper)
    (hcovered : empty.StaysCovered acts) :
    let l := empty.afterActs acts
    (∀ user asset, 0 ≤ (l.wallet user asset).available.toRat ∧
      0 ≤ (l.wallet user asset).locked.toRat) ∧
    ∀ (t : Trade) (release : Decimal), t.Genuine → l.Overdraws (.call (.settle t release)) →
      (l.settle t release).1 = .ok (.ok ()) →
      ((l.settle t release).2.wallet t.sellerUserId t.symbol.base).locked.toRat < 0 := by
  intro l
  have hsolvent : l.Solvent := solvent_empty.afterActs hacts hcovered
  exact ⟨fun user asset => ⟨hsolvent _, hsolvent _⟩,
    fun t release ht hoverdraws haccepted => hoverdraws.locked_lt_zero ht.fair haccepted⟩

/-- A trade at the price of one that costs neither side a fee. -/
def freeTrade (number : ℕ) (symbol : Symbol) (buyer seller quantity : UInt64) : Trade :=
  { tradeAtOne number symbol buyer seller quantity with buyerFee := .zero, sellerFee := .zero }

theorem genuine_freeTrade (number : ℕ) (symbol : Symbol) (buyer seller : UInt64)
    {quantity : UInt64} (hpos : (Decimal.ofWord quantity).isPos = true)
    (hprice : Decimal.one.mul? (.ofWord quantity) = some (.ofWord quantity)) :
    (freeTrade number symbol buyer seller quantity).Genuine := by
  have hcreated : ∀ (number : ℕ) (side : Side) (user : UInt64),
      { Order.gold number side (.ofWord quantity) .one user with symbol }.Created := by
    intro number side user
    exact ⟨⟨.ofNat number, .epoch⟩, ⟨symbol, .ofWord quantity, .one, ⟨user⟩, side, .spot, none⟩, _,
      0, Order.create_eq_ok_iff.2 ⟨hpos, show Decimal.one.isPos = true by decide, ⟨_, hprice⟩, rfl⟩,
      .refl _⟩
  exact ⟨⟨.ofNat number, .epoch⟩, _, _, .ofWord quantity, .zero, hcreated 1 .buy buyer,
    hcreated 2 .sell seller, FeeSchedule.zero_fractions,
    Trade.create_eq_ok_iff.2 ⟨show Side.buy ≠ .sell by decide, rfl, hpos, _, hprice, .zero,
      Decimal.mul?_of_isZero (Or.inr rfl), .zero, Decimal.mul?_of_isZero (Or.inr rfl), rfl⟩⟩

/-- Dollars for dollars. -/
def dollars : Symbol :=
  { Order.goldSymbol with
    base := Order.goldSymbol.quote
    base_code := Order.goldSymbol.quote_code }

/-- A user has locked enough dollars for both sides of a trade of dollars for dollars, and settles
it with themselves. Then they buy gold from another, and lock more than they have. -/
def coveredActs : List LedgerAct :=
  [.deposit ⟨1⟩ "USD" (.ofWord 50), .call (.lock ⟨1⟩ "USD" (.ofWord 25)),
    .call (.settle (freeTrade 1 dollars 1 1 10) (.ofWord 5)),
    .call (.lock ⟨1⟩ "USD" (.ofWord 30)),
    .deposit ⟨2⟩ "XAU" (.ofWord 30), .call (.lock ⟨2⟩ "XAU" (.ofWord 30)),
    .call (.settle (freeTrade 2 Order.goldSymbol 1 2 30) .zero),
    .call (.lock ⟨1⟩ "USD" (.ofWord 90))]

theorem wallet_nonneg_coveredActs :
    (∀ a ∈ coveredActs, a.Proper) ∧ empty.StaysCovered coveredActs ∧
    let l := empty.afterActs coveredActs
    l.settled = [⟨.ofNat 2⟩, ⟨.ofNat 1⟩] ∧
    (∀ user asset, 0 ≤ (l.wallet user asset).available.toRat ∧
      0 ≤ (l.wallet user asset).locked.toRat) ∧
    ∀ (t : Trade) (release : Decimal), t.Genuine → l.Overdraws (.call (.settle t release)) →
      (l.settle t release).1 = .ok (.ok ()) →
      ((l.settle t release).2.wallet t.sellerUserId t.symbol.base).locked.toRat < 0 := by
  have hacts : ∀ a ∈ coveredActs, a.Proper := by
    simp only [coveredActs, List.forall_mem_cons, List.not_mem_nil, false_imp_iff, implies_true,
      and_true]
    exact ⟨rfl, trivial, genuine_freeTrade _ _ _ _ (by decide) (by decide), trivial, rfl, trivial,
      genuine_freeTrade _ _ _ _ (by decide) (by decide), trivial⟩
  have hcovered : empty.StaysCovered coveredActs := by decide +kernel
  exact ⟨hacts, hcovered, by decide +kernel, wallet_nonneg hacts hcovered⟩

/-- A user who has locked ten dollars settles a trade of ten dollars for ten dollars with
themselves. -/
def doubleSpendActs : List LedgerAct :=
  [.deposit ⟨1⟩ "USD" (.ofWord 10), .call (.lock ⟨1⟩ "USD" (.ofWord 10)),
    .call (.settle (freeTrade 1 dollars 1 1 10) .zero)]

theorem locked_lt_zero_doubleSpendActs :
    (∀ a ∈ doubleSpendActs, a.Proper) ∧
      ((empty.afterActs doubleSpendActs).wallet ⟨1⟩ "USD").locked.toRat < 0 := by
  constructor
  · simp only [doubleSpendActs, List.forall_mem_cons, List.not_mem_nil, false_imp_iff, implies_true,
      and_true]
    exact ⟨rfl, trivial, genuine_freeTrade _ _ _ _ (by decide) (by decide)⟩
  · rw [← Decimal.isNeg_iff]
    decide +kernel

end Ledger

end Bourse
