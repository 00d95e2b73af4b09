import Bourse.Call
import Bourse.Proofs.Ledger.Holdings
import Mathlib.Tactic.Abel

/-!
# What a call does to the ledger

On a ledger that is exact, a call with exact amounts does just what it is meant to do. A lock and an
unlock move an amount between two accounts of a user; a settlement takes from two locked accounts
what buyer and seller owe and spreads all of it over accounts that are not locked. None of them
changes what there is of an asset.
-/

namespace Bourse

/-- What the settlement of a trade takes from locked accounts: the price and the release from the
buyer, the quantity from the seller. -/
noncomputable def Trade.debits (t : Trade) (release : Decimal) : Account →₀ ℚ :=
  Finsupp.single (.locked t.buyerUserId t.symbol.quote) (t.quoteQuantity.toRat + release.toRat) +
    Finsupp.single (.locked t.sellerUserId t.symbol.base) t.quantity.toRat

namespace Ledger

variable {l : Ledger} {d : ℕ} {total : String → ℚ} {x y : Account} {amount : Decimal}

theorem change_credit_of_ne {amount : Checked Decimal} (h : x ≠ y) :
    (Posting.credit y amount).change x = 0 := by
  cases amount with
  | error e => rfl
  | ok amount => exact Finsupp.single_eq_of_ne h

theorem change_debit_of_ne {amount : Checked Decimal} (h : x ≠ y) :
    (Posting.debit y amount).change x = 0 := by
  cases amount with
  | error e => rfl
  | ok amount => exact Finsupp.single_eq_of_ne h

theorem change_credit_nonneg (h : 0 ≤ amount.toRat) (x y : Account) :
    0 ≤ (Posting.credit y (.ok amount)).change x := by
  rw [Posting.change, Finsupp.single_apply]
  split
  · exact h
  · exact le_refl 0

theorem change_debit_nonpos (h : 0 ≤ amount.toRat) (x y : Account) :
    (Posting.debit y (.ok amount)).change x ≤ 0 := by
  rw [Posting.change, Finsupp.single_apply]
  split
  · exact neg_nonpos.2 h
  · exact le_refl 0

/-- What moving an amount from one account to another changes. -/
noncomputable def moved (x y : Account) (v : ℚ) : Account →₀ ℚ :=
  Finsupp.single y v - Finsupp.single x v

theorem changes_move (x y : Account) (amount : Decimal) :
    Posting.changes [.debit x (.ok amount), .credit y (.ok amount)] = moved x y amount.toRat := by
  simp only [Posting.changes_cons, Posting.changes_nil, Posting.change, moved, Finsupp.single_neg]
  rw [add_zero, neg_add_eq_sub]

/-- What is moved stays in its asset. -/
theorem totalOf_moved (hasset : x.asset = y.asset) (v : ℚ) (a : String) :
    totalOf a (moved x y v) = 0 := by
  rw [moved, map_sub, totalOf_single, totalOf_single, hasset, sub_self]

theorem changes_deposit (x : Account) (amount : Decimal) :
    Posting.changes [.credit x (.ok amount)] = Finsupp.single x amount.toRat := by
  rw [Posting.changes_cons, Posting.changes_nil, add_zero]
  rfl

/-- An amount that one account holds is moved to another one of the same asset. -/
theorem Exact.move (h : Exact d total l) (hd : d ≤ 28)
    (htotal : ∀ a, total a * 10 ^ d < Decimal.bound) (hxy : x ≠ y) (hasset : x.asset = y.asset)
    (hdig : HasDigits d amount.toRat) (hpos : 0 ≤ amount.toRat)
    (hle : amount.toRat ≤ l.holdings x) :
    ∃ l', l.postAll [.debit x (.ok amount), .credit y (.ok amount)] = (.ok (), l') ∧
      l'.holdings = l.holdings + moved x y amount.toRat ∧ l'.settled = l.settled ∧
      Exact d total l' := by
  rw [← changes_move]
  refine h.postAll hd htotal ?_ ?_ ?_ ?_ htotal
  · intro p hp
    simp only [List.mem_cons, List.not_mem_nil, or_false] at hp
    rcases hp with rfl | rfl
    · exact ⟨x, amount, hdig, Or.inr rfl⟩
    · exact ⟨y, amount, hdig, Or.inl rfl⟩
  · intro z
    simp only [List.forall_mem_cons, List.not_mem_nil, false_imp_iff, implies_true, and_true]
    by_cases hz : z = x
    · right
      have hne : z ≠ y := fun e => hxy (hz.symm.trans e)
      exact ⟨change_debit_nonpos hpos z x, (change_credit_of_ne hne).le⟩
    · left
      exact ⟨(change_debit_of_ne hz).ge, change_credit_nonneg hpos z y⟩
  · intro z
    rw [changes_move, moved, Finsupp.sub_apply, Finsupp.single_apply, Finsupp.single_apply]
    have hz := h.nonneg z
    by_cases hzx : x = z
    · subst hzx
      rw [if_pos rfl, if_neg hxy.symm]
      linarith
    · rw [if_neg hzx]
      split <;> linarith
  · intro a
    rw [changes_move, totalOf_moved hasset, add_zero]

/-- A deposit adds to what there is. -/
theorem Exact.deposit_eq (h : Exact d total l) (hd : d ≤ 28)
    (htotal : ∀ a, total a * 10 ^ d < Decimal.bound) (user : UserId) {asset : String}
    (hdig : HasDigits d amount.toRat) (hpos : 0 ≤ amount.toRat) {total' : String → ℚ}
    (htotal_eq : ∀ a, total a + (if asset = a then amount.toRat else 0) = total' a)
    (htotal' : ∀ a, total' a * 10 ^ d < Decimal.bound) :
    ∃ l', l.deposit user asset amount = (.ok (), l') ∧
      l'.holdings = l.holdings + Finsupp.single (.available user asset) amount.toRat ∧
      l'.settled = l.settled ∧ Exact d total' l' := by
  rw [← changes_deposit]
  refine h.postAll hd htotal ?_ ?_ ?_ ?_ htotal'
  · intro p hp
    rw [List.mem_singleton.1 hp]
    exact ⟨_, amount, hdig, Or.inl rfl⟩
  · intro x
    left
    intro p hp
    rw [List.mem_singleton.1 hp]
    exact change_credit_nonneg hpos x _
  · intro x
    rw [Posting.changes_cons, Posting.changes_nil, add_zero]
    exact add_nonneg (h.nonneg x) (change_credit_nonneg hpos x _)
  · intro a
    rw [changes_deposit, totalOf_single, ← htotal_eq]
    rfl

/-- A lock is refused, or moves an amount that is available. The amount need not be exact if it is
out of range. -/
theorem Exact.lock_cases (h : Exact d total l) (hd : d ≤ 28)
    (htotal : ∀ a, total a * 10 ^ d < Decimal.bound) (user : UserId) (asset : String)
    (hdig : amount.toRat * 10 ^ d < Decimal.bound → HasDigits d amount.toRat) :
    (∃ e, l.lock user asset amount = (.ok (.error e), l)) ∨
    ∃ w l', l.lock user asset amount = (.ok (.ok w), l') ∧ 0 < amount.toRat ∧
      HasDigits d amount.toRat ∧ amount.toRat * 10 ^ d < Decimal.bound ∧
      l'.holdings = l.holdings + moved (.available user asset) (.locked user asset) amount.toRat ∧
      l'.settled = l.settled ∧ Exact d total l' := by
  unfold lock
  dsimp only
  split
  · exact Or.inl ⟨_, rfl⟩
  · rename_i hpos
    have hpos := Decimal.isPos_iff.1 (by simpa using hpos)
    split
    · exact Or.inl ⟨_, rfl⟩
    · rename_i hroom
      have hle : amount.toRat ≤ l.holdings (.available user asset) := Decimal.not_lt_iff.1 hroom
      have hlt : amount.toRat * 10 ^ d < Decimal.bound := by
        have hmax := h.abs_lt htotal (.available user asset)
        rw [abs_of_nonneg (h.nonneg _)] at hmax
        exact (mul_le_mul_of_nonneg_right hle (by positivity)).trans_lt hmax
      obtain ⟨l', hall, hhold, hset, hl'⟩ := h.move (x := .available user asset)
        (y := .locked user asset) hd htotal (by simp) rfl (hdig hlt) hpos.le hle
      exact Or.inr ⟨_, l', by rw [hall]; rfl, hpos, hdig hlt, hlt, hhold, hset, hl'⟩

/-- An unlock of an amount that is locked moves it. -/
theorem Exact.unlock_eq (h : Exact d total l) (hd : d ≤ 28)
    (htotal : ∀ a, total a * 10 ^ d < Decimal.bound) {user : UserId} {asset : String}
    (hdig : HasDigits d amount.toRat) (hpos : 0 < amount.toRat)
    (hle : amount.toRat ≤ l.holdings (.locked user asset)) :
    ∃ l', l.unlock user asset amount = (.ok (.ok ()), l') ∧
      l'.holdings = l.holdings + moved (.locked user asset) (.available user asset) amount.toRat ∧
      l'.settled = l.settled ∧ Exact d total l' := by
  obtain ⟨l', hall, hhold, hset, hl'⟩ := h.move (x := .locked user asset)
    (y := .available user asset) hd htotal (by simp) rfl hdig hpos.le hle
  refine ⟨l', ?_, hhold, hset, hl'⟩
  have hisPos : amount.isPos = true := Decimal.isPos_iff.2 hpos
  have hroom : ¬l.balance (.locked user asset) < amount := Decimal.not_lt_iff.2 hle
  unfold unlock
  dsimp only
  rw [hisPos, Bool.not_true, if_neg Bool.false_ne_true, if_neg hroom, hall]
  rfl

/-! ### Settlements -/

/-- A trade that can be settled on a ledger whose balances have `d` digits: no fee is larger than
what it is taken from, and all amounts have `d` digits. -/
structure Payable (d : ℕ) (t : Trade) (release : Decimal) : Prop where
  release_digits : HasDigits d release.toRat
  quantity_digits : HasDigits d t.quantity.toRat
  quoteQuantity_digits : HasDigits d t.quoteQuantity.toRat
  buyerFee_digits : HasDigits d t.buyerFee.toRat
  sellerFee_digits : HasDigits d t.sellerFee.toRat
  release_nonneg : 0 ≤ release.toRat
  buyerFee_nonneg : 0 ≤ t.buyerFee.toRat
  buyerFee_le : t.buyerFee.toRat ≤ t.quantity.toRat
  sellerFee_nonneg : 0 ≤ t.sellerFee.toRat
  sellerFee_le : t.sellerFee.toRat ≤ t.quoteQuantity.toRat

variable {t : Trade} {release debit net netQuote : Decimal}

/-- What the settlement of a trade adds to accounts that are not locked. -/
noncomputable def credits (t : Trade) (release : Decimal) : Account →₀ ℚ :=
  Finsupp.single (.available t.buyerUserId t.symbol.quote) release.toRat +
    Finsupp.single (.available t.buyerUserId t.symbol.base)
      (t.quantity.toRat - t.buyerFee.toRat) +
    Finsupp.single (.available t.sellerUserId t.symbol.quote)
      (t.quoteQuantity.toRat - t.sellerFee.toRat) +
    Finsupp.single (.fees t.symbol.base) t.buyerFee.toRat +
    Finsupp.single (.fees t.symbol.quote) t.sellerFee.toRat

theorem changes_settlementPostings (hdebit : debit.toRat = t.quoteQuantity.toRat + release.toRat)
    (hnet : t.quantity.sub t.buyerFee = .ok net)
    (hnet_eq : net.toRat = t.quantity.toRat - t.buyerFee.toRat)
    (hnetQuote : t.quoteQuantity.sub t.sellerFee = .ok netQuote)
    (hnetQuote_eq : netQuote.toRat = t.quoteQuantity.toRat - t.sellerFee.toRat) :
    Posting.changes (settlementPostings t debit release) =
      credits t release - t.debits release := by
  simp only [settlementPostings, Posting.changes_cons, Posting.changes_nil, hnet, hnetQuote,
    Posting.change, hdebit, hnet_eq, hnetQuote_eq, Finsupp.single_neg, credits, Trade.debits]
  abel

/-- All that a settlement takes is paid out. -/
theorem totalOf_settlement (t : Trade) (release : Decimal) (a : String) :
    totalOf a (credits t release - t.debits release) = 0 := by
  simp only [credits, Trade.debits, map_sub, map_add, totalOf_single, Account.asset]
  by_cases hq : t.symbol.quote = a <;> by_cases hb : t.symbol.base = a <;>
    simp only [hq, hb, if_true, if_false] <;> ring

@[simp] theorem credits_locked (t : Trade) (release : Decimal) (user : UserId) (asset : String) :
    credits t release (.locked user asset) = 0 := by
  simp [credits]

theorem debits_available (t : Trade) (release : Decimal) (user : UserId) (asset : String) :
    t.debits release (.available user asset) = 0 := by
  simp [Trade.debits]

theorem debits_fees (t : Trade) (release : Decimal) (asset : String) :
    t.debits release (.fees asset) = 0 := by
  simp [Trade.debits]

namespace Payable

variable (ht : Payable d t release)

include ht

theorem quantity_nonneg : 0 ≤ t.quantity.toRat := ht.buyerFee_nonneg.trans ht.buyerFee_le

theorem quoteQuantity_nonneg : 0 ≤ t.quoteQuantity.toRat :=
  ht.sellerFee_nonneg.trans ht.sellerFee_le

theorem buyer_le : t.quoteQuantity.toRat + release.toRat ≤
    t.debits release (.locked t.buyerUserId t.symbol.quote) := by
  have hq := ht.quantity_nonneg
  rw [Trade.debits, Finsupp.add_apply, Finsupp.single_eq_same, Finsupp.single_apply]
  split <;> linarith

theorem seller_le : t.quantity.toRat ≤
    t.debits release (.locked t.sellerUserId t.symbol.base) := by
  have hq := ht.quoteQuantity_nonneg
  have hr := ht.release_nonneg
  rw [Trade.debits, Finsupp.add_apply, Finsupp.single_eq_same, Finsupp.single_apply]
  split <;> linarith

theorem credits_nonneg (x : Account) : 0 ≤ credits t release x := by
  have hpart : ∀ (y : Account) {v : ℚ}, 0 ≤ v → 0 ≤ Finsupp.single y v x := by
    intro y v hv
    rw [Finsupp.single_apply]
    split
    · exact hv
    · exact le_refl 0
  have h1 := hpart (.available t.buyerUserId t.symbol.quote) ht.release_nonneg
  have h2 := hpart (.available t.buyerUserId t.symbol.base) (sub_nonneg.2 ht.buyerFee_le)
  have h3 := hpart (.available t.sellerUserId t.symbol.quote) (sub_nonneg.2 ht.sellerFee_le)
  have h4 := hpart (.fees t.symbol.base) ht.buyerFee_nonneg
  have h5 := hpart (.fees t.symbol.quote) ht.sellerFee_nonneg
  simp only [credits, Finsupp.add_apply]
  linarith

theorem hasDigitsAll (hdebit : debit.toRat = t.quoteQuantity.toRat + release.toRat)
    (hnet : t.quantity.sub t.buyerFee = .ok net)
    (hnet_eq : net.toRat = t.quantity.toRat - t.buyerFee.toRat)
    (hnetQuote : t.quoteQuantity.sub t.sellerFee = .ok netQuote)
    (hnetQuote_eq : netQuote.toRat = t.quoteQuantity.toRat - t.sellerFee.toRat) :
    HasDigitsAll d (settlementPostings t debit release) := by
  have hdebit_digits : HasDigits d debit.toRat := by
    rw [hdebit]
    exact ht.quoteQuantity_digits.add ht.release_digits
  have hnet_digits : HasDigits d net.toRat := by
    rw [hnet_eq]
    exact ht.quantity_digits.sub ht.buyerFee_digits
  have hnetQuote_digits : HasDigits d netQuote.toRat := by
    rw [hnetQuote_eq]
    exact ht.quoteQuantity_digits.sub ht.sellerFee_digits
  simp only [HasDigitsAll, settlementPostings, List.forall_mem_cons, hnet, hnetQuote]
  exact ⟨⟨_, _, hdebit_digits, Or.inr rfl⟩, ⟨_, _, ht.release_digits, Or.inl rfl⟩,
    ⟨_, _, hnet_digits, Or.inl rfl⟩, ⟨_, _, ht.quantity_digits, Or.inr rfl⟩,
    ⟨_, _, hnetQuote_digits, Or.inl rfl⟩, ⟨_, _, ht.buyerFee_digits, Or.inl rfl⟩,
    ⟨_, _, ht.sellerFee_digits, Or.inl rfl⟩, by simp⟩

/-- Locked accounts are only debited by a settlement, and the others only credited. -/
theorem oneWay (hdebit : debit.toRat = t.quoteQuantity.toRat + release.toRat)
    (hnet : t.quantity.sub t.buyerFee = .ok net)
    (hnet_eq : net.toRat = t.quantity.toRat - t.buyerFee.toRat)
    (hnetQuote : t.quoteQuantity.sub t.sellerFee = .ok netQuote)
    (hnetQuote_eq : netQuote.toRat = t.quoteQuantity.toRat - t.sellerFee.toRat) :
    OneWay (settlementPostings t debit release) := by
  have hdebit_nonneg : 0 ≤ debit.toRat := by
    rw [hdebit]
    exact add_nonneg ht.quoteQuantity_nonneg ht.release_nonneg
  have hnet_nonneg : 0 ≤ net.toRat := by
    rw [hnet_eq]
    exact sub_nonneg.2 ht.buyerFee_le
  have hnetQuote_nonneg : 0 ≤ netQuote.toRat := by
    rw [hnetQuote_eq]
    exact sub_nonneg.2 ht.sellerFee_le
  intro x
  simp only [settlementPostings, List.forall_mem_cons, List.not_mem_nil, false_imp_iff,
    implies_true, and_true, hnet, hnetQuote]
  by_cases hx : ∃ user asset, x = .locked user asset
  · obtain ⟨user, asset, rfl⟩ := hx
    right
    exact ⟨change_debit_nonpos hdebit_nonneg _ _, (change_credit_of_ne (by simp)).le,
      (change_credit_of_ne (by simp)).le, change_debit_nonpos ht.quantity_nonneg _ _,
      (change_credit_of_ne (by simp)).le, (change_credit_of_ne (by simp)).le,
      (change_credit_of_ne (by simp)).le⟩
  · push Not at hx
    left
    exact ⟨(change_debit_of_ne (hx _ _)).ge, change_credit_nonneg ht.release_nonneg _ _,
      change_credit_nonneg hnet_nonneg _ _, (change_debit_of_ne (hx _ _)).ge,
      change_credit_nonneg hnetQuote_nonneg _ _, change_credit_nonneg ht.buyerFee_nonneg _ _,
      change_credit_nonneg ht.sellerFee_nonneg _ _⟩

end Payable

/-- A trade that was settled before is not settled again. -/
theorem settle_of_mem (hrelease : 0 ≤ release.toRat) (hmem : t.id ∈ l.settled) :
    l.settle t release = (.ok (.ok ()), l) := by
  have hneg : ¬release.isNeg = true := by
    rw [Decimal.isNeg_iff]
    exact not_lt.2 hrelease
  unfold settle
  rw [if_neg hneg, if_pos (by simpa using hmem)]

/-- A new trade whose debits are covered is settled. -/
theorem Exact.settle_eq (h : Exact d total l) (hd : d ≤ 28)
    (htotal : ∀ a, total a * 10 ^ d < Decimal.bound) (ht : Payable d t release)
    (hnew : t.id ∉ l.settled) (hcovered : ∀ x, t.debits release x ≤ l.holdings x) :
    ∃ l', l.settle t release = (.ok (.ok ()), l') ∧
      l'.holdings = l.holdings + (credits t release - t.debits release) ∧
      l'.settled = t.id :: l.settled ∧ Exact d total l' := by
  have hbuyer := ht.buyer_le.trans (hcovered _)
  have hseller := ht.seller_le.trans (hcovered _)
  have hrange : ∀ (x : Account) {v : ℚ}, 0 ≤ v → v ≤ l.holdings x →
      |v| * 10 ^ d < Decimal.bound := by
    intro x v hv hle
    have hx := h.abs_lt htotal x
    rw [abs_of_nonneg (h.nonneg x)] at hx
    rw [abs_of_nonneg hv]
    exact (mul_le_mul_of_nonneg_right hle (by positivity)).trans_lt hx
  have hquote := ht.quoteQuantity_nonneg
  have hrel := ht.release_nonneg
  obtain ⟨debit, hdebit, hdebit_eq⟩ :=
    Decimal.add_exact ht.quoteQuantity_digits ht.release_digits hd
      (hrange _ (add_nonneg hquote hrel) hbuyer)
  obtain ⟨net, hnet, hnet_eq⟩ := Decimal.sub_exact ht.quantity_digits ht.buyerFee_digits hd
    (hrange _ (sub_nonneg.2 ht.buyerFee_le)
      ((sub_le_self _ ht.buyerFee_nonneg).trans hseller))
  obtain ⟨netQuote, hnetQuote, hnetQuote_eq⟩ :=
    Decimal.sub_exact ht.quoteQuantity_digits ht.sellerFee_digits hd
      (hrange _ (sub_nonneg.2 ht.sellerFee_le)
        ((sub_le_self _ ht.sellerFee_nonneg).trans ((le_add_of_nonneg_right hrel).trans hbuyer)))
  have hchanges := changes_settlementPostings hdebit_eq hnet hnet_eq hnetQuote hnetQuote_eq
  obtain ⟨l', hall, hhold, hset, hl'⟩ := h.postAll hd htotal
    (ht.hasDigitsAll hdebit_eq hnet hnet_eq hnetQuote hnetQuote_eq)
    (ht.oneWay hdebit_eq hnet hnet_eq hnetQuote hnetQuote_eq)
    (fun x => by
      have hx := hcovered x
      have hcredit := ht.credits_nonneg x
      rw [hchanges, Finsupp.sub_apply]
      linarith)
    (fun a => by rw [hchanges, totalOf_settlement, add_zero]) htotal
  refine ⟨l'.markSettled t.id, ?_, ?_, ?_, ⟨hl'.digits, hl'.nonneg, hl'.total_eq⟩⟩
  · have hneg : ¬release.isNeg = true := by
      rw [Decimal.isNeg_iff]
      exact not_lt.2 hrel
    have hcovers : ¬l.balance (.locked t.buyerUserId t.symbol.quote) < debit := by
      rw [Decimal.not_lt_iff, hdebit_eq]
      exact hbuyer
    have hdelivers : ¬l.balance (.locked t.sellerUserId t.symbol.base) < t.quantity :=
      Decimal.not_lt_iff.2 hseller
    have hnotMem : ¬l.settled.contains t.id = true := by simpa using hnew
    unfold settle
    rw [if_neg hneg, if_neg hnotMem, hdebit]
    dsimp only
    rw [if_neg hcovers, if_neg hdelivers, hall]
  · rw [holdings_markSettled, hhold, hchanges]
  · rw [markSettled, hset]

end Ledger

end Bourse
