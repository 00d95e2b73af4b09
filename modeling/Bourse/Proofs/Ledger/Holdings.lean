import Bourse.Ledger
import Bourse.Proofs.Decimal.Sums
import Bourse.Proofs.Outcome
import Mathlib.Algebra.BigOperators.Finsupp.Basic
import Mathlib.Algebra.Order.BigOperators.Group.Finset
import Mathlib.Algebra.Order.BigOperators.Group.List

/-!
# What the ledger holds

The values on all accounts form one function, and a posting adds to it at one place. As long as
every balance has at most `d` digits, none is negative, and the total of each asset is in range,
postings are exact: if each account is only credited or only debited, every balance on the way lies
between the one before and the one after.
-/

namespace Bourse

/-- The sum of two amounts is a number, and exact. -/
def ExactSum (a b : Decimal) : Prop :=
  ∃ c ∈ (a.add b).toOption, c.toRat = a.toRat + b.toRat

/-- The difference of two amounts is a number, and exact. -/
def ExactDifference (a b : Decimal) : Prop :=
  ∃ c ∈ (a.sub b).toOption, c.toRat = a.toRat - b.toRat

instance (a b : Decimal) : Decidable (ExactSum a b) :=
  inferInstanceAs (Decidable (∃ c ∈ (a.add b).toOption, c.toRat = a.toRat + b.toRat))

instance (a b : Decimal) : Decidable (ExactDifference a b) :=
  inferInstanceAs (Decidable (∃ c ∈ (a.sub b).toOption, c.toRat = a.toRat - b.toRat))

/-- The value that a posting adds to an account. -/
noncomputable def Posting.change : Posting → Account →₀ ℚ
  | .credit account (.ok amount) => Finsupp.single account amount.toRat
  | .debit account (.ok amount) => Finsupp.single account (-amount.toRat)
  | .credit _ (.error _) | .debit _ (.error _) => 0

/-- The value that several postings add to each account. -/
noncomputable def Posting.changes (ps : List Posting) : Account →₀ ℚ :=
  (ps.map Posting.change).sum

@[simp] theorem Posting.changes_nil : Posting.changes [] = 0 := rfl

@[simp] theorem Posting.changes_cons (p : Posting) (ps : List Posting) :
    Posting.changes (p :: ps) = p.change + Posting.changes ps := rfl

/-- The sum of the values on all accounts of an asset. -/
noncomputable def totalOf (asset : String) : (Account →₀ ℚ) →+ ℚ :=
  Finsupp.liftAddHom fun x => if x.asset = asset then AddMonoidHom.id ℚ else 0

@[simp] theorem totalOf_single (asset : String) (x : Account) (v : ℚ) :
    totalOf asset (Finsupp.single x v) = if x.asset = asset then v else 0 := by
  simp only [totalOf, Finsupp.liftAddHom_apply_single]
  split <;> rfl

theorem totalOf_apply (asset : String) (f : Account →₀ ℚ) :
    totalOf asset f = ∑ x ∈ f.support, if x.asset = asset then f x else 0 := by
  rw [totalOf, Finsupp.liftAddHom_apply, Finsupp.sum]
  refine Finset.sum_congr rfl fun x _ => ?_
  split <;> rfl

/-- Where nothing is negative, no account holds more than there is. -/
theorem le_totalOf {f : Account →₀ ℚ} (hf : ∀ x, 0 ≤ f x) (x : Account) :
    f x ≤ totalOf x.asset f := by
  have hterm : ∀ y ∈ f.support, 0 ≤ if y.asset = x.asset then f y else 0 := by
    intro y _
    split
    · exact hf y
    · exact le_refl 0
  rw [totalOf_apply]
  by_cases hx : x ∈ f.support
  · have h := Finset.single_le_sum hterm hx
    rwa [if_pos rfl] at h
  · rw [Finsupp.notMem_support_iff.1 hx]
    exact Finset.sum_nonneg hterm

namespace Ledger

/-- The value on each account. -/
noncomputable def holdings (l : Ledger) : Account →₀ ℚ :=
  Finsupp.onFinset (l.accounts.map Prod.fst).toFinset (fun x => (l.balance x).toRat) (by
    intro x hx
    by_contra hmem
    have hnone : l.accounts.lookup x = none := by
      rw [List.lookup_eq_none_iff]
      intro entry hentry
      simp only [List.mem_toFinset, List.mem_map, not_exists, not_and] at hmem
      exact bne_iff_ne.2 fun e => hmem entry hentry e.symm
    rw [balance, hnone] at hx
    exact hx Decimal.toRat_zero)

variable {l l' : Ledger} {d : ℕ}

theorem holdings_apply (l : Ledger) (x : Account) : l.holdings x = (l.balance x).toRat := rfl

theorem holdings_empty : empty.holdings = 0 := by
  ext x
  exact Decimal.toRat_zero

theorem holdings_setBalance (l : Ledger) (x : Account) (amount : Decimal) :
    (l.setBalance x amount).holdings =
      l.holdings + Finsupp.single x (amount.toRat - (l.balance x).toRat) := by
  ext y
  rw [Finsupp.add_apply, holdings_apply, holdings_apply, balance_setBalance]
  by_cases hy : y = x
  · subst hy
    simp
  · rw [if_neg hy, Finsupp.single_eq_of_ne hy, add_zero]

theorem holdings_markSettled (l : Ledger) (id : TradeId) :
    (l.markSettled id).holdings = l.holdings := rfl

/-- Everything on the ledger is exact: balances of at most `d` digits, none of them negative, and a
known total of each asset. -/
structure Exact (d : ℕ) (total : String → ℚ) (l : Ledger) : Prop where
  digits : ∀ x, HasDigits d (l.holdings x)
  nonneg : ∀ x, 0 ≤ l.holdings x
  total_eq : ∀ asset, totalOf asset l.holdings = total asset

/-- Postings of amounts with at most `d` digits. -/
def HasDigitsAll (d : ℕ) (ps : List Posting) : Prop :=
  ∀ p ∈ ps, ∃ account amount, HasDigits d amount.toRat ∧
    (p = .credit account (.ok amount) ∨ p = .debit account (.ok amount))

/-- Postings that only credit or only debit each account. -/
def OneWay (ps : List Posting) : Prop :=
  ∀ x, (∀ p ∈ ps, 0 ≤ p.change x) ∨ ∀ p ∈ ps, p.change x ≤ 0

/-- A posting is made without loss: its amount is a number, and so is the new balance. -/
def PostsExactly (l : Ledger) : Posting → Prop
  | .credit x amount => ∃ a ∈ amount.toOption, ExactSum (l.balance x) a
  | .debit x amount => ∃ a ∈ amount.toOption, ExactDifference (l.balance x) a

/-- A posting without loss adds its change. -/
theorem post_eq_ok {p : Posting} (h : l.PostsExactly p) :
    ∃ l', l.post p = .ok l' ∧ l'.holdings = l.holdings + p.change ∧ l'.settled = l.settled := by
  cases p with
  | credit x amount =>
    obtain ⟨a, ha, c, hc, hv⟩ := h
    obtain rfl := mem_toOption_iff.1 ha
    have hpost : l.post (.credit x (.ok a)) = .ok (l.setBalance x c) := by
      show ((l.balance x).add a >>= fun y => pure (l.setBalance x y)) = _
      rw [mem_toOption_iff.1 hc]
      rfl
    refine ⟨_, hpost, ?_, rfl⟩
    rw [holdings_setBalance, hv, add_sub_cancel_left]
    rfl
  | debit x amount =>
    obtain ⟨a, ha, c, hc, hv⟩ := h
    obtain rfl := mem_toOption_iff.1 ha
    have hpost : l.post (.debit x (.ok a)) = .ok (l.setBalance x c) := by
      show ((l.balance x).sub a >>= fun y => pure (l.setBalance x y)) = _
      rw [mem_toOption_iff.1 hc]
      rfl
    refine ⟨_, hpost, ?_, rfl⟩
    rw [holdings_setBalance, hv, sub_sub_cancel_left]
    rfl

/-- A posting is exact if what it leads to is in range. -/
theorem post_exact {x : Account} {amount : Decimal} {p : Posting}
    (hp : p = .credit x (.ok amount) ∨ p = .debit x (.ok amount))
    (hl : HasDigits d (l.holdings x)) (hamount : HasDigits d amount.toRat) (hd : d ≤ 28)
    (hlt : |l.holdings x + p.change x| * 10 ^ d < Decimal.bound) :
    ∃ l', l.post p = .ok l' ∧ l'.holdings = l.holdings + p.change ∧ l'.settled = l.settled := by
  refine post_eq_ok ?_
  rcases hp with rfl | rfl
  · simp only [Posting.change, Finsupp.single_eq_same] at hlt
    obtain ⟨c, hc, hv⟩ := Decimal.add_exact hl hamount hd hlt
    exact ⟨amount, rfl, c, mem_toOption_iff.2 hc, hv⟩
  · simp only [Posting.change, Finsupp.single_eq_same, ← sub_eq_add_neg] at hlt
    obtain ⟨c, hc, hv⟩ := Decimal.sub_exact hl hamount hd hlt
    exact ⟨amount, rfl, c, mem_toOption_iff.2 hc, hv⟩

/-- A value between two values in range is in range. -/
theorem abs_mul_lt_of_between {a b c m B : ℚ} (hc : 0 ≤ c) (h : a ≤ b ∧ b ≤ m ∨ m ≤ b ∧ b ≤ a)
    (ha : |a| * c < B) (hm : |m| * c < B) : |b| * c < B := by
  have hle : |b| ≤ Max.max |a| |m| := by
    rcases h with ⟨h1, h2⟩ | ⟨h1, h2⟩
    · exact abs_le_max_abs_abs h1 h2
    · rw [max_comm]
      exact abs_le_max_abs_abs h1 h2
  calc |b| * c ≤ Max.max |a| |m| * c := mul_le_mul_of_nonneg_right hle hc
    _ < B := by
      rcases max_choice |a| |m| with h | h <;> rw [h]
      · exact ha
      · exact hm

theorem changes_nonneg {ps : List Posting} {x : Account} (h : ∀ p ∈ ps, 0 ≤ p.change x) :
    0 ≤ Posting.changes ps x := by
  induction ps with
  | nil => exact le_refl 0
  | cons p ps ih =>
    rw [Posting.changes_cons, Finsupp.add_apply]
    exact add_nonneg (h p List.mem_cons_self) (ih fun q hq => h q (List.mem_cons_of_mem p hq))

theorem changes_nonpos {ps : List Posting} {x : Account} (h : ∀ p ∈ ps, p.change x ≤ 0) :
    Posting.changes ps x ≤ 0 := by
  induction ps with
  | nil => exact le_refl 0
  | cons p ps ih =>
    rw [Posting.changes_cons, Finsupp.add_apply]
    exact add_nonpos (h p List.mem_cons_self) (ih fun q hq => h q (List.mem_cons_of_mem p hq))

/-- What several postings of one direction do to an account, the first of them does in part. -/
theorem OneWay.between {p : Posting} {ps : List Posting} (h : OneWay (p :: ps)) (x : Account)
    (v : ℚ) :
    v ≤ v + p.change x ∧ v + p.change x ≤ v + Posting.changes (p :: ps) x ∨
      v + Posting.changes (p :: ps) x ≤ v + p.change x ∧ v + p.change x ≤ v := by
  rw [Posting.changes_cons, Finsupp.add_apply]
  rcases h x with hx | hx
  · have hp := hx p List.mem_cons_self
    have hps := changes_nonneg fun q hq => hx q (List.mem_cons_of_mem p hq)
    exact Or.inl ⟨by linarith, by linarith⟩
  · have hp := hx p List.mem_cons_self
    have hps := changes_nonpos fun q hq => hx q (List.mem_cons_of_mem p hq)
    exact Or.inr ⟨by linarith, by linarith⟩

/-- Postings are exact if both what they start from and what they lead to are in range. -/
theorem postAll_exact {ps : List Posting} (hd : d ≤ 28) (hps : HasDigitsAll d ps)
    (hone : OneWay ps) (hdig : ∀ x, HasDigits d (l.holdings x))
    (hfirst : ∀ x, |l.holdings x| * 10 ^ d < Decimal.bound)
    (hlast : ∀ x, |l.holdings x + Posting.changes ps x| * 10 ^ d < Decimal.bound) :
    ∃ l', l.postAll ps = (.ok (), l') ∧ l'.holdings = l.holdings + Posting.changes ps ∧
      l'.settled = l.settled ∧ ∀ x, HasDigits d (l'.holdings x) := by
  induction ps generalizing l with
  | nil => exact ⟨l, rfl, by rw [Posting.changes_nil, add_zero], rfl, hdig⟩
  | cons p ps ih =>
    have hmid : ∀ x, |l.holdings x + p.change x| * 10 ^ d < Decimal.bound := fun x =>
      abs_mul_lt_of_between (by positivity) (hone.between x _) (hfirst x) (hlast x)
    obtain ⟨x, amount, hamount, hp⟩ := hps p List.mem_cons_self
    obtain ⟨l₁, hpost, hhold, hset⟩ := post_exact hp (hdig x) hamount hd (hmid x)
    have hdig₁ : ∀ y, HasDigits d (l₁.holdings y) := by
      intro y
      rw [hhold, Finsupp.add_apply]
      refine (hdig y).add ?_
      by_cases hy : y = x
      · subst hy
        rcases hp with rfl | rfl
        · rwa [Posting.change, Finsupp.single_eq_same]
        · rw [Posting.change, Finsupp.single_eq_same]
          exact hamount.neg
      · rcases hp with rfl | rfl <;> rw [Posting.change, Finsupp.single_eq_of_ne hy] <;>
          exact HasDigits.zero d
    obtain ⟨l', hall, hhold', hset', hdig'⟩ := ih
      (fun q hq => hps q (List.mem_cons_of_mem p hq))
      (fun y => (hone y).imp (fun h q hq => h q (List.mem_cons_of_mem p hq))
        fun h q hq => h q (List.mem_cons_of_mem p hq))
      hdig₁ (fun y => by rw [hhold]; exact hmid y)
      (fun y => by
        have h := hlast y
        rw [Posting.changes_cons, Finsupp.add_apply, ← add_assoc] at h
        rwa [hhold, Finsupp.add_apply])
    refine ⟨l', ?_, ?_, hset'.trans hset, hdig'⟩
    · rw [postAll, hpost]
      exact hall
    · rw [hhold', hhold, Posting.changes_cons, add_assoc]

namespace Exact

variable {total total' : String → ℚ}

/-- No account holds more than there is. -/
theorem abs_lt (h : Exact d total l) (htotal : ∀ a, total a * 10 ^ d < Decimal.bound)
    (x : Account) : |l.holdings x| * 10 ^ d < Decimal.bound := by
  rw [abs_of_nonneg (h.nonneg x)]
  have hle := le_totalOf h.nonneg x
  rw [h.total_eq] at hle
  exact (mul_le_mul_of_nonneg_right hle (by positivity)).trans_lt (htotal x.asset)

/-- Postings that overdraw no account keep everything exact. -/
theorem postAll (h : Exact d total l) (hd : d ≤ 28)
    (htotal : ∀ a, total a * 10 ^ d < Decimal.bound) {ps : List Posting} (hps : HasDigitsAll d ps)
    (hone : OneWay ps) (hnonneg : ∀ x, 0 ≤ l.holdings x + Posting.changes ps x)
    (htotal_eq : ∀ a, total a + totalOf a (Posting.changes ps) = total' a)
    (htotal' : ∀ a, total' a * 10 ^ d < Decimal.bound) :
    ∃ l', l.postAll ps = (.ok (), l') ∧ l'.holdings = l.holdings + Posting.changes ps ∧
      l'.settled = l.settled ∧ Exact d total' l' := by
  have heq : ∀ a, totalOf a (l.holdings + Posting.changes ps) = total' a := by
    intro a
    rw [map_add, h.total_eq, htotal_eq]
  have hlast : ∀ x, |l.holdings x + Posting.changes ps x| * 10 ^ d < Decimal.bound := by
    intro x
    rw [abs_of_nonneg (hnonneg x)]
    have hle := le_totalOf (f := l.holdings + Posting.changes ps) hnonneg x
    rw [heq] at hle
    exact (mul_le_mul_of_nonneg_right hle (by positivity)).trans_lt (htotal' x.asset)
  obtain ⟨l', hall, hhold, hset, hdig⟩ :=
    postAll_exact hd hps hone h.digits (h.abs_lt htotal) hlast
  refine ⟨l', hall, hhold, hset, hdig, fun x => ?_, fun a => ?_⟩
  · rw [hhold]
    exact hnonneg x
  · rw [hhold, heq]

end Exact

end Ledger

end Bourse
