import Bourse.Proofs.Decimal.Exact
import Bourse.Proofs.Ledger.Solvent

/-!
# Calls that break off

Before its first posting a call makes sure that there is enough of what it takes. It does not make
sure that there is room for what it gives. A posting that overflows ends the call, and those before
it stay made: what they took is on no account any more.

So a call that is refused leaves the ledger as it was, and so does every call that does not succeed
as long as there is room for its postings: each sum has to be in range before it is rounded.
-/

namespace Bourse

namespace Posting

/-- What is added to the balance of the account. -/
def summand : Posting → Checked Decimal
  | credit _ amount => amount
  | debit _ amount => amount.map Decimal.neg

end Posting

/-- The postings of a call that is not refused. The first of a settlement is for the sum of price
and release. -/
def LedgerCall.postings : LedgerCall → List Posting
  | validate _ _ _ => []
  | lock user asset amount =>
    [.debit (.available user asset) (.ok amount), .credit (.locked user asset) (.ok amount)]
  | unlock user asset amount =>
    [.debit (.locked user asset) (.ok amount), .credit (.available user asset) (.ok amount)]
  | settle t release =>
    match t.quoteQuantity.add release with
    | .ok debit => Ledger.settlementPostings t debit release
    | .error e => [.debit (.locked t.buyerUserId t.symbol.quote) (.error e)]

namespace Ledger

variable {l l' : Ledger} {p : Posting} {ps : List Posting} {e : Overflow}

/-- Of several postings, those before one that overflows are made. -/
def BreaksOff (l : Ledger) (ps : List Posting) (e : Overflow) (l' : Ledger) : Prop :=
  ∃ made p rest, ps = made ++ p :: rest ∧ l.postAll made = (.ok (), l') ∧ l'.post p = .error e

/-- The sum that a posting makes is in range before it is rounded. -/
def Fits (l : Ledger) (p : Posting) : Prop :=
  ∃ a ∈ p.summand.toOption, |(l.balance p.account).toRat + a.toRat| < Decimal.bound - 1 / 2

/-- Each of several postings finds room on the balance of its account. -/
def HasRoom (l : Ledger) : List Posting → Prop
  | [] => True
  | p :: ps => l.Fits p ∧ ∀ l' ∈ (l.post p).toOption, l'.HasRoom ps

section Decidable

instance (l : Ledger) (p : Posting) : Decidable (l.Fits p) :=
  inferInstanceAs (Decidable (∃ a ∈ p.summand.toOption, _))

instance decidableHasRoom : (ps : List Posting) → (l : Ledger) → Decidable (l.HasRoom ps)
  | [], _ => .isTrue trivial
  | p :: ps, l =>
    have := decidableHasRoom ps
    inferInstanceAs (Decidable (l.Fits p ∧ ∀ l' ∈ (l.post p).toOption, l'.HasRoom ps))

end Decidable

/-! ### Postings -/

theorem post_eq_ok_iff : l.post p = .ok l' ↔
    ∃ a, p.summand = .ok a ∧
      ∃ b, (l.balance p.account).add? a = some b ∧ l' = l.setBalance p.account b := by
  cases p with
  | credit x amount =>
    simp only [post_credit_eq_ok_iff, Decimal.add_eq_ok_iff, Posting.summand, Posting.account]
  | debit x amount =>
    simp only [post_debit_eq_ok_iff, Decimal.sub_eq_ok_iff, Posting.summand, Posting.account]
    cases amount <;> simp [Except.map]

theorem settled_post (h : l.post p = .ok l') : l'.settled = l.settled := by
  obtain ⟨a, -, b, -, rfl⟩ := post_eq_ok_iff.1 h
  rfl

theorem settled_postAll (h : l.postAll ps = (.ok (), l')) : l'.settled = l.settled := by
  induction ps generalizing l with
  | nil =>
    obtain rfl := congrArg Prod.snd h
    rfl
  | cons p ps ih =>
    obtain ⟨l₁, hpost, hall⟩ := postAll_cons_eq_ok_iff.1 h
    exact (ih hall).trans (settled_post hpost)

theorem postAll_cons_eq_error_iff : l.postAll (p :: ps) = (.error e, l') ↔
    l.post p = .error e ∧ l' = l ∨ ∃ l₁, l.post p = .ok l₁ ∧ l₁.postAll ps = (.error e, l') := by
  rw [postAll]
  cases l.post p <;> simp [eq_comm]

theorem postAll_singleton_eq_error_iff :
    l.postAll [p] = (.error e, l') ↔ l.post p = .error e ∧ l' = l := by
  rw [postAll_cons_eq_error_iff]
  exact or_iff_left fun ⟨l₁, _, hnil⟩ => by cases hnil

/-- Postings that overflow have made just those before the one that did. -/
theorem BreaksOff.of_postAll (h : l.postAll ps = (.error e, l')) : l.BreaksOff ps e l' := by
  induction ps generalizing l with
  | nil => cases h
  | cons p ps ih =>
    obtain ⟨hpost, rfl⟩ | ⟨l₁, hpost, hall⟩ := postAll_cons_eq_error_iff.1 h
    · exact ⟨[], p, ps, rfl, rfl, hpost⟩
    · obtain ⟨made, q, rest, rfl, hmade, hq⟩ := ih hall
      exact ⟨p :: made, q, rest, rfl, postAll_cons_eq_ok_iff.2 ⟨l₁, hpost, hmade⟩, hq⟩

theorem BreaksOff.settled_eq (h : l.BreaksOff ps e l') : l'.settled = l.settled := by
  obtain ⟨made, p, rest, -, hmade, -⟩ := h
  exact settled_postAll hmade

theorem fits_iff : l.Fits p ↔ ∃ l', l.post p = .ok l' := by
  simp only [Fits, mem_toOption_iff, ← Decimal.exists_add?_iff, post_eq_ok_iff]
  constructor
  · rintro ⟨a, ha, b, hb⟩
    exact ⟨_, a, ha, b, hb, rfl⟩
  · rintro ⟨l', a, ha, b, hb, -⟩
    exact ⟨a, ha, b, hb⟩

/-- Postings do not overflow just if there is room for them. -/
theorem hasRoom_iff : l.HasRoom ps ↔ ∃ l', l.postAll ps = (.ok (), l') := by
  induction ps generalizing l with
  | nil => exact iff_of_true trivial ⟨l, rfl⟩
  | cons p ps ih =>
    simp only [HasRoom, fits_iff, mem_toOption_iff, postAll_cons_eq_ok_iff, ih]
    constructor
    · rintro ⟨⟨l₁, hpost⟩, hrest⟩
      obtain ⟨l', hall⟩ := hrest l₁ hpost
      exact ⟨l', l₁, hpost, hall⟩
    · rintro ⟨l', l₁, hpost, hall⟩
      refine ⟨⟨l₁, hpost⟩, fun l₂ hpost' => ?_⟩
      cases hpost.symm.trans hpost'
      exact ⟨l', hall⟩

/-! ### Calls -/

section Calls

variable {α : Type} {x y : Account} {amount : Decimal} {t : Trade} {release : Decimal}

/-- What a call comes to: it is answered or refused without a posting, it makes all of its postings
and is not refused, or it overflows where they do. -/
def Yields (l : Ledger) (ps : List Posting) (result : Result α) : Prop :=
  (∃ answer, result = (.ok answer, l)) ∨
  (∃ a l', result = (.ok (.ok a), l') ∧ ∃ l₁, l.postAll ps = (.ok (), l₁)) ∨
  ∃ e l', result = (.error e, l') ∧ l.postAll ps = (.error e, l')

theorem yields_answer (value : Ledger → α) : l.Yields ps (answer (l.postAll ps) value) := by
  cases hall : l.postAll ps with
  | mk r l' =>
    cases r with
    | error e => exact Or.inr (Or.inr ⟨e, l', rfl, hall⟩)
    | ok u => exact Or.inr (Or.inl ⟨value l', l', rfl, l', hall⟩)

/-- A call that moves an amount. -/
theorem yields_move {cause cause' : Refusal} {value : Ledger → α} :
    l.Yields [.debit x (.ok amount), .credit y (.ok amount)]
      (if !amount.isPos then l.refuse cause
        else if l.balance x < amount then l.refuse cause'
        else answer (l.postAll [.debit x (.ok amount), .credit y (.ok amount)]) value) := by
  split
  · exact Or.inl ⟨_, rfl⟩
  · split
    · exact Or.inl ⟨_, rfl⟩
    · exact yields_answer value

theorem yields_settle : l.Yields (LedgerCall.settle t release).postings (l.settle t release) := by
  rw [LedgerCall.postings]
  obtain ⟨cause, hsettle⟩ | ⟨-, hsettle⟩ | ⟨e, hdebit, hsettle⟩ |
    ⟨debit, hadmits, ⟨l', hall, hsettle⟩ | ⟨e, l', hall, hsettle⟩⟩ := l.settle_cases t release
  · exact Or.inl ⟨_, hsettle⟩
  · exact Or.inl ⟨_, hsettle⟩
  · rw [hdebit]
    exact Or.inr (Or.inr ⟨e, l, hsettle, rfl⟩)
  · rw [hadmits.debit_eq]
    exact Or.inr (Or.inl ⟨(), _, hsettle, l', hall⟩)
  · rw [hadmits.debit_eq]
    exact Or.inr (Or.inr ⟨e, l', hsettle, hall⟩)

theorem yields_perform (l : Ledger) (c : LedgerCall) : l.Yields c.postings (l.perform c) := by
  cases c with
  | validate user asset amount =>
    rw [perform, validate]
    split <;> exact Or.inl ⟨_, rfl⟩
  | lock user asset amount => exact yields_move
  | unlock user asset amount => exact yields_move
  | settle t release => exact yields_settle

end Calls

/-- A call that is refused leaves the ledger as it was. One that overflows leaves it after those of
its postings that come before the one that overflows, and with the same trades settled. As long as
there is room for its postings, a call that does not succeed leaves the ledger as it was. -/
theorem perform_all_or_nothing (l : Ledger) (c : LedgerCall) :
    (∀ e, (l.perform c).1 = .ok (.error e) → (l.perform c).2 = l) ∧
    (∀ e, (l.perform c).1 = .error e →
      l.BreaksOff c.postings e (l.perform c).2 ∧ (l.perform c).2.settled = l.settled) ∧
    (l.HasRoom c.postings → (∀ a, (l.perform c).1 ≠ .ok (.ok a)) → (l.perform c).2 = l) := by
  obtain ⟨answer, h⟩ | ⟨a, l', h, l₁, hall⟩ | ⟨e, l', h, hall⟩ := l.yields_perform c
  · rw [h]
    exact ⟨fun _ _ => rfl, fun e he => (by cases he), fun _ _ => rfl⟩
  · rw [h]
    exact ⟨fun e he => (by cases he), fun e he => (by cases he), fun _ hne => absurd rfl (hne a)⟩
  · rw [h]
    have hbroken := BreaksOff.of_postAll hall
    refine ⟨fun e he => (by cases he), fun e' he => ?_, fun hroom _ => ?_⟩
    · cases he
      exact ⟨hbroken, hbroken.settled_eq⟩
    · obtain ⟨l₁, hmade⟩ := hasRoom_iff.1 hroom
      rw [hall] at hmade
      cases hmade

/-- User 1 has locked 100 dollars and holds as much gold as a number can say. User 2 has locked an
ounce. -/
def brimmingActs : List LedgerAct :=
  [.deposit ⟨1⟩ "USD" (.ofWord 100), .call (.lock ⟨1⟩ "USD" (.ofWord 100)),
    .deposit ⟨1⟩ "XAU" ((Decimal.ofInt? (Decimal.bound - 1)).getD .zero),
    .deposit ⟨2⟩ "XAU" .one, .call (.lock ⟨2⟩ "XAU" .one)]

/-- User 1 buys an ounce from user 2 for 100 dollars. -/
def ounceTrade : Trade :=
  { freeTrade 1 Order.goldSymbol 1 2 1 with price := .ofWord 100, quoteQuantity := .ofWord 100 }

theorem perform_all_or_nothing_brimming :
    let l := empty.afterActs brimmingActs
    let settle := LedgerCall.settle ounceTrade .zero
    let unlock := LedgerCall.unlock ⟨1⟩ "USD" (.ofWord 101)
    ((l.perform settle).1 = .error .addition ∧
      l.BreaksOff settle.postings .addition (l.perform settle).2 ∧
      (l.perform settle).2.settled = l.settled) ∧
    (l.HasRoom unlock.postings ∧ (∀ a, (l.perform unlock).1 ≠ .ok (.ok a)) ∧
      (l.perform unlock).2 = l) := by
  intro l settle unlock
  have hoverflow : (l.settle ounceTrade .zero).1 = .error .addition := by decide +kernel
  have hroom : l.HasRoom unlock.postings := by decide +kernel
  have hrefused : ∀ a, (l.unlock ⟨1⟩ "USD" (.ofWord 101)).1 ≠ .ok (.ok a) := by decide +kernel
  exact ⟨⟨hoverflow, (perform_all_or_nothing l settle).2.1 _ hoverflow⟩,
    hroom, hrefused, (perform_all_or_nothing l unlock).2.2 hroom hrefused⟩

/-- There is no room for the ounce. The buyer has paid for it, and nobody has what was paid. -/
theorem locked_eq_zero_brimming :
    let l := empty.afterActs brimmingActs
    let l' := (l.settle ounceTrade .zero).2
    (l.settle ounceTrade .zero).1 = .error .addition ∧
      l.wallet ⟨1⟩ "USD" = ⟨⟨1⟩, "USD", .zero, .ofWord 100⟩ ∧
      l'.wallet ⟨1⟩ "USD" = ⟨⟨1⟩, "USD", .zero, .zero⟩ ∧
      l'.wallet ⟨2⟩ "USD" = l.wallet ⟨2⟩ "USD" := by
  decide +kernel

/-! ### What is lost -/

theorem post_credit_eq_error_iff {x : Account} {amount : Decimal} :
    l.post (.credit x (.ok amount)) = .error e ↔
      e = .addition ∧ Decimal.bound - 1 / 2 ≤ |(l.balance x).toRat + amount.toRat| := by
  rw [← not_lt, ← Decimal.exists_add?_iff]
  show ((l.balance x).add amount >>= fun b => pure (l.setBalance x b)) = .error e ↔ _
  rw [Decimal.add]
  cases (l.balance x).add? amount with
  | none => simp [bind, Except.bind, eq_comm]
  | some c => simp [bind, Except.bind, pure, Except.pure]

theorem answer_eq_error_iff {α : Type} {after : Checked Unit × Ledger} {value : Ledger → α} :
    answer after value = (.error e, l') ↔ after = (.error e, l') := by
  obtain ⟨r, l₁⟩ := after
  cases r <;> simp [answer, Except.map]

section Move

variable {x y : Account} {amount : Decimal}

/-- What an account has can be taken off it, and a posting that gives it to another overflows just
if there is no room for it. -/
theorem postAll_move_eq_error_iff (hxy : x ≠ y) (hamount : 0 ≤ amount.toRat)
    (hle : amount.toRat ≤ (l.balance x).toRat) :
    l.postAll [.debit x (.ok amount), .credit y (.ok amount)] = (.error e, l') ↔
      e = .addition ∧ Decimal.bound - 1 / 2 ≤ |(l.balance y).toRat + amount.toRat| ∧
        ∃ rest, (l.balance x).sub amount = .ok rest ∧ l' = l.setBalance x rest := by
  obtain ⟨rest, hrest, -, -⟩ := Decimal.sub_between hamount hle
  have hdebit : l.post (.debit x (.ok amount)) = .ok (l.setBalance x rest) :=
    post_debit_eq_ok_iff.2 ⟨amount, rfl, rest, hrest, rfl⟩
  have hcredit : (l.setBalance x rest).post (.credit y (.ok amount)) = .error e ↔
      e = .addition ∧ Decimal.bound - 1 / 2 ≤ |(l.balance y).toRat + amount.toRat| := by
    rw [post_credit_eq_error_iff, balance_setBalance, if_neg hxy.symm]
  rw [postAll_cons_eq_error_iff, hdebit, hrest]
  simp only [reduceCtorEq, false_and, false_or, Except.ok.injEq, exists_eq_left',
    postAll_singleton_eq_error_iff, hcredit, and_assoc]

/-- A call that moves an amount overflows just if it passes the checks and there is no room for the
amount. It is taken off the one account, and is on no other. -/
theorem move_eq_error_iff {α : Type} {cause cause' : Refusal} {value : Ledger → α} (hxy : x ≠ y) :
    (if !amount.isPos then l.refuse cause
      else if l.balance x < amount then l.refuse cause'
      else answer (l.postAll [.debit x (.ok amount), .credit y (.ok amount)]) value) =
      (.error e, l') ↔
    (amount.isPos = true ∧ ¬l.balance x < amount) ∧
      e = .addition ∧ Decimal.bound - 1 / 2 ≤ |(l.balance y).toRat + amount.toRat| ∧
      ∃ rest, (l.balance x).sub amount = .ok rest ∧ l' = l.setBalance x rest := by
  by_cases hpos : amount.isPos = true
  · by_cases hroom : l.balance x < amount
    · simp [hpos, hroom, refuse]
    · rw [if_neg (by simp [hpos]), if_neg hroom, answer_eq_error_iff,
        postAll_move_eq_error_iff hxy (Decimal.isPos_iff.1 hpos).le (Decimal.not_lt_iff.1 hroom)]
      exact (and_iff_right ⟨hpos, hroom⟩).symm
  · simp [hpos, refuse]

/-- An unlock that overflows has taken the amount from what is locked, and makes nothing
available. -/
theorem unlock_eq_error_iff {user : UserId} {asset : String} :
    l.unlock user asset amount = (.error e, l') ↔
      (amount.isPos = true ∧ ¬l.balance (.locked user asset) < amount) ∧
      e = .addition ∧
      Decimal.bound - 1 / 2 ≤ |(l.balance (.available user asset)).toRat + amount.toRat| ∧
      ∃ rest, (l.balance (.locked user asset)).sub amount = .ok rest ∧
        l' = l.setBalance (.locked user asset) rest :=
  move_eq_error_iff (by simp)

end Move

end Ledger

end Bourse
