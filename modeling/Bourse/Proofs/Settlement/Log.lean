import Bourse.Ledger
import Bourse.Proofs.Outcome

/-!
# The log of a ledger

What has happened to the accounts of a ledger can be written as a log: deposits, locks and unlocks,
and the transfers of settled trades. Replaying a log makes its entries one after the other on an
empty ledger, with no regard to which trades are settled; an entry that stands in the log twice is
made twice.

A settlement changes the ledger only by the transfers of its trade, and then the trade was not
settled before.
-/

namespace Bourse

/-- A call that changes what a user holds and has nothing to do with a trade. -/
inductive Movement where
  | deposit (user : UserId) (asset : String) (amount : Decimal)
  | lock (user : UserId) (asset : String) (amount : Decimal)
  | unlock (user : UserId) (asset : String) (amount : Decimal)

/-- What changes the accounts of a ledger. -/
inductive Entry where
  | movement (m : Movement)
  | transfer (trade : Trade) (release : Decimal)

namespace Entry

/-- The movement of an entry that is one. -/
def movement? : Entry → Option Movement
  | movement m => some m
  | transfer _ _ => none

/-- The trade of an entry that is for one, with what it releases. -/
def transfer? : Entry → Option (Trade × Decimal)
  | movement _ => none
  | transfer trade release => some (trade, release)

end Entry

namespace Ledger

/-- The ledger after a call, unless arithmetic overflows in it. -/
def completed {α : Type} (r : Checked α × Ledger) : Checked Ledger :=
  r.1.map fun _ => r.2

/-- The ledger after a movement, which may be refused. -/
def move (l : Ledger) : Movement → Checked Ledger
  | .deposit user asset amount => completed (l.deposit user asset amount)
  | .lock user asset amount => completed (l.lock user asset amount)
  | .unlock user asset amount => completed (l.unlock user asset amount)

/-- The ledger after the transfers of a trade. They are made whether or not the trade is settled. -/
def transfer (l : Ledger) (t : Trade) (release : Decimal) : Checked Ledger := do
  completed (l.postAll (settlementPostings t (← t.quoteQuantity.add release) release))

/-- The ledger after what an entry says. -/
def enter (l : Ledger) : Entry → Checked Ledger
  | .movement m => l.move m
  | .transfer trade release => l.transfer trade release

/-- The ledger after all entries of a log. -/
def replay (l : Ledger) (log : List Entry) : Checked Ledger :=
  log.foldlM enter l

theorem replay_concat (l : Ledger) (log : List Entry) (e : Entry) :
    l.replay (log ++ [e]) = l.replay log >>= fun l => l.enter e := by
  rw [replay, List.foldlM_append]
  refine bind_congr fun l' => ?_
  exact List.foldlM_cons.trans (bind_pure _)

/-- The same accounts with other settled trades. -/
def marked (l : Ledger) (ids : List TradeId) : Ledger :=
  { l with settled := ids }

variable {l l' : Ledger} {ids : List TradeId} {t : Trade} {release : Decimal}

/-! ### Which trades are settled does not matter -/

theorem post_marked (l : Ledger) (ids : List TradeId) (p : Posting) :
    (l.marked ids).post p = (l.post p).map fun l => l.marked ids := by
  cases p with
  | credit account amount =>
    cases amount with
    | error e => rfl
    | ok amount =>
      show (((l.balance account).add amount).bind fun sum => _) =
        (((l.balance account).add amount).bind fun sum => _).map _
      cases (l.balance account).add amount <;> rfl
  | debit account amount =>
    cases amount with
    | error e => rfl
    | ok amount =>
      show (((l.balance account).sub amount).bind fun difference => _) =
        (((l.balance account).sub amount).bind fun difference => _).map _
      cases (l.balance account).sub amount <;> rfl

theorem postAll_marked (l : Ledger) (ids : List TradeId) (ps : List Posting) :
    (l.marked ids).postAll ps = ((l.postAll ps).1, (l.postAll ps).2.marked ids) := by
  induction ps generalizing l with
  | nil => rfl
  | cons p ps ih =>
    rw [postAll, postAll, post_marked]
    cases l.post p with
    | error e => rfl
    | ok l₁ => exact ih l₁

theorem completed_postAll_marked (l : Ledger) (ids : List TradeId) (ps : List Posting) :
    completed ((l.marked ids).postAll ps) =
      (completed (l.postAll ps)).map fun l => l.marked ids := by
  rw [postAll_marked, completed, completed]
  cases (l.postAll ps).1 <;> rfl

theorem completed_answer {α : Type} (after : Checked Unit × Ledger) (value : Ledger → α) :
    completed (answer after value) = completed after := by
  rw [completed, completed, answer]
  cases after.1 <;> rfl

theorem move_marked (l : Ledger) (ids : List TradeId) (m : Movement) :
    (l.marked ids).move m = (l.move m).map fun l => l.marked ids := by
  cases m with
  | deposit user asset amount => exact completed_postAll_marked l ids _
  | lock user asset amount =>
    rw [move, move, lock, lock]
    show completed (if _ then _ else if l.balance _ < amount then _ else _) = _
    split
    · rfl
    · split
      · rfl
      · rw [completed_answer, completed_answer, completed_postAll_marked]
  | unlock user asset amount =>
    rw [move, move, unlock, unlock]
    show completed (if _ then _ else if l.balance _ < amount then _ else _) = _
    split
    · rfl
    · split
      · rfl
      · rw [completed_answer, completed_answer, completed_postAll_marked]

theorem transfer_marked (l : Ledger) (ids : List TradeId) (t : Trade) (release : Decimal) :
    (l.marked ids).transfer t release = (l.transfer t release).map fun l => l.marked ids := by
  rw [transfer, transfer]
  cases t.quoteQuantity.add release with
  | error e => rfl
  | ok debit => exact completed_postAll_marked l ids _

theorem enter_marked (l : Ledger) (ids : List TradeId) (e : Entry) :
    (l.marked ids).enter e = (l.enter e).map fun l => l.marked ids := by
  cases e with
  | movement m => exact move_marked l ids m
  | transfer trade release => exact transfer_marked l ids trade release

/-- An entry settles nothing. -/
theorem settled_of_enter {e : Entry} (h : l.enter e = .ok l') : l'.settled = l.settled := by
  have hmarked := enter_marked l l.settled e
  rw [show l.marked l.settled = l from rfl, h] at hmarked
  have hl : l' = l'.marked l.settled := Except.ok.inj hmarked
  rw [hl, marked]

/-! ### Settlements -/

/-- A settlement passes all checks, and this is what the buyer owes. -/
structure Admits (l : Ledger) (t : Trade) (release debit : Decimal) : Prop where
  not_neg : ¬release.isNeg = true
  not_settled : t.id ∉ l.settled
  debit_eq : t.quoteQuantity.add release = .ok debit
  buyer_covered : ¬l.balance (.locked t.buyerUserId t.symbol.quote) < debit
  seller_covered : ¬l.balance (.locked t.sellerUserId t.symbol.base) < t.quantity

/-- A settlement is refused, or was made before, or what the buyer owes overflows, or it comes to
what its postings come to. -/
theorem settle_cases (l : Ledger) (t : Trade) (release : Decimal) :
    (∃ cause, l.settle t release = l.refuse cause) ∨
    (t.id ∈ l.settled ∧ l.settle t release = (.ok (.ok ()), l)) ∨
    (∃ e, t.quoteQuantity.add release = .error e ∧ l.settle t release = (.error e, l)) ∨
    ∃ debit, l.Admits t release debit ∧
      ((∃ l', l.postAll (settlementPostings t debit release) = (.ok (), l') ∧
        l.settle t release = (.ok (.ok ()), l'.markSettled t.id)) ∨
      ∃ e l', l.postAll (settlementPostings t debit release) = (.error e, l') ∧
        l.settle t release = (.error e, l')) := by
  unfold settle
  split
  · exact Or.inl ⟨_, rfl⟩
  · rename_i hneg
    split
    · rename_i hmem
      exact Or.inr (Or.inl ⟨by simpa using hmem, rfl⟩)
    · rename_i hnew
      cases hdebit : t.quoteQuantity.add release with
      | error e => exact Or.inr (Or.inr (Or.inl ⟨e, rfl, rfl⟩))
      | ok debit =>
        dsimp only
        split
        · exact Or.inl ⟨_, rfl⟩
        · rename_i hbuyer
          split
          · exact Or.inl ⟨_, rfl⟩
          · rename_i hseller
            refine Or.inr (Or.inr (Or.inr ⟨debit, ⟨hneg, by simpa using hnew, hdebit, hbuyer,
              hseller⟩, ?_⟩))
            cases hall : l.postAll (settlementPostings t debit release) with
            | mk done l' =>
              cases done with
              | error e => exact Or.inr ⟨e, l', rfl, rfl⟩
              | ok u => exact Or.inl ⟨l', rfl, rfl⟩

/-- A settlement without overflow changes nothing, or makes the transfers of a trade that was not
settled. Whenever it succeeds, the trade is settled afterwards. -/
theorem settle_eq_ok {answer : Except LedgerError Unit}
    (h : l.settle t release = (.ok answer, l')) :
    (l' = l ∧ (answer = .ok () → t.id ∈ l.settled)) ∨
      ∃ l₁, t.id ∉ l.settled ∧ l.enter (.transfer t release) = .ok l₁ ∧
        l' = l₁.markSettled t.id := by
  obtain ⟨cause, hsettle⟩ | ⟨hmem, hsettle⟩ | ⟨e, -, hsettle⟩ |
    ⟨debit, hadmits, ⟨l₁, hall, hsettle⟩ | ⟨e, l₁, -, hsettle⟩⟩ := l.settle_cases t release
  · cases hsettle.symm.trans h
    exact Or.inl ⟨rfl, fun hanswer => (by cases hanswer)⟩
  · cases hsettle.symm.trans h
    exact Or.inl ⟨rfl, fun _ => hmem⟩
  · cases hsettle.symm.trans h
  · cases hsettle.symm.trans h
    refine Or.inr ⟨l₁, hadmits.not_settled, ?_, rfl⟩
    show (t.quoteQuantity.add release >>= fun debit => _) = _
    rw [hadmits.debit_eq]
    show completed (l.postAll (settlementPostings t debit release)) = _
    rw [hall]
    rfl
  · cases hsettle.symm.trans h

/-- Nothing is transferred for a trade that is settled. -/
theorem settle_settled (h : t.id ∈ l.settled) (release : Decimal) :
    (l.settle t release).2 = l := by
  unfold settle
  split
  · rfl
  · rw [if_pos (by simpa using h)]

end Ledger

end Bourse
