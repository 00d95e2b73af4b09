import Bourse.Trade

/-!
# The ledger

The ledger holds for each user and asset an available and a locked balance, and for each asset the
fees collected. These are its accounts, and every call is a list of postings, each of which adds
an amount to one account or takes it off.

A call is refused before its first posting. The postings of a call are then made one after the
other; where one of them overflows, those before it stay made.

A trade is settled at most once: the ledger keeps the trades it has settled, and a further call for
one of them does nothing.
-/

namespace Bourse

/-- A place that holds an amount of one asset. -/
inductive Account where
  /-- What a user can lock. -/
  | available (user : UserId) (asset : String)
  /-- What is set aside for the orders of a user. -/
  | locked (user : UserId) (asset : String)
  /-- What the exchange has earned. -/
  | fees (asset : String)
  deriving DecidableEq

/-- The asset of which a place holds an amount. -/
def Account.asset : Account → String
  | .available _ asset | .locked _ asset | .fees asset => asset

/-- An amount that is added to an account or taken off it. The amount itself may be the result of
arithmetic that overflows. -/
inductive Posting where
  /-- Adds the amount. -/
  | credit (account : Account) (amount : Checked Decimal)
  /-- Takes the amount off. -/
  | debit (account : Account) (amount : Checked Decimal)

/-- Why the ledger refuses a call. -/
inductive Refusal where
  /-- Only an amount above zero can be moved. -/
  | notPositive (amount : Decimal)
  /-- Less is available than is asked for. -/
  | insufficient (asset : String) (available requested : Decimal)
  /-- Less is locked than is asked for. -/
  | cannotUnlock (amount : Decimal) (asset : String) (locked : Decimal)
  /-- A settlement cannot release an amount below zero. -/
  | negativeRelease (release : Decimal)
  /-- The buyer has less locked than price and release. -/
  | buyerShort (buyer : UserId) (debit : Decimal) (asset : String)
  /-- The seller has less locked than the quantity. -/
  | sellerShort (seller : UserId) (quantity : Decimal) (asset : String)
  /-- A reason that comes from outside. -/
  | other (reason : String)
  deriving DecidableEq

def Refusal.reason : Refusal → String
  | .notPositive amount => "amount must be positive, got " ++ amount.toText
  | .insufficient asset available requested =>
    "insufficient " ++ asset ++ ": available " ++ available.toText ++ ", requested " ++
      requested.toText
  | .cannotUnlock amount asset locked =>
    "cannot unlock " ++ amount.toText ++ " " ++ asset ++ ": only " ++ locked.toText ++ " locked"
  | .negativeRelease release => "buyer release must not be negative, got " ++ release.toText
  | .buyerShort buyer debit asset =>
    "buyer " ++ buyer.toText ++ " has less than " ++ debit.toText ++ " " ++ asset ++ " locked"
  | .sellerShort seller quantity asset =>
    "seller " ++ seller.toText ++ " has less than " ++ quantity.toText ++ " " ++ asset ++ " locked"
  | .other reason => reason

/-- Why a call to the ledger fails. -/
inductive LedgerError where
  /-- The ledger answered and refused. -/
  | rejected (cause : Refusal)
  /-- The ledger cannot be reached. -/
  | unavailable (reason : String)
  /-- No answer within so many milliseconds. -/
  | timedOut (limit : Nat)
  deriving DecidableEq

/-- A fraction of a second in milliseconds, without zeros at its end. -/
def millisFraction (ms : Nat) : String :=
  if ms = 0 then ""
  else
    let digits := [ms / 100, ms / 10 % 10, ms % 10].map fun d => Char.ofNat (48 + d)
    "." ++ String.ofList ((digits.reverse.dropWhile (· == '0')).reverse)

/-- A number of milliseconds in the largest unit that leaves a whole part. -/
def durationText (ms : Nat) : String :=
  if ms = 0 then "0ns"
  else if ms < 1000 then toString ms ++ "ms"
  else toString (ms / 1000) ++ millisFraction (ms % 1000) ++ "s"

def LedgerError.message : LedgerError → String
  | .rejected cause => "ledger rejected request: " ++ cause.reason
  | .unavailable reason => "ledger unavailable: " ++ reason
  | .timedOut limit => "ledger call timed out after " ++ durationText limit

/-- What a user holds of one asset. -/
structure Wallet where
  userId : UserId
  asset : String
  /-- The part that can be locked. -/
  available : Decimal
  /-- The part that is set aside for orders. -/
  locked : Decimal
  deriving DecidableEq

/-- The accounts that are not empty, and the trades that are settled. -/
structure Ledger where
  /-- The amounts in the places that hold one. -/
  accounts : List (Account × Decimal)
  /-- The trades that are settled, the latest first. -/
  settled : List TradeId

namespace Ledger

/-- The ledger in which nobody holds anything. -/
def empty : Ledger := ⟨[], []⟩

/-- The amount in a place. An empty place holds zero. -/
def balance (l : Ledger) (a : Account) : Decimal :=
  (l.accounts.lookup a).getD Decimal.zero

/-- The accounts after the amount on one of them is set. -/
def setAccount (a : Account) (amount : Decimal) :
    List (Account × Decimal) → List (Account × Decimal)
  | [] => [(a, amount)]
  | (b, old) :: rest => if b = a then (a, amount) :: rest else (b, old) :: setAccount a amount rest

/-- Puts an amount into a place. -/
def setBalance (l : Ledger) (a : Account) (amount : Decimal) : Ledger :=
  { l with accounts := setAccount a amount l.accounts }

theorem lookup_setAccount (a b : Account) (amount : Decimal) (accounts : List (Account × Decimal)) :
    (setAccount a amount accounts).lookup b =
      if b = a then some amount else accounts.lookup b := by
  induction accounts with
  | nil =>
    by_cases h : b = a
    · simp [setAccount, h]
    · simp [setAccount, List.lookup_cons, beq_eq_false_iff_ne.2 h, h]
  | cons entry rest ih =>
    obtain ⟨c, old⟩ := entry
    by_cases hc : c = a
    · by_cases h : b = a
      · simp [setAccount, hc, h]
      · simp [setAccount, hc, List.lookup_cons, beq_eq_false_iff_ne.2 h, h]
    · by_cases hb : b = c
      · simp [setAccount, hc, hb]
      · simp [setAccount, hc, List.lookup_cons, beq_eq_false_iff_ne.2 hb, ih]

/-- Setting one account leaves the others as they are. -/
theorem balance_setBalance (l : Ledger) (a b : Account) (amount : Decimal) :
    (l.setBalance a amount).balance b = if b = a then amount else l.balance b := by
  simp only [balance, setBalance, lookup_setAccount]
  split <;> rfl

/-- What a user holds of an asset. -/
def wallet (l : Ledger) (user : UserId) (asset : String) : Wallet :=
  ⟨user, asset, l.balance (.available user asset), l.balance (.locked user asset)⟩

/-- What the exchange has earned of an asset. -/
def collectedFees (l : Ledger) (asset : String) : Decimal :=
  l.balance (.fees asset)

/-- Makes a posting, unless its amount or the new balance overflows. -/
def post (l : Ledger) : Posting → Checked Ledger
  | .credit account amount => do
    return l.setBalance account (← (l.balance account).add (← amount))
  | .debit account amount => do
    return l.setBalance account (← (l.balance account).sub (← amount))

/-- Makes postings one after the other, up to the first that overflows. -/
def postAll (l : Ledger) : List Posting → Checked Unit × Ledger
  | [] => (.ok (), l)
  | p :: ps =>
    match l.post p with
    | .ok l => postAll l ps
    | .error e => (.error e, l)

/-- Adds an amount to what is available to a user. -/
def deposit (l : Ledger) (user : UserId) (asset : String) (amount : Decimal) :
    Checked Unit × Ledger :=
  l.postAll [.credit (.available user asset) (.ok amount)]

/-- The answer of a call, which overflow may prevent, and the ledger after it. -/
abbrev Result (α : Type) := Checked (Except LedgerError α) × Ledger

/-- A refusal, which changes nothing. -/
def refuse {α : Type} (l : Ledger) (cause : Refusal) : Result α :=
  (.ok (.error (.rejected cause)), l)

/-- The answer of a call after its postings. -/
def answer {α : Type} (after : Checked Unit × Ledger) (value : Ledger → α) : Result α :=
  (after.1.map fun _ => .ok (value after.2), after.2)

/-- Whether so much is available to a user. -/
def validate (l : Ledger) (user : UserId) (asset : String) (amount : Decimal) : Result Bool :=
  if amount.isPos then (.ok (.ok (decide (amount ≤ l.balance (.available user asset)))), l)
  else l.refuse (.notPositive amount)

/-- Locks an amount that is available. -/
def lock (l : Ledger) (user : UserId) (asset : String) (amount : Decimal) : Result Wallet :=
  let available := l.balance (.available user asset)
  if !amount.isPos then l.refuse (.notPositive amount)
  else if available < amount then l.refuse (.insufficient asset available amount)
  else
    answer (l.postAll [
      .debit (.available user asset) (.ok amount),
      .credit (.locked user asset) (.ok amount)]) fun l => l.wallet user asset

/-- Makes a locked amount available again. -/
def unlock (l : Ledger) (user : UserId) (asset : String) (amount : Decimal) : Result Unit :=
  let locked := l.balance (.locked user asset)
  if !amount.isPos then l.refuse (.notPositive amount)
  else if locked < amount then l.refuse (.cannotUnlock amount asset locked)
  else
    answer (l.postAll [
      .debit (.locked user asset) (.ok amount),
      .credit (.available user asset) (.ok amount)]) fun _ => ()

/-- The postings that settle a trade. The buyer pays out of the locked quote balance and gets the
release back from it, and receives the quantity less the fee; the seller delivers out of the locked
base balance and receives the price less the fee. -/
def settlementPostings (t : Trade) (buyerDebit buyerRelease : Decimal) : List Posting :=
  [ .debit (.locked t.buyerUserId t.symbol.quote) (.ok buyerDebit),
    .credit (.available t.buyerUserId t.symbol.quote) (.ok buyerRelease),
    .credit (.available t.buyerUserId t.symbol.base) (t.quantity.sub t.buyerFee),
    .debit (.locked t.sellerUserId t.symbol.base) (.ok t.quantity),
    .credit (.available t.sellerUserId t.symbol.quote) (t.quoteQuantity.sub t.sellerFee),
    .credit (.fees t.symbol.base) (.ok t.buyerFee),
    .credit (.fees t.symbol.quote) (.ok t.sellerFee) ]

/-- Notes that a trade is settled. -/
def markSettled (l : Ledger) (id : TradeId) : Ledger :=
  { l with settled := id :: l.settled }

/-- Settles a trade, once. -/
def settle (l : Ledger) (t : Trade) (buyerRelease : Decimal) : Result Unit :=
  if buyerRelease.isNeg then l.refuse (.negativeRelease buyerRelease)
  else if l.settled.contains t.id then (.ok (.ok ()), l)
  else
    match t.quoteQuantity.add buyerRelease with
    | .error e => (.error e, l)
    | .ok buyerDebit =>
      if l.balance (.locked t.buyerUserId t.symbol.quote) < buyerDebit then
        l.refuse (.buyerShort t.buyerUserId buyerDebit t.symbol.quote)
      else if l.balance (.locked t.sellerUserId t.symbol.base) < t.quantity then
        l.refuse (.sellerShort t.sellerUserId t.quantity t.symbol.base)
      else
        match l.postAll (settlementPostings t buyerDebit buyerRelease) with
        | (.ok (), l) => (.ok (.ok ()), l.markSettled t.id)
        | (.error e, l) => (.error e, l)

end Ledger

end Bourse
