import Bourse.Proofs.Decimal.Exact
import Bourse.Proofs.Order.Lifecycle

/-!
# What a fill takes

A fill takes its quantity from what remains of an order. It takes exactly that if the difference is
a decimal number. Otherwise the difference is rounded, and nothing at all may be taken: then an
order is partially filled with its whole amount remaining.
-/

namespace Bourse

/-- A call on an order, at any time and with any arguments. -/
inductive OrderCall where
  | apply (t : Transition) (now : Instant)
  | fill (quantity : Decimal) (role : OrderRole) (now : Instant)

/-- The order after a call. A call that is refused leaves it as it is. -/
def Order.afterCall (o : Order) : OrderCall → Order
  | .apply t now =>
    match t.apply o now with
    | .ok o' => o'
    | .error _ => o
  | .fill quantity role now =>
    match (o.fill quantity role now).run with
    | .ok (.ok o') => o'
    | _ => o

namespace Order

/-- The order after a list of calls. -/
def afterCalls (o : Order) (calls : List OrderCall) : Order :=
  calls.foldl afterCall o

/-- In the course of some calls on `o`, one fills `p` by `quantity` and makes it `p'`. -/
structure FilledBy (o : Order) (calls : List OrderCall) (p p' : Order) (quantity : Decimal) :
    Prop where
  call : ∃ before role now after, calls = before ++ .fill quantity role now :: after ∧
    p = o.afterCalls before ∧ (p.fill quantity role now).run = .ok (.ok p')

variable {o o' p p' : Order} {calls more : List OrderCall} {c : OrderCall} {quantity : Decimal}
  {role : OrderRole} {now : Instant} {stamp : Stamp} {terms : OrderTerms}

/-! ### A single fill -/

theorem remaining_sub_of_fill (h : (o.fill quantity role now).run = .ok (.ok o')) :
    o.remaining.sub quantity = .ok o'.remaining := by
  obtain ⟨-, -, -, r, hr, rfl⟩ := fill_eq_ok_iff.1 h
  exact hr

/-- A fill takes exactly its quantity just if what is to be left is a decimal number. -/
theorem remaining_eq_iff_of_fill (h : (o.fill quantity role now).run = .ok (.ok o')) :
    o'.remaining.toRat = o.remaining.toRat - quantity.toRat ↔
      IsDecimal (o.remaining.toRat - quantity.toRat) :=
  Decimal.sub_eq_iff_isDecimal (remaining_sub_of_fill h)

/-- A fill that takes exactly its quantity leaves less than there was. -/
theorem remaining_lt_of_fill (h : (o.fill quantity role now).run = .ok (.ok o'))
    (hdec : IsDecimal (o.remaining.toRat - quantity.toRat)) :
    o'.remaining.toRat < o.remaining.toRat := by
  obtain ⟨-, hpos, -, -⟩ := fill_eq_ok_iff.1 h
  have hquantity := Decimal.isPos_iff.1 hpos
  rw [(remaining_eq_iff_of_fill h).2 hdec]
  linarith

/-! ### Calls one after the other -/

/-- What a call can do. -/
theorem afterCall_cases (o : Order) (c : OrderCall) :
    o.afterCall c = o ∨
    (∃ t now, c = .apply t now ∧ t.apply o now = .ok (o.afterCall c)) ∨
    ∃ quantity role now, c = .fill quantity role now ∧
      (o.fill quantity role now).run = .ok (.ok (o.afterCall c)) := by
  cases c with
  | apply t now =>
    simp only [afterCall]
    split
    · rename_i o' h
      exact Or.inr (Or.inl ⟨t, now, rfl, h⟩)
    · exact Or.inl rfl
  | fill quantity role now =>
    simp only [afterCall]
    split
    · rename_i o' h
      exact Or.inr (Or.inr ⟨quantity, role, now, rfl, h⟩)
    · exact Or.inl rfl

theorem afterCall_changes (o : Order) (c : OrderCall) :
    o.afterCall c = o ∨ o.Changes (o.afterCall c) := by
  obtain h | ⟨t, now, -, h⟩ | ⟨quantity, role, now, -, h⟩ := o.afterCall_cases c
  · exact Or.inl h
  · exact Or.inr (.applied h)
  · exact Or.inr (.filled h)

theorem later_afterCalls (o : Order) (calls : List OrderCall) : o.Later (o.afterCalls calls) := by
  induction calls generalizing o with
  | nil => exact .refl o
  | cons c calls ih =>
    refine Later.trans ?_ (ih (o.afterCall c))
    rcases o.afterCall_changes c with h | h
    · rw [h]
      exact .refl o
    · exact .of_advances h.advances

theorem Consistent.afterCalls (h : o.Consistent) (calls : List OrderCall) :
    (o.afterCalls calls).Consistent := by
  induction calls generalizing o with
  | nil => exact h
  | cons c calls ih =>
    refine ih (o := o.afterCall c) ?_
    rcases o.afterCall_changes c with hc | hc
    · rwa [hc]
    · exact h.changes hc

theorem afterCalls_append (o : Order) (calls more : List OrderCall) :
    o.afterCalls (calls ++ more) = (o.afterCalls calls).afterCalls more :=
  List.foldl_append

theorem FilledBy.append (h : o.FilledBy calls p p' quantity) (more : List OrderCall) :
    o.FilledBy (calls ++ more) p p' quantity := by
  obtain ⟨before, role, now, after, rfl, hp, hfill⟩ := h.call
  exact ⟨before, role, now, after ++ more, by simp, hp, hfill⟩

/-- What is left at the end is no more than any of the fills has left. -/
theorem FilledBy.remaining_le (h : o.FilledBy calls p p' quantity) :
    (o.afterCalls calls).remaining.toRat ≤ p'.remaining.toRat := by
  obtain ⟨before, role, now, after, rfl, rfl, hfill⟩ := h.call
  have hcall : (o.afterCalls before).afterCall (.fill quantity role now) = p' := by
    rw [afterCall, hfill]
  rw [afterCalls_append]
  show (afterCalls (afterCall _ _) after).remaining.toRat ≤ _
  rw [hcall]
  exact (later_afterCalls p' after).remaining_le

/-- Only a fill makes an order partially filled. -/
theorem exists_filledBy (h : o.status = .pending)
    (hpartially : (o.afterCalls calls).status = .partially) :
    ∃ p p' quantity, o.FilledBy calls p p' quantity := by
  induction calls using List.reverseRecOn with
  | nil =>
    have hpending : (o.afterCalls []).status = .pending := h
    rw [hpending] at hpartially
    cases hpartially
  | append_singleton calls c ih =>
    have hlast : o.afterCalls (calls ++ [c]) = (o.afterCalls calls).afterCall c :=
      afterCalls_append o calls [c]
    rw [hlast] at hpartially
    obtain hsame | ⟨t, now, -, ht⟩ | ⟨quantity, role, now, rfl, hfill⟩ :=
      (o.afterCalls calls).afterCall_cases c
    · rw [hsame] at hpartially
      obtain ⟨p, p', quantity, hfilled⟩ := ih hpartially
      exact ⟨p, p', quantity, hfilled.append [c]⟩
    · -- A transition leads to one of the other statuses.
      obtain ⟨status, notes, heq, hstatus⟩ := Transition.apply_eq_ok ht
      rw [heq] at hpartially
      obtain rfl : status = .partially := hpartially
      rcases hstatus with ⟨-, -, h⟩ | ⟨-, -, h⟩ | ⟨-, -, h⟩ <;> cases h
    · exact ⟨_, _, quantity, calls, role, now, [], rfl, rfl, hfill⟩

/-- The steps of a new order take from it what they say, as far as decimal numbers can show it: each
fill takes exactly its quantity just if the difference is a decimal number, and else it is off by no
more than half a unit of the last digit. An order is partially filled only while something of it
remains, and not all of it as soon as one of its fills was exact. -/
theorem remaining_afterCalls (h : create stamp terms = .ok o) (calls : List OrderCall) :
    (∀ p p' quantity, o.FilledBy calls p p' quantity →
      (p'.remaining.toRat = p.remaining.toRat - quantity.toRat ↔
        IsDecimal (p.remaining.toRat - quantity.toRat)) ∧
      2 * |p'.remaining.toRat - (p.remaining.toRat - quantity.toRat)| *
        10 ^ p'.remaining.scale ≤ 1) ∧
    ((o.afterCalls calls).status = .partially →
      0 < (o.afterCalls calls).remaining.toRat ∧
      (o.afterCalls calls).remaining.toRat ≤ o.amount.toRat ∧
      (∃ p p' quantity, o.FilledBy calls p p' quantity) ∧
      ∀ p p' quantity, o.FilledBy calls p p' quantity →
        IsDecimal (p.remaining.toRat - quantity.toRat) →
        (o.afterCalls calls).remaining.toRat < o.amount.toRat) := by
  have hconsistent := Consistent.of_create h
  have hend := hconsistent.afterCalls calls
  have hamount : (o.afterCalls calls).amount = o.amount :=
    (o.later_afterCalls calls).terms.amount_eq
  have hpending : o.status = .pending := by
    obtain ⟨-, -, -, rfl⟩ := create_eq_ok_iff.1 h
    rfl
  constructor
  · intro p p' quantity hfilled
    obtain ⟨before, role, now, after, -, -, hfill⟩ := hfilled.call
    exact ⟨remaining_eq_iff_of_fill hfill, Decimal.two_mul_abs_sub_le (remaining_sub_of_fill hfill)⟩
  · intro hpartially
    have hle : (o.afterCalls calls).remaining.toRat ≤ o.amount.toRat :=
      hamount ▸ hend.remaining_le
    have hne : ¬(o.afterCalls calls).remaining.toRat = 0 := by
      rw [← hend.completed_iff, hpartially]
      exact fun e => (by cases e)
    refine ⟨lt_of_le_of_ne hend.remaining_nonneg (Ne.symm hne), hle,
      exists_filledBy hpending hpartially, fun p p' quantity hfilled hdec => ?_⟩
    have hafter := hfilled.remaining_le
    obtain ⟨before, role, now, after, -, rfl, hfill⟩ := hfilled.call
    have hbefore : (o.afterCalls before).remaining.toRat ≤ o.amount.toRat := by
      have hle := (hconsistent.afterCalls before).remaining_le
      rwa [(o.later_afterCalls before).terms.amount_eq] at hle
    calc (o.afterCalls calls).remaining.toRat ≤ p'.remaining.toRat := hafter
      _ < (o.afterCalls before).remaining.toRat := remaining_lt_of_fill hfill hdec
      _ ≤ o.amount.toRat := hbefore

/-- An order is put into the book and filled once. -/
def confirmAndFill (quantity : Decimal) : List OrderCall :=
  [.apply .confirm Instant.epoch, .fill quantity .taker Instant.epoch]

theorem filledBy_confirmAndFill (h : ((o.afterCalls [.apply .confirm Instant.epoch]).fill quantity
      .taker Instant.epoch).run = .ok (.ok (o.afterCalls (confirmAndFill quantity)))) :
    o.FilledBy (confirmAndFill quantity) (o.afterCalls [.apply .confirm Instant.epoch])
      (o.afterCalls (confirmAndFill quantity)) quantity :=
  ⟨[.apply .confirm Instant.epoch], .taker, Instant.epoch, [], rfl, rfl, h⟩

/-- An order for ten ounces, at a dollar each. -/
def tenOunces : Order := gold 1 .buy (.ofWord 10) .one 1

theorem create_tenOunces : ∃ stamp terms, create stamp terms = .ok tenOunces :=
  create_gold 1 .buy 1 (by decide) (by decide) ⟨.ofWord 10, by decide +kernel⟩

theorem remaining_afterCalls_tenOunces :
    let p := tenOunces.afterCalls [.apply .confirm Instant.epoch]
    let p' := tenOunces.afterCalls (confirmAndFill .one)
    (∃ stamp terms, create stamp terms = .ok tenOunces) ∧
      tenOunces.FilledBy (confirmAndFill .one) p p' .one ∧
      p'.remaining.toRat = p.remaining.toRat - Decimal.one.toRat ∧
      0 < p'.remaining.toRat ∧ p'.remaining.toRat < tenOunces.amount.toRat := by
  intro p p'
  obtain ⟨stamp, terms, h⟩ := create_tenOunces
  have hfilled : tenOunces.FilledBy (confirmAndFill .one) p p' .one :=
    filledBy_confirmAndFill (by decide +kernel)
  have hten : p.remaining.toRat = 10 := Decimal.toRat_ofWord 10
  have hnine : (Decimal.ofWord 9).toRat = 9 := Decimal.toRat_ofWord 9
  have hone : Decimal.one.toRat = 1 := Decimal.toRat_ofWord 1
  have hdec : IsDecimal (p.remaining.toRat - Decimal.one.toRat) :=
    ⟨.ofWord 9, by rw [hten, hnine, hone]; norm_num⟩
  obtain ⟨hfills, hpartially⟩ := remaining_afterCalls h (confirmAndFill .one)
  obtain ⟨hpos, -, -, hlt⟩ := hpartially (by decide +kernel)
  exact ⟨⟨stamp, terms, h⟩, hfilled, (hfills p p' .one hfilled).1.2 hdec, hpos,
    hlt p p' .one hfilled hdec⟩

/-- One unit of the last digit that there is. -/
def dust : Decimal := (Decimal.ofText? "0.0000000000000000000000000001").getD .zero

/-- Nothing is taken from ten ounces by a fill with so little, but they are partially filled. -/
theorem remaining_eq_amount_dust :
    let p := tenOunces.afterCalls [.apply .confirm Instant.epoch]
    let p' := tenOunces.afterCalls (confirmAndFill dust)
    (∃ stamp terms, create stamp terms = .ok tenOunces) ∧
      tenOunces.FilledBy (confirmAndFill dust) p p' dust ∧
      p'.remaining.toRat ≠ p.remaining.toRat - dust.toRat ∧
      p'.status = .partially ∧ ¬p'.remaining.toRat < tenOunces.amount.toRat := by
  intro p p'
  have hsame : p'.remaining.toRat = tenOunces.amount.toRat :=
    Decimal.sameValue_iff.1 (by decide +kernel)
  have hbefore : p.remaining = tenOunces.amount := rfl
  have hdust : 0 < dust.toRat := Decimal.isPos_iff.1 (by decide +kernel)
  refine ⟨create_tenOunces, filledBy_confirmAndFill (by decide +kernel), ?_, by decide +kernel, ?_⟩
  · rw [hsame, hbefore]
    linarith
  · rw [hsame]
    exact lt_irrefl _

end Order

end Bourse
