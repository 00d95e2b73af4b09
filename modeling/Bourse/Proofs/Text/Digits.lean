import Bourse.Text.Blank
import Bourse.Text.Whole
import Mathlib.Data.Nat.Digits.Defs
import Mathlib.Tactic.IntervalCases

/-!
# Digits as they are written

A number is written as a list of digit characters, perhaps with zeros in front. The readers of
numbers go through such a list from the left, so what they come to is `Nat.ofDigitChars` of it. A
text without blanks is left as it is by trimming.
-/

namespace Bourse.Text

variable {c : Char} {cs : List Char} {k n : ℕ}

theorem isDigit_iff : c.isDigit = true ↔ '0' ≤ c ∧ c ≤ '9' := by
  rw [Char.isDigit, Bool.and_eq_true, decide_eq_true_eq, decide_eq_true_eq]
  rfl

theorem digit?_of_isDigit (h : c.isDigit = true) : digit? c = some (c.toNat - 48) :=
  if_pos (isDigit_iff.1 h)

theorem digit?_eq_none (h : c.isDigit = false) : digit? c = none :=
  if_neg fun hc => by simp [isDigit_iff.2 hc] at h

/-- A digit is no sign, no separator and no blank. -/
theorem ne_of_isDigit {d : Char} (h : c.isDigit = true) (hd : d.isDigit = false) : c ≠ d := by
  rintro rfl
  simp [h] at hd

theorem ofDigitChars_cons :
    Nat.ofDigitChars 10 (c :: cs) n = Nat.ofDigitChars 10 cs (10 * n + (c.toNat - 48)) :=
  Nat.ofDigitChars_cons

/-- All characters are digits. -/
def AllDigits (cs : List Char) : Prop := ∀ c ∈ cs, c.isDigit = true

/-- The digits of a number with zeros in front. -/
def zeroPadded (k n : ℕ) : List Char := List.replicate k '0' ++ Nat.toDigits 10 n

theorem allDigits_zeroPadded (k n : ℕ) : AllDigits (zeroPadded k n) := by
  intro c hc
  rcases List.mem_append.1 hc with hc | hc
  · rw [List.eq_of_mem_replicate hc]
    rfl
  · exact Nat.isDigit_of_mem_toDigits (by decide) (by decide) hc

theorem allDigits_toDigits (n : ℕ) : AllDigits (Nat.toDigits 10 n) := allDigits_zeroPadded 0 n

theorem ofDigitChars_zeroPadded (k n : ℕ) : Nat.ofDigitChars 10 (zeroPadded k n) 0 = n := by
  have hzeros : Nat.ofDigitChars 10 (List.replicate k '0') 0 = 0 := by
    induction k with
    | zero => rfl
    | succ k ih =>
      rw [List.replicate_succ, ofDigitChars_cons]
      exact ih
  rw [zeroPadded, Nat.ofDigitChars_append, hzeros]
  exact Nat.ofDigitChars_toDigits (by decide) (by decide)

theorem zeroPadded_ne_nil (k n : ℕ) : zeroPadded k n ≠ [] :=
  List.append_ne_nil_of_right_ne_nil _ Nat.toDigits_ne_nil

theorem exists_zeroPadded (k n : ℕ) : ∃ c cs, zeroPadded k n = c :: cs ∧ c.isDigit = true := by
  obtain ⟨c, cs, hcs⟩ := List.exists_cons_of_ne_nil (zeroPadded_ne_nil k n)
  refine ⟨c, cs, hcs, allDigits_zeroPadded k n c ?_⟩
  rw [hcs]
  exact List.mem_cons_self

theorem exists_toDigits (n : ℕ) : ∃ c cs, Nat.toDigits 10 n = c :: cs ∧ c.isDigit = true :=
  exists_zeroPadded 0 n

theorem length_zeroPadded {width : ℕ} (hwidth : 0 < width) (hn : n < 10 ^ width) :
    (zeroPadded (width - (Nat.toDigits 10 n).length) n).length = width := by
  have hlength : (Nat.toDigits 10 n).length ≤ width :=
    (Nat.length_toDigits_le_iff (by decide) hwidth).2 hn
  rw [zeroPadded, List.length_append, List.length_replicate]
  omega

/-- Further digits only make a number larger. -/
theorem le_ofDigitChars (n : ℕ) (cs : List Char) : n ≤ Nat.ofDigitChars 10 cs n := by
  induction cs generalizing n with
  | nil => exact le_refl n
  | cons c cs ih =>
    rw [ofDigitChars_cons]
    exact le_trans (by omega) (ih _)

/-- A number of more than one digit does not begin with a zero. -/
theorem toDigits_cases (n : ℕ) :
    (∃ c, Nat.toDigits 10 n = [c]) ∨ ∃ c cs, c ≠ '0' ∧ Nat.toDigits 10 n = c :: cs := by
  induction n using Nat.strong_induction_on with
  | _ n ih =>
    rw [Nat.toDigits_eq_if (by decide)]
    by_cases hn : n < 10
    · exact Or.inl ⟨_, if_pos hn⟩
    · rw [if_neg hn]
      right
      obtain ⟨c, hc⟩ | ⟨c, cs, hne, hc⟩ := ih (n / 10) (by omega)
      · refine ⟨c, [(n % 10).digitChar], ?_, by rw [hc]; rfl⟩
        rintro rfl
        have hzero : Nat.ofDigitChars 10 (Nat.toDigits 10 (n / 10)) 0 = n / 10 :=
          Nat.ofDigitChars_toDigits (by decide) (by decide)
        rw [hc] at hzero
        have : n / 10 = 0 := hzero.symm
        omega
      · exact ⟨c, _, hne, by rw [hc]; rfl⟩

theorem hexDigit?_digitChar {d : ℕ} (hd : d < 16) : hexDigit? (Nat.digitChar d) = some d := by
  interval_cases d <;> rfl

/-- The text does not begin with a digit, so a number in front of it ends there. -/
def NoDigitAhead (cs : List Char) : Prop := ∀ c ∈ cs.head?, c.isDigit = false

theorem noDigitAhead_cons (hc : c.isDigit = false) : NoDigitAhead (c :: cs) := by
  intro d hd
  rwa [Option.mem_some.1 hd] at hc

/-! ## Whole numbers -/

theorem digits?_of_allDigits (hne : cs ≠ []) (hdigits : AllDigits cs) :
    digits? cs = some (Nat.ofDigitChars 10 cs 0) := by
  have hread : ∀ n, cs.foldlM (fun n c => (digit? c).map (10 * n + ·)) n =
      some (Nat.ofDigitChars 10 cs n) := by
    clear hne
    induction cs with
    | nil => exact fun n => rfl
    | cons c cs ih =>
      obtain ⟨hc, hcs⟩ := List.forall_mem_cons.1 hdigits
      intro n
      rw [List.foldlM_cons, digit?_of_isDigit hc, ofDigitChars_cons]
      exact ih hcs _
  cases cs with
  | nil => exact absurd rfl hne
  | cons c cs => exact hread 0

theorem whole?_lt {bound : ℕ} (h : whole? bound cs = some n) : n < bound :=
  of_decide_eq_true (Option.filter_eq_some_iff.1 h).2

/-- A number below the bound is read as it is written. -/
theorem whole?_toDigits {bound : ℕ} (hn : n < bound) :
    whole? bound (Nat.toDigits 10 n) = some n := by
  have hvalue : digits? (Nat.toDigits 10 n) = some n := by
    rw [digits?_of_allDigits Nat.toDigits_ne_nil (allDigits_toDigits n)]
    exact congrArg some (Nat.ofDigitChars_toDigits (by decide) (by decide))
  obtain ⟨c, cs, hcs, hc⟩ := exists_toDigits n
  rw [hcs] at hvalue ⊢
  unfold whole?
  split
  · rename_i h
    exact absurd (List.cons.inj h).1 (ne_of_isDigit hc rfl)
  · exact Option.filter_eq_some_iff.2 ⟨hvalue, decide_eq_true hn⟩

/-! ## Texts without blanks -/

/-- The ASCII characters that print are no blanks. -/
theorem isBlank_eq_false (hlow : 33 ≤ c.toNat) (hhigh : c.toNat ≤ 126) : isBlank c = false := by
  simp only [isBlank, Bool.or_eq_false_iff, Bool.and_eq_false_iff, decide_eq_false_iff_not,
    beq_eq_false_iff_ne]
  omega

theorem isBlank_of_isDigit (hc : c.isDigit = true) : isBlank c = false := by
  have hrange := isDigit_iff.1 hc
  have hlow : 48 ≤ c.toNat := Char.le_def.1 hrange.1
  have hhigh : c.toNat ≤ 57 := Char.le_def.1 hrange.2
  exact isBlank_eq_false (by omega) (by omega)

theorem trimStart_cons (hc : isBlank c = false) : trimStart (c :: cs) = c :: cs := by
  rw [trimStart, List.dropWhile_cons, hc]
  rfl

theorem trimStart_of_not_blank (hcs : ∀ c ∈ cs, isBlank c = false) : trimStart cs = cs := by
  cases cs with
  | nil => rfl
  | cons c cs => exact trimStart_cons (hcs c List.mem_cons_self)

theorem trim_of_not_blank (hcs : ∀ c ∈ cs, isBlank c = false) : trim cs = cs := by
  have hreverse : ∀ c ∈ cs.reverse, isBlank c = false := fun c hc => hcs c (List.mem_reverse.1 hc)
  rw [trim, trimStart_of_not_blank hcs, trimEnd, trimStart_of_not_blank hreverse,
    List.reverse_reverse]

end Bourse.Text
