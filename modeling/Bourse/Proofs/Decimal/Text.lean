import Bourse.Decimal.Text
import Bourse.Proofs.Text.Digits

/-!
# Decimal numbers are read as they are written

The text of a number is read as the number of the same value and the same scale. What is lost is the
minus sign of a zero, which is written but not read.
-/

namespace Bourse.Decimal

open Text (AllDigits zeroPadded)

variable {cs rest : List Char} {coefficient scale : ℕ}

/-- The digits of a coefficient before the point are read one by one. -/
theorem readRest?_whole {started : Bool} (hdigits : AllDigits cs)
    (hbound : Nat.ofDigitChars 10 cs coefficient < bound) :
    readRest? coefficient scale false started (cs ++ rest) =
      readRest? (Nat.ofDigitChars 10 cs coefficient) scale false (started || !cs.isEmpty) rest := by
  induction cs generalizing coefficient started with
  | nil => simp [Nat.ofDigitChars]
  | cons c cs ih =>
    obtain ⟨hc, hcs⟩ := List.forall_mem_cons.1 hdigits
    rw [Text.ofDigitChars_cons] at hbound ⊢
    have hle := Text.le_ofDigitChars (10 * coefficient + (c.toNat - 48)) cs
    have hfits : 10 * coefficient + (c.toNat - 48) < bound := lt_of_le_of_lt hle hbound
    rw [List.cons_append, readRest?, if_neg (Text.ne_of_isDigit hc rfl),
      if_neg (Text.ne_of_isDigit hc rfl), Text.digit?_of_isDigit hc]
    dsimp only
    rw [if_pos ⟨hfits, by simp⟩, if_neg Bool.false_ne_true, ih hcs hbound]
    simp

/-- So are the digits behind the point, as long as there is room for them. -/
theorem readRest?_fraction (hdigits : AllDigits cs)
    (hbound : Nat.ofDigitChars 10 cs coefficient < bound) (hscale : scale + cs.length ≤ 28) :
    readRest? coefficient scale true true cs =
      some (Nat.ofDigitChars 10 cs coefficient, scale + cs.length) := by
  induction cs generalizing coefficient scale with
  | nil => rfl
  | cons c cs ih =>
    obtain ⟨hc, hcs⟩ := List.forall_mem_cons.1 hdigits
    rw [Text.ofDigitChars_cons] at hbound ⊢
    rw [List.length_cons] at hscale ⊢
    have hle := Text.le_ofDigitChars (10 * coefficient + (c.toNat - 48)) cs
    have hfits : 10 * coefficient + (c.toNat - 48) < bound := lt_of_le_of_lt hle hbound
    have hroom : ¬(true = true ∧ scale = 28) := by omega
    rw [readRest?, if_neg (Text.ne_of_isDigit hc rfl), if_neg (Text.ne_of_isDigit hc rfl),
      Text.digit?_of_isDigit hc]
    dsimp only
    rw [if_pos ⟨hfits, hroom⟩, if_pos rfl, ih hcs hbound (by omega)]
    rw [Nat.add_assoc, Nat.add_comm 1]

/-- A number in plain notation: some digits, and behind the point as many as the scale says. -/
theorem exists_plainDigits (n scale : ℕ) :
    ∃ whole fraction,
      plainDigits n scale = (if scale = 0 then whole else whole ++ '.' :: fraction) ∧
      whole ≠ [] ∧ fraction.length = scale ∧ AllDigits whole ∧ AllDigits fraction ∧
      Nat.ofDigitChars 10 fraction (Nat.ofDigitChars 10 whole 0) = n := by
  let ds := zeroPadded (scale + 1 - (Nat.toDigits 10 n).length) n
  let k := ds.length - scale
  have hdigits : AllDigits ds := Text.allDigits_zeroPadded _ n
  have hlength : scale + 1 ≤ ds.length := by
    simp only [ds, zeroPadded, List.length_append, List.length_replicate]
    omega
  refine ⟨ds.take k, ds.drop k, rfl, ?_, ?_, ?_, ?_, ?_⟩
  · rw [← List.length_pos_iff, List.length_take]
    omega
  · rw [List.length_drop]
    omega
  · exact fun c hc => hdigits c (List.mem_of_mem_take hc)
  · exact fun c hc => hdigits c (List.mem_of_mem_drop hc)
  · rw [← Nat.ofDigitChars_append, List.take_append_drop]
    exact Text.ofDigitChars_zeroPadded _ n

theorem readRest?_plainDigits {n : ℕ} (hn : n < bound) (hscale : scale ≤ 28) :
    readRest? 0 0 false false (plainDigits n scale) = some (n, scale) := by
  obtain ⟨whole, fraction, htext, hne, hlength, hwhole, hfraction, hvalue⟩ :=
    exists_plainDigits n scale
  have hbound : Nat.ofDigitChars 10 whole 0 < bound := by
    refine lt_of_le_of_lt (Text.le_ofDigitChars _ fraction) ?_
    rw [hvalue]
    exact hn
  have hstarted : (false || !whole.isEmpty) = true := by simpa using hne
  have hread : ∀ rest, readRest? 0 0 false false (whole ++ rest) =
      readRest? (Nat.ofDigitChars 10 whole 0) 0 false true rest := by
    intro rest
    rw [readRest?_whole hwhole hbound, hstarted]
  rw [htext]
  by_cases hzero : scale = 0
  · have hnil : fraction = [] := List.length_eq_zero_iff.1 (hlength.trans hzero)
    have hend := hread []
    rw [List.append_nil] at hend
    rw [hnil] at hvalue
    rw [if_pos hzero, hend, readRest?, if_pos rfl, hzero]
    exact congrArg (fun m => some (m, 0)) hvalue
  · rw [if_neg hzero, hread, readRest?, if_neg (by decide), if_pos rfl, if_neg (by decide),
      readRest?_fraction hfraction (by rwa [hvalue]) (by omega), hvalue, hlength, Nat.zero_add]

/-- The sign in front of a number in plain notation is told from its digits. -/
theorem splitSign_signed (negative : Bool) (n scale : ℕ) :
    splitSign (if negative then '-' :: plainDigits n scale else plainDigits n scale) =
      (negative, plainDigits n scale) := by
  obtain ⟨whole, fraction, htext, hne, -, hwhole, -, -⟩ := exists_plainDigits n scale
  obtain ⟨c, cs, rfl⟩ := List.exists_cons_of_ne_nil hne
  have hc : c.isDigit = true := hwhole c List.mem_cons_self
  have hhead : ∃ rest, plainDigits n scale = c :: rest := by
    rw [htext]
    split
    · exact ⟨cs, rfl⟩
    · exact ⟨_, rfl⟩
  obtain ⟨rest, hrest⟩ := hhead
  cases negative with
  | true => rfl
  | false =>
    rw [if_neg Bool.false_ne_true, hrest]
    unfold splitSign
    split
    · rename_i h
      exact absurd (List.cons.inj h).1 (Text.ne_of_isDigit hc rfl)
    · rename_i h
      exact absurd (List.cons.inj h).1 (Text.ne_of_isDigit hc rfl)
    · rfl

/-- A number is written with digits, a point and a minus sign. -/
theorem isDigit_or_of_mem_toText {a : Decimal} {c : Char} (hc : c ∈ a.toText.toList) :
    c.isDigit = true ∨ c = '.' ∨ c = '-' := by
  obtain ⟨whole, fraction, htext, -, -, hwhole, hfraction, -⟩ :=
    exists_plainDigits a.coefficient a.scale
  have hplain : ∀ c ∈ plainDigits a.coefficient a.scale, c.isDigit = true ∨ c = '.' := by
    rw [htext]
    intro c hc
    split at hc
    · exact Or.inl (hwhole c hc)
    · rcases List.mem_append.1 hc with hc | hc
      · exact Or.inl (hwhole c hc)
      · rcases List.mem_cons.1 hc with hpoint | hc
        · exact Or.inr hpoint
        · exact Or.inl (hfraction c hc)
  rw [toText, String.toList_ofList] at hc
  split at hc
  · rcases List.mem_cons.1 hc with hminus | hc
    · exact Or.inr (Or.inr hminus)
    · exact (hplain c hc).imp_right Or.inl
  · exact (hplain c hc).imp_right Or.inl

/-- The text of a number is read as the number, but for the sign of a zero. -/
theorem ofText?_toText (a : Decimal) : ofText? a.toText = some a.unsignedZero := by
  have hparts : ofParts? a.negative a.coefficient a.scale = some a :=
    dif_pos ⟨a.coefficient_lt, a.scale_le⟩
  have hplain : readPlain? a.toText.toList = some a.unsignedZero := by
    rw [toText, String.toList_ofList, readPlain?, splitSign_signed]
    dsimp only
    rw [readRest?_plainDigits a.coefficient_lt a.scale_le]
    show (ofParts? a.negative a.coefficient a.scale).map unsignedZero = _
    rw [hparts]
    rfl
  rw [ofText?, hplain]

/-- No two numbers have the same text, the sign of a zero included. -/
theorem toText_inj {a b : Decimal} : a.toText = b.toText ↔ a = b := by
  refine ⟨fun h => ?_, congrArg toText⟩
  have hsigned : ∀ c : Decimal, splitSign c.toText.toList =
      (c.negative, plainDigits c.coefficient c.scale) := by
    intro c
    rw [toText, String.toList_ofList]
    exact splitSign_signed _ _ _
  have hsplit := hsigned a
  rw [h, hsigned b] at hsplit
  obtain ⟨hnegative, hplain⟩ := Prod.mk.inj hsplit
  have hread := readRest?_plainDigits a.coefficient_lt a.scale_le
  rw [← hplain, readRest?_plainDigits b.coefficient_lt b.scale_le] at hread
  obtain ⟨hcoefficient, hscale⟩ := Prod.mk.inj (Option.some.inj hread)
  obtain ⟨negative, coefficient, scale, hlt, hle⟩ := a
  obtain ⟨negative', coefficient', scale', hlt', hle'⟩ := b
  simp only [Decimal.mk.injEq]
  exact ⟨hnegative.symm, hcoefficient.symm, hscale.symm⟩

end Bourse.Decimal
