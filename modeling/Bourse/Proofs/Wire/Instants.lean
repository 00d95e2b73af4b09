import Bourse.Instant
import Bourse.Proofs.Text.Digits

/-!
# Instants are read as they are written

The text of an instant is read field by field. Each number ends at the separator behind it or, where
the next field may begin with a digit, at its own width. The time is written in UTC, so no day is
carried.
-/

namespace Bourse.Instant

open Text (AllDigits NoDigitAhead)

variable {ds rest : List Char} {count width n : ℕ} {sep : Char}

/-! ## Numbers -/

/-- A number is read up to its end: either no more digits are asked for, or none follow. -/
theorem takeDigits_append (hdigits : AllDigits ds) (hcount : ds.length ≤ count)
    (hend : ds.length = count ∨ NoDigitAhead rest) :
    takeDigits count n (ds ++ rest) = (Nat.ofDigitChars 10 ds n, ds.length, rest) := by
  induction ds generalizing count n with
  | nil =>
    cases count with
    | zero => rfl
    | succ count =>
      have hstop : NoDigitAhead rest := hend.resolve_left (by simp)
      cases rest with
      | nil => rfl
      | cons c cs =>
        rw [List.nil_append, takeDigits, Text.digit?_eq_none (hstop c rfl)]
        rfl
  | cons c cs ih =>
    obtain ⟨hc, hcs⟩ := List.forall_mem_cons.1 hdigits
    have hpos : 0 < count := Nat.lt_of_lt_of_le (Nat.succ_pos _) hcount
    obtain ⟨count, rfl⟩ : ∃ k, count = k + 1 := Nat.exists_eq_add_one.2 hpos
    rw [List.length_cons, Nat.add_le_add_iff_right] at hcount
    rw [List.length_cons, Nat.add_right_cancel_iff] at hend
    rw [List.cons_append, takeDigits, Text.digit?_of_isDigit hc, Text.ofDigitChars_cons]
    dsimp only
    rw [ih hcs hcount hend]
    rfl

theorem takeNumber?_append (hne : ds ≠ []) (hdigits : AllDigits ds) (hcount : ds.length ≤ count)
    (hend : ds.length = count ∨ NoDigitAhead rest) :
    takeNumber? count (ds ++ rest) = some (Nat.ofDigitChars 10 ds 0, rest) := by
  obtain ⟨c, cs, rfl⟩ := List.exists_cons_of_ne_nil hne
  rw [takeNumber?, takeDigits_append hdigits hcount hend]
  rfl

theorem allDigits_padded (width n : ℕ) : AllDigits (padded width n) :=
  Text.allDigits_zeroPadded _ n

theorem padded_ne_nil (width n : ℕ) : padded width n ≠ [] :=
  Text.zeroPadded_ne_nil _ n

theorem ofDigitChars_padded (width n : ℕ) : Nat.ofDigitChars 10 (padded width n) 0 = n :=
  Text.ofDigitChars_zeroPadded _ n

theorem exists_padded (width n : ℕ) : ∃ c cs, padded width n = c :: cs ∧ c.isDigit = true :=
  Text.exists_zeroPadded _ n

theorem trimStart_padded (width n : ℕ) (rest : List Char) :
    Text.trimStart (padded width n ++ rest) = padded width n ++ rest := by
  obtain ⟨c, cs, hcs, hc⟩ := exists_padded width n
  rw [hcs]
  exact Text.trimStart_cons (Text.isBlank_of_isDigit hc)

/-- A number that fills its field is read whatever follows it. -/
theorem takeNumber?_padded (hwidth : 0 < width) (hn : n < 10 ^ width) (rest : List Char) :
    takeNumber? width (padded width n ++ rest) = some (n, rest) := by
  have hlength : (padded width n).length = width := Text.length_zeroPadded hwidth hn
  rw [takeNumber?_append (padded_ne_nil width n) (allDigits_padded width n) hlength.le
    (Or.inl hlength), ofDigitChars_padded]

theorem takeField?_padded (hn : n < 100) (rest : List Char) :
    takeField? 2 (padded 2 n ++ rest) = some (n, rest) := by
  rw [takeField?, trimStart_padded]
  exact takeNumber?_padded (by decide) hn rest

/-- A number behind a sign is read up to the end of its digits. -/
theorem takeNumber?_padded_of_end (n : ℕ) (hend : NoDigitAhead rest) :
    takeNumber? (padded 4 n ++ rest).length (padded 4 n ++ rest) = some (n, rest) := by
  have hcount : (padded 4 n).length ≤ (padded 4 n ++ rest).length := by simp
  rw [takeNumber?_append (padded_ne_nil 4 n) (allDigits_padded 4 n) hcount (Or.inr hend),
    ofDigitChars_padded]

/-! ## The parts of the text -/

theorem takeSeparator?_cons (hsep : Text.isBlank sep = false) (rest : List Char) :
    takeSeparator? sep (sep :: rest) = some rest := by
  rw [takeSeparator?, Text.trimStart_cons hsep]
  exact if_pos rfl

theorem takeYear?_yearText (year : ℤ) (hend : NoDigitAhead rest) :
    takeYear? (yearText year ++ rest) = some (year, rest) := by
  unfold yearText
  split_ifs with hneg hlarge
  · show Option.map _ (takeNumber? (padded 4 _ ++ rest).length (padded 4 _ ++ rest)) = _
    have hyear : -(year.natAbs : ℤ) = year := by omega
    rw [takeNumber?_padded_of_end _ hend]
    exact congrArg (fun y => some (y, rest)) hyear
  · show Option.map _ (takeNumber? (padded 4 _ ++ rest).length (padded 4 _ ++ rest)) = _
    have hyear : (year.natAbs : ℤ) = year := by omega
    rw [takeNumber?_padded_of_end _ hend]
    exact congrArg (fun y => some (y, rest)) hyear
  · obtain ⟨c, cs, hcs, hc⟩ := exists_padded 4 year.natAbs
    have hread : takeNumber? 4 (padded 4 year.natAbs ++ rest) = some (year.natAbs, rest) :=
      takeNumber?_padded (by decide) (by omega) rest
    rw [takeYear?, trimStart_padded]
    split
    · rename_i h
      rw [hcs] at h
      exact absurd (List.cons.inj h).1 (Text.ne_of_isDigit hc rfl)
    · rename_i h
      rw [hcs] at h
      exact absurd (List.cons.inj h).1 (Text.ne_of_isDigit hc rfl)
    · have hyear : (year.natAbs : ℤ) = year := by omega
      rw [hread]
      exact congrArg (fun y => some (y, rest)) hyear

theorem takeFraction?_padded (hwidth : 0 < width) (hnine : width ≤ 9) (hn : n < 10 ^ width) :
    takeFraction? ('.' :: (padded width n ++ ['Z'])) = some (n * pow10 (9 - width), ['Z']) := by
  have hlength : (padded width n).length = width := Text.length_zeroPadded hwidth hn
  have hcount : (padded width n).length ≤ 9 := hlength.le.trans hnine
  obtain ⟨used, rfl⟩ : ∃ used, width = used + 1 := Nat.exists_eq_add_one.2 hwidth
  rw [takeFraction?, takeDigits_append (allDigits_padded _ n) hcount
    (Or.inr (Text.noDigitAhead_cons rfl)), ofDigitChars_padded, hlength]
  rfl

/-- The digits that are left out of a fraction are zeros. -/
theorem takeFraction?_fractionText {nano : ℕ} (hnano : nano < 1000000000) :
    takeFraction? (fractionText nano ++ ['Z']) = some (nano, ['Z']) := by
  unfold fractionText
  split_ifs with hzero hmilli hmicro
  · rw [hzero]
    rfl
  · rw [List.cons_append, takeFraction?_padded (by decide) (by decide) (by omega)]
    show some (nano / 1000000 * 1000000, ['Z']) = _
    rw [Nat.div_mul_cancel (Nat.dvd_of_mod_eq_zero hmilli)]
  · rw [List.cons_append, takeFraction?_padded (by decide) (by decide) (by omega)]
    show some (nano / 1000 * 1000, ['Z']) = _
    rw [Nat.div_mul_cancel (Nat.dvd_of_mod_eq_zero hmicro)]
  · rw [List.cons_append, takeFraction?_padded (by decide) (by decide) (by omega)]
    show some (nano * 1, ['Z']) = _
    rw [Nat.mul_one]

/-- The second that is written: a leap second has the number 60. -/
def shownSecond (t : Instant) : ℕ := if t.nano < 1000000000 then t.second else t.second + 1

/-- The nanoseconds that are written. -/
def shownNano (t : Instant) : ℕ := if t.nano < 1000000000 then t.nano else t.nano - 1000000000

theorem shownSecond_le (t : Instant) : t.shownSecond ≤ 60 := by
  have hsecond := t.time_range.2.2
  unfold shownSecond
  split <;> omega

theorem shownNano_lt (t : Instant) : t.shownNano < 1000000000 := by
  have hnano := t.nano_range
  unfold shownNano
  split <;> omega

theorem ofFields?_fields (t : Instant) :
    ofFields? t.year t.month t.day t.hour t.minute t.second t.nano = some t :=
  dif_pos ⟨⟨t.year_range, t.month_range⟩, t.day_range, t.time_range, t.nano_range⟩

/-- The leap second is told from its number. -/
theorem second_nano_of_shown (t : Instant) :
    (if t.shownSecond = 60 then (59, t.shownNano + 1000000000) else (t.shownSecond, t.shownNano)) =
      (t.second, t.nano) := by
  have hsecond := t.time_range.2.2
  have hnano := t.nano_range
  unfold shownSecond shownNano
  by_cases hleap : t.nano < 1000000000
  · rw [if_pos hleap, if_pos hleap, if_neg (by omega)]
  · have hlast : t.second = 59 := by omega
    rw [if_neg hleap, if_neg hleap, if_pos (by omega), hlast,
      Nat.sub_add_cancel (Nat.le_of_not_lt hleap)]

/-- At the offset of UTC the date and time are those that are written. -/
theorem ofLocal?_shown (t : Instant) :
    ofLocal? t.year t.month t.day t.hour t.minute t.shownSecond t.shownNano 0 = some t := by
  obtain ⟨hhour, hminute, -⟩ := t.time_range
  unfold ofLocal?
  rw [t.second_nano_of_shown]
  dsimp only
  rw [t.ofFields?_fields]
  have hlow : ¬ (t.hour : ℤ) * 60 + t.minute - 0 < 0 := by omega
  have hhigh : ¬ 1440 ≤ (t.hour : ℤ) * 60 + t.minute - 0 := by omega
  have hminutes : (((t.hour : ℤ) * 60 + t.minute - 0) % 1440).toNat = t.hour * 60 + t.minute := by
    omega
  simp only [Option.bind_eq_bind, Option.bind_some]
  rw [if_neg hlow, if_neg hhigh, hminutes]
  have hfirst : (t.hour * 60 + t.minute) / 60 = t.hour := by omega
  have hlast : (t.hour * 60 + t.minute) % 60 = t.minute := by omega
  rw [hfirst, hlast]
  exact t.ofFields?_fields

/-! ## The text -/

theorem toList_toText (t : Instant) : t.toText.toList =
    yearText t.year ++ ('-' :: (padded 2 t.month ++ ('-' :: (padded 2 t.day ++
      ('T' :: (padded 2 t.hour ++ (':' :: (padded 2 t.minute ++ (':' :: (padded 2 t.shownSecond ++
        (fractionText t.shownNano ++ ['Z']))))))))))) := by
  have hshown : (if t.nano < 1000000000 then (t.second, t.nano)
      else (t.second + 1, t.nano - 1000000000)) = (t.shownSecond, t.shownNano) := by
    unfold shownSecond shownNano
    split <;> rfl
  rw [toText, hshown]
  simp only [String.toList_ofList, List.append_assoc, List.cons_append]

/-- The text of an instant is read as the instant, leap seconds and all fractions included. -/
theorem ofText?_toText (t : Instant) : ofText? t.toText = some t := by
  have hmonth := t.month_range.2
  have hday : t.day ≤ 31 := by
    refine t.day_range.2.trans ?_
    unfold daysInMonth
    split_ifs <;> omega
  obtain ⟨hhour, hminute, -⟩ := t.time_range
  have hsecond := t.shownSecond_le
  have hmark : ∀ rest, takeTimeMark? ('T' :: rest) = some rest := fun rest => rfl
  rw [ofText?, toList_toText]
  refine Option.bind_eq_some_iff.2 ⟨_, takeYear?_yearText _ (Text.noDigitAhead_cons rfl), ?_⟩
  refine Option.bind_eq_some_iff.2 ⟨_, takeSeparator?_cons rfl _, ?_⟩
  refine Option.bind_eq_some_iff.2 ⟨_, takeField?_padded (by omega) _, ?_⟩
  refine Option.bind_eq_some_iff.2 ⟨_, takeSeparator?_cons rfl _, ?_⟩
  refine Option.bind_eq_some_iff.2 ⟨_, takeField?_padded (by omega) _, ?_⟩
  refine Option.bind_eq_some_iff.2 ⟨_, hmark _, ?_⟩
  refine Option.bind_eq_some_iff.2 ⟨_, takeField?_padded (by omega) _, ?_⟩
  refine Option.bind_eq_some_iff.2 ⟨_, takeSeparator?_cons rfl _, ?_⟩
  refine Option.bind_eq_some_iff.2 ⟨_, takeField?_padded (by omega) _, ?_⟩
  refine Option.bind_eq_some_iff.2 ⟨_, takeSeparator?_cons rfl _, ?_⟩
  refine Option.bind_eq_some_iff.2 ⟨_, takeField?_padded (by omega) _, ?_⟩
  refine Option.bind_eq_some_iff.2 ⟨_, takeFraction?_fractionText t.shownNano_lt, ?_⟩
  exact t.ofLocal?_shown

end Bourse.Instant
