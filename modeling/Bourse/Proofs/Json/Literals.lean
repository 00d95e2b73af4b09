import Bourse.Json.Parser
import Bourse.Json.Printer
import Bourse.Proofs.Text.Digits

/-!
# Literals are read as they are written

A string literal is read as the string, whatever its characters, and a whole number of 64 bits as
the number, unless what follows it could be more of the number.
-/

namespace Bourse.Json

open Text (AllDigits NoDigitAhead)

variable {c : Char} {cs ds rest : List Char} {us : List ℕ} {n : ℕ}

/-! ## Strings -/

theorem takeUnits?_escape {u : ℕ} (hc : c ≠ 'u') (hu : escaped? c = some u)
    (hcs : takeUnits? cs = some (us, rest)) :
    takeUnits? ('\\' :: c :: cs) = some (u :: us, rest) := by
  rw [takeUnits?, hu, hcs]
  · rfl
  · intro _ _ _ _ _ h _
    exact hc h

/-- A control character is read from its number in four hexadecimal digits. -/
theorem takeUnits?_control (hcontrol : c.toNat < 0x20) (hcs : takeUnits? cs = some (us, rest)) :
    takeUnits? ('\\' :: 'u' :: '0' :: '0' :: Nat.digitChar (c.toNat / 16) ::
      Nat.digitChar (c.toNat % 16) :: cs) = some (c.toNat :: us, rest) := by
  have hhigh := Text.hexDigit?_digitChar (d := c.toNat / 16) (by omega)
  have hlow := Text.hexDigit?_digitChar (d := c.toNat % 16) (by omega)
  have hunit : Text.hexDigits? ['0', '0', Nat.digitChar (c.toNat / 16),
      Nat.digitChar (c.toNat % 16)] = some c.toNat := by
    show (do
      let n ← (Text.hexDigit? (Nat.digitChar (c.toNat / 16))).map (16 * 0 + ·)
      let n ← (Text.hexDigit? (Nat.digitChar (c.toNat % 16))).map (16 * n + ·)
      some n) = _
    rw [hhigh, hlow]
    show some (16 * (16 * 0 + c.toNat / 16) + c.toNat % 16) = _
    rw [Nat.mul_zero, Nat.zero_add, Nat.div_add_mod]
  rw [takeUnits?, hunit, hcs]
  rfl

/-- A character is read from its escaped form as the unit of its own number. -/
theorem takeUnits?_escapedChar (c : Char) (hcs : takeUnits? cs = some (us, rest)) :
    takeUnits? (escapedChar c ++ cs) = some (c.toNat :: us, rest) := by
  unfold escapedChar
  split
  case h_8 hquote hbackslash _ _ _ _ _ =>
    split_ifs with hcontrol
    · exact takeUnits?_control hcontrol hcs
    · rw [List.singleton_append, takeUnits?, if_neg hcontrol, hcs]
      · rfl
      · exact hquote
      · exact fun _ _ _ _ _ h _ => hbackslash h
      · exact fun _ _ h _ => hbackslash h
  -- the characters that have an escape of one letter
  all_goals exact takeUnits?_escape (by decide) rfl hcs

theorem takeUnits?_flatMap (cs rest : List Char) :
    takeUnits? (cs.flatMap escapedChar ++ '"' :: rest) = some (cs.map Char.toNat, rest) := by
  induction cs with
  | nil => rfl
  | cons c cs ih =>
    rw [List.flatMap_cons, List.append_assoc]
    exact takeUnits?_escapedChar c ih

/-- No character has the number of half a surrogate pair. -/
theorem pairUnits?_toNat (cs : List Char) : pairUnits? (cs.map Char.toNat) = some cs := by
  induction cs with
  | nil => rfl
  | cons c cs ih =>
    have hvalid : c.toNat < 0xD800 ∨ 0xDFFF < c.toNat ∧ c.toNat < 0x110000 := c.valid
    have hfirst : ¬(0xD800 ≤ c.toNat ∧ c.toNat < 0xDC00) := by omega
    have hsecond : ¬(0xDC00 ≤ c.toNat ∧ c.toNat < 0xE000) := by omega
    rw [List.map_cons, pairUnits?.eq_def]
    dsimp only
    rw [if_neg hfirst, if_neg hsecond, ih, Char.ofNat_toNat]
    rfl

/-- The literal of a string is read as the string. -/
theorem takeString?_writeString (s : String) (rest : List Char) :
    takeString? (s.toList.flatMap escapedChar ++ '"' :: rest) = some (some s, rest) := by
  rw [takeString?, takeUnits?_flatMap]
  show some ((pairUnits? (s.toList.map Char.toNat)).map String.ofList, rest) = _
  rw [pairUnits?_toNat]
  show some (some (String.ofList s.toList), rest) = _
  rw [String.ofList_toList]

theorem writeString_append (s : String) (rest : List Char) :
    writeString s ++ rest = '"' :: (s.toList.flatMap escapedChar ++ '"' :: rest) := by
  rw [writeString, List.cons_append, List.append_assoc, List.singleton_append]

/-! ## Whole numbers -/

/-- The value of a character that is a digit. -/
def digitValue (c : Char) : ℕ := c.toNat - 48

/-- The text cannot be read as more of a whole number in front of it. -/
def EndsNumber (cs : List Char) : Prop :=
  ∀ c ∈ cs.head?, c.isDigit = false ∧ c ≠ '.' ∧ c ≠ 'e' ∧ c ≠ 'E'

theorem EndsNumber.noDigitAhead (h : EndsNumber rest) : NoDigitAhead rest :=
  fun c hc => (h c hc).1

theorem takeDigits_append (hdigits : AllDigits ds) (hend : NoDigitAhead rest) :
    takeDigits (ds ++ rest) = (ds.map digitValue, rest) := by
  induction ds with
  | nil =>
    cases rest with
    | nil => rfl
    | cons c cs =>
      rw [List.nil_append, takeDigits, Text.digit?_eq_none (hend c rfl)]
      rfl
  | cons c cs ih =>
    obtain ⟨hc, hcs⟩ := List.forall_mem_cons.1 hdigits
    rw [List.cons_append, takeDigits, Text.digit?_of_isDigit hc]
    dsimp only
    rw [ih hcs]
    rfl

/-- Digits are put together as long as the number fits. -/
theorem appendWhole_digits (hbound : Nat.ofDigitChars 10 ds n ≤ maxWord) :
    appendWhole n (ds.map digitValue) = (Nat.ofDigitChars 10 ds n, 0) := by
  induction ds generalizing n with
  | nil => rfl
  | cons c cs ih =>
    rw [Text.ofDigitChars_cons] at hbound ⊢
    have hle := Text.le_ofDigitChars (10 * n + (c.toNat - 48)) cs
    have hfits : 10 * n + digitValue c ≤ maxWord := le_trans hle hbound
    rw [List.map_cons, appendWhole, if_pos hfits]
    exact ih hbound

/-- The digits of a number do not begin with a zero, unless they are no more than that. -/
theorem takeWhole?_toDigits (n : ℕ) (hend : NoDigitAhead rest) :
    takeWhole? (Nat.toDigits 10 n ++ rest) = some ((Nat.toDigits 10 n).map digitValue, rest) := by
  have hdigits := Text.allDigits_toDigits n
  rw [takeWhole?, takeDigits_append hdigits hend]
  split
  · rename_i h
    have hnil := List.map_eq_nil_iff.1 (congrArg Prod.fst h)
    exact absurd hnil Nat.toDigits_ne_nil
  · rename_i h
    exfalso
    obtain ⟨c, hc⟩ | ⟨c, cs, hne, hc⟩ := Text.toDigits_cases n
    · rw [hc] at h
      exact List.cons_ne_nil _ _ (List.cons.inj (congrArg Prod.fst h)).2.symm
    · rw [hc] at h hdigits
      have hzero : c.toNat - 48 = 0 := (List.cons.inj (congrArg Prod.fst h)).1
      have hrange := Text.isDigit_iff.1 (hdigits c List.mem_cons_self)
      have hlow : 48 ≤ c.toNat := Char.le_def.1 hrange.1
      exact hne (Char.toNat_inj.1 (by omega : c.toNat = 48))
  · rename_i h
    rw [h]

theorem takeFraction?_of_end (hend : EndsNumber rest) : takeFraction? rest = some ([], rest) := by
  unfold takeFraction?
  split
  · exact absurd rfl (hend '.' rfl).2.1
  · rfl

theorem takeExponent?_of_end (hend : EndsNumber rest) :
    takeExponent? rest = some (none, rest) := by
  unfold takeExponent?
  split
  · rename_i c cs
    obtain ⟨-, -, hsmall, hcapital⟩ := hend c rfl
    exact if_neg (not_or.2 ⟨hsmall, hcapital⟩)
  · rfl

theorem takeNumeral?_toDigits (n : ℕ) (hend : EndsNumber rest) :
    takeNumeral? (Nat.toDigits 10 n ++ rest) =
      some (⟨false, (Nat.toDigits 10 n).map digitValue, [], none⟩, rest) := by
  have hunsigned : takeUnsigned? false (Nat.toDigits 10 n ++ rest) =
      some (⟨false, (Nat.toDigits 10 n).map digitValue, [], none⟩, rest) := by
    refine Option.bind_eq_some_iff.2 ⟨_, takeWhole?_toDigits n hend.noDigitAhead, ?_⟩
    refine Option.bind_eq_some_iff.2 ⟨_, takeFraction?_of_end hend, ?_⟩
    exact Option.bind_eq_some_iff.2 ⟨_, takeExponent?_of_end hend, rfl⟩
  obtain ⟨c, cs, hcs, hc⟩ := Text.exists_toDigits n
  unfold takeNumeral?
  split
  · rename_i h
    rw [hcs] at h
    exact absurd (List.cons.inj h).1 (Text.ne_of_isDigit hc rfl)
  · exact hunsigned

/-- The literal of a number of 64 bits is read as the number. -/
theorem takeNumber_write (hn : n ≤ maxWord) (hend : EndsNumber rest) :
    takeNumber (Number.write (.whole n) ++ rest) = (nat n, some rest) := by
  have hwrite : Number.write (.whole n) = Nat.toDigits 10 n := Nat.toList_repr
  have hvalue : Nat.ofDigitChars 10 (Nat.toDigits 10 n) 0 = n :=
    Nat.ofDigitChars_toDigits (by decide) (by decide)
  have hwhole := appendWhole_digits (hvalue.trans_le hn)
  rw [hwrite, takeNumber, takeNumeral?_toDigits n hend]
  dsimp only [Numeral.value?]
  rw [hwhole, hvalue]
  rfl

end Bourse.Json
