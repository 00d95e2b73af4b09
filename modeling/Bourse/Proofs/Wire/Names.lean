import Bourse.Identity
import Bourse.Proofs.Text.Digits
import Bourse.Symbol
import Mathlib.Data.List.TakeDrop

/-!
# Names are read as they are written

Identifiers and symbols have several text forms. The one in which they are written is read as the
same name again.
-/

namespace Bourse

namespace Uuid

/-- A digit of an identifier, as it is written. -/
def IsHexDigit (c : Char) : Prop := ∃ d < 16, c = Nat.digitChar d

theorem IsHexDigit.ne {c d : Char} (hc : IsHexDigit c)
    (hd : ∀ n < 16, Nat.digitChar n ≠ d) : c ≠ d := by
  obtain ⟨n, hn, rfl⟩ := hc
  exact hd n hn

theorem length_hexDigits (n count : ℕ) : (hexDigits n count).length = count := by
  induction count generalizing n with
  | zero => rfl
  | succ count ih => rw [hexDigits, List.length_append, ih, List.length_singleton]

theorem isHexDigit_of_mem {n count : ℕ} {c : Char} (hc : c ∈ hexDigits n count) : IsHexDigit c := by
  induction count generalizing n with
  | zero => cases hc
  | succ count ih =>
    rcases List.mem_append.1 hc with hc | hc
    · exact ih hc
    · exact ⟨n % 16, Nat.mod_lt _ (by decide), List.mem_singleton.1 hc⟩

theorem hexDigits?_hexDigits {n count : ℕ} (hn : n < 16 ^ count) :
    Text.hexDigits? (hexDigits n count) = some n := by
  induction count generalizing n with
  | zero =>
    obtain rfl : n = 0 := by simpa using hn
    rfl
  | succ count ih =>
    have hdiv : n / 16 < 16 ^ count := by
      rw [pow_succ] at hn
      omega
    have hfirst := ih hdiv
    unfold Text.hexDigits? at hfirst ⊢
    rw [hexDigits, List.foldlM_append, hfirst]
    show (Text.hexDigit? (Nat.digitChar (n % 16))).map (16 * (n / 16) + ·) >>= pure = _
    rw [Text.hexDigit?_digitChar (Nat.mod_lt _ (by decide))]
    show some (16 * (n / 16) + n % 16) = _
    rw [Nat.div_add_mod]

/-- Five groups of digits with hyphens between them. -/
theorem ofHyphenated?_groups {a b c d e : List Char} (ha : a.length = 8) (hb : b.length = 4)
    (hc : c.length = 4) (hd : d.length = 4) :
    ofHyphenated? (a ++ '-' :: (b ++ '-' :: (c ++ '-' :: (d ++ '-' :: e)))) =
      ofDigits? (a ++ b ++ c ++ d ++ e) := by
  simp [ofHyphenated?, List.getElem?_append, List.drop_append, List.drop_of_length_le, ha, hb, hc,
    hd]

/-- The text of an identifier: the digits in groups, with hyphens between them. -/
theorem toText_groups (u : Uuid) :
    ∃ a b c d e, u.toText.toList = a ++ '-' :: (b ++ '-' :: (c ++ '-' :: (d ++ '-' :: e))) ∧
      a ++ b ++ c ++ d ++ e = hexDigits u.value.toNat 32 ∧
      a.length = 8 ∧ b.length = 4 ∧ c.length = 4 ∧ d.length = 4 ∧ e.length = 12 := by
  have hlength := length_hexDigits u.value.toNat 32
  have hjoin : ∀ {l : List Char} {i j k : ℕ}, i + j = k →
      l.take i ++ (l.drop i).take j = l.take k := by
    rintro l i j k rfl
    exact List.take_add.symm
  refine ⟨_, _, _, _, _, String.toList_ofList, ?_, ?_, ?_, ?_, ?_, ?_⟩
  · rw [hjoin rfl, hjoin rfl, hjoin rfl, List.take_append_drop]
  all_goals simp [hlength]

/-- The text of an identifier is read as the identifier. -/
theorem ofText?_toText (u : Uuid) : ofText? u.toText = some u := by
  obtain ⟨a, b, c, d, e, htext, hdigits, ha, hb, hc, hd, he⟩ := u.toText_groups
  have hlt : u.value.toNat < 16 ^ 32 := u.value.isLt
  have hread : ofDigits? (a ++ b ++ c ++ d ++ e) = some u := by
    rw [hdigits, ofDigits?, if_pos (length_hexDigits _ _), hexDigits?_hexDigits hlt]
    show some (ofNat u.value.toNat) = some u
    rw [ofNat, BitVec.ofNat_toNat, BitVec.setWidth_eq]
  -- A label has a colon at the place of the first hyphen.
  have hlabel : (u.toText.toList.take label.length).map Char.toLower ≠ label := by
    intro h
    have hplace := congrArg (fun l : List Char => l[8]?) h
    have hcolon : label[8]? = some ':' := by decide
    have hnine : label.length = 9 := by decide
    simp only [hcolon, hnine, htext] at hplace
    simp [List.take_append, ha] at hplace
  obtain ⟨x, xs, rfl⟩ : ∃ x xs, a = x :: xs := List.exists_cons_of_length_eq_add_one ha
  have hx : IsHexDigit x := by
    have hmem : x ∈ hexDigits u.value.toNat 32 := by
      rw [← hdigits]
      exact List.mem_cons_self
    exact isHexDigit_of_mem hmem
  have hbrace : x ≠ '\x7b' := hx.ne (by decide)
  have hlength : u.toText.toList.length ≠ 32 := by
    rw [htext]
    simp only [List.length_append, List.length_cons] at ha ⊢
    omega
  rw [ofText?]
  unfold ofChars?
  rw [if_neg hlabel]
  split
  · rename_i h
    rw [htext] at h
    exact absurd (List.cons.inj h).1 hbrace
  · rw [if_neg hlength, htext, ofHyphenated?_groups ha hb hc hd, hread]

end Uuid

/-! ## Symbols -/

variable {c : Char} {cs : List Char}

theorem isCodeChar_iff : isCodeChar c = true ↔ ('A' ≤ c ∧ c ≤ 'Z') ∨ ('0' ≤ c ∧ c ≤ '9') := by
  simp [isCodeChar]

theorem toNat_of_isCodeChar (h : isCodeChar c = true) : 48 ≤ c.toNat ∧ c.toNat ≤ 90 := by
  rcases isCodeChar_iff.1 h with ⟨hlow, hhigh⟩ | ⟨hlow, hhigh⟩
  · exact ⟨le_trans (by decide) (Char.le_def.1 hlow), le_trans (Char.le_def.1 hhigh) (by decide)⟩
  · exact ⟨le_trans (by decide) (Char.le_def.1 hlow), le_trans (Char.le_def.1 hhigh) (by decide)⟩

theorem isCodeChar_of_mem (hcs : isCode cs = true) (hc : c ∈ cs) : isCodeChar c = true := by
  rw [isCode, Bool.and_eq_true] at hcs
  exact List.all_eq_true.1 hcs.2 c hc

/-- A code is in capitals. -/
theorem map_capital_of_isCode (hcs : isCode cs = true) : cs.map capital = cs := by
  have hsame : ∀ c ∈ cs, capital c = c := by
    intro c hc
    have hbounds := toNat_of_isCodeChar (isCodeChar_of_mem hcs hc)
    refine if_neg fun h => ?_
    have hsmall : 97 ≤ c.toNat := Char.le_def.1 h.1
    omega
  rw [List.map_congr_left hsame, List.map_id']

namespace Symbol

theorem isCodeChar_ne_slash (h : isCodeChar c = true) : c ≠ '/' := by
  rintro rfl
  exact absurd h (by decide)

theorem toList_toText (s : Symbol) :
    s.toText.toList = s.base.toList ++ '/' :: s.quote.toList := by
  rw [toText, String.toList_append, String.toList_append, List.append_assoc]
  rfl

theorem span_slash {base : List Char} (hbase : ∀ c ∈ base, c ≠ '/') (quote : List Char) :
    (base ++ '/' :: quote).span (· != '/') = (base, '/' :: quote) := by
  have hfront : ∀ c ∈ base, (c != '/') = true := fun c hc => bne_iff_ne.2 (hbase c hc)
  rw [List.span_eq_takeWhile_dropWhile, List.takeWhile_append_of_pos hfront,
    List.dropWhile_append_of_pos hfront]
  simp

/-- The text of a symbol is read as the symbol. -/
theorem parse_toText (s : Symbol) : parse s.toText = .ok s := by
  have hbase : ∀ c ∈ s.base.toList, isCodeChar c = true :=
    fun c hc => isCodeChar_of_mem s.base_code hc
  have hquote : ∀ c ∈ s.quote.toList, isCodeChar c = true :=
    fun c hc => isCodeChar_of_mem s.quote_code hc
  have hblank : ∀ c ∈ s.toText.toList, Text.isBlank c = false := by
    intro c hc
    rw [toList_toText] at hc
    rcases List.mem_append.1 hc with hc | hc
    · have hbounds := toNat_of_isCodeChar (hbase c hc)
      exact Text.isBlank_eq_false (by omega) (by omega)
    · rcases List.mem_cons.1 hc with rfl | hc
      · rfl
      · have hbounds := toNat_of_isCodeChar (hquote c hc)
        exact Text.isBlank_eq_false (by omega) (by omega)
  have hread : ofChars? s.toText.toList = some s := by
    rw [toList_toText, ofChars?, span_slash fun c hc => isCodeChar_ne_slash (hbase c hc)]
    dsimp only
    rw [map_capital_of_isCode s.base_code, map_capital_of_isCode s.quote_code, ofCodes?]
    simp only [String.ofList_toList]
    exact dif_pos ⟨s.base_code, s.quote_code⟩
  rw [parse, Text.trim_of_not_blank hblank, hread]

end Symbol

end Bourse
