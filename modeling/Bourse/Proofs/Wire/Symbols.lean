import Bourse.Proofs.Wire.Records
import Mathlib.Data.List.DropRight

/-!
# One text for every symbol

A text is read as a symbol just if it has the form `BASE/QUOTE` between its outer blanks, and two
texts are read as one symbol just if they differ in case and in outer blanks only. So orders are in
one market however their symbols are spelled.
-/

namespace Bourse

/-! ## Trimming -/

namespace Text

variable {cs core front back : List Char}

/-- What is left of `cs` without the blanks at its ends is `core`. -/
structure TrimsTo (cs core : List Char) : Prop where
  around : ∃ front back, cs = front ++ core ++ back ∧
    (∀ c ∈ front, isBlank c = true) ∧ ∀ c ∈ back, isBlank c = true
  first : ∀ c ∈ core.head?, isBlank c = false
  last : ∀ c ∈ core.getLast?, isBlank c = false

theorem trimStart_append (hfront : ∀ c ∈ front, isBlank c = true) :
    trimStart (front ++ cs) = trimStart cs :=
  List.dropWhile_append_of_pos hfront

theorem trimStart_eq_self (hfirst : ∀ c ∈ cs.head?, isBlank c = false) : trimStart cs = cs := by
  cases cs with
  | nil => rfl
  | cons c cs => exact trimStart_cons (hfirst c rfl)

theorem head?_trimStart (cs : List Char) : ∀ c ∈ (trimStart cs).head?, isBlank c = false := by
  intro c hc
  have hhead := List.head?_dropWhile_not isBlank cs
  rw [← trimStart, Option.mem_def.1 hc] at hhead
  exact hhead

theorem trimEnd_append (hback : ∀ c ∈ back, isBlank c = true) :
    trimEnd (cs ++ back) = trimEnd cs := by
  rw [trimEnd, List.reverse_append,
    trimStart_append fun c hc => hback c (List.mem_reverse.1 hc)]
  rfl

theorem trimEnd_eq_self (hlast : ∀ c ∈ cs.getLast?, isBlank c = false) : trimEnd cs = cs := by
  rw [trimEnd, trimStart_eq_self (by rwa [List.head?_reverse]), List.reverse_reverse]

theorem TrimsTo.eq_trim (h : TrimsTo cs core) : core = trim cs := by
  obtain ⟨front, back, rfl, hfront, hback⟩ := h.around
  rw [trim, List.append_assoc, trimStart_append hfront]
  cases core with
  | nil =>
    have hnil : trimStart back = [] := List.dropWhile_eq_nil_iff.2 hback
    rw [List.nil_append, hnil]
    rfl
  | cons c core =>
    rw [List.cons_append, trimStart_cons (h.first c rfl), ← List.cons_append, trimEnd_append hback,
      trimEnd_eq_self h.last]

/-- Each text trims to just one text. -/
theorem trimsTo_iff : TrimsTo cs core ↔ core = trim cs := by
  refine ⟨TrimsTo.eq_trim, ?_⟩
  rintro rfl
  have hfront : cs.takeWhile isBlank ++ trimStart cs = cs := List.takeWhile_append_dropWhile
  have hback : trim cs ++ (trimStart cs).rtakeWhile isBlank = trimStart cs :=
    List.rdropWhile_append_rtakeWhile
  refine ⟨⟨cs.takeWhile isBlank, (trimStart cs).rtakeWhile isBlank, ?_,
    fun _ hc => List.mem_takeWhile_imp hc, fun _ hc => List.mem_rtakeWhile_imp hc⟩,
    fun c hc => ?_, ?_⟩
  · rw [List.append_assoc, hback, hfront]
  · refine head?_trimStart cs c ?_
    rw [← hback, List.head?_append, Option.mem_def.1 hc]
    rfl
  · rw [trim, trimEnd, List.getLast?_reverse]
    exact head?_trimStart _

end Text

/-! ## The two cases of letters -/

section Letters

variable {c d : Char}

theorem toNat_toUpper (c : Char) :
    c.toUpper.toNat = if 97 ≤ c.toNat ∧ c.toNat ≤ 122 then c.toNat - 32 else c.toNat := by
  unfold Char.toUpper
  split
  · rename_i h
    have hrange : 97 ≤ c.toNat ∧ c.toNat ≤ 122 := h
    rw [if_pos hrange]
    show (c.val + ('A'.val - 'a'.val)).toNat = c.toNat - 32
    rw [UInt32.toNat_add]
    change (c.toNat + 4294967264) % 4294967296 = _
    omega
  · rename_i h
    exact (if_neg h).symm

theorem toNat_toLower (c : Char) :
    c.toLower.toNat = if 65 ≤ c.toNat ∧ c.toNat ≤ 90 then c.toNat + 32 else c.toNat := by
  unfold Char.toLower
  split
  · rename_i h
    have hrange : 65 ≤ c.toNat ∧ c.toNat ≤ 90 := h
    rw [if_pos hrange]
    show (c.val + ('a'.val - 'A'.val)).toNat = c.toNat + 32
    rw [UInt32.toNat_add]
    change (c.toNat + 32) % 4294967296 = _
    omega
  · rename_i h
    exact (if_neg h).symm

theorem capital_eq_toUpper (c : Char) : capital c = c.toUpper := by
  have hrange : 'a' ≤ c ∧ c ≤ 'z' ↔ 97 ≤ c.toNat ∧ c.toNat ≤ 122 := Iff.rfl
  rw [capital, ← Char.ofNat_toNat c.toUpper, toNat_toUpper]
  by_cases h : 'a' ≤ c ∧ c ≤ 'z'
  · rw [if_pos h, if_pos (hrange.1 h)]
  · rw [if_neg h, if_neg (mt hrange.2 h), Char.ofNat_toNat]

/-- Characters that agree as capitals agree as small letters. -/
theorem toUpper_eq_iff : c.toUpper = d.toUpper ↔ c.toLower = d.toLower := by
  rw [← Char.toNat_inj, ← Char.toNat_inj, toNat_toUpper, toNat_toUpper, toNat_toLower,
    toNat_toLower]
  split_ifs <;> omega

end Letters

/-! ## The grammar -/

section Grammar

variable {c : Char} {cs base quote : List Char} {a b : Symbol}

/-- An ASCII letter or digit. -/
def IsAlphanumeric (c : Char) : Prop :=
  ('A' ≤ c ∧ c ≤ 'Z') ∨ ('a' ≤ c ∧ c ≤ 'z') ∨ ('0' ≤ c ∧ c ≤ '9')
  deriving Decidable

/-- One or more ASCII letters and digits. -/
structure IsCodeText (cs : List Char) : Prop where
  nonempty : cs ≠ []
  alphanumeric : ∀ c ∈ cs, IsAlphanumeric c

/-- Two codes with a slash between them. -/
def IsPairText (cs : List Char) : Prop :=
  ∃ base quote, cs = base ++ '/' :: quote ∧ IsCodeText base ∧ IsCodeText quote

/-- The texts differ at most in the case of ASCII letters. -/
def SameLetters (cs ds : List Char) : Prop :=
  cs.map Char.toLower = ds.map Char.toLower
  deriving Decidable

theorem map_toUpper_eq_iff {cs ds : List Char} :
    cs.map Char.toUpper = ds.map Char.toUpper ↔ SameLetters cs ds := by
  unfold SameLetters
  induction cs generalizing ds with
  | nil => cases ds <;> simp
  | cons c cs ih =>
    cases ds with
    | nil => simp
    | cons d ds => simp only [List.map_cons, List.cons.injEq, toUpper_eq_iff, ih]

theorem isCodeChar_capital : isCodeChar (capital c) = true ↔ IsAlphanumeric c := by
  rw [isCodeChar_iff, capital_eq_toUpper]
  show (65 ≤ c.toUpper.toNat ∧ c.toUpper.toNat ≤ 90) ∨
      (48 ≤ c.toUpper.toNat ∧ c.toUpper.toNat ≤ 57) ↔
    (65 ≤ c.toNat ∧ c.toNat ≤ 90) ∨ (97 ≤ c.toNat ∧ c.toNat ≤ 122) ∨ (48 ≤ c.toNat ∧ c.toNat ≤ 57)
  rw [toNat_toUpper]
  split_ifs <;> omega

theorem isCode_map_capital : isCode (cs.map capital) = true ↔ IsCodeText cs := by
  simp only [isCode, Bool.and_eq_true, List.all_eq_true, List.forall_mem_map, isCodeChar_capital]
  constructor
  · rintro ⟨hne, hall⟩
    exact ⟨by simpa using hne, hall⟩
  · rintro ⟨hne, hall⟩
    exact ⟨by simpa using hne, hall⟩

instance (cs : List Char) : Decidable (IsCodeText cs) :=
  decidable_of_iff _ isCode_map_capital

theorem IsAlphanumeric.ne_slash (h : IsAlphanumeric c) : c ≠ '/' := by
  rintro rfl
  exact absurd (isCodeChar_capital.2 h) (by decide)

namespace Symbol

theorem ofChars?_pair (hbase : IsCodeText base) (hquote : IsCodeText quote) :
    ∃ a, ofChars? (base ++ '/' :: quote) = some a ∧
      a.toText.toList = (base ++ '/' :: quote).map capital := by
  have hcodes : isCode (String.ofList (base.map capital)).toList = true ∧
      isCode (String.ofList (quote.map capital)).toList = true := by
    simp only [String.toList_ofList, isCode_map_capital]
    exact ⟨hbase, hquote⟩
  refine ⟨⟨_, _, hcodes.1, hcodes.2⟩, ?_, ?_⟩
  · rw [ofChars?, span_slash fun c hc => (hbase.alphanumeric c hc).ne_slash]
    exact dif_pos hcodes
  · simp only [toList_toText, String.toList_ofList, List.map_append, List.map_cons]
    rfl

theorem isPairText_of_ofChars? (h : ofChars? cs = some a) : IsPairText cs := by
  have hcs : cs.takeWhile (· != '/') ++ cs.dropWhile (· != '/') = cs :=
    List.takeWhile_append_dropWhile
  have hslash := List.head?_dropWhile_not (· != '/') cs
  rw [ofChars?, List.span_eq_takeWhile_dropWhile] at h
  split at h
  · cases h
  · rename_i base d quote heq
    obtain ⟨rfl, hrest⟩ := Prod.mk.inj heq
    rw [hrest] at hcs hslash
    obtain rfl : d = '/' := by simpa using hslash
    rw [ofCodes?] at h
    split at h
    · rename_i hcodes
      simp only [String.toList_ofList, isCode_map_capital] at hcodes
      exact ⟨_, _, hcs.symm, hcodes⟩
    · cases h

theorem toText_injective : Function.Injective toText := fun a b h => by
  have hparse := a.parse_toText
  rw [h, b.parse_toText] at hparse
  exact (Except.ok.inj hparse).symm

/-- A text is read as the symbol whose text is its trimmed form in capitals. -/
theorem parse_eq_ok_iff {s : String} : parse s = .ok a ↔
    IsPairText (Text.trim s.toList) ∧ a.toText.toList = (Text.trim s.toList).map Char.toUpper := by
  have hread : parse s = .ok a ↔ ofChars? (Text.trim s.toList) = some a := by
    unfold parse
    cases ofChars? (Text.trim s.toList) <;> simp
  rw [hread, ← funext capital_eq_toUpper]
  constructor
  · intro h
    obtain ⟨base, quote, hcs, hbase, hquote⟩ := isPairText_of_ofChars? h
    obtain ⟨b, hb, htext⟩ := ofChars?_pair hbase hquote
    rw [hcs, hb] at h
    rw [hcs]
    exact ⟨⟨base, quote, rfl, hbase, hquote⟩, Option.some.inj h ▸ htext⟩
  · rintro ⟨⟨base, quote, hcs, hbase, hquote⟩, htext⟩
    obtain ⟨b, hb, hbtext⟩ := ofChars?_pair hbase hquote
    rw [hcs] at htext ⊢
    rw [hb, toText_injective (String.toList_inj.1 (htext.trans hbtext.symm))]

end Symbol

end Grammar

/-! ## Markets -/

theorem Symbol.isPairText_toText (a : Symbol) : IsPairText a.toText.toList := by
  have hcode : ∀ {cs : List Char}, isCode cs = true → IsCodeText cs := fun {cs} hcs =>
    isCode_map_capital.1 (by rwa [map_capital_of_isCode hcs])
  exact ⟨_, _, a.toList_toText, hcode a.base_code, hcode a.quote_code⟩

theorem IsPairText.colon_not_mem {cs : List Char} (h : IsPairText cs) : ':' ∉ cs := by
  have hcolon : ¬IsAlphanumeric ':' := fun h => absurd (isCodeChar_capital.2 h) (by decide)
  obtain ⟨base, quote, rfl, hbase, hquote⟩ := h
  rw [List.mem_append, List.mem_cons]
  rintro (hmem | hslash | hmem)
  · exact hcolon (hbase.alphanumeric _ hmem)
  · exact absurd hslash (by decide)
  · exact hcolon (hquote.alphanumeric _ hmem)

/-- The text of a market tells its symbol and its product. -/
theorem Market.toText_injective : Function.Injective Market.toText := by
  intro m n h
  have hlists : ∀ m : Market,
      m.toText.toList = m.symbol.toText.toList ++ ':' :: m.tradingType.name.toList := fun m => by
    rw [toText, String.toList_append, String.toList_append, List.append_assoc]
    rfl
  have hname : ∀ t : TradingType, ':' ∉ t.name.toList := fun t => by cases t <;> decide
  have hinjective : Function.Injective TradingType.name := fun t u => by
    cases t <;> cases u <;> decide
  have htexts := congrArg String.toList h
  rw [hlists, hlists, List.append_cons_inj_of_notMem m.symbol.isPairText_toText.colon_not_mem
    (hname _)] at htexts
  obtain ⟨hsymbol, -, htype⟩ := htexts
  cases m
  cases n
  simp only [Market.mk.injEq]
  exact ⟨Symbol.toText_injective (String.toList_inj.1 hsymbol),
    hinjective (String.toList_inj.1 htype)⟩

namespace Symbol

/-- Two texts are read as one symbol just if they differ in case and outer blanks only. -/
theorem eq_iff_of_parse {s s' : String} {a b : Symbol} (ha : parse s = .ok a)
    (hb : parse s' = .ok b) :
    a = b ↔ SameLetters (Text.trim s.toList) (Text.trim s'.toList) := by
  rw [← toText_injective.eq_iff, ← String.toList_inj, (parse_eq_ok_iff.1 ha).2,
    (parse_eq_ok_iff.1 hb).2, map_toUpper_eq_iff]

theorem exists_parse_iff {s : String} :
    (∃ a, parse s = .ok a) ↔ IsPairText (Text.trim s.toList) := by
  constructor
  · rintro ⟨a, ha⟩
    exact (parse_eq_ok_iff.1 ha).1
  · rintro ⟨base, quote, hcs, hbase, hquote⟩
    obtain ⟨a, -, htext⟩ := ofChars?_pair hbase hquote
    refine ⟨a, parse_eq_ok_iff.2 ⟨⟨base, quote, hcs, hbase, hquote⟩, ?_⟩⟩
    rw [hcs, htext, funext capital_eq_toUpper]

/-- A text is read as a symbol just if it is of the form `BASE/QUOTE` when it is trimmed, and the
symbol is written as that text in capitals. The text of a symbol is read as the symbol, also from
JSON. So two texts are read as one symbol, and name one market, just if they differ in case and
outer blanks only; and the text of a market tells its symbol and its product. -/
theorem parse_exact_and_canonical :
    (∀ s, Text.TrimsTo s.toList (Text.trim s.toList) ∧
      ((∃ a, parse s = .ok a) ↔ IsPairText (Text.trim s.toList))) ∧
    (∀ s a, parse s = .ok a → a.toText.toList = (Text.trim s.toList).map Char.toUpper) ∧
    (∀ a, parse a.toText = .ok a ∧
      Json.readText Wire.readSymbol (Wire.writeSymbol a).toText = .ok a) ∧
    (∀ s s' a b, parse s = .ok a → parse s' = .ok b →
      (a = b ↔ SameLetters (Text.trim s.toList) (Text.trim s'.toList)) ∧
      ∀ t u, (⟨a, t⟩ : Market) = ⟨b, u⟩ ↔
        SameLetters (Text.trim s.toList) (Text.trim s'.toList) ∧ t = u) ∧
    ∀ m n : Market, m.toText = n.toText → m.symbol = n.symbol ∧ m.tradingType = n.tradingType := by
  refine ⟨fun s => ⟨Text.trimsTo_iff.2 rfl, exists_parse_iff⟩,
    fun s a ha => (parse_eq_ok_iff.1 ha).2, fun a => ⟨a.parse_toText, ?_⟩,
    fun s s' a b ha hb => ⟨eq_iff_of_parse ha hb, fun t u => ?_⟩, fun m n h => ?_⟩
  · exact Wire.readsAs_symbol.writable a |>.readText_toIndentedText (Wire.readsAs_symbol.read a)
  · rw [Market.mk.injEq, eq_iff_of_parse ha hb]
  · cases Market.toText_injective h
    exact ⟨rfl, rfl⟩

/-- Gold in dollars, spelled in two ways. -/
theorem parse_exact_and_canonical_gold :
    ∃ a b, parse "\tXAU/usd " = .ok a ∧ parse "xau/USD" = .ok b ∧
      SameLetters (Text.trim "\tXAU/usd ".toList) (Text.trim "xau/USD".toList) ∧ a = b := by
  obtain ⟨a, ha⟩ := (parse_exact_and_canonical.1 "\tXAU/usd ").2.2
    ⟨"XAU".toList, "usd".toList, by decide +kernel, by decide +kernel, by decide +kernel⟩
  obtain ⟨b, hb⟩ := (parse_exact_and_canonical.1 "xau/USD").2.2
    ⟨"xau".toList, "USD".toList, by decide +kernel, by decide +kernel, by decide +kernel⟩
  have hsame : SameLetters (Text.trim "\tXAU/usd ".toList) (Text.trim "xau/USD".toList) := by
    decide +kernel
  exact ⟨a, b, ha, hb, hsame, (parse_exact_and_canonical.2.2.2.1 _ _ a b ha hb).1.2 hsame⟩

end Symbol

end Bourse
