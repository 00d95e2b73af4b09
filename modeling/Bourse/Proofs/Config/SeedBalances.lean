import Bourse.Config
import Bourse.Proofs.Decimal.Value
import Bourse.Proofs.Text.Spacing
import Bourse.Proofs.Text.Split

/-!
# Opening balances are read entry by entry

A list of opening balances is read as its entries are, each by itself, so what stands in one entry
has no bearing on the others. An entry is three parts with colons between them, and blanks around a
part do not count. The balances that can come out of a text are those whose asset needs no trimming
and holds no separator and no small letter, and whose amount is above zero; each of them is read as
it is written.
-/

namespace Bourse

/-! ## Capitals -/

section Capitals

variable {c : Char} {cs : List Char}

theorem toNat_capital (c : Char) :
    (capital c).toNat = if 97 ≤ c.toNat ∧ c.toNat ≤ 122 then c.toNat - 32 else c.toNat := by
  rw [capital_eq_toUpper, toNat_toUpper]

/-- A small letter of the ASCII alphabet. -/
def IsSmallLetter (c : Char) : Prop := 'a' ≤ c ∧ c ≤ 'z'
  deriving Decidable

theorem isSmallLetter_iff : IsSmallLetter c ↔ 97 ≤ c.toNat ∧ c.toNat ≤ 122 := Iff.rfl

theorem capital_eq_self (hc : ¬IsSmallLetter c) : capital c = c := if_neg hc

theorem not_isSmallLetter_capital (c : Char) : ¬IsSmallLetter (capital c) := by
  rw [isSmallLetter_iff, toNat_capital]
  split_ifs <;> omega

/-- Only small letters and capitals become capitals. -/
theorem eq_of_capital_eq {d : Char} (h : capital c = d) (hd : d.toNat < 65) : c = d := by
  have hnat : (capital c).toNat = d.toNat := congrArg Char.toNat h
  rw [toNat_capital] at hnat
  rw [← Char.toNat_inj]
  split_ifs at hnat <;> omega

theorem isBlank_capital (hc : Text.isBlank c = false) : Text.isBlank (capital c) = false := by
  by_cases hsmall : IsSmallLetter c
  · have hnat := toNat_capital c
    rw [if_pos (isSmallLetter_iff.1 hsmall)] at hnat
    rw [isSmallLetter_iff] at hsmall
    exact Text.isBlank_eq_false (by omega) (by omega)
  · rwa [capital_eq_self hsmall]

theorem Text.TrimsTo.map_capital (h : Text.TrimsTo cs cs) :
    Text.TrimsTo (cs.map capital) (cs.map capital) := by
  refine Text.trimsTo_self (fun c hc => ?_) fun c hc => ?_
  · rw [List.head?_map, Option.mem_map] at hc
    obtain ⟨d, hd, rfl⟩ := hc
    exact isBlank_capital (h.first d hd)
  · rw [List.getLast?_map, Option.mem_map] at hc
    obtain ⟨d, hd, rfl⟩ := hc
    exact isBlank_capital (h.last d hd)

end Capitals

namespace SeedBalance

variable {b : SeedBalance} {entry : List Char}

/-! ## One entry -/

/-- What a balance must be to have an entry of its own. -/
structure WellFormed (b : SeedBalance) : Prop where
  asset_ne : b.asset ≠ ""
  asset_chars : ∀ c ∈ b.asset.toList, c ≠ ',' ∧ c ≠ ':' ∧ ¬IsSmallLetter c
  asset_trimmed : Text.TrimsTo b.asset.toList b.asset.toList
  amount_pos : 0 < b.amount.toRat

/-- The balance is told by the three parts of an entry, up to the blanks around them. -/
structure HasParts (b : SeedBalance) (user asset amount : List Char) : Prop where
  user : Text.whole? UInt64.size (Text.trim user) = some b.userId.number.toNat
  asset : b.asset.toList = (Text.trim asset).map capital
  asset_ne : b.asset ≠ ""
  amount : Decimal.ofText? (String.ofList (Text.trim amount)) = some b.amount
  amount_pos : 0 < b.amount.toRat

theorem field?_eq_some_iff {cs front back : List Char} :
    field? cs = some (front, back) ↔ cs = front ++ ':' :: back ∧ ':' ∉ front := by
  rw [← Text.splitOnce_eq_some_iff, field?]
  rcases Text.splitOnce ':' cs with ⟨start, _ | rest⟩ <;> simp

/-- An entry is read just if, when it is trimmed, it has three parts that can be read. A third colon
would stand in the amount, which is no number then. -/
theorem ofEntry?_eq_some_iff : ofEntry? entry = some b ↔
    ∃ user asset amount, Text.trim entry = user ++ ':' :: (asset ++ ':' :: amount) ∧
      ':' ∉ user ∧ ':' ∉ asset ∧ b.HasParts user asset amount := by
  simp only [Option.bind_eq_bind, Option.bind_eq_some_iff, ofEntry?]
  constructor
  · rintro ⟨⟨user, rest⟩, hentry, ⟨asset, amount⟩, hrest, n, hn, a, ha, hb⟩
    obtain ⟨hentry, huser⟩ := field?_eq_some_iff.1 hentry
    obtain ⟨rfl, hasset⟩ := field?_eq_some_iff.1 hrest
    split at hb
    · cases hb
    · rename_i hsound
      obtain rfl := Option.some.inj hb
      simp only [Bool.or_eq_true, not_or, Bool.not_eq_true, Bool.not_eq_false'] at hsound
      obtain ⟨hne, hpos⟩ := hsound
      have hnumber : (UInt64.ofNat n).toNat = n := UInt64.toNat_ofNat_of_lt' (Text.whole?_lt hn)
      refine ⟨user, asset, amount, hentry, huser, hasset, hn.trans (congrArg some hnumber.symm),
        String.toList_ofList, fun hempty => ?_, ha, Decimal.isPos_iff.1 hpos⟩
      rw [String.ofList_eq_empty_iff.1 hempty] at hne
      exact Bool.false_ne_true hne.symm
  · rintro ⟨user, asset, amount, hentry, huser, hasset, h⟩
    refine ⟨(user, asset ++ ':' :: amount), field?_eq_some_iff.2 ⟨hentry, huser⟩,
      (asset, amount), field?_eq_some_iff.2 ⟨rfl, hasset⟩, _, h.user, _, h.amount, ?_⟩
    have hname : String.ofList ((Text.trim asset).map capital) = b.asset := by
      rw [← h.asset, String.ofList_toList]
    have hne : ((Text.trim asset).map capital).isEmpty = false := by
      rw [← h.asset, List.isEmpty_eq_false_iff]
      exact mt String.toList_eq_nil_iff.1 h.asset_ne
    rw [hne, Decimal.isPos_iff.2 h.amount_pos, hname, UInt64.ofNat_toNat]
    rfl

/-- What is read from an entry without commas is a balance with an entry of its own. -/
theorem wellFormed_of_ofEntry? (hcomma : ',' ∉ entry) (h : ofEntry? entry = some b) :
    b.WellFormed := by
  obtain ⟨user, asset, amount, hentry, -, hcolon, hparts⟩ := ofEntry?_eq_some_iff.1 h
  -- The comma is kept out by the entry, the colon by the cut in front of the amount.
  have hmem : ∀ c ∈ Text.trim asset, c ∈ entry := by
    intro c hc
    refine Text.mem_of_mem_trim ?_
    rw [hentry]
    exact List.mem_append_right _ (List.mem_cons_of_mem _ (List.mem_append_left _
      (Text.mem_of_mem_trim hc)))
  refine ⟨hparts.asset_ne, fun c hc => ?_, ?_, hparts.amount_pos⟩
  · rw [hparts.asset] at hc
    obtain ⟨d, hd, rfl⟩ := List.mem_map.1 hc
    refine ⟨fun h => hcomma ?_, fun h => hcolon ?_, not_isSmallLetter_capital d⟩
    · rw [← eq_of_capital_eq h (by decide)]
      exact hmem d hd
    · rw [← eq_of_capital_eq h (by decide)]
      exact Text.mem_of_mem_trim hd
  · rw [hparts.asset]
    exact (Text.trimsTo_trim asset).core_self.map_capital

/-- The text is `user:asset:amount`, with any blanks around the three parts. -/
def IsEntryOf (b : SeedBalance) (entry : String) : Prop :=
  ∃ user asset amount, entry = user ++ ":" ++ asset ++ ":" ++ amount ∧
    Text.IsSpaced b.userId.toText user ∧ Text.IsSpaced b.asset asset ∧
    Text.IsSpaced b.amount.toText amount

theorem toList_toText_userId (u : UserId) : u.toText.toList = Nat.toDigits 10 u.number.toNat := by
  rw [UserId.toText, Nat.toString_eq_repr, Nat.toList_repr]

/-- A character that is no blank and separates nothing. -/
def IsPlain (c : Char) : Prop := Text.isBlank c = false ∧ c ≠ ',' ∧ c ≠ ':'
  deriving Decidable

theorem isPlain_of_isDigit {c : Char} (hc : c.isDigit = true) : IsPlain c :=
  ⟨Text.isBlank_of_isDigit hc, Text.ne_of_isDigit hc rfl, Text.ne_of_isDigit hc rfl⟩

theorem isPlain_user {u : UserId} : ∀ c ∈ u.toText.toList, IsPlain c := by
  rw [toList_toText_userId]
  exact fun c hc => isPlain_of_isDigit (Text.allDigits_toDigits _ c hc)

theorem isPlain_amount {a : Decimal} : ∀ c ∈ a.toText.toList, IsPlain c := by
  intro c hc
  rcases Decimal.isDigit_or_of_mem_toText hc with hdigit | rfl | rfl
  · exact isPlain_of_isDigit hdigit
  · decide
  · decide

section Written

variable {user asset amount text : String}

theorem WellFormed.hasParts (h : b.WellFormed) (huser : Text.IsSpaced b.userId.toText user)
    (hasset : Text.IsSpaced b.asset asset) (hamount : Text.IsSpaced b.amount.toText amount) :
    b.HasParts user.toList asset.toList amount.toList := by
  refine ⟨?_, ?_, h.asset_ne, ?_, h.amount_pos⟩
  · rw [huser.trim_eq (Text.trimsTo_self_of_not_blank fun c hc => (isPlain_user c hc).1),
      toList_toText_userId]
    exact Text.whole?_toDigits b.userId.number.toNat_lt
  · have hcapital : ∀ c ∈ b.asset.toList, capital c = c :=
      fun c hc => capital_eq_self (h.asset_chars c hc).2.2
    rw [hasset.trim_eq h.asset_trimmed, List.map_congr_left hcapital, List.map_id']
  · have hzero : b.amount.isZero = false := Decimal.isZero_eq_false_iff.2 h.amount_pos.ne'
    have hsigned : b.amount.unsignedZero = b.amount := by
      simp [Decimal.unsignedZero, hzero]
    rw [hamount.trim_eq (Text.trimsTo_self_of_not_blank fun c hc => (isPlain_amount c hc).1),
      String.ofList_toList, Decimal.ofText?_toText, hsigned]

/-- The entry of a balance is read as the balance. -/
theorem WellFormed.ofEntry?_eq (h : b.WellFormed) (hentry : b.IsEntryOf text) :
    ofEntry? text.toList = some b := by
  obtain ⟨user, asset, amount, rfl, huser, hasset, hamount⟩ := hentry
  have hparts := h.hasParts huser hasset hamount
  have hcolon : Text.isBlank ':' = false := by decide
  have htext : (user ++ ":" ++ asset ++ ":" ++ amount).toList =
      user.toList ++ ':' :: (asset.toList ++ ':' :: amount.toList) := by
    simp [String.toList_append]
  -- The entry is trimmed before it is cut, so its outer parts have lost their outer blanks.
  refine ofEntry?_eq_some_iff.2 ⟨Text.trimStart user.toList, asset.toList,
    Text.trimEnd amount.toList, ?_, fun hmem => ?_, ?_, ?_⟩
  · rw [htext, Text.trim, Text.trimStart_append_cons hcolon, Text.trimEnd_append_cons hcolon,
      Text.trimEnd_append_cons hcolon]
  · refine huser.not_mem hcolon (fun hmem => (isPlain_user _ hmem).2.2 rfl) ?_
    exact (List.dropWhile_sublist _).subset hmem
  · exact hasset.not_mem hcolon fun hmem => (h.asset_chars _ hmem).2.1 rfl
  · exact ⟨by rw [Text.trim_trimStart]; exact hparts.user, hparts.asset, hparts.asset_ne,
      by rw [Text.trim_trimEnd]; exact hparts.amount, hparts.amount_pos⟩

theorem WellFormed.comma_not_mem (h : b.WellFormed) (hentry : b.IsEntryOf text) :
    ',' ∉ text.toList := by
  obtain ⟨user, asset, amount, rfl, huser, hasset, hamount⟩ := hentry
  have hcomma : Text.isBlank ',' = false := by decide
  have huser := huser.not_mem hcomma fun hmem => (isPlain_user _ hmem).2.1 rfl
  have hasset := hasset.not_mem hcomma fun hmem => (h.asset_chars _ hmem).1 rfl
  have hamount := hamount.not_mem hcomma fun hmem => (isPlain_amount _ hmem).2.1 rfl
  simp [String.toList_append, huser, hasset, hamount]

end Written

/-! ## Lists of entries -/

theorem parse_append (s t : String) : parse (s ++ "," ++ t) = parse s ++ parse t := by
  have htext : (s ++ "," ++ t).toList = s.toList ++ ',' :: t.toList := by
    simp [String.toList_append]
  rw [parse, htext, Text.split_append_cons, List.filterMap_append]
  rfl

theorem wellFormed_of_mem_parse {s : String} (h : b ∈ parse s) : b.WellFormed := by
  obtain ⟨entry, hentry, hread⟩ := List.mem_filterMap.1 h
  exact wellFormed_of_ofEntry? (Text.not_mem_of_mem_split hentry) hread

theorem WellFormed.parse_eq {text : String} (h : b.WellFormed) (hentry : b.IsEntryOf text) :
    parse text = [b] := by
  rw [parse, Text.split_of_not_mem (h.comma_not_mem hentry)]
  simp [h.ofEntry?_eq hentry]

/-- By induction on the entries: each one but the last has a comma behind it. -/
theorem parse_intercalate {balances : List SeedBalance} {entries : List String}
    (hentries : List.Forall₂ IsEntryOf balances entries) (h : ∀ b ∈ balances, b.WellFormed) :
    parse (",".intercalate entries) = balances := by
  induction hentries with
  | nil => decide
  | @cons b entry balances entries hentry hentries ih =>
    obtain ⟨hb, hbalances⟩ := List.forall_mem_cons.1 h
    cases hentries with
    | nil =>
      rw [String.intercalate_singleton]
      exact hb.parse_eq hentry
    | cons hnext hrest =>
      rw [String.intercalate_cons_cons, parse_append, hb.parse_eq hentry, ih hbalances]
      rfl

theorem isEntryOf_toEntry (b : SeedBalance) : b.IsEntryOf b.toEntry :=
  ⟨_, _, _, rfl, Text.isSpaced_self _, Text.isSpaced_self _, Text.isSpaced_self _⟩

theorem parse_toEntries {balances : List SeedBalance} (h : ∀ b ∈ balances, b.WellFormed) :
    parse (",".intercalate (balances.map toEntry)) = balances := by
  refine parse_intercalate ?_ h
  exact List.forall₂_map_right_iff.2 (List.forall₂_same.2 fun b _ => isEntryOf_toEntry b)

/-- The entries of a text are read each by itself, whatever the others hold. Balances that are
written with commas between them, and with any blanks around their parts, are read as they are, the
scales of their amounts included; and only well-formed ones are. -/
theorem parse_entry_by_entry :
    (∀ s t : String, parse (s ++ "," ++ t) = parse s ++ parse t) ∧
    (∀ (balances : List SeedBalance) (entries : List String), (∀ b ∈ balances, b.WellFormed) →
      List.Forall₂ IsEntryOf balances entries → parse (",".intercalate entries) = balances) ∧
    ∀ balances : List SeedBalance,
      parse (",".intercalate (balances.map toEntry)) = balances ↔ ∀ b ∈ balances, b.WellFormed := by
  refine ⟨parse_append, fun balances entries h hentries => parse_intercalate hentries h,
    fun balances => ⟨fun h b hb => ?_, parse_toEntries⟩⟩
  rw [← h] at hb
  exact wellFormed_of_mem_parse hb

/-- Five and a half ounces, and a dollar of the same user. -/
def goldAndDollar : List SeedBalance :=
  [⟨⟨1⟩, "GÖLD é 1", ⟨false, 550, 2, by decide, by decide⟩⟩, ⟨⟨1⟩, "USD", .one⟩]

theorem parse_entry_by_entry_goldAndDollar :
    (∀ b ∈ goldAndDollar, b.WellFormed) ∧
    List.Forall₂ IsEntryOf goldAndDollar ["\t1: GÖLD é 1:5.50", "1 :USD\u3000:1\n"] ∧
    parse (",".intercalate ["\t1: GÖLD é 1:5.50", "1 :USD\u3000:1\n"]) = goldAndDollar := by
  have hformed : ∀ b ∈ goldAndDollar, b.WellFormed := by
    intro b hb
    simp only [goldAndDollar, List.mem_cons, List.not_mem_nil, or_false] at hb
    rcases hb with rfl | rfl
    · exact ⟨by decide +kernel, List.forall_iff_forall_mem.1 (by decide +kernel),
        Text.trimsTo_iff.2 (by decide +kernel), Decimal.isPos_iff.1 (by decide)⟩
    · exact ⟨by decide +kernel, List.forall_iff_forall_mem.1 (by decide +kernel),
        Text.trimsTo_iff.2 (by decide +kernel), Decimal.isPos_iff.1 (by decide)⟩
  have hentries : List.Forall₂ IsEntryOf goldAndDollar
      ["\t1: GÖLD é 1:5.50", "1 :USD\u3000:1\n"] := by
    refine .cons ⟨"\t1", " GÖLD é 1", "5.50", by decide +kernel, ⟨"\t", "", ?_⟩, ⟨" ", "", ?_⟩,
      Text.isSpaced_self _⟩ (.cons ⟨"1 ", "USD\u3000", "1\n", by decide +kernel, ⟨"", " ", ?_⟩,
      ⟨"", "\u3000", ?_⟩, ⟨"", "\n", ?_⟩⟩ .nil) <;> decide +kernel
  exact ⟨hformed, hentries, parse_entry_by_entry.2.1 _ _ hformed hentries⟩

end SeedBalance

end Bourse
