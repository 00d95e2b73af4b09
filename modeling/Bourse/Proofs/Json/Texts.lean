import Bourse.Json.Reader
import Bourse.Proofs.Json.Literals

/-!
# Trees are read as they are written

The indented text of a tree is read as the tree. The reader works on a count that starts above twice
the length of the text. Each value, item and member takes at least one character and costs at most
two, so the count lasts: what is left of it is always at least twice what is left of the text.
-/

namespace Bourse.Json

variable {c : Char} {cs rest : List Char} {j item value : Json} {items : List Json} {key : String}
  {depth fuel : ℕ}

/-- A tree that has a text of its own: it is complete, has no unreadable literals, and its numbers
are whole numbers of 64 bits. -/
inductive Writable : Json → Prop where
  | null : Writable .null
  | bool (b : Bool) : Writable (.bool b)
  | nat (n : ℕ) (hn : n ≤ maxWord) : Writable (.nat n)
  | string (s : String) : Writable (.string s)
  | list (items : List Json) (hitems : ∀ item ∈ items, Writable item) : Writable (.list items)
  | record (members : List (String × Json)) (hmembers : ∀ m ∈ members, Writable m.2) :
    Writable (.record members)

/-! ## Blanks -/

theorem skipSpace_cons (hc : isSpace c = false) : skipSpace (c :: cs) = c :: cs := by
  rw [skipSpace, List.dropWhile_cons, hc]
  rfl

theorem skipSpace_lineBreak (depth : ℕ) (cs : List Char) :
    skipSpace (lineBreak depth ++ cs) = skipSpace cs := by
  have hblank : ∀ c ∈ lineBreak depth, isSpace c = true := by
    intro c hc
    rcases List.mem_cons.1 hc with rfl | hc
    · rfl
    · rw [List.eq_of_mem_replicate hc]
      rfl
  rw [skipSpace, List.dropWhile_append_of_pos hblank]
  rfl

theorem skipSpace_blank (cs : List Char) : skipSpace (' ' :: cs) = skipSpace cs := rfl

/-- A value begins with neither a blank nor a closing bracket. -/
theorem Writable.exists_cons (h : Writable j) (depth : ℕ) :
    ∃ c cs, indented depth j = c :: cs ∧ isSpace c = false ∧ c ≠ ']' := by
  cases h with
  | null => exact ⟨_, _, rfl, rfl, by decide⟩
  | bool b => cases b <;> exact ⟨_, _, rfl, rfl, by decide⟩
  | string s => exact ⟨_, _, rfl, rfl, by decide⟩
  | list items => cases items <;> exact ⟨_, _, rfl, rfl, by decide⟩
  | record members => cases members <;> exact ⟨_, _, rfl, rfl, by decide⟩
  | nat n hn =>
    obtain ⟨c, cs, hcs, hc⟩ := Text.exists_toDigits n
    have hne : ∀ d, d.isDigit = false → c ≠ d := fun d => Text.ne_of_isDigit hc
    refine ⟨c, cs, ?_, ?_, hne _ rfl⟩
    · rw [← hcs]
      exact Nat.toList_repr
    · simp [isSpace, hne]

theorem Writable.skipSpace_append (h : Writable j) (depth : ℕ) (rest : List Char) :
    skipSpace (indented depth j ++ rest) = indented depth j ++ rest := by
  obtain ⟨c, cs, hcs, hc, -⟩ := h.exists_cons depth
  rw [hcs]
  exact skipSpace_cons hc

theorem endsNumber_cons (hc : c.isDigit = false ∧ c ≠ '.' ∧ c ≠ 'e' ∧ c ≠ 'E') :
    EndsNumber (c :: cs) := by
  intro d hd
  rwa [← Option.mem_some.1 hd]

/-! ## Values, items and members -/

/-- The text of a value is read as the value, at any depth and with any blanks in front of it. -/
def ReadBack (j : Json) : Prop :=
  ∀ ⦃depth fuel : ℕ⦄ ⦃cs rest : List Char⦄, 2 * (indented depth j).length ≤ fuel →
    EndsNumber rest → skipSpace cs = indented depth j ++ rest → takeValue fuel cs = (j, some rest)

/-- What follows an item: more items, and the end of the array. -/
theorem endsNumber_items (depth : ℕ) (items : List Json) (rest : List Char) :
    EndsNumber (indentedItems depth items ++ (lineBreak depth ++ ']' :: rest)) := by
  cases items with
  | nil => exact endsNumber_cons (by decide)
  | cons item items => exact endsNumber_cons (by decide)

/-- A bracket behind an item ends the array. -/
theorem takeItems_last {behind : List Char} (hvalue : takeValue fuel cs = (item, some behind))
    (hbehind : skipSpace behind = ']' :: rest) :
    takeItems (fuel + 1) cs = ([item], some rest) := by
  rw [takeItems, hvalue]
  simp only [hbehind]

/-- A comma behind it means that there are more items. -/
theorem takeItems_cons {behind tail : List Char} (hvalue : takeValue fuel cs = (item, some behind))
    (hbehind : skipSpace behind = ',' :: tail)
    (hmore : takeItems fuel tail = (items, some rest)) :
    takeItems (fuel + 1) cs = (item :: items, some rest) := by
  rw [takeItems, hvalue]
  simp only [hbehind, hmore]

theorem takeItems_indented (hitems : ∀ j ∈ item :: items, Writable j ∧ ReadBack j)
    (hfuel : 2 * ((indented (depth + 1) item).length + (indentedItems depth items).length) < fuel)
    (hcs : skipSpace cs = indented (depth + 1) item ++
      (indentedItems depth items ++ (lineBreak depth ++ ']' :: rest))) :
    takeItems fuel cs = (item :: items, some rest) := by
  induction items generalizing item fuel cs with
  | nil =>
    obtain ⟨fuel, rfl⟩ : ∃ k, fuel = k + 1 := Nat.exists_eq_add_one.2 (by omega)
    have hfirst : 2 * (indented (depth + 1) item).length ≤ fuel := by omega
    have hvalue := (hitems item List.mem_cons_self).2 hfirst (endsNumber_items depth [] rest) hcs
    refine takeItems_last hvalue ?_
    rw [indentedItems, List.nil_append, skipSpace_lineBreak]
    exact skipSpace_cons rfl
  | cons next items ih =>
    obtain ⟨fuel, rfl⟩ : ∃ k, fuel = k + 1 := Nat.exists_eq_add_one.2 (by omega)
    have hfirst : 2 * (indented (depth + 1) item).length ≤ fuel := by omega
    have hvalue := (hitems item List.mem_cons_self).2 hfirst
      (endsNumber_items depth (next :: items) rest) hcs
    have hothers : ∀ j ∈ next :: items, Writable j ∧ ReadBack j :=
      fun j hj => hitems j (List.mem_cons_of_mem _ hj)
    have hnext := (hothers next List.mem_cons_self).1
    have hmore : takeItems fuel (lineBreak (depth + 1) ++ indented (depth + 1) next ++
        indentedItems depth items ++ (lineBreak depth ++ ']' :: rest)) =
          (next :: items, some rest) := by
      refine ih hothers ?_ ?_
      · simp only [indentedItems, List.length_cons, List.length_append] at hfuel
        omega
      · rw [List.append_assoc, List.append_assoc, skipSpace_lineBreak, hnext.skipSpace_append]
    refine takeItems_cons hvalue ?_ hmore
    rw [indentedItems, List.cons_append]
    exact skipSpace_cons rfl

/-- A member of a record, as a tree has it. -/
def asMember (m : String × Json) : Option String × Json := (some m.1, m.2)

theorem endsNumber_members (depth : ℕ) (members : List (Option String × Json))
    (rest : List Char) :
    EndsNumber (indentedMembers depth members ++ (lineBreak depth ++ '\x7d' :: rest)) := by
  cases members with
  | nil => exact endsNumber_cons (by decide)
  | cons m members => exact endsNumber_cons (by decide)

/-- A brace behind the value of a member ends the object. -/
theorem takeMembers_last {body behind : List Char}
    (hcs : skipSpace cs = writeString key ++ (':' :: body))
    (hvalue : takeValue fuel body = (value, some behind))
    (hbehind : skipSpace behind = '\x7d' :: rest) :
    takeMembers (fuel + 1) cs = ([(some key, value)], some rest) := by
  have hcolon : skipSpace (':' :: body) = ':' :: body := skipSpace_cons rfl
  rw [writeString_append] at hcs
  rw [takeMembers, hcs]
  simp only [takeString?_writeString, hcolon, hvalue, hbehind]

/-- A comma behind it means that there are more members. -/
theorem takeMembers_cons {body behind tail : List Char} {members : List (Option String × Json)}
    (hcs : skipSpace cs = writeString key ++ (':' :: body))
    (hvalue : takeValue fuel body = (value, some behind))
    (hbehind : skipSpace behind = ',' :: tail)
    (hmore : takeMembers fuel tail = (members, some rest)) :
    takeMembers (fuel + 1) cs = ((some key, value) :: members, some rest) := by
  have hcolon : skipSpace (':' :: body) = ':' :: body := skipSpace_cons rfl
  rw [writeString_append] at hcs
  rw [takeMembers, hcs]
  simp only [takeString?_writeString, hcolon, hvalue, hbehind, hmore]

theorem takeMembers_indented {members : List (String × Json)} {m : String × Json}
    (hmembers : ∀ j ∈ m :: members, Writable j.2 ∧ ReadBack j.2)
    (hfuel : 2 * ((indented (depth + 1) m.2).length +
      (indentedMembers depth (members.map asMember)).length) < fuel)
    (hcs : skipSpace cs = writeString m.1 ++ (':' :: ' ' :: (indented (depth + 1) m.2 ++
      (indentedMembers depth (members.map asMember) ++ (lineBreak depth ++ '\x7d' :: rest))))) :
    takeMembers fuel cs = ((m :: members).map asMember, some rest) := by
  induction members generalizing m fuel cs with
  | nil =>
    obtain ⟨fuel, rfl⟩ : ∃ k, fuel = k + 1 := Nat.exists_eq_add_one.2 (by omega)
    have hfirst : 2 * (indented (depth + 1) m.2).length ≤ fuel := by omega
    obtain ⟨hwritable, hread⟩ := hmembers m List.mem_cons_self
    have hvalue := hread hfirst (endsNumber_members depth [] rest)
      ((skipSpace_blank _).trans (hwritable.skipSpace_append _ _))
    refine takeMembers_last hcs hvalue ?_
    rw [indentedMembers, List.nil_append, skipSpace_lineBreak]
    exact skipSpace_cons rfl
  | cons next members ih =>
    obtain ⟨fuel, rfl⟩ : ∃ k, fuel = k + 1 := Nat.exists_eq_add_one.2 (by omega)
    have hfirst : 2 * (indented (depth + 1) m.2).length ≤ fuel := by omega
    obtain ⟨hwritable, hread⟩ := hmembers m List.mem_cons_self
    have hvalue := hread hfirst (endsNumber_members depth ((next :: members).map asMember) rest)
      ((skipSpace_blank _).trans (hwritable.skipSpace_append _ _))
    have hothers : ∀ j ∈ next :: members, Writable j.2 ∧ ReadBack j.2 :=
      fun j hj => hmembers j (List.mem_cons_of_mem _ hj)
    have hmore : takeMembers fuel (lineBreak (depth + 1) ++ writeKey (some next.1) ++
        ':' :: ' ' :: indented (depth + 1) next.2 ++ indentedMembers depth (members.map asMember) ++
          (lineBreak depth ++ '\x7d' :: rest)) = ((next :: members).map asMember, some rest) := by
      refine ih hothers ?_ ?_
      · simp only [List.map_cons, asMember, indentedMembers, List.length_cons,
          List.length_append] at hfuel
        omega
      · simp only [List.append_assoc, List.cons_append]
        rw [skipSpace_lineBreak]
        exact skipSpace_cons rfl
    refine takeMembers_cons hcs hvalue ?_ hmore
    rw [List.map_cons, asMember, indentedMembers, List.cons_append]
    exact skipSpace_cons rfl

/-! ## Trees -/

/-- A text that begins with a digit is a number. -/
theorem takeValue_digit (hc : c.isDigit = true) (h : skipSpace cs = c :: rest) :
    takeValue (fuel + 1) cs = takeNumber (c :: rest) := by
  have hne : ∀ d, d.isDigit = false → c ≠ d := fun d => Text.ne_of_isDigit hc
  rw [takeValue, h]
  split
  case h_1 h => cases h
  case h_8 => rfl
  all_goals
    rename_i h
    exact absurd (List.cons.inj h).1 (hne _ rfl)

/-- An array with something in it is read item by item. -/
theorem takeValue_bracket {body text : List Char} (hcs : skipSpace cs = '[' :: body)
    (hbody : skipSpace body = text) (hhead : ∀ tail, text ≠ ']' :: tail)
    (hitems : takeItems fuel text = (items, some rest)) :
    takeValue (fuel + 1) cs = (.list items, some rest) := by
  rw [takeValue, hcs]
  -- the case of an empty array is ruled out by the head of the text
  simp only [hbody, hitems]
  rfl

theorem takeValue_brace {body text : List Char} {members : List (Option String × Json)}
    (hcs : skipSpace cs = '\x7b' :: body) (hbody : skipSpace body = text)
    (hhead : ∀ tail, text ≠ '\x7d' :: tail)
    (hmembers : takeMembers fuel text = (members, some rest)) :
    takeValue (fuel + 1) cs = (.object members true, some rest) := by
  rw [takeValue, hcs]
  simp only [hbody, hmembers]
  rfl

/-- No value has an empty text, so there is something left of the count. -/
theorem ReadBack.of_succ (hj : Writable j)
    (h : ∀ ⦃depth fuel : ℕ⦄ ⦃cs rest : List Char⦄, 2 * (indented depth j).length ≤ fuel + 1 →
      EndsNumber rest → skipSpace cs = indented depth j ++ rest →
        takeValue (fuel + 1) cs = (j, some rest)) : ReadBack j := by
  intro depth fuel cs rest hfuel hend hcs
  obtain ⟨c, tail, htail, -, -⟩ := hj.exists_cons depth
  have hpos : 0 < (indented depth j).length := by
    rw [htail]
    exact Nat.succ_pos _
  obtain ⟨fuel, rfl⟩ : ∃ k, fuel = k + 1 := Nat.exists_eq_add_one.2 (by omega)
  exact h hfuel hend hcs

theorem readBack_nat {n : ℕ} (hn : n ≤ maxWord) : ReadBack (.nat n) := by
  refine ReadBack.of_succ (.nat n hn) fun depth _ cs rest _ hend hcs => ?_
  have htext : indented depth (.nat n) = Nat.toDigits 10 n := Nat.toList_repr
  obtain ⟨c, tail, htail, hc⟩ := Text.exists_toDigits n
  have hfirst : skipSpace cs = c :: (tail ++ rest) := by
    rw [hcs, htext, htail, List.cons_append]
  rw [takeValue_digit hc hfirst, ← List.cons_append, ← htail, ← htext]
  exact takeNumber_write hn hend

theorem readBack_string (s : String) : ReadBack (.string s) := by
  refine ReadBack.of_succ (.string s) fun depth _ cs rest _ _ hcs => ?_
  rw [indented, writeString_append] at hcs
  rw [takeValue, hcs]
  show takeText (s.toList.flatMap escapedChar ++ '"' :: rest) = _
  rw [takeText, takeString?_writeString]

theorem readBack_list {items : List Json} (hitems : ∀ j ∈ items, Writable j ∧ ReadBack j) :
    ReadBack (.list items) := by
  have hwritable : Writable (.list items) := .list items fun j hj => (hitems j hj).1
  refine ReadBack.of_succ hwritable fun depth fuel cs rest hfuel _ hcs => ?_
  cases items with
  | nil =>
    rw [takeValue, hcs]
    rfl
  | cons item items =>
    have hitem := (hitems item List.mem_cons_self).1
    obtain ⟨c, tail, htail, -, hbracket⟩ := hitem.exists_cons (depth + 1)
    simp only [Json.list, indented, List.cons_append, List.append_assoc, List.nil_append] at hcs
    refine takeValue_bracket hcs ((skipSpace_lineBreak _ _).trans (hitem.skipSpace_append _ _)) ?_
      (takeItems_indented hitems ?_ (hitem.skipSpace_append _ _))
    · rw [htail]
      exact fun _ h => hbracket (List.cons.inj h).1
    · simp only [Json.list, indented, List.length_cons, List.length_append] at hfuel
      omega

theorem readBack_record {members : List (String × Json)}
    (hmembers : ∀ m ∈ members, Writable m.2 ∧ ReadBack m.2) : ReadBack (.record members) := by
  have hwritable : Writable (.record members) := .record members fun m hm => (hmembers m hm).1
  refine ReadBack.of_succ hwritable fun depth fuel cs rest hfuel _ hcs => ?_
  cases members with
  | nil =>
    rw [takeValue, hcs]
    rfl
  | cons m members =>
    simp only [Json.record, List.map_cons, indented, writeKey, Option.getD_some, List.cons_append,
      List.append_assoc, List.nil_append] at hcs
    have hquote : ∀ rest, skipSpace (writeString m.1 ++ rest) = writeString m.1 ++ rest :=
      fun rest => skipSpace_cons rfl
    refine takeValue_brace hcs ((skipSpace_lineBreak _ _).trans (hquote _)) ?_
      (takeMembers_indented hmembers ?_ (hquote _))
    · exact fun _ h => absurd (List.cons.inj h).1 (by decide)
    · simp only [Json.record, List.map_cons, indented, List.length_cons,
        List.length_append] at hfuel
      unfold asMember
      omega

/-- The text of a tree is read as the tree. -/
theorem Writable.readBack (hj : Writable j) : ReadBack j := by
  induction hj with
  | null =>
    refine ReadBack.of_succ .null fun depth fuel cs rest _ _ hcs => ?_
    rw [takeValue, hcs]
    rfl
  | bool b =>
    refine ReadBack.of_succ (.bool b) fun depth fuel cs rest _ _ hcs => ?_
    cases b with
    | true =>
      rw [takeValue, hcs]
      rfl
    | false =>
      rw [takeValue, hcs]
      rfl
  | nat n hn => exact readBack_nat hn
  | string s => exact readBack_string s
  | list items hitems ih => exact readBack_list fun j hj => ⟨hitems j hj, ih j hj⟩
  | record members hmembers ih => exact readBack_record fun m hm => ⟨hmembers m hm, ih m hm⟩

theorem Writable.parse_toIndentedText (hj : Writable j) :
    parse j.toIndentedText = (j, some "") := by
  have hskip : skipSpace (indented 0 j) = indented 0 j ++ [] := by
    have happend := hj.skipSpace_append 0 []
    rwa [List.append_nil] at happend ⊢
  have hread : takeValue (2 * (indented 0 j).length + 2) (indented 0 j) = (j, some []) :=
    hj.readBack (Nat.le_add_right _ _) (fun c hc => by cases hc) hskip
  rw [parse, toIndentedText, String.toList_ofList, hread]
  rfl

/-- No two trees have the same text. -/
theorem Writable.toIndentedText_inj {k : Json} (hj : j.Writable) (hk : k.Writable) :
    j.toIndentedText = k.toIndentedText ↔ j = k := by
  refine ⟨fun h => ?_, congrArg toIndentedText⟩
  have hparse := hj.parse_toIndentedText
  rw [h, hk.parse_toIndentedText] at hparse
  exact (congrArg Prod.fst hparse).symm

/-- A reader that finds a value in the tree finds it in the text. -/
theorem Writable.readText_toIndentedText {α : Type} {r : Reader α} {a : α} (hj : Writable j)
    (hr : r j = .ok a) : readText r j.toIndentedText = .ok a := by
  rw [readText, hj.parse_toIndentedText]
  dsimp only
  rw [hr]
  rfl

end Bourse.Json
