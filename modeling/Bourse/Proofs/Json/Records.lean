import Bourse.Json.Reader
import Bourse.Proofs.Json.Texts
import Mathlib.Data.List.Forall2

/-!
# Records are read as they are written

What is said of the fields of a record, one by one, is put together the way the reader of the record
is put together from the readers of its fields. Reading need not give back the very value that was
written, so each statement names what it does give.
-/

namespace Bourse.Json

variable {α β : Type}

namespace Reader

theorem convert_eq {r : Reader α} {whole : α → Option β} {j : Json} {a : α} {b : β}
    (hr : r j = .ok a) (hwhole : whole a = some b) : r.convert whole j = .ok b := by
  simp only [convert, hr, bind, Except.bind, hwhole]
  rfl

theorem below_nat {n bound : ℕ} (hn : n < bound) : below bound (.nat n) = .ok n := by
  have hrange : 0 ≤ (n : ℤ) ∧ (n : ℤ) < bound := ⟨Int.natCast_nonneg n, Int.ofNat_lt.2 hn⟩
  exact convert_eq rfl (if_pos hrange)

end Reader

/-- What is written for a value has a text, and is read as `f` of the value. -/
structure ReadsAs (write : α → Json) (r : Reader α) (f : α → α) : Prop where
  writable : ∀ a, Writable (write a)
  read : ∀ a, r (write a) = .ok (f a)

namespace ReadsAs

variable {write : α → Json} {r : Reader α} {f : α → α}

/-- Values that are read as they were are told apart by what is written for them. -/
theorem write_inj (h : ReadsAs write r id) {a b : α} : write a = write b ↔ a = b := by
  refine ⟨fun hwrite => ?_, congrArg write⟩
  have hread := h.read a
  rw [hwrite, h.read b] at hread
  exact (Except.ok.inj hread).symm

theorem string : ReadsAs .string Reader.string id where
  writable s := .string s
  read _ := rfl

/-- A value that is written as another one is read as what that one converts to. -/
theorem convert {g : β → β} {part : β → α} {whole : α → Option β} (h : ReadsAs write r f)
    (hwhole : ∀ b, whole (f (part b)) = some (g b)) :
    ReadsAs (fun b => write (part b)) (r.convert whole) g where
  writable b := h.writable (part b)
  read b := Reader.convert_eq (h.read (part b)) (hwhole b)

/-- A whole number of 64 bits. -/
theorem word : ReadsAs (fun n : UInt64 => .nat n.toNat) Reader.word id where
  writable n := .nat _ (Nat.le_pred_of_lt n.toNat_lt)
  read n := Reader.convert_eq (Reader.below_nat n.toNat_lt) (congrArg some UInt64.ofNat_toNat)

/-- A whole number of 32 bits. -/
theorem halfWord : ReadsAs (fun n : UInt32 => .nat n.toNat) Reader.halfWord id where
  writable n := by
    have hlt : n.toNat < 4294967296 := n.toNat_lt
    exact .nat _ (hlt.le.trans (by decide))
  read n := Reader.convert_eq (Reader.below_nat n.toNat_lt) (congrArg some UInt32.ofNat_toNat)

/-- A choice is read by its name. -/
theorem oneOf {name : α → String} {names : List (String × α)}
    (hnames : ∀ a, names.lookup (name a) = some a) :
    ReadsAs (fun a => .string (name a)) (Reader.oneOf names) id where
  writable a := .string (name a)
  read a := by
    unfold Reader.oneOf
    dsimp only
    rw [hnames]
    rfl

/-- A list is read item by item. -/
theorem list (h : ReadsAs write r f) :
    ReadsAs (fun as => .list (as.map write)) (Reader.list r) (List.map f) where
  writable as := by
    refine .list _ fun item hitem => ?_
    obtain ⟨a, -, rfl⟩ := List.mem_map.1 hitem
    exact h.writable a
  read as := by
    have hitems : (as.map write).mapM r = .ok (as.map f) := by
      induction as with
      | nil => rfl
      | cons a as ih =>
        rw [List.map_cons, List.mapM_cons, h.read, ih]
        rfl
    show (do
      let values ← (as.map write).mapM r
      if true then return values else throw .malformed : Except Flaw (List α)) = _
    rw [hitems]
    rfl

/-- A value that may be missing is read, since no value is written as `null`. -/
theorem option (h : ReadsAs write r id) (hnull : ∀ a, write a ≠ .null) :
    ReadsAs (.option write) r.option id where
  writable o := by
    cases o with
    | none => exact .null
    | some a => exact h.writable a
  read o := by
    cases o with
    | none => rfl
    | some a =>
      show r.option (write a) = _
      unfold Reader.option
      split
      · rename_i hwrite
        exact absurd hwrite (hnull a)
      · rw [h.read]
        rfl

end ReadsAs

namespace RecordReader

variable {r : RecordReader α} {members : List (String × Json)} {fields : List Field} {a : α}

/-- The members are those of the fields, in the order of the fields, and the record that is built
from them is `a`. -/
structure Fits (r : RecordReader α) (members : List (String × Json)) (a : α) : Prop where
  writable : ∀ m ∈ members, Writable m.2
  fields :
    List.Forall₂ (fun field m => field.name = m.1 ∧ field.check m.2 = .ok ()) r.fields members
  build : ∀ get : String → Option Json, (∀ m ∈ members, get m.1 = some m.2) → r.build get = .ok a

namespace Fits

variable {write : α → Json} {read : Reader α} {f : α → α}

theorem pure (a : α) : Fits (Pure.pure a) [] a where
  writable := by simp
  fields := .nil
  build _ _ := rfl

theorem required (name : String) (h : ReadsAs write read f) (a : α) :
    Fits (RecordReader.required name read) [(name, write a)] (f a) where
  writable m hm := by
    rw [List.mem_singleton.1 hm]
    exact h.writable a
  fields := by
    have hcheck : discard (read (write a)) = .ok () := by
      rw [h.read]
      rfl
    exact .cons ⟨rfl, hcheck⟩ .nil
  build get hget := by
    have hname : get name = some (write a) := hget _ List.mem_cons_self
    simp only [RecordReader.required, hname]
    exact h.read a

theorem optional (name : String) (h : ReadsAs (.option write) read.option id) (o : Option α) :
    Fits (RecordReader.optional name read) [(name, .option write o)] o where
  writable m hm := by
    rw [List.mem_singleton.1 hm]
    exact h.writable o
  fields := by
    have hcheck : discard (read.option (.option write o)) = .ok () := by
      rw [h.read]
      rfl
    exact .cons ⟨rfl, hcheck⟩ .nil
  build get hget := by
    have hname : get name = some (.option write o) := hget _ List.mem_cons_self
    simp only [RecordReader.optional, hname]
    exact h.read o

theorem seq {g : RecordReader (α → β)} {h : α → β} {more : List (String × Json)}
    (hg : Fits g members h) (hr : Fits r more a) : Fits (g <*> r) (members ++ more) (h a) where
  writable m hm := by
    rcases List.mem_append.1 hm with hm | hm
    · exact hg.writable m hm
    · exact hr.writable m hm
  fields := List.rel_append hg.fields hr.fields
  build get hget := by
    have hfirst := hg.build get fun m hm => hget m (List.mem_append_left _ hm)
    have hsecond := hr.build get fun m hm => hget m (List.mem_append_right _ hm)
    show (do return (← g.build get) (← r.build get)) = _
    rw [hfirst, hsecond]
    rfl

theorem map (g : α → β) (hr : Fits r members a) : Fits (g <$> r) members (g a) :=
  (pure g).seq hr

end Fits

variable {seen : List String}

/-- A name stands for the field that it was written for, since no two fields share one. -/
theorem find?_of_forall₂ {ok : Field → String × Json → Prop} {m : String × Json}
    (hfields : List.Forall₂ (fun field m => field.name = m.1 ∧ ok field m) fields members)
    (hnames : (members.map Prod.fst).Nodup) (hm : m ∈ members) :
    ∃ field, fields.find? (·.name == m.1) = some field ∧ ok field m := by
  induction hfields with
  | nil => cases hm
  | @cons field first fields members hfirst _ ih =>
    obtain ⟨hname, hok⟩ := hfirst
    obtain ⟨hnew, hnames⟩ := List.nodup_cons.1 hnames
    rcases List.mem_cons.1 hm with rfl | hm
    · refine ⟨field, ?_, hok⟩
      rw [List.find?_cons, hname, beq_self_eq_true]
    · have hne : (field.name == m.1) = false := by
        rw [hname, beq_eq_false_iff_ne]
        intro h
        exact hnew (h ▸ List.mem_map_of_mem hm)
      obtain ⟨other, hother, hok⟩ := ih hnames hm
      refine ⟨other, ?_, hok⟩
      rw [List.find?_cons, hne]
      exact hother

theorem checkMembers_eq_ok
    (hfields : ∀ m ∈ members,
      ∃ field, fields.find? (·.name == m.1) = some field ∧ field.check m.2 = .ok ())
    (hnames : (members.map Prod.fst).Nodup) (hseen : ∀ m ∈ members, m.1 ∉ seen) :
    checkMembers fields seen (members.map asMember) = .ok () := by
  induction members generalizing seen with
  | nil => rfl
  | cons m members ih =>
    obtain ⟨field, hfind, hcheck⟩ := hfields m List.mem_cons_self
    obtain ⟨hnew, hnames⟩ := List.nodup_cons.1 hnames
    have hunseen : seen.contains m.1 = false := by simpa using hseen m List.mem_cons_self
    rw [List.map_cons, asMember, checkMembers, hfind]
    dsimp only
    rw [if_neg (by rw [hunseen]; decide), hcheck]
    refine ih (fun m hm => hfields m (List.mem_cons_of_mem _ hm)) hnames fun other hm hmem => ?_
    rcases List.mem_cons.1 hmem with h | h
    · exact hnew (h ▸ List.mem_map_of_mem hm)
    · exact hseen other (List.mem_cons_of_mem _ hm) h

theorem member?_eq_some {m : String × Json} (hnames : (members.map Prod.fst).Nodup)
    (hm : m ∈ members) : member? (members.map asMember) m.1 = some m.2 := by
  induction members with
  | nil => cases hm
  | cons first members ih =>
    obtain ⟨hnew, hnames⟩ := List.nodup_cons.1 hnames
    rw [member?, List.map_cons, asMember, List.lookup_cons]
    rcases List.mem_cons.1 hm with rfl | hm
    · rw [beq_self_eq_true]
    · have hne : (some m.1 == some first.1) = false := by
        rw [beq_eq_false_iff_ne]
        intro h
        exact hnew (Option.some.inj h ▸ List.mem_map_of_mem hm)
      rw [hne]
      exact ih hnames hm

/-- A record whose fields have different names is read from its members. -/
theorem Fits.read (h : Fits r members a) (hfields : (r.fields.map Field.name).Nodup) :
    r.read (.record members) = .ok a := by
  have hnames : (members.map Prod.fst).Nodup := by
    have hsame : List.Forall₂ (fun field m => field.name = m.1) r.fields members :=
      h.fields.imp fun _ _ hfield => hfield.1
    have hequal : r.fields.map Field.name = members.map Prod.fst := by
      rw [← List.forall₂_eq_eq_eq, List.forall₂_map_left_iff, List.forall₂_map_right_iff]
      exact hsame
    rwa [hequal] at hfields
  have hcheck : checkMembers r.fields [] (members.map asMember) = .ok () :=
    checkMembers_eq_ok (fun m hm => find?_of_forall₂ h.fields hnames hm) hnames (by simp)
  have hbuild : r.build (member? (members.map asMember)) = .ok a :=
    h.build _ fun m hm => member?_eq_some hnames hm
  show (do
    checkMembers r.fields [] (members.map asMember)
    if true then r.build (member? (members.map asMember)) else throw Flaw.malformed) = _
  rw [hcheck]
  exact hbuild

end RecordReader

/-- A record is read by the reader that its members fit. -/
theorem ReadsAs.record {write : α → Json} {r : RecordReader α} {f : α → α}
    (hfields : (r.fields.map Field.name).Nodup)
    (h : ∀ a, ∃ members, write a = .record members ∧ r.Fits members (f a)) :
    ReadsAs write r.read f where
  writable a := by
    obtain ⟨members, hwrite, hfits⟩ := h a
    rw [hwrite]
    exact .record members hfits.writable
  read a := by
    obtain ⟨members, hwrite, hfits⟩ := h a
    rw [hwrite]
    exact hfits.read hfields

end Bourse.Json
