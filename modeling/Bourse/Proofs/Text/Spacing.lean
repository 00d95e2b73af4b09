import Bourse.Proofs.Wire.Symbols

/-!
# Blanks around texts

Blanks may stand around a text that is typed, and trimming takes off just these. So it makes no
difference whether a text that has been cut into parts was trimmed before as a whole.
-/

namespace Bourse.Text

variable {c : Char} {cs core front back : List Char} {s t : String}

/-! ## Trimming parts -/

theorem trimsTo_trim (cs : List Char) : TrimsTo cs (trim cs) := trimsTo_iff.2 rfl

/-- Trimming leaves a text as it is if there is no blank at its ends. -/
theorem trimsTo_self (hfirst : ∀ c ∈ cs.head?, isBlank c = false)
    (hlast : ∀ c ∈ cs.getLast?, isBlank c = false) : TrimsTo cs cs :=
  ⟨⟨[], [], by simp, by simp, by simp⟩, hfirst, hlast⟩

theorem TrimsTo.core_self (h : TrimsTo cs core) : TrimsTo core core :=
  trimsTo_self h.first h.last

theorem trimsTo_self_of_not_blank (hcs : ∀ c ∈ cs, isBlank c = false) : TrimsTo cs cs :=
  trimsTo_iff.2 (trim_of_not_blank hcs).symm

/-- More blanks around a text change nothing. -/
theorem TrimsTo.append_blanks (h : TrimsTo cs core) (hfront : ∀ c ∈ front, isBlank c = true)
    (hback : ∀ c ∈ back, isBlank c = true) : TrimsTo (front ++ cs ++ back) core := by
  obtain ⟨start, rest, hcs, hstart, hrest⟩ := h.around
  refine ⟨⟨front ++ start, rest ++ back, by simp [hcs], fun c hc => ?_, fun c hc => ?_⟩, h.first,
    h.last⟩
  · exact (List.mem_append.1 hc).elim (hfront c) (hstart c)
  · exact (List.mem_append.1 hc).elim (hrest c) (hback c)

theorem mem_of_mem_trim (hc : c ∈ trim cs) : c ∈ cs := by
  obtain ⟨front, back, hcs, -, -⟩ := (trimsTo_trim cs).around
  rw [hcs]
  exact List.mem_append_left _ (List.mem_append_right _ hc)

theorem trim_trimStart (cs : List Char) : trim (trimStart cs) = trim cs := by
  rw [trim, trimStart_eq_self (head?_trimStart cs), trim]

theorem trim_trimEnd (cs : List Char) : trim (trimEnd cs) = trim cs := by
  have hcs : trimEnd cs ++ cs.rtakeWhile isBlank = cs := List.rdropWhile_append_rtakeWhile
  have htrims : TrimsTo ([] ++ trimEnd cs ++ cs.rtakeWhile isBlank) (trim (trimEnd cs)) :=
    (trimsTo_trim _).append_blanks (by simp) fun _ hc => List.mem_rtakeWhile_imp hc
  rw [List.nil_append, hcs] at htrims
  exact htrims.eq_trim

/-- Trimming goes no further than a character that is no blank. -/
theorem trimStart_append_cons (hc : isBlank c = false) :
    trimStart (front ++ c :: back) = trimStart front ++ c :: back := by
  induction front with
  | nil => exact trimStart_cons hc
  | cons d front ih =>
    by_cases hd : isBlank d = true
    · rw [List.cons_append, trimStart, trimStart, List.dropWhile_cons_of_pos hd,
        List.dropWhile_cons_of_pos hd]
      exact ih
    · rw [List.cons_append, trimStart, trimStart, List.dropWhile_cons_of_neg hd,
        List.dropWhile_cons_of_neg hd, List.cons_append]

theorem trimEnd_append_cons (hc : isBlank c = false) :
    trimEnd (front ++ c :: back) = front ++ c :: trimEnd back := by
  have hreverse : (front ++ c :: back).reverse = back.reverse ++ c :: front.reverse := by simp
  rw [trimEnd, hreverse, trimStart_append_cons hc, trimEnd]
  simp

/-! ## Texts with blanks added -/

/-- The text `t` with blanks in front of it and behind it. -/
def IsSpaced (t s : String) : Prop :=
  ∃ front back, s = front ++ t ++ back ∧ isBlankText front = true ∧ isBlankText back = true

theorem isSpaced_self (s : String) : IsSpaced s s :=
  ⟨"", "", by rw [String.empty_append, String.append_empty], rfl, rfl⟩

theorem isBlank_of_isBlankText (h : isBlankText s = true) : ∀ c ∈ s.toList, isBlank c = true :=
  List.all_eq_true.1 h

theorem IsSpaced.trim_eq (h : IsSpaced t s) (ht : TrimsTo t.toList t.toList) :
    trim s.toList = t.toList := by
  obtain ⟨front, back, rfl, hfront, hback⟩ := h
  rw [String.toList_append, String.toList_append]
  exact (ht.append_blanks (isBlank_of_isBlankText hfront)
    (isBlank_of_isBlankText hback)).eq_trim.symm

/-- Blanks bring no other characters with them. -/
theorem IsSpaced.not_mem (h : IsSpaced t s) (hc : isBlank c = false) (ht : c ∉ t.toList) :
    c ∉ s.toList := by
  obtain ⟨front, back, rfl, hfront, hback⟩ := h
  have hblanks : ∀ {u : String}, isBlankText u = true → c ∉ u.toList := by
    intro u hu hmem
    have hblank := isBlank_of_isBlankText hu c hmem
    rw [hc] at hblank
    exact Bool.false_ne_true hblank
  simp only [String.toList_append, List.mem_append, not_or]
  exact ⟨⟨hblanks hfront, ht⟩, hblanks hback⟩

end Bourse.Text
