import Bourse.Text.Split
import Mathlib.Data.List.TakeDrop
import Mathlib.Data.List.TakeWhile

/-!
# The parts of a text

Splitting at a character is the library's `List.splitOn`. So a separator parts what is in front of it
from what is behind it, whatever stands there. Splitting once is exact: a text is cut in two just if
it holds the separator, and it is cut at the first one.
-/

namespace Bourse.Text

variable {sep : Char} {cs front back part : List Char}

theorem split_eq_splitOn (sep : Char) (cs : List Char) : split sep cs = cs.splitOn sep := by
  induction cs with
  | nil => rfl
  | cons c cs ih =>
    obtain ⟨part, parts, hparts⟩ := List.exists_cons_of_ne_nil (List.splitOn_ne_nil sep cs)
    rw [split, ih, List.splitOn_cons_eq_if_modifyHead, hparts]
    by_cases hc : c = sep
    · rw [if_pos hc, if_pos (beq_iff_eq.2 hc)]
    · rw [if_neg hc, if_neg (mt beq_iff_eq.1 hc), List.modifyHead_cons]

/-- The two sides of a separator are split by themselves. -/
theorem split_append_cons (sep : Char) (front back : List Char) :
    split sep (front ++ sep :: back) = split sep front ++ split sep back := by
  simp only [split_eq_splitOn]
  exact List.splitOn_append_cons_self front back

theorem split_of_not_mem (h : sep ∉ cs) : split sep cs = [cs] := by
  rw [split_eq_splitOn]
  exact List.splitOn_eq_singleton h

theorem not_mem_of_mem_split (h : part ∈ split sep cs) : sep ∉ part := by
  induction cs generalizing part with
  | nil =>
    obtain rfl := List.mem_singleton.1 h
    exact List.not_mem_nil
  | cons c cs ih =>
    obtain ⟨first, parts, hparts⟩ := List.exists_cons_of_ne_nil (List.splitOn_ne_nil sep cs)
    rw [← split_eq_splitOn] at hparts
    rw [split, hparts] at h
    rw [hparts] at ih
    by_cases hc : c = sep
    · rw [if_pos hc] at h
      rcases List.mem_cons.1 h with rfl | h
      · exact List.not_mem_nil
      · exact ih h
    · rw [if_neg hc] at h
      rcases List.mem_cons.1 h with rfl | h
      · rw [List.mem_cons, not_or]
        exact ⟨Ne.symm hc, ih List.mem_cons_self⟩
      · exact ih (List.mem_cons_of_mem first h)

/-- A text is split once just at its first separator. -/
theorem splitOnce_eq_some_iff :
    splitOnce sep cs = (front, some back) ↔ cs = front ++ sep :: back ∧ sep ∉ front := by
  rw [splitOnce, List.span_eq_takeWhile_dropWhile]
  constructor
  · intro h
    have hcs : cs.takeWhile (· != sep) ++ cs.dropWhile (· != sep) = cs :=
      List.takeWhile_append_dropWhile
    have hfirst := List.head?_dropWhile_not (· != sep) cs
    split at h
    · cases h
    · rename_i start c rest heq
      obtain ⟨rfl, hrest⟩ := Prod.mk.inj heq
      obtain ⟨rfl, hback⟩ := Prod.mk.inj h
      obtain rfl := Option.some.inj hback
      rw [hrest] at hcs hfirst
      obtain rfl : c = sep := by simpa using hfirst
      refine ⟨hcs.symm, fun hmem => ?_⟩
      have hne := List.mem_takeWhile_imp hmem
      exact absurd rfl (bne_iff_ne.1 hne)
  · rintro ⟨rfl, hsep⟩
    have hfront : ∀ c ∈ front, (c != sep) = true := fun c hc => bne_iff_ne.2 fun h => hsep (h ▸ hc)
    rw [List.takeWhile_append_of_pos hfront, List.dropWhile_append_of_pos hfront]
    simp

end Bourse.Text
