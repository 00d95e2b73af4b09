import Bourse.Page
import Mathlib.Algebra.Order.Floor.Div

/-!
# The pages of a listing

The pages of a listing, from the first to the last, are the listing cut into pieces of equal length;
only the last may be shorter. This holds for the listing of any length that a 64-bit word can count.
The number of items in front of a page saturates at the largest word, and no listing goes that far.
-/

namespace Bourse

/-- The page numbers that there are for `n` items, `k` on a page. -/
def Page.numbers (n k : ℕ) : List UInt64 :=
  (List.range (n ⌈/⌉ k)).map fun i => UInt64.ofNat (i + 1)

/-- The pages of a listing, with `k` items on each. -/
structure Page.Partition {α : Type} (k : ℕ) (listing : List α) (pages : UInt64 → Page α) :
    Prop where
  flatMap_items : (numbers listing.length k).flatMap (fun p => (pages p).items) = listing
  full : ∀ p : UInt64, 1 ≤ p.toNat → p.toNat < listing.length ⌈/⌉ k → (pages p).items.length = k
  total_eq : ∀ p, (pages p).total = listing.length
  beyond : ∀ p : UInt64, listing.length ⌈/⌉ k < p.toNat → (pages p).items = []

namespace PageRequest

/-- How many items a page has when a size is asked for. -/
def sizeFor (size : UInt64) : ℕ := min (max size.toNat 1) 100

theorem one_le_sizeFor (size : UInt64) : 1 ≤ sizeFor size := by
  unfold sizeFor
  omega

theorem toNat_max (a b : UInt64) : (max a b).toNat = max a.toNat b.toNat := by
  show (if a ≤ b then b else a).toNat = _
  rw [max_def]
  simp only [UInt64.le_iff_toNat_le]
  split_ifs <;> rfl

theorem toNat_min (a b : UInt64) : (min a b).toNat = min a.toNat b.toNat := by
  show (if a ≤ b then a else b).toNat = _
  rw [min_def]
  simp only [UInt64.le_iff_toNat_le]
  split_ifs <;> rfl

theorem toNat_pageSize_clamped (page size : UInt64) :
    (clamped page size).pageSize.toNat = sizeFor size := by
  rw [clamped, toNat_min, toNat_max]
  rfl

/-- Far behind the end there is no telling how far, but it is the same. -/
theorem toNat_offset_clamped (page size : UInt64) :
    (clamped page size).offset.toNat =
      min ((max page.toNat 1 - 1) * sizeFor size) (2 ^ 64 - 1) := by
  have hpage : (max (clamped page size).page 1 - 1).toNat = max page.toNat 1 - 1 := by
    have hone : (1 : UInt64) ≤ max (clamped page size).page 1 := by
      rw [UInt64.le_iff_toNat_le, toNat_max]
      exact Nat.le_max_right _ _
    rw [UInt64.toNat_sub_of_le _ _ hone, clamped, toNat_max, toNat_max]
    show max (max page.toNat 1) 1 - 1 = _
    omega
  rw [offset, hpage, toNat_pageSize_clamped]
  exact Nat.mod_eq_of_lt (lt_of_le_of_lt (Nat.min_le_right _ _) (by decide))

end PageRequest

namespace Page

variable {α : Type} {listing : List α}

theorem items_ofList_clamped (hlen : listing.length < 2 ^ 64) (page size : UInt64) :
    (ofList listing (.clamped page size)).items =
      (listing.drop ((max page.toNat 1 - 1) * PageRequest.sizeFor size)).take
        (PageRequest.sizeFor size) := by
  show (listing.drop (PageRequest.clamped page size).offset.toNat).take _ = _
  rw [PageRequest.toNat_offset_clamped, PageRequest.toNat_pageSize_clamped]
  generalize (max page.toNat 1 - 1) * PageRequest.sizeFor size = place
  by_cases hplace : place ≤ 2 ^ 64 - 1
  · rw [Nat.min_eq_left hplace]
  · rw [Nat.min_eq_right (by omega), List.drop_of_length_le (by omega),
      List.drop_of_length_le (by omega)]

theorem items_ofList_numbered (hlen : listing.length < 2 ^ 64) (size : UInt64) {i : ℕ}
    (hi : i < listing.length) :
    (ofList listing (.clamped (UInt64.ofNat (i + 1)) size)).items =
      (listing.drop (i * PageRequest.sizeFor size)).take (PageRequest.sizeFor size) := by
  have hpage : (UInt64.ofNat (i + 1)).toNat = i + 1 := Nat.mod_eq_of_lt (by omega)
  have hbefore : max (i + 1) 1 - 1 = i := by omega
  rw [items_ofList_clamped hlen, hpage, hbefore]

/-- By induction on the number of pages: one page more takes one page more of the listing. -/
theorem flatMap_windows (listing : List α) (k m : ℕ) :
    ((List.range m).flatMap fun i => (listing.drop (i * k)).take k) = listing.take (m * k) := by
  induction m with
  | zero => simp
  | succ m ih =>
    rw [List.range_succ, List.flatMap_append, ih, List.flatMap_singleton, Nat.succ_mul,
      List.take_add]

theorem partition_clamped (hlen : listing.length < 2 ^ 64) (size : UInt64) :
    Partition (PageRequest.sizeFor size) listing
      fun page => ofList listing (.clamped page size) := by
  have hone := PageRequest.one_le_sizeFor size
  have hcount : ∀ m, listing.length ⌈/⌉ PageRequest.sizeFor size ≤ m ↔
      listing.length ≤ PageRequest.sizeFor size * m := fun m => ceilDiv_le_iff_le_mul hone
  refine ⟨?_, fun page hfirst hlast => ?_, fun _ => rfl, fun page hbeyond => ?_⟩
  · have hle : listing.length ⌈/⌉ PageRequest.sizeFor size ≤ listing.length :=
      (hcount _).2 (Nat.le_mul_of_pos_left _ hone)
    have hall := (hcount _).1 le_rfl
    rw [numbers, List.flatMap_map, List.flatMap_congr fun i hi =>
      items_ofList_numbered hlen size (lt_of_lt_of_le (List.mem_range.1 hi) hle),
      flatMap_windows, List.take_of_length_le (by rwa [mul_comm])]
  · have hmore : PageRequest.sizeFor size * page.toNat < listing.length :=
      not_le.1 fun h => absurd ((hcount _).2 h) (not_le.2 hlast)
    have hnext : (max page.toNat 1 - 1) * PageRequest.sizeFor size + PageRequest.sizeFor size =
        PageRequest.sizeFor size * page.toNat := by
      rw [max_eq_left hfirst, ← Nat.succ_mul, Nat.succ_eq_add_one, Nat.sub_add_cancel hfirst,
        mul_comm]
    rw [items_ofList_clamped hlen, List.length_take, List.length_drop]
    omega
  · have hall := (hcount _).1 (Nat.le_sub_one_of_lt hbeyond)
    have hpage : max page.toNat 1 = page.toNat := max_eq_left (by omega)
    rw [items_ofList_clamped hlen, hpage, List.drop_of_length_le (by rwa [mul_comm]),
      List.take_nil]

end Page

end Bourse
