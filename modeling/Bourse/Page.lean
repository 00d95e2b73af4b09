/-!
# Pages

Long listings are handed out in pages, counted from one. Page numbers and sizes are 64-bit words;
the number of items in front of a page saturates, so a page far behind the end is empty.
-/

namespace Bourse

/-- Which page of a listing is asked for. -/
structure PageRequest where
  /-- The number of the page, counted from one. -/
  page : UInt64
  /-- How many items a full page has. -/
  pageSize : UInt64
  deriving DecidableEq

namespace PageRequest

/-- The most items of a page. -/
def maxPageSize : UInt64 := 100

/-- A request brought into range: pages start at one, and a page has 1 to 100 items. -/
def clamped (page pageSize : UInt64) : PageRequest :=
  ⟨max page 1, min (max pageSize 1) maxPageSize⟩

/-- The first page of the usual size. -/
def standard : PageRequest := clamped 1 20

/-- How many items stand in front of a page. -/
def offset (r : PageRequest) : UInt64 :=
  let n := (max r.page 1 - 1).toNat * r.pageSize.toNat
  UInt64.ofNat (Nat.min n (UInt64.size - 1))

end PageRequest

/-- One page of a listing and the length of the whole listing. -/
structure Page (α : Type) where
  /-- The items of the page. -/
  items : List α
  /-- The number of the page. -/
  page : UInt64
  /-- How many items a full page has. -/
  pageSize : UInt64
  /-- How many items the whole listing has. -/
  total : Nat

namespace Page

/-- The page of a listing that a request asks for. -/
def ofList {α : Type} (all : List α) (r : PageRequest) : Page α where
  items := (all.drop r.offset.toNat).take r.pageSize.toNat
  page := r.page
  pageSize := r.pageSize
  total := all.length

end Page

end Bourse
