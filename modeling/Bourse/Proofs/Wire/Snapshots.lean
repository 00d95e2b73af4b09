import Bourse.Proofs.Wire.Records
import Bourse.Snapshot

/-!
# Snapshot files are read as they are written

A snapshot that is saved and loaded again is the same snapshot, except that negative zeros have lost
their sign: the text of a negative zero has a minus sign, and a number in plain notation is read
without it. A file can hold a negative zero, since one that is written with an exponent is rounded
to zero and keeps its sign.

What has been loaded from a file that was saved has no negative zeros. So from the second time on a
file that is loaded and saved again stays as it is to the last character.
-/

namespace Bourse

variable {s : Snapshot} {before after : SnapshotPlace}

/-! ## Negative zeros -/

/-- A zero with a minus sign. -/
def Decimal.IsNegativeZero (a : Decimal) : Prop := a.negative = true ∧ a.coefficient = 0

theorem Decimal.unsignedZero_eq_self {a : Decimal} (h : ¬a.IsNegativeZero) :
    a.unsignedZero = a := by
  obtain ⟨negative, coefficient, scale, hcoefficient, hscale⟩ := a
  cases negative with
  | false => rfl
  | true =>
    have hzero : coefficient ≠ 0 := fun hzero => h ⟨rfl, hzero⟩
    simp [unsignedZero, isZero, hzero]

theorem Decimal.not_isNegativeZero_unsignedZero (a : Decimal) :
    ¬a.unsignedZero.IsNegativeZero := by
  rintro ⟨hnegative, hzero⟩
  have hcoefficient : a.coefficient = 0 := hzero
  simp [unsignedZero, isZero, hcoefficient] at hnegative

/-- The decimal numbers of an order. -/
def Order.decimals (o : Order) : List Decimal := [o.amount, o.remaining, o.price]

/-- The decimal numbers of a trade. -/
def Trade.decimals (t : Trade) : List Decimal :=
  [t.price, t.quantity, t.quoteQuantity, t.makerFeeRate, t.takerFeeRate, t.buyerFee, t.sellerFee]

/-- The decimal numbers of a settlement record. -/
def SettlementRecord.decimals (r : SettlementRecord) : List Decimal :=
  r.buyerRelease :: r.trade.decimals

theorem Order.unsigned_eq_self {o : Order} (h : ∀ a ∈ o.decimals, ¬a.IsNegativeZero) :
    o.unsigned = o := by
  simp only [decimals, List.forall_mem_cons] at h
  obtain ⟨hamount, hremaining, hprice, -⟩ := h
  rw [unsigned, Decimal.unsignedZero_eq_self hamount, Decimal.unsignedZero_eq_self hremaining,
    Decimal.unsignedZero_eq_self hprice]

theorem Trade.unsigned_eq_self {t : Trade} (h : ∀ a ∈ t.decimals, ¬a.IsNegativeZero) :
    t.unsigned = t := by
  have hsame : ∀ a ∈ t.decimals, a.unsignedZero = a :=
    fun a ha => Decimal.unsignedZero_eq_self (h a ha)
  simp only [decimals, List.forall_mem_cons] at hsame
  obtain ⟨hprice, hquantity, hquote, hmaker, htaker, hbuyer, hseller, -⟩ := hsame
  rw [unsigned, hprice, hquantity, hquote, hmaker, htaker, hbuyer, hseller]

theorem SettlementRecord.unsigned_eq_self {r : SettlementRecord}
    (h : ∀ a ∈ r.decimals, ¬a.IsNegativeZero) : r.unsigned = r := by
  rw [decimals, List.forall_mem_cons] at h
  rw [unsigned, Trade.unsigned_eq_self h.2, Decimal.unsignedZero_eq_self h.1]

namespace Snapshot

/-- All decimal numbers of a snapshot. -/
def decimals (s : Snapshot) : List Decimal :=
  s.orders.flatMap Order.decimals ++ s.trades.flatMap Trade.decimals ++
    s.settlements.flatMap SettlementRecord.decimals

/-- The snapshot without the minus signs of zeros. -/
def unsigned (s : Snapshot) : Snapshot :=
  { s with
    orders := s.orders.map Order.unsigned
    trades := s.trades.map Trade.unsigned
    settlements := s.settlements.map SettlementRecord.unsigned }

theorem unsigned_eq_self (h : ∀ a ∈ s.decimals, ¬a.IsNegativeZero) : s.unsigned = s := by
  simp only [decimals, List.forall_mem_append, List.forall_mem_flatMap] at h
  obtain ⟨⟨horders, htrades⟩, hsettlements⟩ := h
  have hsameOrders : s.orders.map Order.unsigned = s.orders :=
    (List.map_congr_left fun o ho => Order.unsigned_eq_self (horders o ho)).trans (List.map_id _)
  have hsameTrades : s.trades.map Trade.unsigned = s.trades :=
    (List.map_congr_left fun t ht => Trade.unsigned_eq_self (htrades t ht)).trans (List.map_id _)
  have hsameSettlements : s.settlements.map SettlementRecord.unsigned = s.settlements :=
    (List.map_congr_left fun r hr => SettlementRecord.unsigned_eq_self (hsettlements r hr)).trans
      (List.map_id _)
  rw [unsigned, hsameOrders, hsameTrades, hsameSettlements]

/-- In every decimal number the sign of a zero is all that is changed. -/
theorem decimals_unsigned (s : Snapshot) :
    s.unsigned.decimals = s.decimals.map Decimal.unsignedZero := by
  simp only [decimals, unsigned, List.map_append, List.map_flatMap, List.flatMap_map]
  rfl

theorem not_isNegativeZero_of_mem_unsigned (s : Snapshot) :
    ∀ a ∈ s.unsigned.decimals, ¬a.IsNegativeZero := by
  intro a ha
  rw [decimals_unsigned] at ha
  obtain ⟨b, -, rfl⟩ := List.mem_map.1 ha
  exact b.not_isNegativeZero_unsignedZero

theorem unsigned_unsigned (s : Snapshot) : s.unsigned.unsigned = s.unsigned :=
  unsigned_eq_self s.not_isNegativeZero_of_mem_unsigned

theorem unsigned_eq_self_iff : s.unsigned = s ↔ ∀ a ∈ s.decimals, ¬a.IsNegativeZero := by
  refine ⟨fun h => ?_, unsigned_eq_self⟩
  rw [← h]
  exact s.not_isNegativeZero_of_mem_unsigned

end Snapshot

/-! ## Snapshots -/

namespace Wire

open Json (ReadsAs)
open Json.RecordReader (Fits)

theorem readsAs_snapshot : ReadsAs writeSnapshot readSnapshot Snapshot.unsigned := by
  refine ReadsAs.record (by decide +kernel) fun s => ⟨_, rfl, ?_⟩
  have hfits := Fits.map Snapshot.mk (.required "orders" readsAs_order.list s.orders)
    |>.seq (.required "trades" readsAs_trade.list s.trades)
    |>.seq (.required "settlements" readsAs_settlementRecord.list s.settlements)
    |>.seq (.required "next_sequence" ReadsAs.word s.nextSequence)
  simp only [List.cons_append, List.nil_append] at hfits
  exact hfits

theorem writeSnapshot_inj {s t : Snapshot} : writeSnapshot s = writeSnapshot t ↔ s = t := by
  have horders : Function.Injective (List.map writeOrder) :=
    List.map_injective_iff.2 fun _ _ => writeOrder_inj.1
  have htrades : Function.Injective (List.map writeTrade) :=
    List.map_injective_iff.2 fun _ _ => writeTrade_inj.1
  have hsettlements : Function.Injective (List.map writeSettlementRecord) :=
    List.map_injective_iff.2 fun _ _ => writeSettlementRecord_inj.1
  cases s
  cases t
  simp only [writeSnapshot, Json.record, Json.list, Json.object.injEq, Json.array.injEq,
    List.map_cons, List.cons.injEq, Prod.mk.injEq, true_and, and_true, Snapshot.mk.injEq,
    horders.eq_iff, htrades.eq_iff, hsettlements.eq_iff, readsAs_word.write_inj]

end Wire

namespace Snapshot

theorem ofText_toText (s : Snapshot) : ofText s.toText = .ok s.unsigned :=
  (Wire.readsAs_snapshot.writable s).readText_toIndentedText (Wire.readsAs_snapshot.read s)

/-- No two snapshots have the same text. -/
theorem toText_inj {t : Snapshot} : s.toText = t.toText ↔ s = t :=
  (Json.Writable.toIndentedText_inj (Wire.readsAs_snapshot.writable s)
    (Wire.readsAs_snapshot.writable t)).trans Wire.writeSnapshot_inj

end Snapshot

/-! ## Files -/

namespace SnapshotPlace

theorem load_toText (s : Snapshot) : load (.file s.toText) = .ok (some s.unsigned) := by
  rw [load, s.ofText_toText]

/-- Where a snapshot can be saved there is then a file with its text. -/
theorem eq_of_save (h : save s before = .ok after) : after = .file s.toText := by
  cases before with
  | empty => exact (Except.ok.inj h).symm
  | file text => exact (Except.ok.inj h).symm
  | directory => cases h
  | unreachable => cases h

/-- Whatever is saved is loaded again, scales and times included, except for the minus signs of
zeros. What is loaded then is saved to a text that stays the same from there on; it is the first
text already, and the first snapshot, just where no zero has a minus sign. -/
theorem load_save (hsave : save s before = .ok after) :
    ∃ second, after.load = .ok (some s.unsigned) ∧ save s.unsigned after = .ok second ∧
      second.load = .ok (some s.unsigned) ∧ save s.unsigned second = .ok second ∧
      (s.unsigned = s ↔ ∀ a ∈ s.decimals, ¬a.IsNegativeZero) ∧
      (second = after ↔ ∀ a ∈ s.decimals, ¬a.IsNegativeZero) := by
  obtain rfl := eq_of_save hsave
  have hsecond : load (.file s.unsigned.toText) = .ok (some s.unsigned) := by
    rw [load_toText, s.unsigned_unsigned]
  refine ⟨.file s.unsigned.toText, load_toText s, rfl, hsecond, rfl, s.unsigned_eq_self_iff, ?_⟩
  rw [file.injEq, Snapshot.toText_inj, Snapshot.unsigned_eq_self_iff]

/-- One order, whose price is a negative zero. -/
def signedSnapshot : Snapshot where
  orders := [{
    id := ⟨⟨0x00000000000040008000000000000001#128⟩⟩
    symbol := ⟨"XAU", "USD", rfl, rfl⟩
    side := .buy
    tradingType := .spot
    amount := .ofWord 10
    remaining := .ofWord 10
    price := ⟨true, 0, 28, Decimal.zero.coefficient_lt, le_refl 28⟩
    userId := ⟨1⟩
    status := .confirmed
    role := .maker
    createdAt := .epoch
    updatedAt := none
    notes := none
    sequence := 1 }]
  trades := []
  settlements := []
  nextSequence := 1

theorem load_save_signedSnapshot :
    save signedSnapshot .empty = .ok (.file signedSnapshot.toText) ∧
      load (.file signedSnapshot.toText) = .ok (some signedSnapshot.unsigned) := by
  have hsave : save signedSnapshot .empty = .ok (.file signedSnapshot.toText) := rfl
  obtain ⟨_, hload, -⟩ := load_save hsave
  exact ⟨hsave, hload⟩

/-- A file in which that price is written as a number so small that it is rounded to zero. -/
def signedFile : Json :=
  .record [
    ("orders", .list [
      .record [
        ("id", .string "00000000-0000-4000-8000-000000000001"),
        ("symbol", .string "XAU/USD"),
        ("side", .string "Buy"),
        ("trading_type", .string "Spot"),
        ("amount", .string "10"),
        ("remaining_amount", .string "10"),
        ("price", .string "-0.3e-28"),
        ("user_id", .nat 1),
        ("status", .string "Confirmed"),
        ("role", .string "Maker"),
        ("created_at", .string "1970-01-01T00:00:00Z"),
        ("updated_at", .null),
        ("notes", .null),
        ("sequence", .nat 1)]]),
    ("trades", .list []),
    ("settlements", .list []),
    ("next_sequence", .nat 1)]

theorem writable_signedFile : signedFile.Writable := by
  refine .record _ ?_
  simp only [List.forall_mem_cons]
  refine ⟨.list _ ?_, .list _ (by simp), .list _ (by simp), .nat 1 (by decide), by simp⟩
  simp only [List.forall_mem_cons]
  refine ⟨.record _ ?_, by simp⟩
  simp only [List.forall_mem_cons]
  exact ⟨.string _, .string _, .string _, .string _, .string _, .string _, .string _,
    .nat 1 (by decide), .string _, .string _, .string _, .null, .null, .nat 1 (by decide), by simp⟩

theorem readSnapshot_signedFile : Wire.readSnapshot signedFile = .ok signedSnapshot := by
  have hread : (Wire.readSnapshot signedFile).toOption.map
      (fun s => (s.orders, s.trades, s.settlements, s.nextSequence)) =
        some (signedSnapshot.orders, [], [], 1) := by decide +kernel
  cases hs : Wire.readSnapshot signedFile with
  | error flaw =>
    rw [hs] at hread
    cases hread
  | ok s =>
    rw [hs] at hread
    simp only [Except.toOption, Option.map_some, Option.some.injEq, Prod.mk.injEq] at hread
    obtain ⟨horders, htrades, hsettlements, hsequence⟩ := hread
    cases s
    subst horders htrades hsettlements hsequence
    rfl

/-- The sign of that zero is saved and not loaded, so neither the snapshot nor the text comes
back. -/
theorem load_save_ne_signedFile :
    load (.file signedFile.toIndentedText) = .ok (some signedSnapshot) ∧
      ∃ t first second, save signedSnapshot .empty = .ok first ∧
        first.load = .ok (some t) ∧ t ≠ signedSnapshot ∧
        save t first = .ok second ∧ second ≠ first := by
  have hload : load (.file signedFile.toIndentedText) = .ok (some signedSnapshot) := by
    rw [load, Snapshot.ofText,
      writable_signedFile.readText_toIndentedText readSnapshot_signedFile]
  have hchanged : signedSnapshot.unsigned ≠ signedSnapshot := by
    intro h
    have hnone := Snapshot.unsigned_eq_self_iff.1 h
    exact hnone _ (List.mem_of_getElem? (i := 2) rfl) ⟨rfl, rfl⟩
  refine ⟨hload, _, _, _, rfl, load_toText signedSnapshot, hchanged, rfl, fun h => ?_⟩
  exact hchanged (Snapshot.toText_inj.1 (file.inj h))

end SnapshotPlace

end Bourse
