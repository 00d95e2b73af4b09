import Bourse.Proofs.Decimal.Text
import Bourse.Proofs.Json.Records
import Bourse.Proofs.Wire.Instants
import Bourse.Proofs.Wire.Names
import Bourse.Wire.Order
import Bourse.Wire.Trade

/-!
# Orders, trades and settlement records are read as they are written

Every value comes back as it was, except that a negative zero comes back without its sign. Scales
are kept, and so are the times to the nanosecond.
-/

namespace Bourse

/-! ## Numbers without signs on their zeros -/

/-- The order without the minus signs of zeros. -/
def Order.unsigned (o : Order) : Order :=
  { o with
    amount := o.amount.unsignedZero
    remaining := o.remaining.unsignedZero
    price := o.price.unsignedZero }

/-- The trade without the minus signs of zeros. -/
def Trade.unsigned (t : Trade) : Trade :=
  { t with
    price := t.price.unsignedZero
    quantity := t.quantity.unsignedZero
    quoteQuantity := t.quoteQuantity.unsignedZero
    makerFeeRate := t.makerFeeRate.unsignedZero
    takerFeeRate := t.takerFeeRate.unsignedZero
    buyerFee := t.buyerFee.unsignedZero
    sellerFee := t.sellerFee.unsignedZero }

/-- The record without the minus signs of zeros. -/
def SettlementRecord.unsigned (r : SettlementRecord) : SettlementRecord :=
  { r with
    trade := r.trade.unsigned
    buyerRelease := r.buyerRelease.unsignedZero }

namespace Wire

open Json (Reader ReadsAs)
open Json.RecordReader (Fits)

/-! ## Values -/

theorem readsAs_decimal : ReadsAs writeDecimal readDecimal Decimal.unsignedZero where
  writable a := .string a.toText
  read a := Reader.convert_eq (r := Reader.string) rfl a.ofText?_toText

theorem readsAs_uuid : ReadsAs writeUuid readUuid id :=
  ReadsAs.string.convert Uuid.ofText?_toText

theorem readsAs_orderId : ReadsAs writeOrderId readOrderId id :=
  readsAs_uuid.convert fun _ => rfl

theorem readsAs_tradeId : ReadsAs writeTradeId readTradeId id :=
  readsAs_uuid.convert fun _ => rfl

theorem readsAs_userId : ReadsAs writeUserId readUserId id :=
  ReadsAs.word.convert fun _ => rfl

theorem readsAs_instant : ReadsAs writeInstant readInstant id :=
  ReadsAs.string.convert Instant.ofText?_toText

theorem readsAs_optionalInstant : ReadsAs (.option writeInstant) readInstant.option id :=
  readsAs_instant.option fun t => by simp [writeInstant]

theorem readsAs_optionalString : ReadsAs (.option .string) Reader.string.option id :=
  ReadsAs.string.option fun s => by simp

theorem readsAs_word : ReadsAs writeWord Reader.word id := ReadsAs.word

theorem readsAs_symbol : ReadsAs writeSymbol readSymbol id :=
  ReadsAs.string.convert fun s => congrArg Except.toOption s.parse_toText

theorem readsAs_tradingType : ReadsAs writeTradingType readTradingType id :=
  ReadsAs.oneOf fun t => by cases t <;> rfl

theorem readsAs_side : ReadsAs writeSide readSide id :=
  ReadsAs.oneOf fun s => by cases s <;> rfl

theorem readsAs_orderStatus : ReadsAs writeOrderStatus readOrderStatus id :=
  ReadsAs.oneOf fun s => by cases s <;> rfl

theorem readsAs_orderRole : ReadsAs writeOrderRole readOrderRole id :=
  ReadsAs.oneOf fun r => by cases r <;> rfl

theorem readsAs_settlementStatus : ReadsAs writeSettlementStatus readSettlementStatus id :=
  ReadsAs.oneOf fun s => by cases s <;> rfl

/-! ## Records -/

theorem readsAs_order : ReadsAs writeOrder readOrder Order.unsigned := by
  refine ReadsAs.record (by decide +kernel) fun o => ⟨_, rfl, ?_⟩
  have hfits := Fits.map Order.mk (.required "id" readsAs_orderId o.id)
    |>.seq (.required "symbol" readsAs_symbol o.symbol)
    |>.seq (.required "side" readsAs_side o.side)
    |>.seq (.required "trading_type" readsAs_tradingType o.tradingType)
    |>.seq (.required "amount" readsAs_decimal o.amount)
    |>.seq (.required "remaining_amount" readsAs_decimal o.remaining)
    |>.seq (.required "price" readsAs_decimal o.price)
    |>.seq (.required "user_id" readsAs_userId o.userId)
    |>.seq (.required "status" readsAs_orderStatus o.status)
    |>.seq (.required "role" readsAs_orderRole o.role)
    |>.seq (.required "created_at" readsAs_instant o.createdAt)
    |>.seq (.optional "updated_at" readsAs_optionalInstant o.updatedAt)
    |>.seq (.optional "notes" readsAs_optionalString o.notes)
    |>.seq (.required "sequence" readsAs_word o.sequence)
  simp only [List.cons_append, List.nil_append] at hfits
  exact hfits

theorem readsAs_trade : ReadsAs writeTrade readTrade Trade.unsigned := by
  refine ReadsAs.record (by decide +kernel) fun t => ⟨_, rfl, ?_⟩
  have hfits := Fits.map Trade.mk (.required "id" readsAs_tradeId t.id)
    |>.seq (.required "symbol" readsAs_symbol t.symbol)
    |>.seq (.required "trading_type" readsAs_tradingType t.tradingType)
    |>.seq (.required "buy_order_id" readsAs_orderId t.buyOrderId)
    |>.seq (.required "sell_order_id" readsAs_orderId t.sellOrderId)
    |>.seq (.required "maker_order_id" readsAs_orderId t.makerOrderId)
    |>.seq (.required "taker_order_id" readsAs_orderId t.takerOrderId)
    |>.seq (.required "price" readsAs_decimal t.price)
    |>.seq (.required "quantity" readsAs_decimal t.quantity)
    |>.seq (.required "quote_quantity" readsAs_decimal t.quoteQuantity)
    |>.seq (.required "buyer_user_id" readsAs_userId t.buyerUserId)
    |>.seq (.required "seller_user_id" readsAs_userId t.sellerUserId)
    |>.seq (.required "maker_user_id" readsAs_userId t.makerUserId)
    |>.seq (.required "taker_user_id" readsAs_userId t.takerUserId)
    |>.seq (.required "maker_fee_rate" readsAs_decimal t.makerFeeRate)
    |>.seq (.required "taker_fee_rate" readsAs_decimal t.takerFeeRate)
    |>.seq (.required "buyer_fee" readsAs_decimal t.buyerFee)
    |>.seq (.required "seller_fee" readsAs_decimal t.sellerFee)
    |>.seq (.required "created_at" readsAs_instant t.createdAt)
  simp only [List.cons_append, List.nil_append] at hfits
  exact hfits

theorem readsAs_settlementRecord :
    ReadsAs writeSettlementRecord readSettlementRecord SettlementRecord.unsigned := by
  refine ReadsAs.record (by decide +kernel) fun r => ⟨_, rfl, ?_⟩
  have hfits := Fits.map SettlementRecord.mk (.required "trade" readsAs_trade r.trade)
    |>.seq (.required "buyer_release" readsAs_decimal r.buyerRelease)
    |>.seq (.required "status" readsAs_settlementStatus r.status)
    |>.seq (.required "attempts" ReadsAs.halfWord r.attempts)
    |>.seq (.optional "last_error" readsAs_optionalString r.lastError)
    |>.seq (.required "created_at" readsAs_instant r.createdAt)
    |>.seq (.optional "updated_at" readsAs_optionalInstant r.updatedAt)
  simp only [List.cons_append, List.nil_append] at hfits
  exact hfits

/-! ## What is written tells values apart -/

theorem writeDecimal_inj {a b : Decimal} : writeDecimal a = writeDecimal b ↔ a = b := by
  rw [writeDecimal, writeDecimal, Json.string.injEq]
  exact Decimal.toText_inj

theorem writeOrder_inj {o p : Order} : writeOrder o = writeOrder p ↔ o = p := by
  cases o
  cases p
  simp only [writeOrder, Json.record, Json.object.injEq, List.map_cons, List.cons.injEq,
    Prod.mk.injEq, true_and, and_true, Order.mk.injEq, writeDecimal_inj,
    readsAs_orderId.write_inj, readsAs_symbol.write_inj, readsAs_side.write_inj,
    readsAs_tradingType.write_inj, readsAs_userId.write_inj, readsAs_orderStatus.write_inj,
    readsAs_orderRole.write_inj, readsAs_instant.write_inj, readsAs_optionalInstant.write_inj,
    readsAs_optionalString.write_inj, readsAs_word.write_inj]

theorem writeTrade_inj {t u : Trade} : writeTrade t = writeTrade u ↔ t = u := by
  cases t
  cases u
  simp only [writeTrade, Json.record, Json.object.injEq, List.map_cons, List.cons.injEq,
    Prod.mk.injEq, true_and, and_true, Trade.mk.injEq, writeDecimal_inj,
    readsAs_tradeId.write_inj, readsAs_symbol.write_inj, readsAs_tradingType.write_inj,
    readsAs_orderId.write_inj, readsAs_userId.write_inj, readsAs_instant.write_inj]

theorem writeSettlementRecord_inj {r q : SettlementRecord} :
    writeSettlementRecord r = writeSettlementRecord q ↔ r = q := by
  have hattempts : ∀ a b : UInt32, Json.nat a.toNat = Json.nat b.toNat ↔ a = b :=
    fun _ _ => ReadsAs.halfWord.write_inj
  cases r
  cases q
  simp only [writeSettlementRecord, Json.record, Json.object.injEq, List.map_cons,
    List.cons.injEq, Prod.mk.injEq, true_and, and_true, SettlementRecord.mk.injEq,
    writeDecimal_inj, writeTrade_inj, hattempts, readsAs_settlementStatus.write_inj,
    readsAs_instant.write_inj, readsAs_optionalInstant.write_inj, readsAs_optionalString.write_inj]

end Wire

end Bourse
