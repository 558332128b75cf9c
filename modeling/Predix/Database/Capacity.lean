import Predix.Database.Settlement
import Predix.Engine.Effect

namespace Predix

open Data Word

/-! When the worker gets through: the rows are there, the buyer can pay, and
every amount fits its column. -/

namespace Database

variable {db : Database}

def FillFits (db : Database) (id : UUID) (quantity : Int64) : Prop :=
  ∀ row ∈ db.orders.lookup id,
    InColumn (row.filledQuantity + numericFromInt quantity) ∧
      InColumn (max
        (row.quantity - (row.filledQuantity + numericFromInt quantity)) 0)

/-- Every amount that the settlement of a trade writes fits its column. -/
structure TradeFits (db : Database) (trade : TradeData) (keys : TradeKeys) :
    Prop where
  quantity : InColumn (numericFromInt trade.quantity)
  price : InColumn (numericFromScaled trade.price)
  amount : InColumn trade.amount
  taker : db.FillFits keys.takerOrderID trade.quantity
  maker : db.FillFits keys.makerOrderID trade.quantity
  debit : ∀ balance ∈ db.users.lookup keys.buyerID,
    InColumn (balance - trade.amount)
  credit : ∀ balance ∈ db.users.lookup keys.sellerID,
    InColumn (balance + trade.amount)
  bought : ∀ outcome ∈ Outcome.parse trade.outcome,
    db.PositionFits ⟨keys.buyerID, keys.eventID, outcome⟩
      (numericFromInt trade.quantity) ((trade.price.toInt : Rat) / 10000)
  sold : ∀ outcome ∈ Outcome.parse trade.outcome,
    db.PositionFits ⟨keys.sellerID, keys.eventID, outcome⟩
      (numericFromInt (-trade.quantity)) ((trade.price.toInt : Rat) / 10000)
  volume : ∀ volume ∈ db.events.lookup keys.eventID,
    InColumn (volume + trade.amount)

instance (db : Database) (id : UUID) (quantity : Int64) :
    Decidable (db.FillFits id quantity) :=
  inferInstanceAs (Decidable (∀ row ∈ db.orders.lookup id, _))

instance (db : Database) (id : PositionID) (shares : Int) (price : Rat) :
    Decidable (db.PositionFits id shares price) :=
  inferInstanceAs (Decidable (_ ∧ ∀ row ∈ db.positions.lookup id, _))

instance (db : Database) (trade : TradeData) (keys : TradeKeys) :
    Decidable (db.TradeFits trade keys) :=
  decidable_of_iff
    (InColumn (numericFromInt trade.quantity) ∧
      InColumn (numericFromScaled trade.price) ∧ InColumn trade.amount ∧
      db.FillFits keys.takerOrderID trade.quantity ∧
      db.FillFits keys.makerOrderID trade.quantity ∧
      (∀ balance ∈ db.users.lookup keys.buyerID,
        InColumn (balance - trade.amount)) ∧
      (∀ balance ∈ db.users.lookup keys.sellerID,
        InColumn (balance + trade.amount)) ∧
      (∀ outcome ∈ Outcome.parse trade.outcome,
        db.PositionFits ⟨keys.buyerID, keys.eventID, outcome⟩
          (numericFromInt trade.quantity)
          ((trade.price.toInt : Rat) / 10000)) ∧
      (∀ outcome ∈ Outcome.parse trade.outcome,
        db.PositionFits ⟨keys.sellerID, keys.eventID, outcome⟩
          (numericFromInt (-trade.quantity))
          ((trade.price.toInt : Rat) / 10000)) ∧
      ∀ volume ∈ db.events.lookup keys.eventID,
        InColumn (volume + trade.amount))
    ⟨fun ⟨quantity, price, amount, taker, maker, debit, credit, bought, sold,
        volume⟩ =>
      ⟨quantity, price, amount, taker, maker, debit, credit, bought, sold,
        volume⟩,
    fun ⟨quantity, price, amount, taker, maker, debit, credit, bought, sold,
        volume⟩ =>
      ⟨quantity, price, amount, taker, maker, debit, credit, bought, sold,
        volume⟩⟩

private theorem PositionFits.congr {later : Database} {id : PositionID}
    {shares : Int}
    {price : Rat} (fits : db.PositionFits id shares price)
    (same : later.positions.lookup id = db.positions.lookup id) :
    later.PositionFits id shares price := by
  unfold PositionFits
  rw [same]
  exact fits

/-! The settlement of a trade. -/

/-- A trade between two users and two orders that are there, not settled
before, and that its buyer can pay. -/
structure Settleable (db : Database) (trade : TradeData) (keys : TradeKeys) :
    Prop where
  new : db.trades.lookup keys.tradeID = none
  event : db.events.lookup keys.eventID ≠ none
  taker : db.orders.lookup keys.takerOrderID ≠ none
  maker : db.orders.lookup keys.makerOrderID ≠ none
  otherOrder : keys.makerOrderID ≠ keys.takerOrderID
  buyer : ∃ balance, db.users.lookup keys.buyerID = some balance ∧
    trade.amount ≤ balance
  seller : db.users.lookup keys.sellerID ≠ none
  otherUser : keys.sellerID ≠ keys.buyerID
  outcome : Outcome.parse trade.outcome ≠ none
  takerSide : Side.parse trade.takerSide ≠ none

section Settle

variable {trade : TradeData} {keys : TradeKeys}
  (settleable : db.Settleable trade keys) (fits : db.TradeFits trade keys)

include settleable fits

private theorem insertTrade_succeeds :
    ∃ inserted, db.insertTrade (trade.params keys) = .ok inserted := by
  obtain ⟨outcome, isOutcome⟩ :=
    Option.ne_none_iff_exists'.mp settleable.outcome
  obtain ⟨side, isSide⟩ := Option.ne_none_iff_exists'.mp settleable.takerSide
  obtain ⟨balance, buyer, _⟩ := settleable.buyer
  have refers : db.events.lookup keys.eventID ≠ none ∧
      db.orders.lookup keys.takerOrderID ≠ none ∧
      db.orders.lookup keys.makerOrderID ≠ none ∧
      db.users.lookup keys.buyerID ≠ none ∧
      db.users.lookup keys.sellerID ≠ none :=
    ⟨settleable.event, settleable.taker, settleable.maker,
      Option.ne_none_iff_exists'.mpr ⟨balance, buyer⟩, settleable.seller⟩
  refine bind_succeeds fits.quantity.column ?_
  refine bind_succeeds fits.price.column ?_
  refine bind_succeeds (present_ok.mpr isOutcome) ?_
  refine bind_succeeds (present_ok.mpr isSide) ?_
  refine require_succeeds settleable.new ?_
  exact require_succeeds refers ⟨_, rfl⟩

private theorem reflectTrade_succeeds (row : TradeRow) :
    ∃ later, reflectTrade
      { db with trades := db.trades.insert keys.tradeID row } trade
      keys.tradeID keys.eventID keys.buyerID keys.sellerID keys.takerOrderID
      keys.makerOrderID = .ok later := by
  obtain ⟨taker, isTaker⟩ := Option.ne_none_iff_exists'.mp settleable.taker
  obtain ⟨maker, isMaker⟩ := Option.ne_none_iff_exists'.mp settleable.maker
  obtain ⟨balance, isBalance, enough⟩ := settleable.buyer
  obtain ⟨credit, isCredit⟩ := Option.ne_none_iff_exists'.mp settleable.seller
  obtain ⟨outcome, isOutcome⟩ :=
    Option.ne_none_iff_exists'.mp settleable.outcome
  obtain ⟨volume, isVolume⟩ := Option.ne_none_iff_exists'.mp settleable.event
  -- the second order and the second user are not those of the first
  have makerStill : (db.orders.insert keys.takerOrderID
      (taker.fill trade.quantity)).lookup keys.makerOrderID = some maker := by
    rw [FiniteMap.lookup_insert_eq, if_neg settleable.otherOrder]
    exact isMaker
  have creditStill : (db.users.insert keys.buyerID
      (balance - trade.amount)).lookup keys.sellerID = some credit := by
    rw [FiniteMap.lookup_insert_eq, if_neg settleable.otherUser]
    exact isCredit
  refine bind_succeeds (orElse_ok.mpr (applyOrderFill_ok.mpr
    ⟨taker, isTaker, fits.taker taker isTaker, rfl⟩)) ?_
  refine bind_succeeds (orElse_ok.mpr (applyOrderFill_ok.mpr
    ⟨maker, makerStill, fits.maker maker isMaker, rfl⟩)) ?_
  refine bind_succeeds (orElse_ok.mpr (And.left (deductBalance_ok.mpr
    ⟨balance, isBalance, enough, fits.debit balance isBalance, rfl, rfl⟩))) ?_
  refine require_succeeds Nat.one_ne_zero ?_
  refine bind_succeeds (orElse_ok.mpr (addBalance_ok.mpr
    (.inr ⟨credit, creditStill, fits.credit credit isCredit, rfl⟩))) ?_
  let paid : Database :=
    { db with
      trades := db.trades.insert keys.tradeID row
      orders :=
        (db.orders.insert keys.takerOrderID (taker.fill trade.quantity)).insert
          keys.makerOrderID (maker.fill trade.quantity)
      users := (db.users.insert keys.buyerID (balance - trade.amount)).insert
        keys.sellerID (credit + trade.amount) }
  have users : ∀ {id}, db.users.lookup id ≠ none →
      paid.users.lookup id ≠ none := by
    intro id there
    exact FiniteMap.lookup_insert_ne_none _
      (FiniteMap.lookup_insert_ne_none _ there)
  have orders : ∀ {id}, db.orders.lookup id ≠ none →
      paid.orders.lookup id ≠ none := by
    intro id there
    exact FiniteMap.lookup_insert_ne_none _
      (FiniteMap.lookup_insert_ne_none _ there)
  have buyer : db.users.lookup keys.buyerID ≠ none :=
    Option.ne_none_iff_exists'.mpr ⟨balance, isBalance⟩
  have recorded : paid.trades.lookup keys.tradeID ≠ none := by
    simp only [paid, FiniteMap.lookup_insert_eq]
    simp
  refine bind_succeeds (orElse_ok.mpr (upsertPosition_ok.mpr ⟨outcome, isOutcome,
    fits.bought outcome isOutcome, fun _ => ⟨users buyer, settleable.event⟩,
    rfl⟩)) ?_
  let held : Database :=
    { paid with
      positions := db.positions.insert ⟨keys.buyerID, keys.eventID, outcome⟩
        (db.positionWith ⟨keys.buyerID, keys.eventID, outcome⟩
          (numericFromInt trade.quantity) ((trade.price.toInt : Rat) / 10000)) }
  have soldStill :
      held.positions.lookup ⟨keys.sellerID, keys.eventID, outcome⟩ =
        db.positions.lookup ⟨keys.sellerID, keys.eventID, outcome⟩ := by
    rw [FiniteMap.lookup_insert_eq, if_neg]
    intro same
    exact settleable.otherUser (PositionID.mk.inj same).1
  refine bind_succeeds (orElse_ok.mpr (upsertPosition_ok.mpr ⟨outcome, isOutcome,
    (fits.sold outcome isOutcome).congr soldStill,
    fun _ => ⟨users settleable.seller, settleable.event⟩, rfl⟩)) ?_
  have amounts : InColumn (numericFromInt trade.quantity) ∧
      InColumn (numericFromScaled trade.price) ∧ InColumn trade.amount :=
    ⟨fits.quantity, fits.price, fits.amount⟩
  refine bind_succeeds (orElse_ok.mpr (insertTransaction_ok.mpr ⟨amounts,
    ⟨users buyer, orders settleable.taker, recorded⟩, rfl⟩)) ?_
  refine bind_succeeds (orElse_ok.mpr (insertTransaction_ok.mpr ⟨amounts,
    ⟨users settleable.seller, orders settleable.maker, recorded⟩, rfl⟩)) ?_
  exact ⟨_, orElse_ok.mpr (incrementEventVolume_ok.mpr
    (.inr ⟨volume, isVolume, fits.volume volume isVolume, rfl⟩))⟩

theorem handleTradeExecuted_settles [UUID.Parser]
    (valid : validateTrade trade = .ok ())
    (names : trade.Names keys) :
    ∃ later, db.handleTradeExecuted (some trade) = .ok later ∧
      db.Settles trade keys later := by
  obtain ⟨inserted, insertion⟩ := insertTrade_succeeds settleable fits
  obtain ⟨row, rfl, written, new, event, _, seller⟩ := insertTrade_ok insertion
  obtain ⟨later, reflected⟩ := reflectTrade_succeeds settleable fits row
  refine ⟨later, bind_ok.mpr ⟨trade, rfl, bind_ok.mpr ⟨(), valid, ?_⟩⟩,
    reflectTrade_settles written new event seller reflected⟩
  rw [settleTrade_eq names, insertion]
  exact reflected

end Settle

end Database

/-! The creation of an order. -/

theorem row_ok_iff {order : Order} (submitted : order.Submitted)
    (id eventID userID : UUID) :
    (∃ row, (order.data.params id eventID userID).row = .ok row) ↔
      order.quantity.toInt < 1000000000000 ∧ 0 ≤ order.price.toInt ∧
        order.price.toInt < 10000000000000000 := by
  have positive := submitted.quantity
  constructor
  · rintro ⟨row, checked⟩
    have written := Database.InsertOrderParams.row_written checked
    have quantitySmall := written.quantityFits
    have priceSmall := written.priceFits
    have nonneg := written.nonneg
    simp only [OrderData.params, Order.data, numericFromInt, numericFromScaled,
      InColumn, decimalLimit] at quantitySmall priceSmall nonneg
    omega
  · rintro ⟨quantitySmall, nonneg, priceSmall⟩
    have quantityFits : InColumn (numericFromInt order.quantity) := by
      unfold InColumn numericFromInt decimalLimit
      omega
    have priceFits : InColumn (numericFromScaled order.price) := by
      unfold InColumn numericFromScaled decimalLimit
      omega
    have both : 0 < numericFromInt order.quantity ∧
        0 ≤ numericFromScaled order.price := by
      unfold numericFromInt numericFromScaled
      omega
    have none : InColumn (numericFromInt order.filledQuantity) := by
      rw [submitted.filled]
      decide
    have rest : InColumn (numericFromInt order.remainingQuantity) := by
      rw [submitted.remaining]
      exact quantityFits
    refine bind_succeeds quantityFits.column ?_
    refine bind_succeeds priceFits.column ?_
    refine bind_succeeds none.column ?_
    refine bind_succeeds rest.column ?_
    refine bind_succeeds (present_ok.mpr (OrderType.parse_text _)) ?_
    refine bind_succeeds (present_ok.mpr (Outcome.parse_text _)) ?_
    refine bind_succeeds (present_ok.mpr (Side.parse_text _)) ?_
    refine bind_succeeds (present_ok.mpr (Status.parse_text _)) ?_
    exact require_succeeds both ⟨_, rfl⟩

/-! Room for the next event. -/

def TradeData.keys? [UUID.Parser] (trade : TradeData) : Option TradeKeys := do
  let tradeID ← UUID.parse trade.id
  let eventID ← UUID.parse trade.eventID
  let buyerID ← UUID.parse trade.buyerID
  let sellerID ← UUID.parse trade.sellerID
  let takerOrderID ← UUID.parse trade.orderID
  let makerOrderID ← UUID.parse trade.matchOrderID
  return ⟨tradeID, eventID, buyerID, sellerID, takerOrderID, makerOrderID⟩

theorem TradeData.Names.keys? [UUID.Parser]
    {trade : TradeData} {keys : TradeKeys}
    (names : trade.Names keys) : trade.keys? = some keys := by
  unfold TradeData.keys?
  rw [names.own, names.event, names.buyer, names.seller, names.taker,
    names.maker]
  rfl

def Database.HasRoom [UUID.Parser] (db : Database) : EventData → Prop
  | .orderCreated (some order) =>
      InColumn (numericFromInt order.quantity) ∧
        InColumn (numericFromScaled order.price)
  | .tradeExecuted (some trade) =>
      ∀ keys ∈ trade.keys?, db.TradeFits trade keys
  | _ => True

instance [UUID.Parser]
    (db : Database) (data : EventData) : Decidable (db.HasRoom data) :=
  match data with
  | .orderCreated (some order) =>
      inferInstanceAs (Decidable (InColumn (numericFromInt order.quantity) ∧
        InColumn (numericFromScaled order.price)))
  | .tradeExecuted (some trade) =>
      inferInstanceAs (Decidable
        (∀ keys ∈ trade.keys?, db.TradeFits trade keys))
  | .orderCreated none | .tradeExecuted none | .orderCanceled _ | .unknown _ =>
      .isTrue trivial

end Predix
