import Predix.Database.Tables
import Predix.Engine.Handler
import Predix.Ownership.Fencing

namespace Predix

open Data

/-! The database worker. Its errors are given by their first words; the cause
they wrap is left out. -/

structure TradeData where
  id : String
  orderID : String
  matchOrderID : String
  eventID : String
  outcome : String
  buyerID : String
  sellerID : String
  takerSide : String
  quantity : Int64
  price : Int64
  deriving DecidableEq, Repr

structure OrderData where
  id : String
  eventID : String
  userID : String
  orderType : String
  outcome : String
  side : String
  quantity : Int64
  filledQuantity : Int64
  remainingQuantity : Int64
  price : Int64
  status : String
  deriving DecidableEq, Repr

/-- The type of an envelope with its data, which is `none` when `json.Unmarshal`
refuses it. -/
inductive EventData where
  | tradeExecuted (trade : Option TradeData)
  | orderCreated (order : Option OrderData)
  | orderCanceled (orderID : Option String)
  | unknown (type : String)
  deriving DecidableEq, Repr

structure EventEnvelope where
  fencingToken : Nat
  data : EventData
  deriving DecidableEq, Repr

def validateTrade (trade : TradeData) : Except String Unit := do
  require (trade.id ≠ "") "trade id is required"
  require (trade.eventID ≠ "") "event id is required"
  require (trade.orderID ≠ "") "taker order id is required"
  require (trade.matchOrderID ≠ "") "maker order id is required"
  require (trade.buyerID ≠ "") "buyer id is required"
  require (trade.sellerID ≠ "") "seller id is required"
  require (trade.outcome = "YES" ∨ trade.outcome = "NO") "invalid outcome"
  require (0 < trade.quantity) "quantity must be greater than zero"
  require (0 ≤ trade.price) "price cannot be negative"

namespace Database

def fillStatus (newFilled quantity : Int64) : Status :=
  if quantity ≤ newFilled then .statusFilled else .statusPartial

def applyOrderFill (db : Database) (orderID : UUID) (fillQuantity : Int64) :
    Except QueryError Database := do
  let order ← db.getOrderByID orderID
  db.updateOrderFill orderID (numericFromInt fillQuantity)
    (fillStatus (numericToInt64 order.filledQuantity + fillQuantity)
      (numericToInt64 order.quantity))

/-- The steps of a settlement after the trade is inserted. -/
def reflectTrade (db : Database) (trade : TradeData)
    (tradeID eventID buyerID sellerID takerOrderID makerOrderID : UUID) :
    Except String Database := do
  let db ← orElse "update taker order"
    (db.applyOrderFill takerOrderID trade.quantity)
  let db ← orElse "update maker order"
    (db.applyOrderFill makerOrderID trade.quantity)
  -- qty * price in int64
  let total := trade.quantity * trade.price
  let (db, tag) ← orElse "deduct buyer balance"
    (db.deductBalance buyerID (numericFromScaled total))
  require (tag ≠ 0) "insufficient buyer balance"
  let db ← orElse "credit seller balance"
    (db.addBalance sellerID (numericFromScaled total))
  let db ← orElse "update buyer position"
    (db.upsertPosition buyerID eventID trade.outcome
      (numericFromInt trade.quantity) ((trade.price.toInt : Rat) / 10000))
  let db ← orElse "update seller position"
    (db.upsertPosition sellerID eventID trade.outcome
      (numericFromInt (-trade.quantity)) ((trade.price.toInt : Rat) / 10000))
  let db ← orElse "insert buyer transaction"
    (db.insertTransaction
      { userID := buyerID
        orderID := takerOrderID
        tradeID := tradeID
        type := .sideBuy
        outcome := trade.outcome
        quantity := numericFromInt trade.quantity
        price := numericFromScaled trade.price
        amount := numericFromScaled total })
  let db ← orElse "insert seller transaction"
    (db.insertTransaction
      { userID := sellerID
        orderID := makerOrderID
        tradeID := tradeID
        type := .sideSell
        outcome := trade.outcome
        quantity := numericFromInt trade.quantity
        price := numericFromScaled trade.price
        amount := numericFromScaled total })
  orElse "update event volume"
    (db.incrementEventVolume eventID (numericFromScaled total))

variable [UUID.Parser]

/-- One transaction: after an error the tables are as before. -/
def settleTrade (db : Database) (trade : TradeData) :
    Except String Database := do
  let tradeID ← present "invalid trade id" (UUID.parse trade.id)
  let eventID ← present "invalid event id" (UUID.parse trade.eventID)
  let buyerID ← present "invalid buyer id" (UUID.parse trade.buyerID)
  let sellerID ← present "invalid seller id" (UUID.parse trade.sellerID)
  let takerOrderID ← present "invalid taker order id"
    (UUID.parse trade.orderID)
  let makerOrderID ← present "invalid maker order id"
    (UUID.parse trade.matchOrderID)
  match db.insertTrade
      { id := tradeID
        eventID := eventID
        takerOrderID := takerOrderID
        makerOrderID := makerOrderID
        buyerID := buyerID
        sellerID := sellerID
        outcome := trade.outcome
        takerSide := trade.takerSide
        quantity := numericFromInt trade.quantity
        price := numericFromScaled trade.price } with
  -- a trade that is there has been settled
  | .error .uniqueViolation => return db
  | .error _ => .error "insert trade"
  | .ok db =>
      db.reflectTrade trade tradeID eventID buyerID sellerID takerOrderID
        makerOrderID

def handleTradeExecuted (db : Database) (trade : Option TradeData) :
    Except String Database := do
  let trade ← present "decode trade" trade
  validateTrade trade
  db.settleTrade trade

def handleOrderCreated (db : Database) (order : Option OrderData) :
    Except String Database := do
  let order ← present "decode order" order
  let id ← present "invalid order id" (UUID.parse order.id)
  let eventID ← present "invalid event id" (UUID.parse order.eventID)
  let userID ← present "invalid user id" (UUID.parse order.userID)
  match db.insertOrder
      { id := id
        eventID := eventID
        userID := userID
        orderType := order.orderType
        outcome := order.outcome
        side := order.side
        quantity := numericFromInt order.quantity
        price := numericFromScaled order.price
        status := order.status
        filledQuantity := numericFromInt order.filledQuantity
        remainingQuantity := numericFromInt order.remainingQuantity } with
  -- redelivery of the same order
  | .error .uniqueViolation => return db
  | .error _ => .error "insert order"
  | .ok db => return db

def handleOrderCanceled (db : Database) (orderID : Option String) :
    Except String Database := do
  let orderID ← present "decode cancel payload" orderID
  let id ← present "invalid order id" (UUID.parse orderID)
  return db.updateOrderStatus id .statusCanceled

def handleEvent (db : Database) : EventData → Except String Database
  | .tradeExecuted trade => db.handleTradeExecuted trade
  | .orderCreated order => db.handleOrderCreated order
  | .orderCanceled orderID => db.handleOrderCanceled orderID
  | .unknown _ => .ok db

/-- The handler of an envelope, given the fencing counter of its partition. -/
def handleEnvelope (counter : Option Nat) (db : Database)
    (envelope : EventEnvelope) : Except String Database :=
  let decision : FencingDecision := match counter with
    | none => .fencingAccept
    | some current => fencingDecisionForToken envelope.fencingToken current
  match decision with
  | .fencingStale => .ok db
  | .fencingAccept => db.handleEvent envelope.data

/-- The worker's way through a stream, up to the first error. -/
def drain (counter : Option Nat) (db : Database)
    (envelopes : List EventEnvelope) : Except String Database :=
  envelopes.foldlM (handleEnvelope counter) db

end Database

/-! The envelopes of the engine. -/

def Order.data (order : Order) : OrderData where
  id := order.id
  eventID := order.eventID
  userID := order.userID
  orderType := order.orderType.text
  outcome := order.outcome.text
  side := order.side.text
  quantity := order.quantity
  filledQuantity := order.filledQuantity
  remainingQuantity := order.remainingQuantity
  price := order.price
  status := order.status.text

def Trade.data (trade : Trade) (tradeID : String) : TradeData where
  id := tradeID
  orderID := trade.orderID
  matchOrderID := trade.matchOrderID
  eventID := trade.eventID
  outcome := trade.outcome.text
  buyerID := trade.buyerID
  sellerID := trade.sellerID
  takerSide := trade.takerSide.text
  quantity := trade.quantity
  price := trade.price

def Event.data (tradeID : UUID) : Event → EventData
  | .orderCreated order => .orderCreated (some order.data)
  | .tradeExecuted trade => .tradeExecuted (some (trade.data tradeID.text))
  | .orderCanceled orderID => .orderCanceled (some orderID)

end Predix
