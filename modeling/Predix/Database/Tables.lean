import Predix.Data.Checked
import Predix.Data.Float64
import Predix.Data.Uuid
import Predix.Engine.Types

namespace Predix

open Data

/-! The tables the database worker writes, and its queries. A DECIMAL(20,8)
column is an integer in units of its last place. Timestamps and the generated
ids of ledger rows are left out. -/

def numericFromInt (value : Int64) : Int := value.toInt * 100000000

def numericFromScaled (value : Int64) : Int := value.toInt * 10000

/-- The way back, for a whole-share count: through a float64. -/
def numericToInt64 (value : Int) : Int64 :=
  Float64.toInt64 (float64.round ((value : ℚ) / 100000000))

def wholeShares (value : Int) : Int64 :=
  Int64.ofInt (value.tdiv 100000000)

theorem numericToInt64_whole {shares : Int} (small : |shares| < 2 ^ 53) :
    numericToInt64 (shares * 100000000) = Int64.ofInt shares := by
  have value : ((shares * 100000000 : ℤ) : ℚ) / 100000000 = shares := by
    push_cast
    field_simp
  rw [numericToInt64, value, Float64.toInt64_round_intCast small]

def Status.text : Status → String
  | .statusPending => "PENDING"
  | .statusPartial => "PARTIAL"
  | .statusFilled => "FILLED"
  | .statusCanceled => "CANCELED"
  | .statusRejected => "REJECTED"

def Status.parse : String → Option Status
  | "PENDING" => some .statusPending
  | "PARTIAL" => some .statusPartial
  | "FILLED" => some .statusFilled
  | "CANCELED" => some .statusCanceled
  | "REJECTED" => some .statusRejected
  | _ => none

def Side.text : Side → String
  | .sideBuy => "BUY"
  | .sideSell => "SELL"

def OrderType.text : OrderType → String
  | .orderTypeLimit => "LIMIT"
  | .orderTypeMarket => "MARKET"

@[simp] theorem Status.parse_text (status : Status) :
    Status.parse status.text = some status := by
  cases status <;> rfl

@[simp] theorem Side.parse_text (side : Side) :
    Side.parse side.text = some side := by
  cases side <;> rfl

@[simp] theorem Outcome.parse_text (outcome : Outcome) :
    Outcome.parse outcome.text = some outcome := by
  cases outcome <;> rfl

@[simp] theorem OrderType.parse_text (orderType : OrderType) :
    OrderType.parse orderType.text = some orderType := by
  cases orderType <;> rfl

structure OrderRow where
  eventID : UUID
  userID : UUID
  orderType : OrderType
  outcome : Outcome
  side : Side
  quantity : Int
  price : Int
  status : Status
  filledQuantity : Int
  remainingQuantity : Int
  deriving DecidableEq

structure TradeRow where
  eventID : UUID
  outcome : Outcome
  takerOrderID : UUID
  makerOrderID : UUID
  buyerID : UUID
  sellerID : UUID
  takerSide : Side
  quantity : Int
  price : Int
  deriving DecidableEq

/-- The average price is kept exactly; its column would round it. -/
structure PositionRow where
  shares : Int
  avgPrice : Rat
  deriving DecidableEq

structure PositionID where
  userID : UUID
  eventID : UUID
  outcome : Outcome
  deriving DecidableEq

structure TransactionRow where
  userID : UUID
  orderID : UUID
  tradeID : UUID
  type : Side
  outcome : String
  quantity : Int
  price : Int
  amount : Int
  deriving DecidableEq

/-- The balances of the users, the volumes of the events, and the rows the
worker adds. -/
structure Database where
  users : FiniteMap UUID Int
  events : FiniteMap UUID Int
  orders : FiniteMap UUID OrderRow
  trades : FiniteMap UUID TradeRow
  positions : FiniteMap PositionID PositionRow
  transactions : List TransactionRow

inductive QueryError where
  | uniqueViolation
  | foreignKeyViolation
  | checkViolation
  | numericOverflow
  | noRows
  deriving DecidableEq, Repr

def decimalLimit : Nat := 100000000000000000000

def InColumn (value : Int) : Prop := value.natAbs < decimalLimit

instance (value : Int) : Decidable (InColumn value) :=
  inferInstanceAs (Decidable (_ < _))

def column (value : Int) : Except QueryError Int :=
  if InColumn value then .ok value else .error .numericOverflow

theorem column_ok {value stored : Int} :
    column value = .ok stored ↔ InColumn value ∧ value = stored := by
  unfold column
  split
  · simp [*]
  · simp [*]

theorem InColumn.column {value : Int} (fits : InColumn value) :
    Predix.column value = .ok value :=
  column_ok.mpr ⟨fits, rfl⟩

theorem column_error {value : Int} {error : QueryError}
    (overflow : column value = .error error) : error = .numericOverflow := by
  unfold column at overflow
  split at overflow
  · contradiction
  · cases overflow
    rfl

namespace Database

structure InsertOrderParams where
  id : UUID
  eventID : UUID
  userID : UUID
  orderType : String
  outcome : String
  side : String
  quantity : Int
  price : Int
  status : String
  filledQuantity : Int
  remainingQuantity : Int

/-- Values are cast and checked before the primary key, the references last. -/
def insertOrder (db : Database) (params : InsertOrderParams) :
    Except QueryError Database := do
  let quantity ← column params.quantity
  let price ← column params.price
  let filledQuantity ← column params.filledQuantity
  let remainingQuantity ← column params.remainingQuantity
  let orderType ← present .checkViolation (OrderType.parse params.orderType)
  let outcome ← present .checkViolation (Outcome.parse params.outcome)
  let side ← present .checkViolation (Side.parse params.side)
  let status ← present .checkViolation (Status.parse params.status)
  require (0 < quantity ∧ 0 ≤ price) .checkViolation
  require (db.orders.lookup params.id = none) .uniqueViolation
  require (db.events.lookup params.eventID ≠ none ∧
    db.users.lookup params.userID ≠ none) .foreignKeyViolation
  return { db with
    orders := db.orders.insert params.id
      { eventID := params.eventID
        userID := params.userID
        orderType := orderType
        outcome := outcome
        side := side
        quantity := quantity
        price := price
        status := status
        filledQuantity := filledQuantity
        remainingQuantity := remainingQuantity } }

def getOrderByID (db : Database) (id : UUID) : Except QueryError OrderRow :=
  present .noRows (db.orders.lookup id)

/-- A row that is not there is not missed. -/
def updateOrderStatus (db : Database) (id : UUID) (status : Status) :
    Database :=
  match db.orders.lookup id with
  | none => db
  | some row =>
      { db with orders := db.orders.insert id { row with status := status } }

def updateOrderFill (db : Database) (id : UUID) (fill : Int)
    (status : Status) : Except QueryError Database :=
  match db.orders.lookup id with
  | none => .ok db
  | some row => do
      let filledQuantity ← column (row.filledQuantity + fill)
      let remainingQuantity ← column
        (max (row.quantity - (row.filledQuantity + fill)) 0)
      return { db with
        orders := db.orders.insert id
          { row with
            filledQuantity := filledQuantity
            remainingQuantity := remainingQuantity
            status := status } }

structure InsertTradeParams where
  id : UUID
  eventID : UUID
  takerOrderID : UUID
  makerOrderID : UUID
  buyerID : UUID
  sellerID : UUID
  outcome : String
  takerSide : String
  quantity : Int
  price : Int

def insertTrade (db : Database) (params : InsertTradeParams) :
    Except QueryError Database := do
  let quantity ← column params.quantity
  let price ← column params.price
  let outcome ← present .checkViolation (Outcome.parse params.outcome)
  let takerSide ← present .checkViolation (Side.parse params.takerSide)
  require (db.trades.lookup params.id = none) .uniqueViolation
  require (db.events.lookup params.eventID ≠ none ∧
    db.orders.lookup params.takerOrderID ≠ none ∧
    db.orders.lookup params.makerOrderID ≠ none ∧
    db.users.lookup params.buyerID ≠ none ∧
    db.users.lookup params.sellerID ≠ none) .foreignKeyViolation
  return { db with
    trades := db.trades.insert params.id
      { eventID := params.eventID
        outcome := outcome
        takerOrderID := params.takerOrderID
        makerOrderID := params.makerOrderID
        buyerID := params.buyerID
        sellerID := params.sellerID
        takerSide := takerSide
        quantity := quantity
        price := price } }

def deductBalance (db : Database) (id : UUID) (amount : Int) :
    Except QueryError (Database × Nat) :=
  match db.users.lookup id with
  | none => .ok (db, 0)
  | some balance =>
      if amount ≤ balance then do
        let left ← column (balance - amount)
        return ({ db with users := db.users.insert id left }, 1)
      else
        .ok (db, 0)

def addBalance (db : Database) (id : UUID) (amount : Int) :
    Except QueryError Database :=
  match db.users.lookup id with
  | none => .ok db
  | some balance => do
      let sum ← column (balance + amount)
      return { db with users := db.users.insert id sum }

def averagePrice (row : PositionRow) (shares : Int) (price : Rat) : Rat :=
  if row.shares + shares = 0 then
    price
  else
    (row.avgPrice * row.shares + price * shares) / (row.shares + shares : Int)

def upsertPosition (db : Database) (userID eventID : UUID) (outcome : String)
    (shares : Int) (avgPrice : Rat) : Except QueryError Database := do
  let shares ← column shares
  let outcome ← present .checkViolation (Outcome.parse outcome)
  match db.positions.lookup ⟨userID, eventID, outcome⟩ with
  | none =>
      require (db.users.lookup userID ≠ none ∧
        db.events.lookup eventID ≠ none) .foreignKeyViolation
      return { db with
        positions := db.positions.insert ⟨userID, eventID, outcome⟩
          ⟨shares, avgPrice⟩ }
  | some row =>
      let total ← column (row.shares + shares)
      let average := averagePrice row shares avgPrice
      require (-1000000000000 < average ∧ average < 1000000000000)
        .numericOverflow
      return { db with
        positions := db.positions.insert ⟨userID, eventID, outcome⟩
          ⟨total, average⟩ }

def insertTransaction (db : Database) (row : TransactionRow) :
    Except QueryError Database := do
  let _ ← column row.quantity
  let _ ← column row.price
  let _ ← column row.amount
  require (db.users.lookup row.userID ≠ none ∧
    db.orders.lookup row.orderID ≠ none ∧
    db.trades.lookup row.tradeID ≠ none) .foreignKeyViolation
  return { db with transactions := db.transactions ++ [row] }

def incrementEventVolume (db : Database) (id : UUID) (amount : Int) :
    Except QueryError Database :=
  match db.events.lookup id with
  | none => .ok db
  | some volume => do
      let sum ← column (volume + amount)
      return { db with events := db.events.insert id sum }

end Database

end Predix
