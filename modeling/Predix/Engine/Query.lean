import Predix.Engine.Matching

namespace Predix

open Data Word

/-! The two read-only commands. -/

structure OrderBookEntry where
  price : Int64
  quantity : Int64
  total : Int64
  orderCount : Int64
  deriving DecidableEq, Repr

structure DepthSide where
  bids : List OrderBookEntry
  asks : List OrderBookEntry
  deriving DecidableEq, Repr

structure Depth where
  eventID : String
  yes : DepthSide
  no : DepthSide
  deriving DecidableEq, Repr

structure Level where
  price : Int64
  quantity : Int64
  count : Int64
  deriving DecidableEq, Repr

def addToLevels (levels : List Level) (order : Order) : List Level :=
  match levels with
  | [] => [⟨order.price, order.remainingQuantity, 1⟩]
  | level :: levels =>
      if level.price = order.price then
        { level with
          quantity := level.quantity + order.remainingQuantity
          count := level.count + 1 } :: levels
      else
        level :: addToLevels levels order

def OrderBookEntry.sortsBefore (side : Side)
    (left right : OrderBookEntry) : Prop :=
  match side with
  | .sideBuy => right.price ≤ left.price
  | .sideSell => left.price ≤ right.price

instance (side : Side) : DecidableRel (OrderBookEntry.sortsBefore side) :=
  fun left right =>
    match side with
    | .sideBuy => inferInstanceAs (Decidable (right.price ≤ left.price))
    | .sideSell => inferInstanceAs (Decidable (left.price ≤ right.price))

/-- `aggregateBids` and `aggregateAsks`: they differ in the final sort only.
The prices of the levels are distinct, so the sort leaves no choice. -/
def aggregate (side : Side) (orders : List Order) : List OrderBookEntry :=
  let counted := orders.filter fun order =>
    order.status.live && decide (0 < order.remainingQuantity)
  let levels := counted.foldl addToLevels []
  let entries := levels.map fun level =>
    { price := level.price
      quantity := level.quantity
      total := level.price * level.quantity
      orderCount := level.count : OrderBookEntry }
  entries.insertionSort (OrderBookEntry.sortsBefore side)

def aggregateBids : List Order → List OrderBookEntry :=
  aggregate .sideBuy

def aggregateAsks : List Order → List OrderBookEntry :=
  aggregate .sideSell

def Engine.depthSide (engine : Engine) (book : OrderBook) : DepthSide :=
  { bids := aggregateBids (engine.load book.bids)
    asks := aggregateAsks (engine.load book.asks) }

def Engine.depth (engine : Engine) (eventID : String) (market : Market) :
    Depth :=
  { eventID := eventID
    yes := engine.depthSide market.yes
    no := engine.depthSide market.no }

/-- The open orders of one user on one event. The order table is walked in no
particular order, so the result is a multiset. -/
def Engine.openOrders (engine : Engine) (eventID userID : String) :
    Multiset Order :=
  (engine.orders.entries.map fun entry => entry.2).filter fun order =>
    order.eventID = eventID ∧ order.userID = userID ∧
      order.status.live = true

end Predix
