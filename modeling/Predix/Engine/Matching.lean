import Mathlib.Data.List.Sort
import Predix.Engine.Ledger

namespace Predix

open Data Word

/-! Price-time matching. A slice of order pointers is passed as the list of
the orders it points to; `makers` collects what is written through those
pointers, in order. -/

def canMatch (incoming resting : Order) : Bool :=
  if incoming.outcome ≠ resting.outcome then
    false
  else
    match incoming.orderType with
    | .orderTypeMarket => true
    | .orderTypeLimit =>
        match incoming.side with
        | .sideBuy => decide (resting.price ≤ incoming.price)
        | .sideSell => decide (resting.price ≥ incoming.price)

/-- The test `findCounterparty` makes of one resting order: it is alive, it is
not the submitter's own, and its price is acceptable. -/
def isCounterparty (incoming resting : Order) : Bool :=
  resting.status.live && decide (0 < resting.remainingQuantity) &&
    decide (resting.userID ≠ incoming.userID) && canMatch incoming resting

def findCounterparty (orders : List Order) (incoming : Order) : Option Nat :=
  orders.findIdx? (isCounterparty incoming)

def buildTrade (taker maker : Order) (quantity : Int64) : Trade :=
  { orderID := taker.id
    matchOrderID := maker.id
    eventID := taker.eventID
    outcome := taker.outcome
    buyerID := match taker.side with
      | .sideBuy => taker.userID
      | .sideSell => maker.userID
    sellerID := match taker.side with
      | .sideBuy => maker.userID
      | .sideSell => taker.userID
    takerSide := taker.side
    quantity := quantity
    price := maker.price }

structure Matching where
  incoming : Order
  makers : List Order
  trades : List Trade

def Order.fill (order : Order) (quantity : Int64) : Order :=
  { order with
    remainingQuantity := order.remainingQuantity - quantity
    filledQuantity := order.filledQuantity + quantity }

def Order.afterFill (order : Order) : Order :=
  if order.remainingQuantity ≤ 0 then
    { order with remainingQuantity := 0, status := .statusFilled }
  else
    { order with status := .statusPartial }

def matchQuantity (incoming resting : Order) : Int64 :=
  minWord incoming.remainingQuantity resting.remainingQuantity

/-- Trade the incoming order against the resting order at an index of the
opposite slice. A filled resting order leaves the slice. -/
def executePair (matching : Matching) (resting : Order)
    (orders : List Order) (idx : Nat) : Matching × List Order :=
  let quantity := matchQuantity matching.incoming resting
  if quantity ≤ 0 then
    (matching, orders)
  else
    let trade := buildTrade matching.incoming resting quantity
    let filled := resting.fill quantity
    let matching : Matching :=
      { incoming := matching.incoming.fill quantity
        makers := matching.makers ++ [filled.afterFill]
        trades := matching.trades ++ [trade] }
    if filled.remainingQuantity ≤ 0 then
      (matching, orders.eraseIdx idx)
    else
      (matching, orders.set idx filled.afterFill)

/-- The test by which `removeInvalidBids` and `removeInvalidAsks` drop an order
from the front of a slice. -/
def isInvalid (order : Order) : Bool :=
  order.status == .statusFilled || order.status == .statusCanceled ||
    decide (order.remainingQuantity ≤ 0)

def removeInvalid (orders : List Order) : List Order :=
  orders.dropWhile isInvalid

/-- The loop of `matchAgainstBook`, run for at most `fuel` rounds. -/
def matchLoop : Nat → Matching → List Order → Matching × List Order
  | 0, matching, orders => (matching, orders)
  | fuel + 1, matching, orders =>
      if matching.incoming.remainingQuantity ≤ 0 then
        (matching, orders)
      else
        let orders := removeInvalid orders
        match findCounterparty orders matching.incoming with
        | none => (matching, orders)
        | some idx =>
            match orders[idx]? with
            | none => (matching, orders)
            | some resting =>
                let (matching, orders) :=
                  executePair matching resting orders idx
                matchLoop fuel matching orders

/-- Match an incoming order against the opposite slice. Every round but the
last takes an order off the slice, so this fuel is never used up. -/
def matchAgainstBook (orders : List Order) (incoming : Order) :
    Matching × List Order :=
  matchLoop (orders.length + 1) ⟨incoming, [], []⟩ orders

def Order.sortsBefore (side : Side) (left right : Order) : Prop :=
  match side with
  | .sideBuy => right.price ≤ left.price
  | .sideSell => left.price ≤ right.price

instance (side : Side) : DecidableRel (Order.sortsBefore side) :=
  fun left right =>
    match side with
    | .sideBuy => inferInstanceAs (Decidable (right.price ≤ left.price))
    | .sideSell => inferInstanceAs (Decidable (left.price ≤ right.price))

/-- Append the order to its side and sort the slice stably. -/
def addToBook (orders : List Order) (order : Order) : List Order :=
  (orders ++ [order]).insertionSort (Order.sortsBefore order.side)

/-- The orders a slice points to. -/
def Engine.load (engine : Engine) (ids : List String) : List Order :=
  ids.filterMap engine.orders.lookup

/-- The status `matchOrder` gives the incoming order after the walk. -/
def Order.statusAfterMatch (order : Order) : Status :=
  if order.remainingQuantity = 0 then
    .statusFilled
  else if order.filledQuantity > 0 then
    match order.orderType with
    | .orderTypeLimit => .statusPartial
    | .orderTypeMarket => .statusCanceled
  else
    match order.orderType with
    | .orderTypeMarket => .statusCanceled
    | .orderTypeLimit => .statusPending

/-- Write the makers and the incoming order through their pointers, and the
two slices of the book back to the market. -/
def Engine.storeMatch (engine : Engine) (market : Market)
    (matching : Matching) (opposite : List Order) (order : Order) : Engine :=
  let book := market.book order.outcome
  let book := book.setSlice order.side.opposite (opposite.map (·.id))
  -- what is left of a limit order rests, also behind orders of its price
  let book :=
    if order.status.live then
      book.setSlice order.side
        ((addToBook (engine.load (book.slice order.side)) order).map (·.id))
    else
      book
  { engine with
    orders := (FiniteMap.insertAll
      (matching.makers.map fun maker => (maker.id, maker))
      engine.orders).insert order.id order
    markets := engine.markets.insert order.eventID
      (market.setBook order.outcome book) }

def Engine.release (engine : Engine) (orderID : String) : Engine :=
  match engine.orders.lookup orderID with
  | none => engine
  | some order => releaseOrderLocked engine order

def matchOrder (engine : Engine) (orderID : String) :
    Engine × List Trade :=
  match engine.orders.lookup orderID with
  | none => (engine, [])
  | some order =>
      -- canceled between registration and matching
      if order.status = .statusCanceled then
        (engine, [])
      else
        match engine.markets.lookup order.eventID with
        | none =>
            (engine.putOrder { order with status := .statusRejected }, [])
        | some market =>
            let book := market.book order.outcome
            let (matching, opposite) := matchAgainstBook
              (engine.load (book.slice order.side.opposite)) order
            let order :=
              { matching.incoming with
                status := matching.incoming.statusAfterMatch }
            let engine := engine.storeMatch market matching opposite order
            let engine := matching.trades.foldl settleTradeLocked engine
            if order.status = .statusFilled ∨ order.status = .statusCanceled then
              (engine.release orderID, matching.trades)
            else
              (engine, matching.trades)

end Predix
