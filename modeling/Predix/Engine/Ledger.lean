import Predix.Engine.Types

namespace Predix

open Data Word

/-! The reservation ledger. -/

def positionKey (userID eventID : String) (outcome : Outcome) : String :=
  userID ++ ":" ++ eventID ++ ":" ++ outcome.text

def Order.positionKey (order : Order) : String :=
  Predix.positionKey order.userID order.eventID order.outcome

def errInsufficientFunds : String := "insufficient balance for order"

def errInsufficientShares : String := "insufficient shares for order"

def Engine.updateBalance (engine : Engine) (userID : String)
    (change : Balance → Balance) : Engine :=
  { engine with balances := engine.balances.update userID change }

def Engine.updatePosition (engine : Engine) (key : String)
    (change : Position → Position) : Engine :=
  { engine with positions := engine.positions.update key change }

def Engine.putOrder (engine : Engine) (order : Order) : Engine :=
  { engine with orders := engine.orders.insert order.id order }

/-- What the reservation of an order freezes. A market BUY has no price and
freezes everything available; a limit BUY freezes a 64-bit product. -/
def reservationCost (order : Order) (available : Int64) : Int64 :=
  match order.orderType with
  | .orderTypeMarket => available
  | .orderTypeLimit => order.remainingQuantity * order.price

/-- Freeze the liquidity an order needs before it enters the book. The account
is opened by the look-up, so it exists afterwards even when the order is
refused. -/
def reserveOrderLocked (engine : Engine) (order : Order) :
    Engine × Except String Order :=
  match order.side with
  | .sideBuy =>
      let balance := engine.balances.account order.userID
      let cost := reservationCost order balance.available
      -- a product that wraps below zero passes this test
      if cost > balance.available then
        (engine.updateBalance order.userID id, .error errInsufficientFunds)
      else
        (engine.updateBalance order.userID (·.freeze cost),
          .ok { order with lockedFunds := cost })
  | .sideSell =>
      let position := engine.positions.account order.positionKey
      if position.available < order.remainingQuantity then
        (engine.updatePosition order.positionKey id,
          .error errInsufficientShares)
      else
        (engine.updatePosition order.positionKey
            (·.freeze order.remainingQuantity),
          .ok { order with lockedFunds := order.remainingQuantity })

def Trade.cost (trade : Trade) : Int64 :=
  trade.quantity * trade.price

def Order.unlockFor (order : Order) (trade : Trade) : Int64 :=
  match order.side with
  | .sideBuy => trade.cost
  | .sideSell => trade.quantity

/-- Take a trade off the lock of the order registered under an id, if any. -/
def Engine.unlock (engine : Engine) (trade : Trade) (orderID : String) :
    Engine :=
  match engine.orders.lookup orderID with
  | none => engine
  | some order =>
      { engine with
        orders := engine.orders.insert orderID
          { order with
            lockedFunds :=
              clampZero (order.lockedFunds - order.unlockFor trade) } }

def settleTradeLocked (engine : Engine) (trade : Trade) : Engine :=
  let cost := trade.cost
  let engine := engine.updateBalance trade.buyerID (·.spend cost)
  let engine := engine.updatePosition
    (positionKey trade.buyerID trade.eventID trade.outcome)
    (·.credit trade.quantity)
  let engine := engine.updateBalance trade.sellerID (·.credit cost)
  let engine := engine.updatePosition
    (positionKey trade.sellerID trade.eventID trade.outcome)
    (·.spend trade.quantity)
  [trade.orderID, trade.matchOrderID].foldl
    (fun engine orderID => engine.unlock trade orderID) engine

/-- Return the liquidity an order no longer needs. The order is the one
registered under its id. -/
def releaseOrderLocked (engine : Engine) (order : Order) : Engine :=
  if order.lockedFunds ≤ 0 then
    engine
  else
    match order.side with
    | .sideBuy =>
        (engine.updateBalance order.userID
          (·.unfreeze order.lockedFunds)).putOrder
            { order with lockedFunds := 0 }
    | .sideSell =>
        (engine.updatePosition order.positionKey
          (·.unfreeze order.lockedFunds)).putOrder
            { order with lockedFunds := 0 }

end Predix
