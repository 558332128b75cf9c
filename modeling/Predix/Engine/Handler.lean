import Predix.Engine.Query

namespace Predix

open Data Word

/-! The command handlers. A payload is `none` when `json.Unmarshal` refuses
it. -/

def errEventNotFound : String := "event not found"

def errOrderNotFound : String := "order not found"

def errOrderNotCancelable : String := "order cannot be canceled"

structure CreateOrderPayload where
  orderID : String
  eventID : String
  userID : String
  orderType : String
  outcome : String
  side : String
  quantity : Int64
  price : Int64
  deriving DecidableEq, Repr

structure CancelOrderPayload where
  orderID : String
  eventID : String
  deriving DecidableEq, Repr

structure OpenOrdersPayload where
  eventID : String
  userID : String
  deriving DecidableEq, Repr

inductive Command where
  | createOrder (payload : Option CreateOrderPayload)
  | cancelOrder (payload : Option CancelOrderPayload)
  | getDepth (eventID : Option String)
  | getOpenOrders (payload : Option OpenOrdersPayload)
  | createEvent (eventID : Option String)
  | userCreated (userID : Option String)
  | unknown (type : String)
  deriving DecidableEq, Repr

/-- What a command takes from outside the engine: the id `uuid.NewString`
would return, and whether the `order_created` emission succeeds. A suppressed
emission succeeds. -/
structure Surroundings where
  newUUID : String
  orderCreatedEmitted : Bool
  deriving DecidableEq, Repr

inductive ResponseData where
  | status (status : String)
  | orderStatus (orderID : String) (status : Status)
  | orderAccepted (orderID : String) (status : Status)
      (filledQuantity remainingQuantity : Int64)
  | depth (depth : Depth)
  | openOrders (orders : Multiset Order)
  deriving DecidableEq

inductive EngineResponse where
  | failure (message : String)
  | successJSON (data : ResponseData)
  deriving DecidableEq

def EngineResponse.success : EngineResponse → Bool
  | .failure _ => false
  | .successJSON _ => true

/-- The id of the order a response newly accepts; a resubmitted order is
confirmed, not accepted. -/
def EngineResponse.accepted? : EngineResponse → Option String
  | .successJSON (.orderAccepted orderID _ _ _) => some orderID
  | _ => none

inductive Event where
  | orderCreated (order : Order)
  | tradeExecuted (trade : Trade)
  | orderCanceled (orderID : String)
  deriving DecidableEq, Repr

structure Reply where
  engine : Engine
  response : EngineResponse
  trades : List Trade
  events : List Event

def Reply.unchanged (engine : Engine) (response : EngineResponse) : Reply :=
  ⟨engine, response, [], []⟩

def validateOrder (orderID : String) (req : CreateOrderPayload) :
    Except String Order :=
  if req.eventID = "" then
    .error "eventId is required"
  else if req.userID = "" then
    .error "userId is required"
  else if req.quantity ≤ 0 then
    .error "quantity must be greater than zero"
  else
    match Side.parse req.side with
    | none => .error "invalid side"
    | some side =>
        match Outcome.parse req.outcome with
        | none => .error "invalid outcome"
        | some outcome =>
            match OrderType.parse req.orderType with
            | none => .error "invalid order type"
            | some orderType =>
                if orderType = .orderTypeLimit ∧ req.price ≤ 0 then
                  .error "limit order price must be greater than zero"
                else
                  .ok
                    { id := orderID
                      eventID := req.eventID
                      userID := req.userID
                      orderType := orderType
                      outcome := outcome
                      side := side
                      quantity := req.quantity
                      filledQuantity := 0
                      remainingQuantity := req.quantity
                      price := req.price
                      status := .statusPending
                      lockedFunds := 0 }

inductive Registration where
  | duplicate (existing : Order)
  | refused (message : String)
  | registered (order : Order)

def registerOrder (engine : Engine) (order : Order) :
    Engine × Registration :=
  match engine.orders.lookup order.id with
  | some existing => (engine, .duplicate existing)
  | none =>
      match engine.markets.lookup order.eventID with
      | none => (engine, .refused errEventNotFound)
      | some _ =>
          match reserveOrderLocked engine order with
          | (engine, .error message) => (engine, .refused message)
          | (engine, .ok order) => (engine.putOrder order, .registered order)

def Engine.acceptedResponse (engine : Engine) (orderID : String) :
    EngineResponse :=
  match engine.orders.lookup orderID with
  | none => .failure errOrderNotFound
  | some order =>
      .successJSON (.orderAccepted order.id order.status
        order.filledQuantity order.remainingQuantity)

/-- CREATE_ORDER from the registered order on: the order is announced before
it can trade, and taken out of the table again when that fails. -/
def announceAndMatch (engine : Engine) (order : Order) (emitted : Bool) :
    Reply :=
  if emitted then
    let (matched, trades) := matchOrder engine order.id
    { engine := matched
      response := matched.acceptedResponse order.id
      trades := trades
      events := .orderCreated order :: trades.map .tradeExecuted }
  else
    -- only the registration is undone: the reservation stays frozen
    { engine := { engine with orders := engine.orders.erase order.id }
      response := .failure "failed to stream order creation"
      trades := []
      events := [.orderCreated order] }

def handleCreateOrder (engine : Engine) (surroundings : Surroundings)
    (payload : Option CreateOrderPayload) : Reply :=
  match payload with
  | none => .unchanged engine (.failure "invalid payload")
  | some req =>
      let orderID :=
        if req.orderID = "" then surroundings.newUUID else req.orderID
      -- tested before the ids, and once more by the validation
      if req.quantity ≤ 0 then
        .unchanged engine (.failure "quantity must be greater than zero")
      else
        match validateOrder orderID req with
        | .error message => .unchanged engine (.failure message)
        | .ok order =>
            match registerOrder engine order with
            | (engine, .duplicate existing) =>
                .unchanged engine
                  (.successJSON (.orderStatus existing.id existing.status))
            | (engine, .refused message) =>
                .unchanged engine (.failure message)
            | (engine, .registered order) =>
                announceAndMatch engine order
                  surroundings.orderCreatedEmitted

/-- Take a canceled order off its slice, close it and release its lock. -/
def Engine.cancel (engine : Engine) (market : Market) (order : Order) :
    Engine :=
  let book := market.book order.outcome
  let book := book.setSlice order.side ((book.slice order.side).erase order.id)
  let engine :=
    { engine with
      markets := engine.markets.insert order.eventID
        (market.setBook order.outcome book) }
  let order := { order with status := .statusCanceled }
  releaseOrderLocked (engine.putOrder order) order

def handleCancelOrder (engine : Engine)
    (payload : Option CancelOrderPayload) : Reply :=
  match payload with
  | none => .unchanged engine (.failure "invalid payload")
  | some req =>
      if req.orderID = "" then
        .unchanged engine (.failure "orderId is required")
      else
        match engine.orders.lookup req.orderID with
        | none => .unchanged engine (.failure errOrderNotFound)
        | some order =>
            if req.eventID ≠ "" ∧ order.eventID ≠ req.eventID then
              .unchanged engine (.failure "order does not belong to event")
            else if order.status.live = false then
              .unchanged engine (.failure errOrderNotCancelable)
            else
              match engine.markets.lookup order.eventID with
              | none => .unchanged engine (.failure errEventNotFound)
              | some market =>
                  { engine := engine.cancel market order
                    response := .successJSON
                      (.orderStatus order.id .statusCanceled)
                    trades := []
                    events := [.orderCanceled order.id] }

def handleCreateEvent (engine : Engine) (eventID : Option String) : Reply :=
  match eventID with
  | none => .unchanged engine (.failure "invalid payload")
  | some eventID =>
      if eventID = "" then
        .unchanged engine (.failure "eventId is required")
      else
        match engine.markets.lookup eventID with
        | some _ =>
            .unchanged engine (.successJSON (.status "already_exists"))
        | none =>
            .unchanged
              { engine with
                markets := engine.markets.insert eventID newMarket }
              (.successJSON (.status "created"))

/-- Open a user's ledger entry with the starting balance; an entry that exists
is left alone. -/
def handleUserCreated (engine : Engine) (userID : Option String) : Reply :=
  match userID with
  | none => .unchanged engine (.failure "invalid payload")
  | some userID =>
      if userID = "" then
        .unchanged engine (.failure "userId is required")
      else
        match engine.balances.lookup userID with
        | some _ => .unchanged engine (.successJSON (.status "ok"))
        | none =>
            .unchanged
              { engine with
                balances := engine.balances.insert userID
                  ⟨defaultStartingBalance, 0⟩ }
              (.successJSON (.status "ok"))

def handleGetDepth (engine : Engine) (eventID : Option String) : Reply :=
  match eventID with
  | none => .unchanged engine (.failure "invalid payload")
  | some eventID =>
      match engine.markets.lookup eventID with
      | none => .unchanged engine (.failure errEventNotFound)
      | some market =>
          .unchanged engine
            (.successJSON (.depth (engine.depth eventID market)))

def handleGetOpenOrders (engine : Engine)
    (payload : Option OpenOrdersPayload) : Reply :=
  match payload with
  | none => .unchanged engine (.failure "invalid payload")
  | some req =>
      .unchanged engine
        (.successJSON
          (.openOrders (engine.openOrders req.eventID req.userID)))

def handleMessage (engine : Engine) (surroundings : Surroundings) :
    Command → Reply
  | .createOrder payload => handleCreateOrder engine surroundings payload
  | .cancelOrder payload => handleCancelOrder engine payload
  | .getDepth eventID => handleGetDepth engine eventID
  | .getOpenOrders payload => handleGetOpenOrders engine payload
  | .createEvent eventID => handleCreateEvent engine eventID
  | .userCreated userID => handleUserCreated engine userID
  | .unknown _ => .unchanged engine (.failure "unknown message type")

end Predix
