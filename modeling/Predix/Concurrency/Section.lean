import Predix.Concurrency.Walk
import Predix.Engine.Effect

namespace Predix

open Data Word

/-! The critical sections of the commands. CREATE_ORDER has two of them, with
the announcement of the order in between; every other command has one. -/

/-- How a command leaves its first section: answered, or with an order that is
registered and waits to be matched. -/
inductive Begun where
  | answered (response : EngineResponse)
  | registered (order : Order)

/-- CREATE_ORDER up to the end of its first section. -/
def beginCreateOrder (engine : Engine) (surroundings : Surroundings)
    (payload : Option CreateOrderPayload) : Engine × Begun :=
  match payload with
  | none => (engine, .answered (.failure "invalid payload"))
  | some req =>
      let orderID :=
        if req.orderID = "" then surroundings.newUUID else req.orderID
      if req.quantity ≤ 0 then
        (engine, .answered (.failure "quantity must be greater than zero"))
      else
        match validateOrder orderID req with
        | .error message => (engine, .answered (.failure message))
        | .ok order =>
            match registerOrder engine order with
            | (engine, .duplicate existing) =>
                (engine, .answered
                  (.successJSON (.orderStatus existing.id existing.status)))
            | (engine, .refused message) =>
                (engine, .answered (.failure message))
            | (engine, .registered order) => (engine, .registered order)

def beginCommand (engine : Engine) (input : Input) : Engine × Begun :=
  match input.command with
  | .createOrder payload =>
      beginCreateOrder engine input.surroundings payload
  | command =>
      let reply := handleMessage engine input.surroundings command
      (reply.engine, .answered reply.response)

/-- Everything a first section can do. A command that gets no order past the
reservation is done; otherwise the second section completes it. -/
inductive Beginning (engine : Engine) (input : Input) :
    Engine × Begun → Prop
  | answered (unadmitted : engine.admitted? input = none) :
      Beginning engine input
        ((engine.step input).engine, .answered (engine.step input).response)
  | registered (order : Order) (market : Market)
      (submitted : input.order? = some order)
      (fresh : engine.orders.lookup order.id = none)
      (hasMarket : engine.markets.lookup order.eventID = some market)
      (affords : engine.Affords order)
      (completed : engine.step input = announceAndMatch
        (engine.enrolled order) (engine.registered order)
        input.surroundings.orderCreatedEmitted) :
      Beginning engine input
        (engine.enrolled order, .registered (engine.registered order))

private theorem createOrder_beginning (engine : Engine)
    (surroundings : Surroundings) (req : CreateOrderPayload) :
    Beginning engine ⟨.createOrder (some req), surroundings⟩
      (beginCreateOrder engine surroundings (some req)) := by
  have answered := @Beginning.answered engine
    ⟨.createOrder (some req), surroundings⟩
  have registered := @Beginning.registered engine
    ⟨.createOrder (some req), surroundings⟩
  simp only [Engine.step, handleMessage, handleCreateOrder, Engine.admitted?,
    Input.order?] at answered registered
  unfold beginCreateOrder
  simp only
  split
  · rename_i nonpositive
    rw [if_pos nonpositive, validateOrder_quantity nonpositive] at answered
    exact answered rfl
  · rename_i positive
    simp only [if_neg positive] at answered registered
    cases valid : validateOrder
        (if req.orderID = "" then surroundings.newUUID else req.orderID)
        req with
    | error message =>
        simp only [valid] at answered
        exact answered rfl
    | ok order =>
        have registering := registerOrder_registering engine order
        simp only [valid, Except.toOption] at answered registered ⊢
        generalize registerOrder engine order = result
          at registering answered registered ⊢
        cases registering with
        | duplicate existing present =>
            exact answered (if_neg (by simp [present]))
        | noMarket _ absent => exact answered (if_neg (by simp [absent]))
        | short message market _ _ short =>
            exact answered (if_neg (by simp [short]))
        | registered market fresh hasMarket affords =>
            exact registered order market rfl fresh hasMarket affords rfl

theorem beginCommand_beginning (engine : Engine) (input : Input) :
    Beginning engine input (beginCommand engine input) := by
  obtain ⟨command, surroundings⟩ := input
  cases command with
  | createOrder payload =>
      cases payload with
      | none => exact .answered rfl
      | some req => exact createOrder_beginning engine surroundings req
  | cancelOrder _ => exact .answered rfl
  | getDepth _ => exact .answered rfl
  | getOpenOrders _ => exact .answered rfl
  | createEvent _ => exact .answered rfl
  | userCreated _ => exact .answered rfl
  | unknown _ => exact .answered rfl

inductive Opening (engine : Engine) (input : Input) : Engine × Begun → Prop
  | unchanged (response : EngineResponse) (idle : engine.Idle input) :
      Opening engine input (engine, .answered response)
  | opened (order : Order) (message : String)
      (submitted : input.order? = some order)
      (fresh : engine.orders.lookup order.id = none)
      (hasMarket : (engine.markets.lookup order.eventID).isSome = true)
      (short : ¬ engine.Affords order) :
      Opening engine input
        (engine.opened order, .answered (.failure message))
  | canceled (req : CancelOrderPayload) (order : Order) (market : Market)
      (requested : input.command = .cancelOrder (some req))
      (present : engine.orders.lookup req.orderID = some order)
      (live : order.status.live = true)
      (hasMarket : engine.markets.lookup order.eventID = some market)
      (chosen : engine.canceled? input = some order) :
      Opening engine input
        (engine.cancel market order,
          .answered (.successJSON (.orderStatus order.id .statusCanceled)))
  | marketCreated (eventID : String)
      (requested : input.command = .createEvent (some eventID))
      (absent : engine.markets.lookup eventID = none) :
      Opening engine input
        ({ engine with markets := engine.markets.insert eventID newMarket },
          .answered (.successJSON (.status "created")))
  | userFunded (userID : String)
      (requested : input.command = .userCreated (some userID))
      (absent : engine.balances.lookup userID = none) :
      Opening engine input
        ({ engine with
            balances := engine.balances.insert userID
              ⟨defaultStartingBalance, 0⟩ },
          .answered (.successJSON (.status "ok")))
  | registered (order : Order) (market : Market)
      (submitted : input.order? = some order)
      (fresh : engine.orders.lookup order.id = none)
      (hasMarket : engine.markets.lookup order.eventID = some market)
      (affords : engine.Affords order) :
      Opening engine input
        (engine.enrolled order, .registered (engine.registered order))

private theorem step_opening {engine : Engine} {input : Input}
    (unadmitted : engine.admitted? input = none) :
    Opening engine input
      ((engine.step input).engine,
        .answered (engine.step input).response) := by
  have effect := step_effect engine input
  generalize engine.step input = reply at effect ⊢
  cases effect with
  | unchanged response _ idle => exact .unchanged response idle
  | opened order message submitted fresh hasMarket short =>
      exact .opened order message submitted fresh hasMarket short
  | dropped order market submitted fresh hasMarket affords _ =>
      rw [admitted?_eq submitted fresh hasMarket affords] at unadmitted
      contradiction
  | accepted order market submitted fresh hasMarket affords _ =>
      rw [admitted?_eq submitted fresh hasMarket affords] at unadmitted
      contradiction
  | canceled req order market requested present live hasMarket chosen =>
      exact .canceled req order market requested present live hasMarket chosen
  | marketCreated eventID requested absent _ =>
      exact .marketCreated eventID requested absent
  | userFunded userID requested absent _ =>
      exact .userFunded userID requested absent

theorem beginCommand_opening (engine : Engine) (input : Input) :
    Opening engine input (beginCommand engine input) := by
  have beginning := beginCommand_beginning engine input
  generalize beginCommand engine input = result at beginning ⊢
  cases beginning with
  | answered unadmitted => exact step_opening unadmitted
  | registered order market submitted fresh hasMarket affords _ =>
      exact .registered order market submitted fresh hasMarket affords

/-! Any interleaving of the sections of any number of commands. Announcements
succeed. -/

inductive SectionEvent where
  | begin (input : Input)
  | finish (orderID : String)

/-- The engine, the commands between their two sections with the orders they
have registered, the commands answered with their success, and the trades; all
in the order in which they came. -/
structure Interleaved where
  engine : Engine
  pending : List (Input × Order)
  answered : List (Input × Bool)
  trades : List Trade

def Interleaved.start (engine : Engine) : Interleaved := ⟨engine, [], [], []⟩

namespace Interleaved

def begin (state : Interleaved) (input : Input) : Interleaved :=
  match beginCommand state.engine input with
  | (engine, .answered response) =>
      { state with
        engine := engine
        answered := state.answered ++ [(input, response.success)] }
  | (engine, .registered order) =>
      { state with
        engine := engine
        pending := state.pending ++ [(input, order)] }

def waiting? (state : Interleaved) (orderID : String) :
    Option (Input × Order) :=
  state.pending.find? fun waiting => waiting.2.id = orderID

def finish (state : Interleaved) (orderID : String) : Interleaved :=
  match state.waiting? orderID with
  | none => state
  | some waiting =>
      let reply := announceAndMatch state.engine waiting.2 true
      { engine := reply.engine
        pending := state.pending.erase waiting
        answered := state.answered ++ [(waiting.1, reply.response.success)]
        trades := state.trades ++ reply.trades }

def step (state : Interleaved) : SectionEvent → Interleaved
  | .begin input => state.begin input
  | .finish orderID => state.finish orderID

def run (state : Interleaved) (events : List SectionEvent) : Interleaved :=
  runFrom step state events

end Interleaved

def runInterleaved (balances positions : Accounts String)
    (events : List SectionEvent) : Interleaved :=
  (Interleaved.start (Engine.seeded balances positions)).run events

/-! The second section. -/

section Finish

variable (engine : Engine) (order : Order) (market : Market)

/-- The walk along the other side of the order's book. -/
def Engine.walk : Matching × List Order :=
  matchAgainstBook
    (engine.load ((market.book order.outcome).slice order.side.opposite))
    order

def Engine.walker : Order :=
  { (engine.walk order market).1.incoming with
    status := (engine.walk order market).1.incoming.statusAfterMatch }

def Engine.stored : Engine :=
  engine.storeMatch market (engine.walk order market).1
    (engine.walk order market).2 (engine.walker order market)

/-- The engine after settlement. An order that does not rest gives back what it
still locks. -/
def Engine.finished : Engine :=
  let settled :=
    settleAll (engine.stored order market) (engine.walk order market).1.trades
  if (engine.walker order market).status = .statusFilled ∨
      (engine.walker order market).status = .statusCanceled then
    settled.release order.id
  else
    settled

end Finish

inductive Finishing (engine : Engine) (orderID : String) :
    Engine × List Trade → Prop
  | absent (absent : engine.orders.lookup orderID = none) :
      Finishing engine orderID (engine, [])
  | canceled (order : Order)
      (present : engine.orders.lookup orderID = some order)
      (canceled : order.status = .statusCanceled) :
      Finishing engine orderID (engine, [])
  | rejected (order : Order)
      (present : engine.orders.lookup orderID = some order)
      (notCanceled : order.status ≠ .statusCanceled)
      (noMarket : engine.markets.lookup order.eventID = none) :
      Finishing engine orderID
        (engine.putOrder { order with status := .statusRejected }, [])
  | matched (order : Order) (market : Market)
      (present : engine.orders.lookup orderID = some order)
      (notCanceled : order.status ≠ .statusCanceled)
      (hasMarket : engine.markets.lookup order.eventID = some market) :
      Finishing engine orderID
        (engine.finished order market, (engine.walk order market).1.trades)

theorem matchOrder_finishing {engine : Engine} (keyed : engine.Keyed)
    (orderID : String) :
    Finishing engine orderID (matchOrder engine orderID) := by
  unfold matchOrder
  cases present : engine.orders.lookup orderID with
  | none => exact .absent present
  | some order =>
      simp only
      split
      · rename_i canceled
        exact .canceled order present canceled
      · rename_i notCanceled
        cases hasMarket : engine.markets.lookup order.eventID with
        | none => exact .rejected order present notCanceled hasMarket
        | some market =>
            have matched := Finishing.matched order market present notCanceled
              hasMarket
            have ownID := keyed orderID order present
            simp only [Engine.finished, ownID] at matched ⊢
            split
            · rename_i gone
              rw [if_pos (show (engine.walker order market).status = _ ∨
                (engine.walker order market).status = _ from gone)] at matched
              exact matched
            · rename_i rests
              rw [if_neg (show ¬ ((engine.walker order market).status = _ ∨
                (engine.walker order market).status = _) from rests)]
                at matched
              exact matched

theorem matchOrder_canceled {engine : Engine} {orderID : String}
    {order : Order} (present : engine.orders.lookup orderID = some order)
    (canceled : order.status = .statusCanceled) :
    matchOrder engine orderID = (engine, []) := by
  simp only [matchOrder, present, canceled, if_true]

theorem matchOrder_matched {engine : Engine} (keyed : engine.Keyed)
    {orderID : String} {order : Order} {market : Market}
    (present : engine.orders.lookup orderID = some order)
    (notCanceled : order.status ≠ .statusCanceled)
    (hasMarket : engine.markets.lookup order.eventID = some market) :
    matchOrder engine orderID =
      (engine.finished order market,
        (engine.walk order market).1.trades) := by
  have finishing := matchOrder_finishing keyed orderID
  generalize matchOrder engine orderID = result at finishing ⊢
  cases finishing with
  | absent absent =>
      rw [present] at absent
      contradiction
  | canceled found foundPresent canceled =>
      rw [present] at foundPresent
      cases foundPresent
      contradiction
  | rejected found foundPresent _ noMarket =>
      rw [present] at foundPresent
      cases foundPresent
      rw [hasMarket] at noMarket
      contradiction
  | matched found foundMarket foundPresent _ foundHas =>
      rw [present] at foundPresent
      cases foundPresent
      rw [hasMarket] at foundHas
      cases foundHas
      rfl

end Predix
