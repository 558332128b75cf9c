import Predix.Engine.Run

namespace Predix

open Data Word

/-! What one command can do to the engine, said once. -/

def Input.order? (input : Input) : Option Order :=
  match input.command with
  | .createOrder (some req) =>
      (validateOrder
        (if req.orderID = "" then input.surroundings.newUUID
          else req.orderID) req).toOption
  | _ => none

structure Order.Submitted (order : Order) : Prop where
  quantity : 0 < order.quantity.toInt
  remaining : order.remainingQuantity = order.quantity
  filled : order.filledQuantity = 0
  status : order.status = .statusPending
  locked : order.lockedFunds = 0
  price : order.orderType = .orderTypeLimit → 0 < order.price.toInt

theorem validateOrder_submitted {orderID : String}
    {req : CreateOrderPayload} {order : Order}
    (valid : validateOrder orderID req = .ok order) :
    order.Submitted ∧ order.id = orderID ∧ order.eventID = req.eventID ∧
      order.userID = req.userID := by
  unfold validateOrder at valid
  split at valid
  · contradiction
  split at valid
  · contradiction
  split at valid
  · contradiction
  rename_i quantity
  split at valid
  · contradiction
  split at valid
  · contradiction
  split at valid
  · contradiction
  split at valid
  · contradiction
  rename_i price
  cases valid
  rw [le_zero_iff] at quantity
  rw [le_zero_iff] at price
  refine ⟨⟨Int.not_le.mp quantity, rfl, rfl, rfl, rfl, ?_⟩, rfl, rfl, rfl⟩
  intro limit
  have notNonpositive := fun nonpositive => price ⟨limit, nonpositive⟩
  exact Int.not_le.mp notNonpositive

theorem validateOrder_quantity {orderID : String}
    {req : CreateOrderPayload} (nonpositive : req.quantity ≤ 0) :
    (validateOrder orderID req).toOption = none := by
  unfold validateOrder
  split
  · rfl
  split
  · rfl
  rfl

theorem Input.order?_submitted {input : Input} {order : Order}
    (submitted : input.order? = some order) : order.Submitted := by
  unfold Input.order? at submitted
  split at submitted
  · rename_i req _
    cases valid : validateOrder
        (if req.orderID = "" then input.surroundings.newUUID
          else req.orderID) req with
    | error message =>
        rw [valid] at submitted
        contradiction
    | ok accepted =>
        rw [valid] at submitted
        cases submitted
        exact (validateOrder_submitted valid).1
  · contradiction

theorem Input.order?_command {input : Input} {order : Order}
    (submitted : input.order? = some order) :
    ∃ payload, input.command = .createOrder (some payload) := by
  unfold Input.order? at submitted
  split at submitted
  · exact ⟨_, by assumption⟩
  · contradiction

/-- The same markets, books and orders, and the same balances and positions,
an absent entry counting as zero. -/
structure Engine.Agrees (first second : Engine) : Prop where
  markets : first.markets = second.markets
  orders : first.orders = second.orders
  balances : ∀ userID,
    first.balances.account userID = second.balances.account userID
  positions : ∀ key,
    first.positions.account key = second.positions.account key

/-! The reservation. -/

def Engine.cost (engine : Engine) (order : Order) : Int64 :=
  reservationCost order (engine.balances.account order.userID).available

/-- The reservation of an order goes through. -/
def Engine.Affords (engine : Engine) (order : Order) : Prop :=
  match order.side with
  | .sideBuy =>
      engine.cost order ≤ (engine.balances.account order.userID).available
  | .sideSell =>
      order.remainingQuantity ≤
        (engine.positions.account order.positionKey).available

instance (engine : Engine) (order : Order) :
    Decidable (engine.Affords order) := by
  unfold Engine.Affords
  split <;> infer_instance

def Engine.lockFor (engine : Engine) (order : Order) : Int64 :=
  match order.side with
  | .sideBuy => engine.cost order
  | .sideSell => order.remainingQuantity

/-- The ledger with an order's reservation frozen. -/
def Engine.frozen (engine : Engine) (order : Order) : Engine :=
  match order.side with
  | .sideBuy =>
      engine.updateBalance order.userID (·.freeze (engine.cost order))
  | .sideSell =>
      engine.updatePosition order.positionKey
        (·.freeze order.remainingQuantity)

/-- The ledger after a refused reservation: the account is opened. -/
def Engine.opened (engine : Engine) (order : Order) : Engine :=
  match order.side with
  | .sideBuy => engine.updateBalance order.userID id
  | .sideSell => engine.updatePosition order.positionKey id

theorem reserveOrderLocked_of_affords {engine : Engine} {order : Order}
    (affords : engine.Affords order) :
    reserveOrderLocked engine order =
      (engine.frozen order,
        .ok { order with lockedFunds := engine.lockFor order }) := by
  unfold Engine.Affords at affords
  unfold reserveOrderLocked Engine.frozen Engine.lockFor
  cases side : order.side with
  | sideBuy =>
      simp only [side] at affords ⊢
      have notMore : ¬ reservationCost order
          (engine.balances.account order.userID).available >
            (engine.balances.account order.userID).available := by
        rw [Engine.cost, Int64.le_iff_toInt_le] at affords
        rw [gt_iff_lt, Int64.lt_iff_toInt_lt]
        omega
      rw [if_neg notMore]
      rfl
  | sideSell =>
      simp only [side] at affords ⊢
      have notLess : ¬ (engine.positions.account order.positionKey).available <
          order.remainingQuantity := by
        rw [Int64.le_iff_toInt_le] at affords
        rw [Int64.lt_iff_toInt_lt]
        omega
      rw [if_neg notLess]

def Order.shortage (order : Order) : String :=
  match order.side with
  | .sideBuy => errInsufficientFunds
  | .sideSell => errInsufficientShares

theorem reserveOrderLocked_of_not_affords {engine : Engine} {order : Order}
    (short : ¬ engine.Affords order) :
    reserveOrderLocked engine order =
      (engine.opened order, .error order.shortage) := by
  unfold Engine.Affords at short
  unfold reserveOrderLocked Engine.opened Order.shortage
  cases side : order.side with
  | sideBuy =>
      simp only [side] at short ⊢
      have more : reservationCost order
          (engine.balances.account order.userID).available >
            (engine.balances.account order.userID).available := by
        rw [Engine.cost, Int64.le_iff_toInt_le] at short
        rw [gt_iff_lt, Int64.lt_iff_toInt_lt]
        omega
      rw [if_pos more]
  | sideSell =>
      simp only [side] at short ⊢
      have less : (engine.positions.account order.positionKey).available <
          order.remainingQuantity := by
        rw [Int64.le_iff_toInt_le] at short
        rw [Int64.lt_iff_toInt_lt]
        omega
      rw [if_pos less]

section Frozen

variable (engine : Engine) (order : Order)

@[simp] theorem frozen_markets :
    (engine.frozen order).markets = engine.markets := by
  unfold Engine.frozen
  split <;> rfl

@[simp] theorem frozen_orders :
    (engine.frozen order).orders = engine.orders := by
  unfold Engine.frozen
  split <;> rfl

@[simp] theorem opened_markets :
    (engine.opened order).markets = engine.markets := by
  unfold Engine.opened
  split <;> rfl

@[simp] theorem opened_orders :
    (engine.opened order).orders = engine.orders := by
  unfold Engine.opened
  split <;> rfl

end Frozen

def Engine.registered (engine : Engine) (order : Order) : Order :=
  { order with lockedFunds := engine.lockFor order }

/-- The state between the two critical sections of CREATE_ORDER. -/
def Engine.enrolled (engine : Engine) (order : Order) : Engine :=
  (engine.frozen order).putOrder (engine.registered order)

inductive Registering (engine : Engine) (order : Order) :
    Engine × Registration → Prop
  | duplicate (existing : Order)
      (present : engine.orders.lookup order.id = some existing) :
      Registering engine order (engine, .duplicate existing)
  | noMarket (fresh : engine.orders.lookup order.id = none)
      (absent : engine.markets.lookup order.eventID = none) :
      Registering engine order (engine, .refused errEventNotFound)
  | short (message : String) (market : Market)
      (fresh : engine.orders.lookup order.id = none)
      (hasMarket : engine.markets.lookup order.eventID = some market)
      (short : ¬ engine.Affords order) :
      Registering engine order (engine.opened order, .refused message)
  | registered (market : Market)
      (fresh : engine.orders.lookup order.id = none)
      (hasMarket : engine.markets.lookup order.eventID = some market)
      (affords : engine.Affords order) :
      Registering engine order
        (engine.enrolled order, .registered (engine.registered order))

theorem registerOrder_registering (engine : Engine) (order : Order) :
    Registering engine order (registerOrder engine order) := by
  unfold registerOrder
  cases fresh : engine.orders.lookup order.id with
  | some existing => exact .duplicate existing fresh
  | none =>
      cases hasMarket : engine.markets.lookup order.eventID with
      | none => exact .noMarket fresh hasMarket
      | some market =>
          by_cases affords : engine.Affords order
          · simp only [reserveOrderLocked_of_affords affords]
            exact .registered market fresh hasMarket affords
          · simp only [reserveOrderLocked_of_not_affords affords]
            exact .short order.shortage market fresh hasMarket affords

/-- The order a command gets past the reservation, if any. -/
def Engine.admitted? (engine : Engine) (input : Input) : Option Order :=
  match input.order? with
  | none => none
  | some order =>
      if engine.orders.lookup order.id = none ∧
          (engine.markets.lookup order.eventID).isSome = true ∧
          engine.Affords order then
        some order
      else
        none

theorem admitted?_eq {engine : Engine} {input : Input} {order : Order}
    {market : Market} (submitted : input.order? = some order)
    (fresh : engine.orders.lookup order.id = none)
    (hasMarket : engine.markets.lookup order.eventID = some market)
    (affords : engine.Affords order) :
    engine.admitted? input = some order := by
  have isSome : (engine.markets.lookup order.eventID).isSome = true := by
    rw [hasMarket]
    rfl
  simp only [Engine.admitted?, submitted]
  exact if_pos ⟨fresh, isSome, affords⟩

theorem admitted?_spec {engine : Engine} {input : Input} {order : Order}
    (admitted : engine.admitted? input = some order) :
    input.order? = some order ∧ engine.orders.lookup order.id = none ∧
      (∃ market, engine.markets.lookup order.eventID = some market) ∧
      engine.Affords order := by
  unfold Engine.admitted? at admitted
  split at admitted
  · contradiction
  · rename_i found submitted
    split at admitted
    · rename_i passes
      obtain ⟨fresh, isSome, affords⟩ := passes
      cases admitted
      exact ⟨submitted, fresh, Option.isSome_iff_exists.mp isSome, affords⟩
    · contradiction

theorem admitted?_of_other {engine : Engine} {input : Input}
    (noOrder : input.order? = none) : engine.admitted? input = none := by
  unfold Engine.admitted?
  rw [noOrder]

/-- The order a command cancels, if any. -/
def Engine.canceled? (engine : Engine) (input : Input) : Option Order :=
  match input.command with
  | .cancelOrder (some req) =>
      match engine.orders.lookup req.orderID with
      | none => none
      | some order =>
          if req.orderID ≠ "" ∧
              (req.eventID = "" ∨ order.eventID = req.eventID) ∧
              order.status.live = true then
            some order
          else
            none
  | _ => none

/-- A command that finds nothing to do: an order that is invalid, registered or
without a market, an order that is not open, an event or a user that exists, a
query. -/
def Engine.Idle (engine : Engine) (input : Input) : Prop :=
  match input.command with
  | .createOrder _ => ∀ order ∈ input.order?,
      engine.orders.lookup order.id ≠ none ∨
        engine.markets.lookup order.eventID = none
  | .cancelOrder _ => ∀ order ∈ engine.canceled? input,
      engine.markets.lookup order.eventID = none
  | .createEvent (some eventID) =>
      eventID = "" ∨ engine.markets.lookup eventID ≠ none
  | .userCreated (some userID) =>
      userID = "" ∨ engine.balances.lookup userID ≠ none
  | _ => True

theorem Engine.Idle.order {engine : Engine} {input : Input} {order : Order}
    (idle : engine.Idle input) (submitted : input.order? = some order) :
    engine.orders.lookup order.id ≠ none ∨
      engine.markets.lookup order.eventID = none := by
  obtain ⟨payload, requested⟩ := Input.order?_command submitted
  simp only [Engine.Idle, requested] at idle
  exact idle order submitted

theorem Engine.Idle.admitted? {engine : Engine} {input : Input}
    (idle : engine.Idle input) : engine.admitted? input = none := by
  by_contra admits
  obtain ⟨order, admitted⟩ := Option.ne_none_iff_exists'.mp admits
  obtain ⟨submitted, fresh, ⟨market, hasMarket⟩, _⟩ := admitted?_spec admitted
  rcases idle.order submitted with registered | noMarket
  · exact registered fresh
  · rw [hasMarket] at noMarket
    contradiction

/-- Everything one command can do. -/
inductive Effect (engine : Engine) (input : Input) : Reply → Prop
  | unchanged (response : EngineResponse)
      (notAccepted : response.accepted? = none)
      (idle : engine.Idle input) :
      Effect engine input (.unchanged engine response)
  | opened (order : Order) (message : String)
      (submitted : input.order? = some order)
      (fresh : engine.orders.lookup order.id = none)
      (hasMarket : (engine.markets.lookup order.eventID).isSome = true)
      (short : ¬ engine.Affords order) :
      Effect engine input
        (.unchanged (engine.opened order) (.failure message))
  | dropped (order : Order) (market : Market)
      (submitted : input.order? = some order)
      (fresh : engine.orders.lookup order.id = none)
      (hasMarket : engine.markets.lookup order.eventID = some market)
      (affords : engine.Affords order)
      (lost : input.surroundings.orderCreatedEmitted = false) :
      Effect engine input
        { engine := engine.frozen order
          response := .failure "failed to stream order creation"
          trades := []
          events := [.orderCreated (engine.registered order)] }
  | accepted (order : Order) (market : Market)
      (submitted : input.order? = some order)
      (fresh : engine.orders.lookup order.id = none)
      (hasMarket : engine.markets.lookup order.eventID = some market)
      (affords : engine.Affords order)
      (announced : input.surroundings.orderCreatedEmitted = true) :
      Effect engine input
        (announceAndMatch (engine.enrolled order) (engine.registered order) true)
  | canceled (req : CancelOrderPayload) (order : Order) (market : Market)
      (requested : input.command = .cancelOrder (some req))
      (present : engine.orders.lookup req.orderID = some order)
      (live : order.status.live = true)
      (hasMarket : engine.markets.lookup order.eventID = some market)
      (chosen : engine.canceled? input = some order) :
      Effect engine input
        { engine := engine.cancel market order
          response := .successJSON (.orderStatus order.id .statusCanceled)
          trades := []
          events := [.orderCanceled order.id] }
  | marketCreated (eventID : String)
      (requested : input.command = .createEvent (some eventID))
      (absent : engine.markets.lookup eventID = none)
      (named : eventID ≠ "") :
      Effect engine input
        (.unchanged
          { engine with markets := engine.markets.insert eventID newMarket }
          (.successJSON (.status "created")))
  | userFunded (userID : String)
      (requested : input.command = .userCreated (some userID))
      (absent : engine.balances.lookup userID = none)
      (named : userID ≠ "") :
      Effect engine input
        (.unchanged
          { engine with
            balances := engine.balances.insert userID
              ⟨defaultStartingBalance, 0⟩ }
          (.successJSON (.status "ok")))

private theorem createOrder_effect (engine : Engine)
    (surroundings : Surroundings) (payload : Option CreateOrderPayload) :
    Effect engine ⟨.createOrder payload, surroundings⟩
      (handleCreateOrder engine surroundings payload) := by
  have invalid : Input.order? ⟨.createOrder payload, surroundings⟩ = none →
      engine.Idle ⟨.createOrder payload, surroundings⟩ := by
    intro none order submitted
    rw [none] at submitted
    contradiction
  unfold handleCreateOrder
  cases payload with
  | none => exact .unchanged _ rfl (invalid rfl)
  | some req =>
      simp only
      split
      · rename_i nonpositive
        exact .unchanged _ rfl (invalid (validateOrder_quantity nonpositive))
      · cases valid : validateOrder
            (if req.orderID = "" then surroundings.newUUID
              else req.orderID) req with
        | error message =>
            apply Effect.unchanged _ rfl
            apply invalid
            simp only [Input.order?, valid]
            rfl
        | ok order =>
            have submitted : Input.order?
                ⟨.createOrder (some req), surroundings⟩ = some order := by
              simp only [Input.order?, valid]
              rfl
            have idle : engine.orders.lookup order.id ≠ none ∨
                engine.markets.lookup order.eventID = none →
                  engine.Idle ⟨.createOrder (some req), surroundings⟩ := by
              intro either other otherSubmitted
              rw [submitted] at otherSubmitted
              cases otherSubmitted
              exact either
            have registering := registerOrder_registering engine order
            simp only
            generalize registerOrder engine order = result at registering ⊢
            cases registering with
            | duplicate existing present =>
                exact .unchanged _ rfl (idle (.inl (by simp [present])))
            | noMarket _ absent => exact .unchanged _ rfl (idle (.inr absent))
            | short message market fresh hasMarket short =>
                exact .opened order message submitted fresh
                  (by rw [hasMarket]; rfl) short
            | registered market fresh hasMarket affords =>
                cases emitted : surroundings.orderCreatedEmitted with
                | true =>
                    exact .accepted order market submitted fresh hasMarket
                      affords emitted
                | false =>
                    have restored : ((engine.frozen order).orders.insert
                        order.id (engine.registered order)).erase order.id =
                          (engine.frozen order).orders := by
                      apply FiniteMap.erase_insert
                      rw [frozen_orders]
                      exact fresh
                    have dropped := @Effect.dropped engine
                      ⟨.createOrder (some req), surroundings⟩ order market
                      submitted fresh hasMarket affords emitted
                    simp only [announceAndMatch, Engine.enrolled,
                      Engine.putOrder, Bool.false_eq_true, if_false]
                    simp only [Engine.registered] at restored dropped ⊢
                    rw [restored]
                    exact dropped

private theorem cancelOrder_effect (engine : Engine)
    (surroundings : Surroundings) (payload : Option CancelOrderPayload) :
    Effect engine ⟨.cancelOrder payload, surroundings⟩
      (handleCancelOrder engine payload) := by
  have idle : engine.canceled? ⟨.cancelOrder payload, surroundings⟩ = none →
      engine.Idle ⟨.cancelOrder payload, surroundings⟩ := by
    intro none order chosen
    rw [none] at chosen
    contradiction
  unfold handleCancelOrder
  cases payload with
  | none => exact .unchanged _ rfl (idle rfl)
  | some req =>
      simp only
      by_cases noID : req.orderID = ""
      · rw [if_pos noID]
        apply Effect.unchanged _ rfl
        apply idle
        simp only [Engine.canceled?, noID]
        split <;> simp
      rw [if_neg noID]
      cases present : engine.orders.lookup req.orderID with
      | none =>
          apply Effect.unchanged _ rfl
          apply idle
          simp only [Engine.canceled?, present]
      | some order =>
          simp only
          have passes : engine.canceled?
              ⟨.cancelOrder (some req), surroundings⟩ =
                if req.orderID ≠ "" ∧
                    (req.eventID = "" ∨ order.eventID = req.eventID) ∧
                    order.status.live = true then some order
                else none := by
            simp only [Engine.canceled?, present]
          by_cases foreign : req.eventID ≠ "" ∧ order.eventID ≠ req.eventID
          · rw [if_pos foreign]
            apply Effect.unchanged _ rfl
            apply idle
            rw [passes]
            apply if_neg
            rintro ⟨_, anyEvent | sameEvent, _⟩
            · exact foreign.1 anyEvent
            · exact foreign.2 sameEvent
          rw [if_neg foreign]
          by_cases closed : order.status.live = false
          · rw [if_pos closed]
            apply Effect.unchanged _ rfl
            apply idle
            rw [passes, closed]
            exact if_neg (by simp)
          rw [if_neg closed]
          have live : order.status.live = true := by simpa using closed
          have belongs : req.eventID = "" ∨ order.eventID = req.eventID := by
            by_contra neither
            rw [not_or] at neither
            exact foreign neither
          have chosen : engine.canceled?
              ⟨.cancelOrder (some req), surroundings⟩ = some order := by
            rw [passes]
            exact if_pos ⟨noID, belongs, live⟩
          cases hasMarket : engine.markets.lookup order.eventID with
          | none =>
              apply Effect.unchanged _ rfl
              intro other otherChosen
              rw [chosen] at otherChosen
              cases otherChosen
              exact hasMarket
          | some market =>
              exact .canceled req order market rfl present live hasMarket
                chosen

theorem step_effect (engine : Engine) (input : Input) :
    Effect engine input (engine.step input) := by
  obtain ⟨command, surroundings⟩ := input
  cases command with
  | createOrder payload => exact createOrder_effect engine surroundings payload
  | cancelOrder payload => exact cancelOrder_effect engine surroundings payload
  | getDepth eventID =>
      simp only [Engine.step, handleMessage, handleGetDepth]
      cases eventID with
      | none => exact .unchanged _ rfl trivial
      | some eventID =>
          simp only
          split
          · exact .unchanged _ rfl trivial
          · exact .unchanged _ rfl trivial
  | getOpenOrders payload =>
      cases payload with
      | none => exact .unchanged _ rfl trivial
      | some req => exact .unchanged _ rfl trivial
  | createEvent eventID =>
      simp only [Engine.step, handleMessage, handleCreateEvent]
      cases eventID with
      | none => exact .unchanged _ rfl trivial
      | some eventID =>
          simp only
          split
          · rename_i noID
            exact .unchanged _ rfl (.inl noID)
          · rename_i named
            cases absent : engine.markets.lookup eventID with
            | some market =>
                exact .unchanged _ rfl (.inr (by simp [absent]))
            | none => exact .marketCreated eventID rfl absent named
  | userCreated userID =>
      simp only [Engine.step, handleMessage, handleUserCreated]
      cases userID with
      | none => exact .unchanged _ rfl trivial
      | some userID =>
          simp only
          split
          · rename_i noID
            exact .unchanged _ rfl (.inl noID)
          · rename_i named
            cases absent : engine.balances.lookup userID with
            | some balance =>
                exact .unchanged _ rfl (.inr (by simp [absent]))
            | none => exact .userFunded userID rfl absent named
  | unknown type => exact .unchanged _ rfl trivial

end Predix
