import Predix.Api.Price
import Predix.Database.Capacity
import Predix.Database.Conserved

namespace Predix

open Data Word

/-! The API's handler of order requests, and the envelope that its orders put
in the event stream. -/

/-- The body of a request. The price is the decimal that the body gives. -/
structure CreateOrderRequest where
  orderID : String
  eventID : String
  orderType : String
  outcome : String
  side : String
  quantity : Int64
  price : Rat
  deriving DecidableEq, Repr

/-- The price as the decoder gives it, a float64. -/
def CreateOrderRequest.decodedPrice (req : CreateOrderRequest) : ℚ :=
  float64.round req.price

structure CreateOrderRequest.Binds (req : CreateOrderRequest) : Prop where
  eventID : req.eventID ≠ ""
  orderType : req.orderType = "LIMIT" ∨ req.orderType = "MARKET"
  outcome : req.outcome = "YES" ∨ req.outcome = "NO"
  side : req.side = "BUY" ∨ req.side = "SELL"
  quantity : 0 < req.quantity
  finite : Float64.Finite req.decodedPrice
  price : req.decodedPrice ≠ 0 → 0 < req.decodedPrice

instance (req : CreateOrderRequest) : Decidable req.Binds :=
  decidable_of_iff
    (req.eventID ≠ "" ∧ (req.orderType = "LIMIT" ∨ req.orderType = "MARKET") ∧
      (req.outcome = "YES" ∨ req.outcome = "NO") ∧
      (req.side = "BUY" ∨ req.side = "SELL") ∧ 0 < req.quantity ∧
      Float64.Finite req.decodedPrice ∧
      (req.decodedPrice ≠ 0 → 0 < req.decodedPrice))
    ⟨fun ⟨eventID, orderType, outcome, side, quantity, finite, price⟩ =>
      ⟨eventID, orderType, outcome, side, quantity, finite, price⟩,
    fun ⟨eventID, orderType, outcome, side, quantity, finite, price⟩ =>
      ⟨eventID, orderType, outcome, side, quantity, finite, price⟩⟩

/-- The handler up to the command it sends. The events table is given by the
flag of its rows; the text of a binding error is left out. -/
def createOrder [UUID.Parser]
    (events : UUID → Option Bool) (userID : Option String)
    (newUUID : UUID) (req : CreateOrderRequest) :
    Except String CreateOrderPayload := do
  let userID ← present "unauthorized" userID
  require req.Binds "binding"
  require (¬ (req.orderType = "LIMIT" ∧ req.decodedPrice ≤ 0))
    "price is required for LIMIT orders"
  let eventID ← present "invalid event ID" (UUID.parse req.eventID)
  let active ← present "event not found or not active" (events eventID)
  require (active = true) "event is not active"
  return {
    orderID := if req.orderID = "" then newUUID.text else req.orderID
    eventID := req.eventID
    userID := userID
    orderType := req.orderType
    outcome := req.outcome
    side := req.side
    quantity := req.quantity
    price := scalePrice req.decodedPrice }

/-- The request gives an id that is a UUID or none, and its amounts fit their
columns. -/
structure CreateOrderRequest.Storable [UUID.Parser]
    (req : CreateOrderRequest) : Prop where
  orderID : req.orderID = "" ∨ UUID.parse req.orderID ≠ none
  quantity : req.quantity.toInt < 1000000000000
  priceNonneg : 0 ≤ (scalePrice req.decodedPrice).toInt
  price : (scalePrice req.decodedPrice).toInt < 10000000000000000

/-! The orders of the engine. -/

private theorem orderCreated_mem {engine : Engine} {input : Input}
    {order : Order}
    (emitted : .orderCreated order ∈ (engine.step input).events) :
    ∃ submitted, input.order? = some submitted ∧
      order = engine.registered submitted := by
  have effect := step_effect engine input
  generalize engine.step input = reply at emitted effect
  cases effect with
  | unchanged | opened | marketCreated | userFunded => cases emitted
  | dropped submitted _ isSubmitted =>
      cases List.mem_singleton.mp emitted
      exact ⟨submitted, isSubmitted, rfl⟩
  | accepted submitted _ isSubmitted =>
      rcases List.mem_cons.mp emitted with own | trade
      · cases own
        exact ⟨submitted, isSubmitted, rfl⟩
      · obtain ⟨_, _, impossible⟩ := List.mem_map.mp trade
        cases impossible
  | canceled => cases List.mem_singleton.mp emitted

theorem createOrder_ok [UUID.Parser]
    {events : UUID → Option Bool} {userID : Option String}
    {newUUID : UUID} {req : CreateOrderRequest} {payload : CreateOrderPayload}
    (accepted : createOrder events userID newUUID req = .ok payload) :
    userID = some payload.userID ∧ payload.eventID = req.eventID ∧
      payload.orderID =
        (if req.orderID = "" then newUUID.text else req.orderID) ∧
      payload.quantity = req.quantity ∧
      payload.price = scalePrice req.decodedPrice := by
  simp only [createOrder, bind_ok, present_ok, require_ok, pure_ok] at accepted
  obtain ⟨user, isUser, _, _, _, _, _, _, _, _, _, _, rfl⟩ := accepted
  exact ⟨isUser, rfl, rfl, rfl, rfl⟩

private theorem validateOrder_amounts {orderID : String}
    {req : CreateOrderPayload}
    {order : Order} (valid : validateOrder orderID req = .ok order) :
    order.quantity = req.quantity ∧ order.price = req.price := by
  unfold validateOrder at valid
  repeat' split at valid
  all_goals first
    | cases valid
      exact ⟨rfl, rfl⟩
    | cases valid

theorem order?_of_payload {payload : CreateOrderPayload}
    {surroundings : Surroundings} {order : Order}
    (submitted : Input.order? ⟨.createOrder (some payload), surroundings⟩ =
      some order) :
    validateOrder (if payload.orderID = "" then surroundings.newUUID
      else payload.orderID) payload = .ok order := by
  cases valid : validateOrder (if payload.orderID = "" then
      surroundings.newUUID else payload.orderID) payload with
  | error message =>
      simp only [Input.order?, valid] at submitted
      cases submitted
  | ok found =>
      simp only [Input.order?, valid] at submitted
      cases submitted
      rfl

/-- An order that the API and the engine accept is processed by the worker just
if the request was storable. -/
theorem orderCreated_processed_iff [UUID.Parser] {events : UUID → Option Bool}
    {userID : Option String} {newUUID : UUID} {req : CreateOrderRequest}
    {payload : CreateOrderPayload}
    (accepted : createOrder events userID newUUID req = .ok payload)
    {engine : Engine} {surroundings : Surroundings} {order : Order}
    (emitted : .orderCreated order ∈
      (engine.step ⟨.createOrder (some payload), surroundings⟩).events)
    {db : Database} {user event : UUID}
    (isUser : userID.bind UUID.parse = some user)
    (hasUser : db.users.lookup user ≠ none)
    (isEvent : UUID.parse req.eventID = some event)
    (hasEvent : db.events.lookup event ≠ none)
    {counter : Option Nat} {envelope : EventEnvelope} {token : Nat}
    (stamped : Stamps token (.orderCreated order) envelope)
    (current : ¬ envelope.Stale counter) :
    (∃ later, db.handleEnvelope counter envelope = .ok later) ↔
      req.Storable := by
  obtain ⟨userIs, eventIs, idIs, quantityIs, priceIs⟩ := createOrder_ok accepted
  obtain ⟨submitted, isSubmitted, rfl⟩ := orderCreated_mem emitted
  have valid := order?_of_payload isSubmitted
  have named : payload.orderID ≠ "" := by
    rw [idIs]
    split
    · exact newUUID.text_ne_empty
    · assumption
  rw [if_neg named] at valid
  obtain ⟨isNew, isID, sameEvent, sameUser⟩ := validateOrder_submitted valid
  obtain ⟨sameQuantity, samePrice⟩ := validateOrder_amounts valid
  have parses : (∃ id, UUID.parse payload.orderID = some id) ↔
      req.orderID = "" ∨ UUID.parse req.orderID ≠ none := by
    rw [idIs, ← Option.ne_none_iff_exists']
    split
    · rename_i absent
      simp [absent, UUID.parse_text]
    · rename_i given
      simp [given]
  obtain ⟨_, tradeID, isData⟩ := stamped
  rw [Database.handleEnvelope_accepted db current, isData]
  change (∃ later, db.handleOrderCreated (some submitted.data) = .ok later) ↔ _
  have eventParsed : UUID.parse submitted.data.eventID = some event := by
    change UUID.parse submitted.eventID = _
    rw [sameEvent, eventIs]
    exact isEvent
  have userParsed : UUID.parse submitted.data.userID = some user := by
    change UUID.parse submitted.userID = _
    rw [sameUser]
    rw [userIs] at isUser
    exact isUser
  rw [Database.handleOrderCreated_ok_iff eventParsed userParsed hasEvent hasUser]
  change (∃ id row, UUID.parse submitted.id = some id ∧ _) ↔ _
  simp only [exists_and_left, row_ok_iff isNew, exists_and_right]
  rw [isID, parses, sameQuantity, samePrice, quantityIs, priceIs]
  exact ⟨fun ⟨orderID, quantity, nonneg, price⟩ =>
      ⟨orderID, quantity, nonneg, price⟩,
    fun ⟨orderID, quantity, nonneg, price⟩ =>
      ⟨orderID, quantity, nonneg, price⟩⟩

def buyRequest (orderID : String) : CreateOrderRequest :=
  ⟨orderID, (shortID 3).text, "LIMIT", "YES", "BUY", 2, 1 / 2⟩

def buyOrder (orderID : String) : Order where
  id := orderID
  eventID := (shortID 3).text
  userID := (shortID 1).text
  orderType := .orderTypeLimit
  outcome := .outcomeYes
  side := .sideBuy
  quantity := 2
  filledQuantity := 0
  remainingQuantity := 2
  price := 5000
  status := .statusPending
  lockedFunds := 10000

def buyPayload (orderID : String) : CreateOrderPayload :=
  ⟨orderID, (shortID 3).text, (shortID 1).text, "LIMIT", "YES", "BUY", 2, 5000⟩

def oneEvent (id : UUID) : Option Bool :=
  if id = shortID 3 then some true else none

def fundedEngine : Engine :=
  ((Engine.seeded (Finmap.insert (shortID 1).text ⟨1000000, 0⟩ ∅) ∅).step
    (.createEvent (shortID 3).text)).engine

/-- A request without an id. -/
theorem buyRequest_processed :
    ∃ later, emptyTables.handleEnvelope (some 1) (Event.stamped 1 (shortID 6)
      (.orderCreated (buyOrder (shortID 4).text))) = .ok later := by
  have accepted : createOrder oneEvent (some (shortID 1).text) (shortID 4)
      (buyRequest "") = .ok (buyPayload (shortID 4).text) := by
    decide +kernel
  have emitted : .orderCreated (buyOrder (shortID 4).text) ∈
      (fundedEngine.step ⟨.createOrder (some (buyPayload (shortID 4).text)),
        ⟨"", true⟩⟩).events := by
    decide +kernel
  apply (orderCreated_processed_iff accepted emitted
    (UUID.parse_text (shortID 1)) ?_ (UUID.parse_text (shortID 3)) ?_
    ⟨rfl, shortID 6, rfl⟩ ?_).mpr
  · exact ⟨.inl rfl, by decide, by decide +kernel, by decide +kernel⟩
  · decide +kernel
  · decide +kernel
  · rintro ⟨_, current, isCurrent, older⟩
    cases isCurrent
    exact Nat.lt_irrefl 1 older

/-- A request whose id is not a UUID: the API and the engine accept it, and the
worker stops at its envelope. -/
theorem buyRequest_stopsWorker :
    createOrder oneEvent (some (shortID 1).text) (shortID 4) (buyRequest "abc") =
        .ok (buyPayload "abc") ∧
      (fundedEngine.step
        ⟨.createOrder (some (buyPayload "abc")), ⟨"", true⟩⟩).response =
          .successJSON (.orderAccepted "abc" .statusPending 0 2) ∧
      .orderCreated (buyOrder "abc") ∈ (fundedEngine.step
        ⟨.createOrder (some (buyPayload "abc")), ⟨"", true⟩⟩).events ∧
      ∀ later, emptyTables.handleEnvelope (some 1) (Event.stamped 1 (shortID 6)
        (.orderCreated (buyOrder "abc"))) ≠ .ok later := by
  refine ⟨by decide +kernel, by decide +kernel, by decide +kernel, ?_⟩
  intro later done
  have refused : (emptyTables.handleEnvelope (some 1) (Event.stamped 1
      (shortID 6) (.orderCreated (buyOrder "abc")))).toOption.isNone = true := by
    decide +kernel
  rw [done] at refused
  cases refused

end Predix
