import Predix.Api.Orders
import Predix.Database.Redelivery
import Predix.Ledger.PlaceCancel
import Predix.Replay.Growth

namespace Predix

open Data

/-! Which order an id means. The engine keys its orders by the text a client
sent, the database by the UUID the text spells. -/

/-- The handler up to the command it sends. The order is named as the client
named it, its event as the row has it. -/
def deleteOrder [UUID.Parser]
    (db : Database) (userID : Option String) (orderID : String) :
    Except String CancelOrderPayload := do
  let userID ← present "unauthorized" userID
  let oid ← present "invalid order ID" (UUID.parse orderID)
  let order ← orElse "order not found" (db.getOrderByID oid)
  require (order.userID.text = userID)
    "you are not authorized to cancel this order"
  return {
    orderID := orderID
    eventID := order.eventID.text }

/-- A request to the API, with the ids it generates and the events it reads,
a command that comes from elsewhere, or a turn of the worker, with the id of
the trade it finds. -/
inductive BackendInput where
  | createEvent (eventID : UUID)
  | userCreated (userID : String)
  | createOrder (events : UUID → Option Bool) (userID : Option String)
      (newUUID : UUID) (req : CreateOrderRequest) (emitted : Bool)
  | deleteOrder (userID : Option String) (orderID : String)
  | work (tradeID : UUID)

/-- The engine, the tables, the events the worker has not processed yet, and
all trades so far. -/
structure Backend where
  engine : Engine
  db : Database
  stream : List Event
  trades : List Trade

namespace Backend

/-- The engine handles a command. Events whose emission fails do not get into
the stream. -/
def send (backend : Backend) (input : Input) : Backend :=
  let reply := backend.engine.step input
  { backend with
    engine := reply.engine
    stream :=
      if input.surroundings.orderCreatedEmitted then
        backend.stream ++ reply.events
      else
        backend.stream
    trades := backend.trades ++ reply.trades }

/-- The row of an event the engine refuses is deleted again. -/
def createEvent (backend : Backend) (eventID : UUID) : Backend :=
  let input := Input.createEvent eventID.text
  if (backend.engine.step input).response.success then
    { backend.send input with
      db := { backend.db with
        events := backend.db.events.insert eventID 0 } }
  else
    backend.send input

/-- The worker stays at an event it cannot process. -/
def work [UUID.Parser] (backend : Backend) (tradeID : UUID) : Backend :=
  match backend.stream with
  | [] => backend
  | event :: rest =>
      match backend.db.handleEvent (event.data tradeID) with
      | .error _ => backend
      | .ok later => { backend with db := later, stream := rest }

def step [UUID.Parser] (backend : Backend) : BackendInput → Backend
  | .createEvent eventID => backend.createEvent eventID
  | .userCreated userID =>
      backend.send ⟨.userCreated (some userID), ⟨"", true⟩⟩
  | .createOrder events userID newUUID req emitted =>
      match Predix.createOrder events userID newUUID req with
      | .error _ => backend
      | .ok payload =>
          backend.send ⟨.createOrder (some payload), ⟨"", emitted⟩⟩
  | .deleteOrder userID orderID =>
      match Predix.deleteOrder backend.db userID orderID with
      | .error _ => backend
      | .ok payload => backend.send ⟨.cancelOrder (some payload), ⟨"", true⟩⟩
  | .work tradeID => backend.work tradeID

def started (balances positions : Accounts String) (db : Database) : Backend :=
  ⟨Engine.seeded balances positions, { db with orders := ∅ }, [], []⟩

def run [UUID.Parser]
    (backend : Backend) (inputs : List BackendInput) : Backend :=
  runFrom step backend inputs

end Backend

/-! What it means to agree. -/

def Engine.OneOrder (engine : Engine) (left right : String) : Prop :=
  ∃ order, engine.orders.lookup left = some order ∧
    engine.orders.lookup right = some order

def Database.OneRow [UUID.Parser]
    (db : Database) (left right : String) : Prop :=
  ∃ uuid, UUID.parse left = some uuid ∧ UUID.parse right = some uuid ∧
    db.orders.lookup uuid ≠ none

def Trade.orderIDs (trade : Trade) : List String :=
  [trade.orderID, trade.matchOrderID]

namespace Backend

def Cancels [UUID.Parser]
    (backend : Backend) (userID : Option String) (orderID id : String) :
    Prop :=
  ∃ order, (backend.step (.deleteOrder userID orderID)).engine.orders.lookup id =
    some order ∧ order.status = .statusCanceled

/-- Ids that both have taken up mean one order to the engine just if they mean
one row to the database, no row is filled for two orders, and the owner of an
open order cancels it just by the text the engine knows it by. -/
structure Agrees [UUID.Parser] (backend : Backend) : Prop where
  orders : ∀ {left right}, backend.engine.orders.lookup left ≠ none →
    backend.engine.orders.lookup right ≠ none →
      backend.db.row? left ≠ none → backend.db.row? right ≠ none →
        (backend.engine.OneOrder left right ↔ backend.db.OneRow left right)
  fills : ∀ first ∈ backend.trades, ∀ second ∈ backend.trades,
    ∀ left ∈ first.orderIDs, ∀ right ∈ second.orderIDs,
      UUID.parse left ≠ none → UUID.parse left = UUID.parse right →
        left = right
  deletes : ∀ {userID orderID payload},
    deleteOrder backend.db userID orderID = .ok payload →
      ∀ {id order}, backend.engine.orders.lookup id = some order →
        UUID.parse id = UUID.parse orderID → order.status.live = true →
          (backend.Cancels userID orderID id ↔ orderID = id)

/-- An order that the engine admits has an id that is no other spelling of the
id of one it has. -/
def Unaliased [UUID.Parser] (backend : Backend) : BackendInput → Prop
  | .createOrder events userID newUUID req emitted =>
      emitted = true →
      ∀ payload ∈ (createOrder events userID newUUID req).toOption,
        ∀ order ∈ backend.engine.admitted?
            ⟨.createOrder (some payload), ⟨"", emitted⟩⟩,
          ∀ id ∈ backend.engine.orders.keys,
            UUID.parse id ≠ none → UUID.parse id ≠ UUID.parse order.id
  | _ => True

instance [UUID.Parser] (backend : Backend) : (input : BackendInput) →
    Decidable (backend.Unaliased input)
  | .createOrder events userID newUUID req emitted =>
      inferInstanceAs (Decidable (emitted = true →
        ∀ payload ∈ (Predix.createOrder events userID newUUID req).toOption,
          ∀ order ∈ backend.engine.admitted?
              ⟨.createOrder (some payload), ⟨"", emitted⟩⟩,
            ∀ id ∈ backend.engine.orders.keys,
              UUID.parse id ≠ none → UUID.parse id ≠ UUID.parse order.id))
  | .createEvent _ => .isTrue trivial
  | .userCreated _ => .isTrue trivial
  | .deleteOrder _ _ => .isTrue trivial
  | .work _ => .isTrue trivial

end Backend

/-! What a command can register, announce and trade. -/

def Engine.HasOrder (engine : Engine) (id eventID : String) : Prop :=
  ∃ order, engine.orders.lookup id = some order ∧ order.eventID = eventID

section Step

variable {engine : Engine} {input : Input}

private theorem market_before (wellFormed : WellFormed engine)
    {eventID : String}
    {market : Market}
    (present : (engine.step input).engine.markets.lookup eventID = some market) :
    (∃ old, engine.markets.lookup eventID = some old) ∨
      input.command = .createEvent (some eventID) := by
  have effect := step_effect engine input
  generalize engine.step input = reply at effect present
  cases effect with
  | unchanged => exact .inl ⟨market, present⟩
  | opened order =>
      simp only [Reply.unchanged, opened_markets] at present
      exact .inl ⟨market, present⟩
  | dropped order =>
      simp only [frozen_markets] at present
      exact .inl ⟨market, present⟩
  | accepted order own submitted fresh hasMarket =>
      have valid := Input.order?_submitted submitted
      rw [announceAndMatch_enrolled wellFormed valid fresh hasMarket] at present
      change (engine.matched order own).markets.lookup eventID = _ at present
      rw [(matched_sameUpToLocks wellFormed valid fresh hasMarket).markets,
        walked_markets wellFormed fresh hasMarket, FiniteMap.lookup_insert_eq]
        at present
      split at present
      · rename_i same
        exact .inl ⟨own, same ▸ hasMarket⟩
      · exact .inl ⟨market, present⟩
  | canceled req order own _ _ _ hasMarket =>
      change (engine.cancel own order).markets.lookup eventID = _ at present
      rw [cancel_sameUpToLocks.markets] at present
      change Finmap.lookup eventID (engine.markets.insert order.eventID _) = _
        at present
      rw [FiniteMap.lookup_insert_eq] at present
      split at present
      · rename_i same
        exact .inl ⟨own, same ▸ hasMarket⟩
      · exact .inl ⟨market, present⟩
  | marketCreated created requested =>
      simp only [Reply.unchanged, FiniteMap.lookup_insert_eq] at present
      split at present
      · rename_i same
        exact .inr (same ▸ requested)
      · exact .inl ⟨market, present⟩
  | userFunded => exact .inl ⟨market, present⟩

private theorem orders_of_lost {order : Order}
    (submitted : input.order? = some order)
    (lost : input.surroundings.orderCreatedEmitted = false) :
    (engine.step input).engine.orders = engine.orders := by
  obtain ⟨payload, requested⟩ := Input.order?_command submitted
  have effect := step_effect engine input
  generalize engine.step input = reply at effect
  cases effect with
  | unchanged => rfl
  | opened order => exact opened_orders engine order
  | dropped order => exact frozen_orders engine order
  | accepted _ _ _ _ _ _ announced =>
      rw [lost] at announced
      contradiction
  | canceled _ _ _ foreign =>
      rw [requested] at foreign
      contradiction
  | marketCreated => rfl
  | userFunded => rfl

variable (wellFormed : WellFormed engine)

include wellFormed

theorem registered_before {id : String}
    (present : (engine.step input).engine.orders.lookup id ≠ none) :
    engine.orders.lookup id ≠ none ∨
      ∃ order, engine.admitted? input = some order ∧
        input.surroundings.orderCreatedEmitted = true ∧ id = order.id := by
  obtain ⟨found, isFound⟩ := Option.ne_none_iff_exists'.mp present
  rcases step_terms wellFormed input isFound with
    ⟨old, oldPresent, _⟩ | ⟨order, admitted, same, _⟩
  · exact .inl (Option.ne_none_iff_exists'.mpr ⟨old, oldPresent⟩)
  · cases emitted : input.surroundings.orderCreatedEmitted with
    | true => exact .inr ⟨order, admitted, rfl, same⟩
    | false =>
        rw [orders_of_lost (admitted?_spec admitted).1 emitted] at present
        exact .inl present

theorem hasOrder_step {id eventID : String} (has : engine.HasOrder id eventID) :
    (engine.step input).engine.HasOrder id eventID := by
  obtain ⟨order, present, rfl⟩ := has
  obtain ⟨later, laterPresent, _⟩ := (grows_step wellFormed input).orders present
  refine ⟨later, laterPresent, ?_⟩
  rcases step_terms wellFormed input laterPresent with
    ⟨old, oldPresent, same⟩ | ⟨new, admitted, rfl, _⟩
  · rw [present] at oldPresent
    cases oldPresent
    exact same.eventID
  · rw [(admitted?_spec admitted).2.1] at present
    contradiction

private theorem hasOrder_of_announced
    (emitted : input.surroundings.orderCreatedEmitted = true) {created : Order}
    (announced : .orderCreated created ∈ (engine.step input).events) :
    (engine.step input).engine.HasOrder created.id created.eventID := by
  have effect := step_effect engine input
  generalize engine.step input = reply at effect announced ⊢
  cases effect with
  | unchanged | opened | marketCreated | userFunded => cases announced
  | dropped _ _ _ _ _ _ lost =>
      rw [emitted] at lost
      contradiction
  | canceled => cases List.mem_singleton.mp announced
  | accepted order market submitted fresh hasMarket =>
      have valid := Input.order?_submitted submitted
      rw [announceAndMatch_enrolled wellFormed valid fresh hasMarket]
        at announced ⊢
      rcases List.mem_cons.mp announced with own | trade
      · cases own
        obtain ⟨lock, present⟩ :=
          lookup_matched_taker wellFormed valid fresh hasMarket
        exact ⟨_, present, (taker_terms engine order).eventID⟩
      · obtain ⟨_, _, impossible⟩ := List.mem_map.mp trade
        cases impossible

private theorem registered_of_traded {trade : Trade}
    (traded : trade ∈ (engine.step input).trades) {id : String}
    (named : id ∈ trade.orderIDs) :
    (engine.step input).engine.orders.lookup id ≠ none := by
  have effect := step_effect engine input
  generalize engine.step input = reply at effect traded ⊢
  cases effect with
  | unchanged | opened | dropped | canceled | marketCreated | userFunded =>
      cases traded
  | accepted order market submitted fresh hasMarket =>
      have valid := Input.order?_submitted submitted
      rw [announceAndMatch_enrolled wellFormed valid fresh hasMarket]
        at traded ⊢
      obtain ⟨fill, member, rfl⟩ := List.mem_map.mp traded
      rw [Option.ne_none_iff_exists']
      simp only [Trade.orderIDs, List.mem_cons, List.not_mem_nil, or_false]
        at named
      rcases named with rfl | rfl
      · obtain ⟨lock, present⟩ :=
          lookup_matched_taker wellFormed valid fresh hasMarket
        exact ⟨_, present⟩
      · exact matched_keeps wellFormed valid fresh hasMarket
          (fillsFor_maker wellFormed member).1

end Step

/-! What the worker can store. -/

namespace Database

private theorem row_origin [UUID.Parser] {db later : Database}
    {data : EventData}
    (done : db.handleEvent data = .ok later) {id : UUID} {row : OrderRow}
    (found : later.orders.lookup id = some row) :
    (∃ old, db.orders.lookup id = some old ∧ row.eventID = old.eventID) ∨
      ∃ order, data = .orderCreated (some order) ∧
        UUID.parse order.id = some id ∧
        UUID.parse order.eventID = some row.eventID := by
  cases data with
  | tradeExecuted trade =>
      obtain ⟨_, keys, rfl, _, _, effect⟩ := handleTradeExecuted_effect done
      rcases effect with ⟨_, rfl⟩ | ⟨_, _, settles⟩
      · exact .inl ⟨row, found, rfl⟩
      · obtain ⟨taker, maker, hasTaker, hasMaker, orders⟩ := settles.orders
        have filled : ∀ {rows : FiniteMap UUID OrderRow} {key : UUID}
            {old : OrderRow} (quantity : Int64), rows.lookup key = some old →
              ∀ {row}, (rows.insert key (old.fill quantity)).lookup id =
                some row → ∃ old, rows.lookup id = some old ∧
                  row.eventID = old.eventID := by
          intro rows key old quantity hasOld row found
          rw [FiniteMap.lookup_insert_eq] at found
          split at found
          · rename_i same
            cases found
            exact ⟨old, same ▸ hasOld, rfl⟩
          · exact ⟨row, found, rfl⟩
        rw [orders] at found
        obtain ⟨middle, isMiddle, sameEvent⟩ := filled _ hasMaker found
        obtain ⟨old, isOld, oldEvent⟩ := filled _ hasTaker isMiddle
        exact .inl ⟨old, isOld, sameEvent.trans oldEvent⟩
  | orderCreated order =>
      obtain ⟨data, uuid, eventID, userID, rfl, isID, isEvent, _, effect⟩ :=
        handleOrderCreated_effect done
      rcases effect with ⟨_, rfl⟩ | insertion
      · exact .inl ⟨row, found, rfl⟩
      · obtain ⟨written, rfl, holds, _⟩ := insertOrder_ok insertion
        change (db.orders.insert uuid written).lookup id = some row at found
        rw [FiniteMap.lookup_insert_eq] at found
        split at found
        · rename_i same
          cases found
          refine .inr ⟨data, rfl, same ▸ isID, ?_⟩
          rw [holds.eventID]
          exact isEvent
        · exact .inl ⟨row, found, rfl⟩
  | orderCanceled orderID =>
      obtain ⟨_, canceled, rfl, _, rfl⟩ := handleOrderCanceled_effect done
      rw [lookup_updateOrderStatus] at found
      split at found
      · rename_i same
        obtain ⟨old, isOld, rfl⟩ := Option.map_eq_some_iff.mp found
        exact .inl ⟨old, same ▸ isOld, rfl⟩
      · exact .inl ⟨row, found, rfl⟩
  | unknown =>
      cases done
      exact .inl ⟨row, found, rfl⟩

end Database

/-! The invariant of the backend. -/

namespace Backend

/-- Events go by the canonical text of their UUIDs. Rows and announcements are
those of registered orders, trades are between such orders, and no two of them
spell one UUID. -/
structure Aligned [UUID.Parser] (backend : Backend) : Prop where
  wellFormed : WellFormed backend.engine
  markets : ∀ {eventID market},
    backend.engine.markets.lookup eventID = some market → Canonical eventID
  announced : ∀ {created}, .orderCreated created ∈ backend.stream →
    backend.engine.HasOrder created.id created.eventID
  stored : ∀ {uuid row}, backend.db.orders.lookup uuid = some row →
    ∃ id, UUID.parse id = some uuid ∧
      backend.engine.HasOrder id row.eventID.text
  traded : ∀ {trade}, trade ∈ backend.trades → ∀ {id}, id ∈ trade.orderIDs →
    backend.engine.orders.lookup id ≠ none
  apart : ∀ {left right}, backend.engine.orders.lookup left ≠ none →
    backend.engine.orders.lookup right ≠ none → UUID.parse left ≠ none →
      UUID.parse left = UUID.parse right → left = right

private theorem aligned_started [UUID.Parser]
    (balances positions : Accounts String)
    (db : Database) : (started balances positions db).Aligned where
  wellFormed := wellFormed_seeded balances positions
  markets := by
    intro eventID market present
    simp [started, Engine.seeded] at present
  announced := by
    intro created member
    cases member
  stored := by
    intro uuid row found
    simp [started] at found
  traded := by
    intro trade member
    cases member
  apart := by
    intro left right present
    simp [started, Engine.seeded] at present

section Step

variable [UUID.Parser]

variable {backend : Backend} (aligned : backend.Aligned)

include aligned

theorem aligned_send {input : Input}
    (canonical : ∀ eventID, input.command = .createEvent (some eventID) →
      Canonical eventID)
    (unaliased : ∀ order ∈ backend.engine.admitted? input,
      input.surroundings.orderCreatedEmitted = true →
        ∀ {id}, backend.engine.orders.lookup id ≠ none →
          UUID.parse id ≠ none → UUID.parse id ≠ UUID.parse order.id) :
    (backend.send input).Aligned where
  wellFormed := wellFormed_step aligned.wellFormed input
  markets := by
    intro eventID market present
    rcases market_before aligned.wellFormed present with
      ⟨old, oldPresent⟩ | created
    · exact aligned.markets oldPresent
    · exact canonical eventID created
  announced := by
    intro created member
    simp only [send] at member
    split at member
    · rename_i emitted
      rcases List.mem_append.mp member with old | new
      · exact hasOrder_step aligned.wellFormed (aligned.announced old)
      · exact hasOrder_of_announced aligned.wellFormed emitted new
    · exact hasOrder_step aligned.wellFormed (aligned.announced member)
  stored := by
    intro uuid row found
    obtain ⟨id, parsed, has⟩ := aligned.stored found
    exact ⟨id, parsed, hasOrder_step aligned.wellFormed has⟩
  traded := by
    intro trade member id named
    rcases List.mem_append.mp member with old | new
    · obtain ⟨order, present⟩ :=
        Option.ne_none_iff_exists'.mp (aligned.traded old named)
      obtain ⟨later, laterPresent, _⟩ :=
        (grows_step aligned.wellFormed input).orders present
      exact Option.ne_none_iff_exists'.mpr ⟨later, laterPresent⟩
    · exact registered_of_traded aligned.wellFormed new named
  apart := by
    intro left right leftPresent rightPresent parses same
    rcases registered_before aligned.wellFormed leftPresent with
      leftOld | ⟨order, admitted, emitted, rfl⟩
    · rcases registered_before aligned.wellFormed rightPresent with
        rightOld | ⟨order, admitted, emitted, rfl⟩
      · exact aligned.apart leftOld rightOld parses same
      · exact absurd same (unaliased order admitted emitted leftOld parses)
    · rcases registered_before aligned.wellFormed rightPresent with
        rightOld | ⟨other, otherAdmitted, _, rfl⟩
      · rw [same] at parses
        exact absurd same.symm
          (unaliased order admitted emitted rightOld parses)
      · rw [admitted] at otherAdmitted
        cases otherAdmitted
        rfl

private theorem aligned_send_other {input : Input}
    (noOrder : input.order? = none)
    (noEvent : ∀ eventID, input.command ≠ .createEvent (some eventID)) :
    (backend.send input).Aligned := by
  apply aligned_send aligned
  · exact fun eventID created => absurd created (noEvent eventID)
  · intro order admitted
    have submitted := (admitted?_spec admitted).1
    rw [noOrder] at submitted
    contradiction

private theorem aligned_createEvent (eventID : UUID) :
    (backend.createEvent eventID).Aligned := by
  have sent : (backend.send (.createEvent eventID.text)).Aligned := by
    apply aligned_send aligned
    · intro created same
      cases same
      exact canonical_text eventID
    · intro order admitted
      have submitted := (admitted?_spec admitted).1
      contradiction
  unfold createEvent
  dsimp only
  split
  · exact ⟨sent.wellFormed, sent.markets, sent.announced, sent.stored,
      sent.traded, sent.apart⟩
  · exact sent

private theorem aligned_work (tradeID : UUID) :
    (backend.work tradeID).Aligned := by
  unfold work
  split
  · exact aligned
  · rename_i event rest isStream
    split
    · exact aligned
    · rename_i later done
      have announced : ∀ {created}, .orderCreated created ∈ event :: rest →
          backend.engine.HasOrder created.id created.eventID := by
        rw [← isStream]
        exact aligned.announced
      refine ⟨aligned.wellFormed, aligned.markets,
        fun member => announced (List.mem_cons_of_mem event member), ?_,
        aligned.traded, aligned.apart⟩
      intro uuid row found
      rcases Database.row_origin done found with
        ⟨old, oldFound, sameEvent⟩ | ⟨data, isData, isID, isEvent⟩
      · obtain ⟨id, parsed, has⟩ := aligned.stored oldFound
        rw [sameEvent]
        exact ⟨id, parsed, has⟩
      · cases event with
        | orderCreated created =>
            cases isData
            have has := announced (List.mem_cons_self ..)
            obtain ⟨order, present, ofEvent⟩ := has
            obtain ⟨market, hasMarket⟩ := aligned.wellFormed.hasMarket present
            -- the event of a registered order has the canonical name
            have canonical := aligned.markets hasMarket
            rw [ofEvent] at canonical
            refine ⟨created.id, isID, order, present, ?_⟩
            obtain ⟨eventID, parsed, isText⟩ := canonical.exists
            change UUID.parse created.eventID = some row.eventID at isEvent
            rw [isEvent] at parsed
            cases parsed
            rw [ofEvent, isText]
        | tradeExecuted => cases isData
        | orderCanceled => cases isData

theorem aligned_step {input : BackendInput}
    (unaliased : backend.Unaliased input) : (backend.step input).Aligned := by
  cases input with
  | createEvent eventID => exact aligned_createEvent aligned eventID
  | userCreated userID => exact aligned_send_other aligned rfl (by simp)
  | createOrder events userID newUUID req emitted =>
      unfold step
      dsimp only
      split
      · exact aligned
      · rename_i payload accepted
        apply aligned_send aligned
        · simp
        · intro order admitted announced id present
          apply unaliased announced payload (by rw [accepted]; rfl) order admitted
          rw [Finmap.mem_keys, ← Finmap.lookup_isSome]
          exact Option.isSome_iff_ne_none.mpr present
  | deleteOrder userID orderID =>
      unfold step
      dsimp only
      split
      · exact aligned
      · exact aligned_send_other aligned rfl (by simp)
  | work tradeID => exact aligned_work aligned tradeID

end Step

/-! The orders, the rows and the requests to cancel. -/

private theorem oneOrder_iff {engine : Engine} (wellFormed : WellFormed engine)
    {left right : String} (present : engine.orders.lookup left ≠ none) :
    engine.OneOrder left right ↔ left = right := by
  constructor
  · rintro ⟨order, leftPresent, rightPresent⟩
    rw [← wellFormed.keyed _ _ leftPresent, ← wellFormed.keyed _ _ rightPresent]
  · rintro rfl
    obtain ⟨order, isOrder⟩ := Option.ne_none_iff_exists'.mp present
    exact ⟨order, isOrder, isOrder⟩

private theorem oneRow_iff [UUID.Parser] {db : Database} {left right : String}
    (stored : db.row? left ≠ none) :
    db.OneRow left right ↔
      UUID.parse left ≠ none ∧ UUID.parse left = UUID.parse right := by
  constructor
  · rintro ⟨uuid, isLeft, isRight, _⟩
    rw [isLeft, isRight]
    exact ⟨by simp, rfl⟩
  · rintro ⟨parses, same⟩
    obtain ⟨uuid, isLeft⟩ := Option.ne_none_iff_exists'.mp parses
    rw [Database.row?_eq isLeft] at stored
    exact ⟨uuid, isLeft, same ▸ isLeft, stored⟩

theorem deleteOrder_ok [UUID.Parser] {db : Database} {userID : Option String}
    {orderID : String} {payload : CancelOrderPayload}
    (done : deleteOrder db userID orderID = .ok payload) :
    ∃ uuid row, UUID.parse orderID = some uuid ∧
      db.orders.lookup uuid = some row ∧
      payload = ⟨orderID, row.eventID.text⟩ := by
  simp only [deleteOrder, Database.getOrderByID, bind_ok, orElse_ok, present_ok,
    require_ok, pure_ok] at done
  obtain ⟨_, _, uuid, parsed, row, found, _, _, rfl⟩ := done
  exact ⟨uuid, row, parsed, found, rfl⟩

section Agreement

variable [UUID.Parser]

variable {backend : Backend} (aligned : backend.Aligned)

include aligned

private theorem row_event {id : String} {order : Order} {uuid : UUID}
    {row : OrderRow}
    (present : backend.engine.orders.lookup id = some order)
    (parsed : UUID.parse id = some uuid)
    (found : backend.db.orders.lookup uuid = some row) :
    row.eventID.text = order.eventID := by
  obtain ⟨other, otherParsed, owner, ownerPresent, ofEvent⟩ :=
    aligned.stored found
  have same : id = other := by
    apply aligned.apart
    · exact Option.ne_none_iff_exists'.mpr ⟨order, present⟩
    · exact Option.ne_none_iff_exists'.mpr ⟨owner, ownerPresent⟩
    · exact Option.ne_none_iff_exists'.mpr ⟨uuid, parsed⟩
    · exact parsed.trans otherParsed.symm
  subst same
  rw [present] at ownerPresent
  cases ownerPresent
  exact ofEvent.symm

private theorem cancels_iff {userID : Option String} {orderID : String}
    {payload : CancelOrderPayload}
    (done : deleteOrder backend.db userID orderID = .ok payload) {id : String}
    {order : Order} (present : backend.engine.orders.lookup id = some order)
    (spells : UUID.parse id = UUID.parse orderID)
    (live : order.status.live = true) :
    backend.Cancels userID orderID id ↔ orderID = id := by
  obtain ⟨uuid, row, parsed, found, rfl⟩ := deleteOrder_ok done
  simp only [Cancels, step, done, send]
  constructor
  · rintro ⟨closed, closedPresent, canceled⟩
    by_cases registered : backend.engine.orders.lookup orderID = none
    · -- the engine does not find the order
      have unchanged : (backend.engine.step ⟨.cancelOrder
          (some ⟨orderID, row.eventID.text⟩), ⟨"", true⟩⟩).engine =
            backend.engine := by
        simp only [Engine.step, handleMessage, handleCancelOrder, registered]
        split <;> rfl
      rw [unchanged, present] at closedPresent
      cases closedPresent
      rw [canceled] at live
      contradiction
    · apply aligned.apart registered
      · exact Option.ne_none_iff_exists'.mpr ⟨order, present⟩
      · exact Option.ne_none_iff_exists'.mpr ⟨uuid, parsed⟩
      · exact spells.symm
  · rintro rfl
    obtain ⟨market, hasMarket⟩ := aligned.wellFormed.hasMarket present
    have sameEvent := row_event aligned present parsed found
    have ownID := aligned.wellFormed.keyed _ _ present
    subst ownID
    have named : order.id ≠ "" := UUID.parse_ne_empty parsed
    rw [step_cancelOrder named (.inr sameEvent) present live hasMarket]
    obtain ⟨lock, lookedUp⟩ :=
      lookup_cancel backend.engine order market order.id
    rw [if_pos rfl] at lookedUp
    exact ⟨_, lookedUp, rfl⟩

private theorem agrees_of_aligned : backend.Agrees where
  orders := by
    intro left right leftPresent rightPresent leftStored _
    rw [oneOrder_iff aligned.wellFormed leftPresent, oneRow_iff leftStored]
    constructor
    · rintro rfl
      refine ⟨?_, rfl⟩
      intro unparsed
      exact leftStored (by rw [Database.row?, unparsed]; rfl)
    · rintro ⟨parses, same⟩
      exact aligned.apart leftPresent rightPresent parses same
  fills := by
    intro first firstTraded second secondTraded left isLeft right isRight parses
      same
    exact aligned.apart (aligned.traded firstTraded isLeft)
      (aligned.traded secondTraded isRight) parses same
  deletes := fun done _ _ present spells live =>
    cancels_iff aligned done present spells live

end Agreement

/-- Whatever is requested and however far the worker is behind: as long as no
order is taken under another spelling of an id the engine has, engine and
database agree on which order an id means. -/
theorem run_agrees [UUID.Parser]
    {balances positions : Accounts String} {db : Database}
    {inputs : List BackendInput}
    (unaliased : Along step Unaliased (started balances positions db) inputs) :
    ((started balances positions db).run inputs).Agrees :=
  agrees_of_aligned (invariant_runFrom Aligned
    (fun _ _ aligned unaliased => aligned_step aligned unaliased)
    (aligned_started balances positions db) unaliased)

def buys (orderID : String) : BackendInput :=
  .createOrder oneEvent (some (shortID 1).text) (shortID 4) (buyRequest orderID)
    true

def sells (orderID : String) : BackendInput :=
  .createOrder oneEvent (some (shortID 2).text) (shortID 4)
    ⟨orderID, (shortID 3).text, "LIMIT", "YES", "SELL", 3, 1 / 2⟩ true

def funded : Backend :=
  started (Finmap.insert (shortID 1).text ⟨1000000, 0⟩ ∅)
    (Finmap.insert
      (positionKey (shortID 2).text (shortID 3).text .outcomeYes) ⟨3, 0⟩ ∅)
    emptyTables

/-- Two orders to buy, under ids of different forms, and one to sell that the
worker has yet to take up. -/
def threeOrders : List BackendInput :=
  [.createEvent (shortID 3), buys (shortID 10).text,
    buys "0000000000000000000000000000000B", .work (shortID 6),
    .work (shortID 6), sells (shortID 12).text]

/-- The second order to buy is filled in part, and the text it was given
cancels it. -/
theorem agrees_threeOrders :
    (funded.run threeOrders).Agrees ∧
      (funded.run threeOrders).Cancels (some (shortID 1).text)
        "0000000000000000000000000000000B"
        "0000000000000000000000000000000B" := by
  have facts : Along step Unaliased funded threeOrders ∧
      deleteOrder (funded.run threeOrders).db (some (shortID 1).text)
        "0000000000000000000000000000000B" =
          .ok ⟨"0000000000000000000000000000000B", (shortID 3).text⟩ ∧
      ((funded.run threeOrders).engine.orders.lookup
        "0000000000000000000000000000000B").map (·.status) =
          some .statusPartial := by
    decide +kernel
  obtain ⟨unaliased, accepted, isPartial⟩ := facts
  obtain ⟨order, present, status⟩ := Option.map_eq_some_iff.mp isPartial
  have agrees : (funded.run threeOrders).Agrees := run_agrees unaliased
  have live : order.status.live = true := by
    rw [status]
    rfl
  exact ⟨agrees, (agrees.deletes accepted present rfl live).mpr rfl⟩

/-- Two orders to buy whose ids spell one UUID, and one to sell, all taken up by
the worker. -/
def twoSpellings : List BackendInput :=
  [.createEvent (shortID 3), buys (shortID 10).text,
    buys "00000000-0000-0000-0000-00000000000A", sells (shortID 12).text,
    .work (shortID 6), .work (shortID 6), .work (shortID 6), .work (shortID 6),
    .work (shortID 7)]

def oneOrder : List BackendInput :=
  [.createEvent (shortID 3), buys (shortID 10).text, .work (shortID 6)]

/-- One UUID in two cases is two orders to the engine, of two shares each, and
one row, of two shares and with three filled. A URN finds the row of an open
order, and does not cancel it. -/
theorem otherSpelling_disagrees :
    (¬ (funded.run twoSpellings).engine.OneOrder (shortID 10).text
        "00000000-0000-0000-0000-00000000000A" ∧
      (funded.run twoSpellings).db.OneRow (shortID 10).text
        "00000000-0000-0000-0000-00000000000A" ∧
      ((funded.run twoSpellings).engine.orders.lookup
        (shortID 10).text).map (·.filledQuantity) = some 2 ∧
      ((funded.run twoSpellings).engine.orders.lookup
        "00000000-0000-0000-0000-00000000000A").map (·.filledQuantity) =
          some 1 ∧
      ((funded.run twoSpellings).db.orders.lookup (shortID 10)).map
        (fun row => (row.quantity, row.filledQuantity)) =
          some (200000000, 300000000)) ∧
    ((deleteOrder (funded.run oneOrder).db (some (shortID 1).text)
        "urn:uuid:00000000-0000-0000-0000-00000000000a").isOk = true ∧
      ((funded.run oneOrder).engine.orders.lookup
        (shortID 10).text).map (·.status.live) = some true ∧
      ¬ (funded.run oneOrder).Cancels (some (shortID 1).text)
        "urn:uuid:00000000-0000-0000-0000-00000000000a"
        (shortID 10).text) := by
  have spellings : ((funded.run twoSpellings).engine.orders.lookup
        (shortID 10).text).map (·.filledQuantity) = some 2 ∧
      ((funded.run twoSpellings).engine.orders.lookup
        "00000000-0000-0000-0000-00000000000A").map (·.filledQuantity) =
          some 1 ∧
      ((funded.run twoSpellings).db.orders.lookup (shortID 10)).map
        (fun row => (row.quantity, row.filledQuantity)) =
          some (200000000, 300000000) := by
    decide +kernel
  have request : (deleteOrder (funded.run oneOrder).db (some (shortID 1).text)
        "urn:uuid:00000000-0000-0000-0000-00000000000a").isOk = true ∧
      ((funded.run oneOrder).engine.orders.lookup
        (shortID 10).text).map (·.status.live) = some true ∧
      ((((funded.run oneOrder).step (.deleteOrder (some (shortID 1).text)
        "urn:uuid:00000000-0000-0000-0000-00000000000a")).engine.orders.lookup
          (shortID 10).text).map (·.status)) = some .statusPending := by
    decide +kernel
  refine ⟨⟨?_, ?_, spellings⟩, request.1, request.2.1, ?_⟩
  · rintro ⟨order, left, right⟩
    obtain ⟨leftFilled, rightFilled, _⟩ := spellings
    rw [left] at leftFilled
    rw [right, leftFilled] at rightFilled
    cases rightFilled
  · obtain ⟨_, _, isFilled⟩ := spellings
    obtain ⟨row, found, _⟩ := Option.map_eq_some_iff.mp isFilled
    refine ⟨shortID 10, UUID.parse_text _, by decide +kernel, ?_⟩
    rw [found]
    simp
  · rintro ⟨order, found, canceled⟩
    have pending := request.2.2
    rw [found, Option.map_some, canceled] at pending
    cases pending

end Backend

end Predix
