import Predix.Concurrency.Tidy

namespace Predix

open Data Word

/-! What a section touches: it depends on no other part of the state, and
changes no other part. -/

/-- A part of the state, by the keys of its tables. -/
structure Region where
  orders : String → Prop
  events : String → Prop
  users : String → Prop
  keys : String → Prop

def Region.outside (region : Region) : Region where
  orders := fun id => ¬ region.orders id
  events := fun eventID => ¬ region.events eventID
  users := fun userID => ¬ region.users userID
  keys := fun key => ¬ region.keys key

structure Region.Sub (inner outer : Region) : Prop where
  orders : ∀ {id}, inner.orders id → outer.orders id
  events : ∀ {eventID}, inner.events eventID → outer.events eventID
  users : ∀ {userID}, inner.users userID → outer.users userID
  keys : ∀ {key}, inner.keys key → outer.keys key

theorem Region.Sub.outside_comm {first second : Region}
    (apart : first.Sub second.outside) : second.Sub first.outside where
  orders := fun inside other => apart.orders other inside
  events := fun inside other => apart.events other inside
  users := fun inside other => apart.users other inside
  keys := fun inside other => apart.keys other inside

structure Engine.SameOn (region : Region) (left right : Engine) : Prop where
  orders : FiniteMap.AgreeOn region.orders left.orders right.orders
  markets : FiniteMap.AgreeOn region.events left.markets right.markets
  balances : FiniteMap.AgreeOn region.users left.balances right.balances
  positions : FiniteMap.AgreeOn region.keys left.positions right.positions

namespace Engine.SameOn

variable {region : Region} {left right : Engine}

theorem refl (region : Region) (engine : Engine) :
    engine.SameOn region engine :=
  ⟨.refl _ _, .refl _ _, .refl _ _, .refl _ _⟩

theorem symm (same : left.SameOn region right) : right.SameOn region left :=
  ⟨same.orders.symm, same.markets.symm, same.balances.symm,
    same.positions.symm⟩

theorem trans {middle : Engine} (first : left.SameOn region middle)
    (second : middle.SameOn region right) : left.SameOn region right :=
  ⟨first.orders.trans second.orders, first.markets.trans second.markets,
    first.balances.trans second.balances,
    first.positions.trans second.positions⟩

theorem mono {fewer : Region} (same : left.SameOn region right)
    (sub : fewer.Sub region) : left.SameOn fewer right :=
  ⟨same.orders.mono sub.orders, same.markets.mono sub.events,
    same.balances.mono sub.users, same.positions.mono sub.keys⟩

theorem cover {part : Region} (inside : left.SameOn part right)
    (rest : left.SameOn
      ⟨fun id => region.orders id ∧ ¬ part.orders id,
        fun eventID => region.events eventID ∧ ¬ part.events eventID,
        fun userID => region.users userID ∧ ¬ part.users userID,
        fun key => region.keys key ∧ ¬ part.keys key⟩ right) :
    left.SameOn region right where
  orders := fun id free => Classical.byCases (inside.orders id)
    fun other => rest.orders id ⟨free, other⟩
  markets := fun eventID free => Classical.byCases (inside.markets eventID)
    fun other => rest.markets eventID ⟨free, other⟩
  balances := fun userID free => Classical.byCases (inside.balances userID)
    fun other => rest.balances userID ⟨free, other⟩
  positions := fun key free => Classical.byCases (inside.positions key)
    fun other => rest.positions key ⟨free, other⟩

end Engine.SameOn

/-- A change that depends on one part of the state only, and changes that part
only. -/
structure LocalTo (region : Region) (change : Engine → Engine) : Prop where
  inside : ∀ {left right : Engine}, left.SameOn region right →
    (change left).SameOn region (change right)
  frame : ∀ engine : Engine, engine.SameOn region.outside (change engine)

namespace LocalTo

variable {region : Region}

theorem id : LocalTo region id :=
  ⟨fun same => same, fun engine => .refl _ engine⟩

theorem comp {first second : Engine → Engine} (later : LocalTo region second)
    (earlier : LocalTo region first) :
    LocalTo region fun engine => second (first engine) :=
  ⟨fun same => later.inside (earlier.inside same),
    fun engine => (earlier.frame engine).trans (later.frame (first engine))⟩

/-! The single writes. -/

theorem insertOrder {orderID : String} (inside : region.orders orderID)
    (order : Order) :
    LocalTo region fun engine =>
      { engine with orders := engine.orders.insert orderID order } where
  inside := fun same => { same with orders := same.orders.insert _ _ }
  frame := fun engine =>
    { Engine.SameOn.refl region.outside engine with
      orders := .insert_outside (fun outside => outside inside) _ _ }

theorem putOrder {order : Order} (inside : region.orders order.id) :
    LocalTo region (·.putOrder order) :=
  insertOrder inside order

theorem eraseOrder {orderID : String} (inside : region.orders orderID) :
    LocalTo region fun engine =>
      { engine with orders := engine.orders.erase orderID } where
  inside := fun same => { same with orders := same.orders.erase _ }
  frame := fun engine =>
    { Engine.SameOn.refl region.outside engine with
      orders := .erase_outside (fun outside => outside inside) _ }

theorem updateBalance {userID : String} (inside : region.users userID)
    (change : Balance → Balance) :
    LocalTo region (·.updateBalance userID change) where
  inside := fun same =>
    { same with
      balances := Accounts.agreeOn_update same.balances inside change }
  frame := fun engine =>
    { Engine.SameOn.refl region.outside engine with
      balances :=
        Accounts.agreeOn_update_outside (fun outside => outside inside) _ change }

theorem updatePosition {key : String} (inside : region.keys key)
    (change : Position → Position) :
    LocalTo region (·.updatePosition key change) where
  inside := fun same =>
    { same with
      positions := Accounts.agreeOn_update same.positions inside change }
  frame := fun engine =>
    { Engine.SameOn.refl region.outside engine with
      positions :=
        Accounts.agreeOn_update_outside (fun outside => outside inside) _ change }

theorem putMarket {eventID : String} (inside : region.events eventID)
    (market : Market) :
    LocalTo region fun engine =>
      { engine with markets := engine.markets.insert eventID market } where
  inside := fun same => { same with markets := same.markets.insert _ _ }
  frame := fun engine =>
    { Engine.SameOn.refl region.outside engine with
      markets := .insert_outside (fun outside => outside inside) _ _ }

private theorem putBalance {userID : String} (inside : region.users userID)
    (balance : Balance) :
    LocalTo region fun engine =>
      { engine with balances := engine.balances.insert userID balance } where
  inside := fun same => { same with balances := same.balances.insert _ _ }
  frame := fun engine =>
    { Engine.SameOn.refl region.outside engine with
      balances := .insert_outside (fun outside => outside inside) _ _ }

private theorem putOrders {entries : List (String × Order)}
    (inside : ∀ entry ∈ entries, region.orders entry.1) :
    LocalTo region fun engine =>
      { engine with
        orders := FiniteMap.insertAll entries engine.orders } where
  inside := fun same => { same with orders := same.orders.insertAll _ }
  frame := fun engine =>
    { Engine.SameOn.refl region.outside engine with
      orders := .insertAll_outside
        (fun entry member outside => outside (inside entry member)) _ }

private theorem unlock {orderID : String} (inside : region.orders orderID)
    (trade : Trade) : LocalTo region (·.unlock trade orderID) where
  inside := by
    intro left right same
    simp only [Engine.unlock, same.orders orderID inside]
    split
    · exact same
    · exact { same with orders := same.orders.insert _ _ }
  frame := by
    intro engine
    unfold Engine.unlock
    split
    · exact .refl _ engine
    · exact
        { Engine.SameOn.refl region.outside engine with
          orders := .insert_outside (fun outside => outside inside) _ _ }

end LocalTo

def Order.ReservesIn (order : Order) (region : Region) : Prop :=
  match order.side with
  | .sideBuy => region.users order.userID
  | .sideSell => region.keys order.positionKey

structure Trade.SettlesIn (trade : Trade) (region : Region) : Prop where
  taker : region.orders trade.orderID
  maker : region.orders trade.matchOrderID
  buyer : region.users trade.buyerID
  seller : region.users trade.sellerID
  bought : region.keys
    (positionKey trade.buyerID trade.eventID trade.outcome)
  sold : region.keys
    (positionKey trade.sellerID trade.eventID trade.outcome)

namespace LocalTo

variable {region : Region} {order : Order}

private theorem settleTradeLocked {trade : Trade}
    (inside : trade.SettlesIn region) :
    LocalTo region (Predix.settleTradeLocked · trade) :=
  (unlock inside.maker trade).comp <|
    (unlock inside.taker trade).comp <|
    (updatePosition inside.sold _).comp <|
    (updateBalance inside.seller _).comp <|
    (updatePosition inside.bought _).comp <|
    updateBalance inside.buyer _

private theorem settleAll {trades : List Trade}
    (inside : ∀ trade ∈ trades, trade.SettlesIn region) :
    LocalTo region (Predix.settleAll · trades) := by
  induction trades with
  | nil => exact id
  | cons trade trades induction =>
      have head := settleTradeLocked (inside trade (by simp))
      have tail := induction fun later member => inside later (by simp [member])
      exact tail.comp head

theorem releaseOrderLocked (registered : region.orders order.id)
    (reserves : order.ReservesIn region) :
    LocalTo region (Predix.releaseOrderLocked · order) := by
  -- the released order as one term, so that its side is only read
  have unfolded : (Predix.releaseOrderLocked · order) = fun engine =>
      if order.lockedFunds ≤ 0 then engine
      else match order.side with
      | .sideBuy =>
          (engine.updateBalance order.userID
            (·.unfreeze order.lockedFunds)).putOrder (order.withLock 0)
      | .sideSell =>
          (engine.updatePosition order.positionKey
            (·.unfreeze order.lockedFunds)).putOrder (order.withLock 0) := rfl
  have put : LocalTo region (·.putOrder (order.withLock 0)) :=
    putOrder registered
  rw [unfolded]
  unfold Order.ReservesIn at reserves
  by_cases locked : order.lockedFunds ≤ 0
  · simp only [locked, if_true]
    exact id
  · simp only [locked, if_false]
    cases side : order.side with
    | sideBuy =>
        simp only [side] at reserves ⊢
        exact put.comp (updateBalance reserves _)
    | sideSell =>
        simp only [side] at reserves ⊢
        exact put.comp (updatePosition reserves _)

private theorem cancel (registered : region.orders order.id)
    (event : region.events order.eventID) (reserves : order.ReservesIn region)
    (market : Market) : LocalTo region (·.cancel market order) := by
  have release : LocalTo region
      (Predix.releaseOrderLocked · order.canceled) :=
    releaseOrderLocked registered reserves
  have put : LocalTo region (·.putOrder order.canceled) := putOrder registered
  exact release.comp (put.comp (putMarket event _))

private theorem opened (reserves : order.ReservesIn region) :
    LocalTo region (·.opened order) := by
  unfold Engine.opened
  unfold Order.ReservesIn at reserves
  cases side : order.side with
  | sideBuy =>
      simp only [side] at reserves ⊢
      exact updateBalance reserves _
  | sideSell =>
      simp only [side] at reserves ⊢
      exact updatePosition reserves _

end LocalTo

/-! The reservation. -/

section Reservation

variable {region : Region} {order : Order} {left right : Engine}

theorem Engine.SameOn.lockFor (same : left.SameOn region right)
    (reserves : order.ReservesIn region) :
    left.lockFor order = right.lockFor order := by
  unfold Order.ReservesIn at reserves
  unfold Engine.lockFor
  cases side : order.side with
  | sideBuy =>
      simp only [side] at reserves
      simp only [Engine.cost,
        Accounts.account_of_agree same.balances reserves]
  | sideSell => rfl

theorem Engine.SameOn.affords (same : left.SameOn region right)
    (reserves : order.ReservesIn region) :
    left.Affords order ↔ right.Affords order := by
  unfold Order.ReservesIn at reserves
  unfold Engine.Affords
  cases side : order.side with
  | sideBuy =>
      simp only [side] at reserves
      simp only [Engine.cost,
        Accounts.account_of_agree same.balances reserves]
  | sideSell =>
      simp only [side] at reserves
      simp only [Accounts.account_of_agree same.positions reserves]

def Engine.froze (engine : Engine) (order : Order) (lock : Int64) : Engine :=
  match order.side with
  | .sideBuy => engine.updateBalance order.userID (·.freeze lock)
  | .sideSell => engine.updatePosition order.positionKey (·.freeze lock)

theorem frozen_eq_froze (engine : Engine) (order : Order) :
    engine.frozen order = engine.froze order (engine.lockFor order) := by
  unfold Engine.frozen Engine.froze Engine.lockFor
  cases order.side with
  | sideBuy => rfl
  | sideSell => rfl

private theorem LocalTo.froze (reserves : order.ReservesIn region)
    (lock : Int64) :
    LocalTo region (·.froze order lock) := by
  unfold Engine.froze
  unfold Order.ReservesIn at reserves
  cases side : order.side with
  | sideBuy =>
      simp only [side] at reserves ⊢
      exact updateBalance reserves _
  | sideSell =>
      simp only [side] at reserves ⊢
      exact updatePosition reserves _

def Engine.enrolledWith (engine : Engine) (order : Order) (lock : Int64) :
    Engine :=
  (engine.froze order lock).putOrder (order.withLock lock)

theorem enrolled_eq (engine : Engine) (order : Order) :
    engine.enrolled order =
      engine.enrolledWith order (engine.lockFor order) := by
  rw [Engine.enrolled, frozen_eq_froze]
  rfl

theorem LocalTo.enrolledWith (registered : region.orders order.id)
    (reserves : order.ReservesIn region) (lock : Int64) :
    LocalTo region (·.enrolledWith order lock) := by
  have put : LocalTo region (·.putOrder (order.withLock lock)) :=
    putOrder registered
  exact put.comp (froze reserves lock)

theorem Engine.SameOn.enrolled (same : left.SameOn region right)
    (registered : region.orders order.id)
    (reserves : order.ReservesIn region) :
    (left.enrolled order).SameOn region (right.enrolled order) := by
  rw [enrolled_eq, enrolled_eq, same.lockFor reserves]
  exact (LocalTo.enrolledWith registered reserves _).inside same

/-! What an order reserves. -/

def Order.own (order : Order) : Region where
  orders := fun id => id = order.id
  events := fun _ => False
  users := fun userID => order.side = .sideBuy ∧ userID = order.userID
  keys := fun key => order.side = .sideSell ∧ key = order.positionKey

theorem Order.reservesIn_own (order : Order) : order.ReservesIn order.own := by
  unfold Order.ReservesIn Order.own
  cases side : order.side with
  | sideBuy => exact ⟨rfl, rfl⟩
  | sideSell => exact ⟨rfl, rfl⟩

theorem enrolled_frame (engine : Engine) (order : Order) :
    engine.SameOn order.own.outside (engine.enrolled order) := by
  have registered : order.own.orders order.id := rfl
  rw [enrolled_eq]
  exact (LocalTo.enrolledWith registered order.reservesIn_own _).frame engine

end Reservation

/-! The first section. -/

/-- The keys that a section reads or writes. -/
structure Footprint where
  orders : List String
  events : List String
  users : List String
  keys : List String

structure Footprint.Inside (footprint : Footprint) (region : Region) :
    Prop where
  orders : ∀ id ∈ footprint.orders, region.orders id
  events : ∀ eventID ∈ footprint.events, region.events eventID
  users : ∀ userID ∈ footprint.users, region.users userID
  keys : ∀ key ∈ footprint.keys, region.keys key

def Footprint.empty : Footprint := ⟨[], [], [], []⟩

def Order.footprint (order : Order) : Footprint where
  orders := [order.id]
  events := [order.eventID]
  users := match order.side with
    | .sideBuy => [order.userID]
    | .sideSell => []
  keys := match order.side with
    | .sideBuy => []
    | .sideSell => [order.positionKey]

theorem Order.reservesIn_of_inside {order : Order} {region : Region}
    (inside : order.footprint.Inside region) : order.ReservesIn region := by
  have users := inside.users
  have keys := inside.keys
  unfold Order.ReservesIn
  unfold Order.footprint at users keys
  cases side : order.side with
  | sideBuy =>
      simp only [side] at users
      exact users order.userID (by simp)
  | sideSell =>
      simp only [side] at keys
      exact keys order.positionKey (by simp)

def Engine.beginFootprint (engine : Engine) (input : Input) : Footprint :=
  match input.command with
  | .createOrder _ =>
      match input.order? with
      | none => .empty
      | some order => order.footprint
  | .cancelOrder (some req) =>
      match engine.canceled? input with
      | none => { Footprint.empty with orders := [req.orderID] }
      | some order => order.footprint
  | .createEvent (some eventID) => { Footprint.empty with events := [eventID] }
  | .userCreated (some userID) => { Footprint.empty with users := [userID] }
  | .getDepth (some eventID) => { Footprint.empty with events := [eventID] }
  | _ => .empty

theorem beginFootprint_submitted {input : Input} {order : Order}
    (submitted : input.order? = some order) (engine : Engine) :
    engine.beginFootprint input = order.footprint := by
  obtain ⟨command, surroundings⟩ := input
  cases command with
  | createOrder payload => simp only [Engine.beginFootprint, submitted]
  | _ => contradiction

def Begun.Alike : Begun → Begun → Prop
  | .answered left, .answered right => left.success = right.success
  | .registered left, .registered right => left = right
  | _, _ => False

/-- Two states take the same step, and leave it in the same way. -/
def StepsAlike (region : Region) (left right : Engine)
    (leftResult rightResult : Engine × Begun) : Prop :=
  ∃ change, LocalTo region change ∧ leftResult.1 = change left ∧
    rightResult.1 = change right ∧ leftResult.2.Alike rightResult.2

theorem StepsAlike.stays (region : Region) (left right : Engine)
    {leftResponse rightResponse : EngineResponse}
    (success : leftResponse.success = rightResponse.success) :
    StepsAlike region left right (left, .answered leftResponse)
      (right, .answered rightResponse) :=
  ⟨id, .id, rfl, rfl, success⟩

section Begin

variable {region : Region} {left right : Engine}
  (same : left.SameOn region right)

include same

private theorem registerOrder_local {order : Order}
    (inside : order.footprint.Inside region) :
    ∃ change registration, LocalTo region change ∧
      registerOrder left order = (change left, registration) ∧
      registerOrder right order = (change right, registration) := by
  have reserves := Order.reservesIn_of_inside inside
  have registered : region.orders order.id :=
    inside.orders order.id (by simp [Order.footprint])
  have event : region.events order.eventID :=
    inside.events order.eventID (by simp [Order.footprint])
  have lock := same.lockFor reserves
  unfold registerOrder
  simp only [← same.orders order.id registered,
    ← same.markets order.eventID event]
  cases left.orders.lookup order.id with
  | some existing => exact ⟨id, _, .id, rfl, rfl⟩
  | none =>
      cases left.markets.lookup order.eventID with
      | none => exact ⟨id, _, .id, rfl, rfl⟩
      | some market =>
          by_cases affords : left.Affords order
          · simp only [reserveOrderLocked_of_affords affords,
              reserveOrderLocked_of_affords
                ((same.affords reserves).mp affords), ← lock]
            refine ⟨(·.enrolledWith order (left.lockFor order)),
              .registered (order.withLock (left.lockFor order)),
              .enrolledWith registered reserves _, ?_, ?_⟩
            · rw [frozen_eq_froze]
              rfl
            · rw [frozen_eq_froze, ← lock]
              rfl
          · have short : ¬ right.Affords order := fun affordsRight =>
              affords ((same.affords reserves).mpr affordsRight)
            simp only [reserveOrderLocked_of_not_affords affords,
              reserveOrderLocked_of_not_affords short]
            exact ⟨(·.opened order), .refused order.shortage,
              .opened reserves, rfl, rfl⟩

private theorem beginCreateOrder_local (surroundings : Surroundings)
    (payload : Option CreateOrderPayload)
    (inside : (left.beginFootprint
      ⟨.createOrder payload, surroundings⟩).Inside region) :
    StepsAlike region left right
      (beginCreateOrder left surroundings payload)
      (beginCreateOrder right surroundings payload) := by
  unfold beginCreateOrder
  cases payload with
  | none => exact .stays region left right rfl
  | some req =>
      simp only
      split
      · exact .stays region left right rfl
      · cases valid : validateOrder
            (if req.orderID = "" then surroundings.newUUID
              else req.orderID) req with
        | error message => exact .stays region left right rfl
        | ok order =>
            simp only [Engine.beginFootprint, Input.order?, valid,
              Except.toOption] at inside
            obtain ⟨change, registration, local_, leftIs, rightIs⟩ :=
              registerOrder_local same inside
            simp only [leftIs, rightIs]
            cases registration with
            | duplicate existing => exact ⟨change, local_, rfl, rfl, rfl⟩
            | refused message => exact ⟨change, local_, rfl, rfl, rfl⟩
            | registered order => exact ⟨change, local_, rfl, rfl, rfl⟩

omit same in
private theorem cancelFootprint_inside (keyed : left.Keyed)
    {surroundings : Surroundings} {req : CancelOrderPayload}
    (inside : (left.beginFootprint
      ⟨.cancelOrder (some req), surroundings⟩).Inside region) :
    region.orders req.orderID ∧
      ∀ order ∈ left.canceled? ⟨.cancelOrder (some req), surroundings⟩,
        order.footprint.Inside region := by
  simp only [Engine.beginFootprint] at inside
  cases chosen : left.canceled? ⟨.cancelOrder (some req), surroundings⟩ with
  | none =>
      simp only [chosen] at inside
      exact ⟨inside.orders req.orderID (by simp), by simp⟩
  | some order =>
      simp only [chosen] at inside
      have ownID : order.id = req.orderID := by
        simp only [Engine.canceled?] at chosen
        split at chosen
        · contradiction
        · rename_i found present
          split at chosen
          · cases chosen
            exact keyed _ _ present
          · contradiction
      refine ⟨?_, ?_⟩
      · rw [← ownID]
        exact inside.orders order.id (by simp [Order.footprint])
      · rintro _ ⟨rfl⟩
        exact inside

private theorem handleCancelOrder_local (keyed : left.Keyed)
    (surroundings : Surroundings) (payload : Option CancelOrderPayload)
    (inside : (left.beginFootprint
      ⟨.cancelOrder payload, surroundings⟩).Inside region) :
    StepsAlike region left right
      ((handleCancelOrder left payload).engine,
        .answered (handleCancelOrder left payload).response)
      ((handleCancelOrder right payload).engine,
        .answered (handleCancelOrder right payload).response) := by
  have stays := @StepsAlike.stays region left right
  unfold handleCancelOrder
  cases payload with
  | none => exact stays rfl
  | some req =>
      obtain ⟨named, chosenInside⟩ := cancelFootprint_inside keyed inside
      simp only [← same.orders req.orderID named]
      split
      · exact stays rfl
      · rename_i hasID
        cases present : left.orders.lookup req.orderID with
        | none => exact stays rfl
        | some order =>
            simp only
            split
            · exact stays rfl
            · rename_i belongs
              split
              · exact stays rfl
              · rename_i live
                have chosen : left.canceled?
                    ⟨.cancelOrder (some req), surroundings⟩ = some order := by
                  simp only [Engine.canceled?, present]
                  apply if_pos
                  rw [not_and_or, not_not, not_not] at belongs
                  exact ⟨hasID, belongs, by simpa using live⟩
                have orderInside := chosenInside order chosen
                have event := orderInside.events order.eventID
                  (by simp [Order.footprint])
                have registered := orderInside.orders order.id
                  (by simp [Order.footprint])
                simp only [← same.markets order.eventID event]
                cases left.markets.lookup order.eventID with
                | none => exact stays rfl
                | some market =>
                    exact ⟨(·.cancel market order),
                      .cancel registered event
                        (Order.reservesIn_of_inside orderInside) market,
                      rfl, rfl, rfl⟩

/-- A first section depends on and changes no more than it touches. -/
theorem beginCommand_local (keyed : left.Keyed) {input : Input}
    (inside : (left.beginFootprint input).Inside region) :
    StepsAlike region left right (beginCommand left input)
      (beginCommand right input) := by
  have stays := @StepsAlike.stays region left right
  obtain ⟨command, surroundings⟩ := input
  cases command with
  | createOrder payload =>
      exact beginCreateOrder_local same surroundings payload inside
  | cancelOrder payload =>
      exact handleCancelOrder_local same keyed surroundings payload inside
  | getDepth eventID =>
      simp only [beginCommand, handleMessage, handleGetDepth]
      cases eventID with
      | none => exact stays rfl
      | some eventID =>
          have event := inside.events eventID (by simp [Engine.beginFootprint])
          simp only [← same.markets eventID event]
          cases left.markets.lookup eventID with
          | none => exact stays rfl
          | some market => exact stays rfl
  | getOpenOrders payload =>
      simp only [beginCommand, handleMessage, handleGetOpenOrders]
      cases payload with
      | none => exact stays rfl
      | some req => exact stays rfl
  | createEvent eventID =>
      simp only [beginCommand, handleMessage, handleCreateEvent]
      cases eventID with
      | none => exact stays rfl
      | some eventID =>
          have event := inside.events eventID (by simp [Engine.beginFootprint])
          simp only [← same.markets eventID event]
          split
          · exact stays rfl
          · cases left.markets.lookup eventID with
            | some market => exact stays rfl
            | none => exact ⟨_, .putMarket event newMarket, rfl, rfl, rfl⟩
  | userCreated userID =>
      simp only [beginCommand, handleMessage, handleUserCreated]
      cases userID with
      | none => exact stays rfl
      | some userID =>
          have user := inside.users userID (by simp [Engine.beginFootprint])
          simp only [← same.balances userID user]
          split
          · exact stays rfl
          · cases left.balances.lookup userID with
            | some balance => exact stays rfl
            | none => exact ⟨_, .putBalance user _, rfl, rfl, rfl⟩
  | unknown type => exact stays rfl

end Begin

/-! The second section. -/

def Trade.users (trade : Trade) : List String :=
  [trade.buyerID, trade.sellerID]

def Trade.keys (trade : Trade) : List String :=
  [positionKey trade.buyerID trade.eventID trade.outcome,
    positionKey trade.sellerID trade.eventID trade.outcome]

/-- What a second section touches: the order's own book and account, and the
accounts of its trades. -/
def Engine.finishFootprint (engine : Engine) (orderID : String) : Footprint :=
  match engine.orders.lookup orderID with
  | none => { Footprint.empty with orders := [orderID] }
  | some order =>
      if order.status = .statusCanceled then
        { Footprint.empty with orders := [orderID] }
      else
        let trades := (matchOrder engine orderID).2
        { orders := orderID ::
            (engine.slice order.eventID order.outcome .sideBuy ++
              engine.slice order.eventID order.outcome .sideSell)
          events := [order.eventID]
          users := order.footprint.users ++ trades.flatMap Trade.users
          keys := order.footprint.keys ++ trades.flatMap Trade.keys }

def Engine.storedBy (source : Engine) (order : Order) (market : Market)
    (engine : Engine) : Engine :=
  { engine with
    orders := (FiniteMap.insertAll
      ((source.walk order market).1.makers.map fun maker =>
        (maker.id, maker)) engine.orders).insert order.id
          (source.walker order market)
    markets := engine.markets.insert order.eventID
      (market.setBook order.outcome (source.shelf order market)) }

/-- The second section of an order, with the walk of one state carried out in
another. -/
def Engine.finishedBy (source : Engine) (order : Order) (market : Market)
    (engine : Engine) : Engine :=
  let trades := (source.walk order market).1.trades
  let walker := source.walker order market
  let settled := settleAll (source.storedBy order market engine) trades
  if walker.status = .statusFilled ∨ walker.status = .statusCanceled then
    releaseOrderLocked settled (walker.settledAll trades)
  else
    settled

private theorem stored_eq_storedBy (engine : Engine) (order : Order)
    (market : Market) :
    engine.stored order market = engine.storedBy order market engine := by
  have markets := @stored_markets engine order market
  have orders : (engine.stored order market).orders =
      (engine.storedBy order market engine).orders := by
    unfold Engine.stored Engine.storeMatch Engine.storedBy
    simp only [walker_id]
  exact Engine.ext markets orders rfl rfl

section Finish

variable {engine : Engine} {waiting : String → Prop} {order : Order}
  {market : Market} (tidy : Tidy engine waiting)
  (isWaiting : waiting order.id)
  (present : engine.orders.lookup order.id = some order)
  (hasMarket : engine.markets.lookup order.eventID = some market)

include tidy isWaiting present hasMarket

private theorem finished_eq_finishedBy :
    engine.finished order market = engine.finishedBy order market engine := by
  have released := release_settled tidy present hasMarket isWaiting
  unfold Engine.finished Engine.finishedBy
  simp only [released, ← stored_eq_storedBy]

end Finish

private theorem Order.Continues.reservesIn {later earlier : Order}
    {region : Region}
    (continues : later.Continues earlier)
    (reserves : earlier.ReservesIn region) : later.ReservesIn region := by
  unfold Order.ReservesIn Order.positionKey at reserves ⊢
  rw [continues.side, continues.userID, continues.eventID, continues.outcome]
  exact reserves

structure Engine.WalksIn (source : Engine) (order : Order) (market : Market)
    (region : Region) : Prop where
  registered : region.orders order.id
  event : region.events order.eventID
  listed : ∀ side, ∀ id ∈ (market.book order.outcome).slice side,
    region.orders id
  reserves : order.ReservesIn region
  trades : ∀ trade ∈ (source.walk order market).1.trades,
    trade.SettlesIn region

section Walks

variable {region : Region} {left right : Engine} {order : Order}
  {market : Market} (walks : left.WalksIn order market region)

include walks in
private theorem LocalTo.finishedBy (keyed : left.Keyed) :
    LocalTo region (left.finishedBy order market) := by
  have makers : ∀ entry ∈ (left.walk order market).1.makers.map
      fun maker => (maker.id, maker), region.orders entry.1 := by
    intro entry member
    obtain ⟨maker, isMaker, rfl⟩ := List.mem_map.mp member
    obtain ⟨earlier, inSource, progressed⟩ := walk_walking.makers maker isMaker
    obtain ⟨id, inSlice, found⟩ := mem_load.mp inSource
    rw [progressed.id, keyed id earlier found]
    exact walks.listed _ id inSlice
  have store : LocalTo region (left.storedBy order market) :=
    (putMarket walks.event _).comp
      ((insertOrder walks.registered _).comp (putOrders makers))
  have settle := (settleAll walks.trades).comp store
  have continues : ((left.walker order market).settledAll
      (left.walk order market).1.trades).Continues order :=
    (Order.settledAll_continues _ _).trans walker_progressed.continues
  have released : region.orders ((left.walker order market).settledAll
      (left.walk order market).1.trades).id := by
    rw [continues.id]
    exact walks.registered
  have release := (releaseOrderLocked released
    (continues.reservesIn walks.reserves)).comp settle
  unfold Engine.finishedBy
  simp only
  split
  · exact release
  · exact settle

include walks in
theorem walk_of_same (same : left.SameOn region right) :
    left.walk order market = right.walk order market ∧
      left.shelf order market = right.shelf order market := by
  have loads : ∀ side,
      left.load ((market.book order.outcome).slice side) =
        right.load ((market.book order.outcome).slice side) := by
    intro side
    apply load_congr
    intro id member
    exact same.orders id (walks.listed side id member)
  have walk : left.walk order market = right.walk order market := by
    unfold Engine.walk
    rw [loads]
  refine ⟨walk, ?_⟩
  unfold Engine.shelf Engine.walker
  rw [walk, loads]

private theorem finishedBy_of_same (same : left.SameOn region right)
    (walks : left.WalksIn order market region) (engine : Engine) :
    left.finishedBy order market engine =
      right.finishedBy order market engine := by
  obtain ⟨walk, shelf⟩ := walk_of_same walks same
  unfold Engine.finishedBy Engine.storedBy Engine.walker
  rw [walk, shelf]

end Walks

section Finish

variable {region : Region} {left right : Engine}
  {leftWaiting rightWaiting : String → Prop} {orderID : String}

private theorem walksIn_of_inside (tidy : Tidy left leftWaiting)
    (isWaiting : leftWaiting orderID) {order : Order} {market : Market}
    (present : left.orders.lookup orderID = some order)
    (notCanceled : order.status ≠ .statusCanceled)
    (hasMarket : left.markets.lookup order.eventID = some market)
    (inside : (left.finishFootprint orderID).Inside region) :
    left.WalksIn order market region := by
  have ownID := tidy.keyed orderID order present
  subst ownID
  have matched := matchOrder_matched tidy.keyed present notCanceled hasMarket
  simp only [Engine.finishFootprint, present, notCanceled, if_false, matched,
    slice_of_market hasMarket] at inside
  have listed : ∀ side, ∀ id ∈ (market.book order.outcome).slice side,
      region.orders id := by
    intro side id member
    apply inside.orders
    cases side <;> simp [member]
  refine ⟨inside.orders order.id (by simp),
    inside.events order.eventID (by simp), listed, ?_, ?_⟩
  · apply Order.reservesIn_of_inside
    refine ⟨?_, ?_, ?_, ?_⟩
    · intro id member
      rw [List.mem_singleton.mp member]
      exact inside.orders order.id (by simp)
    · intro eventID member
      rw [List.mem_singleton.mp member]
      exact inside.events order.eventID (by simp)
    · intro userID member
      exact inside.users userID (List.mem_append_left _ member)
    · intro key member
      exact inside.keys key (List.mem_append_left _ member)
  · intro trade member
    obtain ⟨maker, _, inSlice, isTrade, _⟩ :=
      walk_trade tidy hasMarket isWaiting member
    rw [slice_of_market hasMarket] at inSlice
    have users : ∀ userID ∈ trade.users, region.users userID := by
      intro userID isUser
      apply inside.users
      exact List.mem_append_right _ (List.mem_flatMap.mpr ⟨trade, member, isUser⟩)
    have keys : ∀ key ∈ trade.keys, region.keys key := by
      intro key isKey
      apply inside.keys
      exact List.mem_append_right _ (List.mem_flatMap.mpr ⟨trade, member, isKey⟩)
    refine ⟨?_, ?_, users _ (by simp [Trade.users]),
      users _ (by simp [Trade.users]), keys _ (by simp [Trade.keys]),
      keys _ (by simp [Trade.keys])⟩
    · rw [isTrade]
      exact inside.orders order.id (by simp)
    · rw [isTrade]
      exact listed _ _ inSlice

/-- A second section depends on and changes no more than it touches. -/
theorem matchOrder_local (same : left.SameOn region right)
    (leftTidy : Tidy left leftWaiting) (rightTidy : Tidy right rightWaiting)
    (leftWaits : leftWaiting orderID) (rightWaits : rightWaiting orderID)
    (inside : (left.finishFootprint orderID).Inside region) :
    ∃ change, LocalTo region change ∧
      (matchOrder left orderID).1 = change left ∧
      (matchOrder right orderID).1 = change right ∧
      (matchOrder left orderID).2 = (matchOrder right orderID).2 := by
  have registered : region.orders orderID := by
    apply inside.orders
    unfold Engine.finishFootprint
    split
    · simp
    · split <;> simp
  cases present : left.orders.lookup orderID with
  | none => exact absurd present (leftTidy.registered leftWaits)
  | some order =>
      have rightPresent : right.orders.lookup orderID = some order := by
        rw [← same.orders orderID registered, present]
      by_cases canceled : order.status = .statusCanceled
      · rw [matchOrder_canceled present canceled,
          matchOrder_canceled rightPresent canceled]
        exact ⟨id, .id, rfl, rfl, rfl⟩
      · obtain ⟨market, hasMarket⟩ := leftTidy.hasMarket present
        have walks := walksIn_of_inside leftTidy leftWaits present canceled
          hasMarket inside
        have rightMarket : right.markets.lookup order.eventID =
            some market := by
          rw [← same.markets order.eventID walks.event, hasMarket]
        have ownID := leftTidy.keyed orderID order present
        subst ownID
        rw [matchOrder_matched leftTidy.keyed present canceled hasMarket,
          matchOrder_matched rightTidy.keyed rightPresent canceled rightMarket]
        refine ⟨left.finishedBy order market,
          .finishedBy walks leftTidy.keyed, ?_, ?_, ?_⟩
        · dsimp only
          exact finished_eq_finishedBy leftTidy leftWaits present hasMarket
        · dsimp only
          rw [finishedBy_of_same same walks]
          exact finished_eq_finishedBy rightTidy rightWaits rightPresent
            rightMarket
        · rw [(walk_of_same walks same).1]

end Finish

end Predix
