import Predix.Database.Worker

namespace Predix

open Data

/-! The two insertions of the worker, each in two parts: the row, which its
values alone decide, and its place in the tables. -/

namespace Database

def InsertOrderParams.row (params : InsertOrderParams) :
    Except QueryError OrderRow := do
  let quantity ← column params.quantity
  let price ← column params.price
  let filledQuantity ← column params.filledQuantity
  let remainingQuantity ← column params.remainingQuantity
  let orderType ← present .checkViolation (OrderType.parse params.orderType)
  let outcome ← present .checkViolation (Outcome.parse params.outcome)
  let side ← present .checkViolation (Side.parse params.side)
  let status ← present .checkViolation (Status.parse params.status)
  require (0 < quantity ∧ 0 ≤ price) .checkViolation
  return {
    eventID := params.eventID
    userID := params.userID
    orderType := orderType
    outcome := outcome
    side := side
    quantity := quantity
    price := price
    status := status
    filledQuantity := filledQuantity
    remainingQuantity := remainingQuantity }

def addOrder (db : Database) (id : UUID) (row : OrderRow) :
    Except QueryError Database := do
  require (db.orders.lookup id = none) .uniqueViolation
  require (db.events.lookup row.eventID ≠ none ∧
    db.users.lookup row.userID ≠ none) .foreignKeyViolation
  return { db with orders := db.orders.insert id row }

def InsertTradeParams.row (params : InsertTradeParams) :
    Except QueryError TradeRow := do
  let quantity ← column params.quantity
  let price ← column params.price
  let outcome ← present .checkViolation (Outcome.parse params.outcome)
  let takerSide ← present .checkViolation (Side.parse params.takerSide)
  return {
    eventID := params.eventID
    outcome := outcome
    takerOrderID := params.takerOrderID
    makerOrderID := params.makerOrderID
    buyerID := params.buyerID
    sellerID := params.sellerID
    takerSide := takerSide
    quantity := quantity
    price := price }

def addTrade (db : Database) (id : UUID) (row : TradeRow) :
    Except QueryError Database := do
  require (db.trades.lookup id = none) .uniqueViolation
  require (db.events.lookup row.eventID ≠ none ∧
    db.orders.lookup row.takerOrderID ≠ none ∧
    db.orders.lookup row.makerOrderID ≠ none ∧
    db.users.lookup row.buyerID ≠ none ∧
    db.users.lookup row.sellerID ≠ none) .foreignKeyViolation
  return { db with trades := db.trades.insert id row }

theorem insertOrder_eq (db : Database) (params : InsertOrderParams) :
    db.insertOrder params = params.row >>= db.addOrder params.id := by
  unfold InsertOrderParams.row
  simp only [bind_assoc, pure_bind]
  rfl

theorem insertTrade_eq (db : Database) (params : InsertTradeParams) :
    db.insertTrade params = params.row >>= db.addTrade params.id := by
  unfold InsertTradeParams.row
  simp only [bind_assoc, pure_bind]
  rfl

theorem column_ne_unique {value : Int} :
    column value ≠ .error .uniqueViolation := by
  intro overflow
  exact absurd (column_error overflow) (by simp)

theorem InsertOrderParams.row_ne_unique (params : InsertOrderParams) :
    params.row ≠ .error .uniqueViolation := by
  simp [InsertOrderParams.row, bind_error, column_ne_unique]

theorem InsertTradeParams.row_ne_unique (params : InsertTradeParams) :
    params.row ≠ .error .uniqueViolation := by
  simp [InsertTradeParams.row, bind_error, column_ne_unique]

structure InsertOrderParams.Written (params : InsertOrderParams)
    (row : OrderRow) : Prop where
  eventID : row.eventID = params.eventID
  userID : row.userID = params.userID
  quantity : row.quantity = params.quantity
  quantityFits : InColumn params.quantity
  positive : 0 < params.quantity
  priceFits : InColumn params.price
  nonneg : 0 ≤ params.price
  filled : row.filledQuantity = params.filledQuantity
  filledFits : InColumn params.filledQuantity
  remaining : row.remainingQuantity = params.remainingQuantity
  status : Status.parse params.status = some row.status

structure InsertTradeParams.Written (params : InsertTradeParams)
    (row : TradeRow) : Prop where
  eventID : row.eventID = params.eventID
  buyerID : row.buyerID = params.buyerID
  sellerID : row.sellerID = params.sellerID
  quantity : row.quantity = params.quantity
  price : row.price = params.price

theorem InsertOrderParams.row_written {params : InsertOrderParams}
    {row : OrderRow} (checked : params.row = .ok row) :
    params.Written row := by
  simp only [InsertOrderParams.row, bind_ok, column_ok, present_ok, require_ok,
    pure_ok] at checked
  obtain ⟨_, ⟨quantityFits, rfl⟩, _, ⟨priceFits, rfl⟩, _, ⟨filledFits, rfl⟩, _,
    ⟨_, rfl⟩, _, _, _, _, _, _, status, isStatus, _, ⟨positive, nonneg⟩,
    rfl⟩ := checked
  exact ⟨rfl, rfl, rfl, quantityFits, positive, priceFits, nonneg, rfl,
    filledFits, rfl, isStatus⟩

private theorem InsertTradeParams.row_written {params : InsertTradeParams}
    {row : TradeRow} (checked : params.row = .ok row) :
    params.Written row := by
  simp only [InsertTradeParams.row, bind_ok, column_ok, pure_ok] at checked
  obtain ⟨_, ⟨_, rfl⟩, _, ⟨_, rfl⟩, _, _, _, _, rfl⟩ := checked
  exact ⟨rfl, rfl, rfl, rfl, rfl⟩

variable {db later : Database}

theorem addOrder_ok {id : UUID} {row : OrderRow} :
    db.addOrder id row = .ok later ↔
      db.orders.lookup id = none ∧
      (db.events.lookup row.eventID ≠ none ∧
        db.users.lookup row.userID ≠ none) ∧
      { db with orders := db.orders.insert id row } = later := by
  simp only [addOrder, bind_ok, require_ok, pure_ok, exists_and_left,
    exists_const]

theorem addTrade_ok {id : UUID} {row : TradeRow} :
    db.addTrade id row = .ok later ↔
      db.trades.lookup id = none ∧
      (db.events.lookup row.eventID ≠ none ∧
        db.orders.lookup row.takerOrderID ≠ none ∧
        db.orders.lookup row.makerOrderID ≠ none ∧
        db.users.lookup row.buyerID ≠ none ∧
        db.users.lookup row.sellerID ≠ none) ∧
      { db with trades := db.trades.insert id row } = later := by
  simp only [addTrade, bind_ok, require_ok, pure_ok, exists_and_left,
    exists_const]

theorem insertOrder_ok {params : InsertOrderParams}
    (done : db.insertOrder params = .ok later) :
    ∃ row, later = { db with orders := db.orders.insert params.id row } ∧
      params.Written row ∧ db.orders.lookup params.id = none := by
  rw [insertOrder_eq] at done
  obtain ⟨row, checked, added⟩ := bind_ok.mp done
  obtain ⟨new, _, rfl⟩ := addOrder_ok.mp added
  exact ⟨row, rfl, InsertOrderParams.row_written checked, new⟩

theorem insertTrade_ok {params : InsertTradeParams}
    (done : db.insertTrade params = .ok later) :
    ∃ row, later = { db with trades := db.trades.insert params.id row } ∧
      params.Written row ∧ db.trades.lookup params.id = none ∧
      db.events.lookup params.eventID ≠ none ∧
      db.users.lookup params.buyerID ≠ none ∧
      db.users.lookup params.sellerID ≠ none := by
  rw [insertTrade_eq] at done
  obtain ⟨row, checked, added⟩ := bind_ok.mp done
  obtain ⟨new, ⟨event, _, _, buyer, seller⟩, rfl⟩ := addTrade_ok.mp added
  have written := InsertTradeParams.row_written checked
  rw [written.eventID] at event
  rw [written.buyerID] at buyer
  rw [written.sellerID] at seller
  exact ⟨row, rfl, written, new, event, buyer, seller⟩

theorem insertOrder_unique {params : InsertOrderParams}
    (failed : db.insertOrder params = .error .uniqueViolation) :
    db.orders.lookup params.id ≠ none := by
  rw [insertOrder_eq] at failed
  obtain ⟨row, _, known⟩ := bind_error_of_ne params.row_ne_unique failed
  simpa [addOrder, bind_error] using known

theorem insertTrade_unique {params : InsertTradeParams}
    (failed : db.insertTrade params = .error .uniqueViolation) :
    db.trades.lookup params.id ≠ none := by
  rw [insertTrade_eq] at failed
  obtain ⟨row, _, known⟩ := bind_error_of_ne params.row_ne_unique failed
  simpa [addTrade, bind_error] using known

/-- A row that is there already has passed the checks of its columns. -/
theorem insertOrder_row {params : InsertOrderParams}
    (handled : (∃ later, db.insertOrder params = .ok later) ∨
      db.insertOrder params = .error .uniqueViolation) :
    ∃ row, params.row = .ok row := by
  rw [insertOrder_eq] at handled
  exact first_ok params.row_ne_unique handled

theorem insertTrade_row {params : InsertTradeParams}
    (handled : (∃ later, db.insertTrade params = .ok later) ∨
      db.insertTrade params = .error .uniqueViolation) :
    ∃ row, params.row = .ok row := by
  rw [insertTrade_eq] at handled
  exact first_ok params.row_ne_unique handled

theorem insertOrder_again {params : InsertOrderParams} {row : OrderRow}
    (checked : params.row = .ok row)
    (known : db.orders.lookup params.id ≠ none) :
    db.insertOrder params = .error .uniqueViolation := by
  rw [insertOrder_eq, checked]
  exact require_fails known

theorem insertTrade_again {params : InsertTradeParams} {row : TradeRow}
    (checked : params.row = .ok row)
    (known : db.trades.lookup params.id ≠ none) :
    db.insertTrade params = .error .uniqueViolation := by
  rw [insertTrade_eq, checked]
  exact require_fails known

end Database

def OrderData.params (order : OrderData) (id eventID userID : UUID) :
    Database.InsertOrderParams where
  id := id
  eventID := eventID
  userID := userID
  orderType := order.orderType
  outcome := order.outcome
  side := order.side
  quantity := numericFromInt order.quantity
  price := numericFromScaled order.price
  status := order.status
  filledQuantity := numericFromInt order.filledQuantity
  remainingQuantity := numericFromInt order.remainingQuantity

structure TradeKeys where
  tradeID : UUID
  eventID : UUID
  buyerID : UUID
  sellerID : UUID
  takerOrderID : UUID
  makerOrderID : UUID
  deriving DecidableEq

structure TradeData.Names [UUID.Parser]
    (trade : TradeData) (keys : TradeKeys) : Prop where
  own : UUID.parse trade.id = some keys.tradeID
  event : UUID.parse trade.eventID = some keys.eventID
  buyer : UUID.parse trade.buyerID = some keys.buyerID
  seller : UUID.parse trade.sellerID = some keys.sellerID
  taker : UUID.parse trade.orderID = some keys.takerOrderID
  maker : UUID.parse trade.matchOrderID = some keys.makerOrderID

def TradeData.params (trade : TradeData) (keys : TradeKeys) :
    Database.InsertTradeParams where
  id := keys.tradeID
  eventID := keys.eventID
  takerOrderID := keys.takerOrderID
  makerOrderID := keys.makerOrderID
  buyerID := keys.buyerID
  sellerID := keys.sellerID
  outcome := trade.outcome
  takerSide := trade.takerSide
  quantity := numericFromInt trade.quantity
  price := numericFromScaled trade.price

structure TradeData.Valid (trade : TradeData) : Prop where
  id : trade.id ≠ ""
  eventID : trade.eventID ≠ ""
  orderID : trade.orderID ≠ ""
  matchOrderID : trade.matchOrderID ≠ ""
  buyerID : trade.buyerID ≠ ""
  sellerID : trade.sellerID ≠ ""
  outcome : trade.outcome = "YES" ∨ trade.outcome = "NO"
  quantity : 0 < trade.quantity
  price : 0 ≤ trade.price

theorem validateTrade_ok {trade : TradeData} :
    validateTrade trade = .ok () ↔ trade.Valid := by
  simp only [validateTrade, bind_ok, require_ok, exists_and_left, exists_const]
  constructor
  · rintro ⟨id, eventID, orderID, matchOrderID, buyerID, sellerID, outcome,
      quantity, price⟩
    exact ⟨id, eventID, orderID, matchOrderID, buyerID, sellerID, outcome,
      quantity, price⟩
  · rintro ⟨id, eventID, orderID, matchOrderID, buyerID, sellerID, outcome,
      quantity, price⟩
    exact ⟨id, eventID, orderID, matchOrderID, buyerID, sellerID, outcome,
      quantity, price⟩

namespace Database

variable [UUID.Parser] {db later : Database}

theorem handleOrderCreated_eq {order : OrderData} {id eventID userID : UUID}
    (isID : UUID.parse order.id = some id)
    (isEvent : UUID.parse order.eventID = some eventID)
    (isUser : UUID.parse order.userID = some userID) (db : Database) :
    db.handleOrderCreated (some order) =
      match db.insertOrder (order.params id eventID userID) with
      | .error .uniqueViolation => .ok db
      | .error _ => .error "insert order"
      | .ok inserted => .ok inserted := by
  unfold handleOrderCreated present
  dsimp only [bind, Except.bind]
  rw [isID, isEvent, isUser]
  rfl

theorem handleOrderCreated_effect {db later : Database}
    {order : Option OrderData}
    (done : db.handleOrderCreated order = .ok later) :
    ∃ data id eventID userID, order = some data ∧
      UUID.parse data.id = some id ∧
      UUID.parse data.eventID = some eventID ∧
      UUID.parse data.userID = some userID ∧
      ((db.insertOrder (data.params id eventID userID) =
          .error .uniqueViolation ∧ later = db) ∨
        db.insertOrder (data.params id eventID userID) = .ok later) := by
  have parsed := done
  simp only [handleOrderCreated, bind_ok, present_ok] at parsed
  obtain ⟨data, rfl, id, isID, eventID, isEvent, userID, isUser, _⟩ := parsed
  refine ⟨data, id, eventID, userID, rfl, isID, isEvent, isUser, ?_⟩
  rw [handleOrderCreated_eq isID isEvent isUser] at done
  split at done
  · rename_i unique
    cases done
    exact .inl ⟨unique, rfl⟩
  · cases done
  · rename_i inserted insertion
    cases done
    exact .inr insertion

/-- With the user and the event in the tables, only the order's own values
decide whether its creation is processed. -/
theorem handleOrderCreated_ok_iff {db : Database} {order : OrderData}
    {eventID userID : UUID} (isEvent : UUID.parse order.eventID = some eventID)
    (isUser : UUID.parse order.userID = some userID)
    (event : db.events.lookup eventID ≠ none)
    (user : db.users.lookup userID ≠ none) :
    (∃ later, db.handleOrderCreated (some order) = .ok later) ↔
      ∃ id row, UUID.parse order.id = some id ∧
        (order.params id eventID userID).row = .ok row := by
  constructor
  · rintro ⟨later, done⟩
    obtain ⟨data, id, _, _, same, isID, sameEvent, sameUser, effect⟩ :=
      handleOrderCreated_effect done
    cases same
    cases isEvent.symm.trans sameEvent
    cases isUser.symm.trans sameUser
    have handled : (∃ later, db.insertOrder (order.params id eventID userID) =
        .ok later) ∨ db.insertOrder (order.params id eventID userID) =
          .error .uniqueViolation := by
      rcases effect with ⟨unique, _⟩ | insertion
      · exact .inr unique
      · exact .inl ⟨later, insertion⟩
    obtain ⟨row, checked⟩ := insertOrder_row handled
    exact ⟨id, row, isID, checked⟩
  · rintro ⟨id, row, isID, checked⟩
    rw [handleOrderCreated_eq isID isEvent isUser]
    by_cases known : db.orders.lookup id = none
    · have written := InsertOrderParams.row_written checked
      have inserted : db.insertOrder (order.params id eventID userID) =
          .ok { db with orders := db.orders.insert id row } := by
        rw [insertOrder_eq, checked]
        refine addOrder_ok.mpr ⟨known, ?_, rfl⟩
        rw [written.eventID, written.userID]
        exact ⟨event, user⟩
      rw [inserted]
      exact ⟨_, rfl⟩
    · rw [insertOrder_again checked known]
      exact ⟨db, rfl⟩

theorem settleTrade_eq {trade : TradeData} {keys : TradeKeys}
    (names : trade.Names keys) (db : Database) :
    db.settleTrade trade =
      match db.insertTrade (trade.params keys) with
      | .error .uniqueViolation => .ok db
      | .error _ => .error "insert trade"
      | .ok inserted =>
          inserted.reflectTrade trade keys.tradeID keys.eventID keys.buyerID
            keys.sellerID keys.takerOrderID keys.makerOrderID := by
  unfold settleTrade
  rw [names.own, names.event, names.buyer, names.seller, names.taker,
    names.maker]
  rfl

private theorem settleTrade_names {trade : TradeData}
    (done : db.settleTrade trade = .ok later) :
    ∃ keys, trade.Names keys := by
  simp only [settleTrade, bind_ok, present_ok] at done
  obtain ⟨tradeID, isTrade, eventID, isEvent, buyerID, isBuyer, sellerID,
    isSeller, takerOrderID, isTaker, makerOrderID, isMaker, _⟩ := done
  exact ⟨⟨tradeID, eventID, buyerID, sellerID, takerOrderID, makerOrderID⟩,
    isTrade, isEvent, isBuyer, isSeller, isTaker, isMaker⟩

theorem handleOrderCanceled_effect {orderID : Option String}
    (done : db.handleOrderCanceled orderID = .ok later) :
    ∃ text id, orderID = some text ∧ UUID.parse text = some id ∧
      later = db.updateOrderStatus id .statusCanceled := by
  simp only [handleOrderCanceled, bind_ok, present_ok, pure_ok] at done
  obtain ⟨text, isText, id, isID, rfl⟩ := done
  exact ⟨text, id, isText, isID, rfl⟩

theorem settleTrade_cases {trade : TradeData}
    (done : db.settleTrade trade = .ok later) :
    ∃ keys, trade.Names keys ∧
      ((db.insertTrade (trade.params keys) = .error .uniqueViolation ∧
          later = db) ∨
        ∃ inserted, db.insertTrade (trade.params keys) = .ok inserted ∧
          inserted.reflectTrade trade keys.tradeID keys.eventID keys.buyerID
            keys.sellerID keys.takerOrderID keys.makerOrderID = .ok later) := by
  obtain ⟨keys, names⟩ := settleTrade_names done
  refine ⟨keys, names, ?_⟩
  rw [settleTrade_eq names] at done
  split at done
  · rename_i unique
    cases done
    exact .inl ⟨unique, rfl⟩
  · cases done
  · rename_i inserted insertion
    exact .inr ⟨inserted, insertion, done⟩

theorem handleTradeExecuted_cases {trade : Option TradeData}
    (done : db.handleTradeExecuted trade = .ok later) :
    ∃ data, trade = some data ∧ validateTrade data = .ok () ∧
      db.settleTrade data = .ok later := by
  simp only [handleTradeExecuted, bind_ok, present_ok] at done
  obtain ⟨data, isData, _, valid, settled⟩ := done
  exact ⟨data, isData, valid, settled⟩

end Database

end Predix
