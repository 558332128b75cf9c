import Predix.Database.Insert

namespace Predix

open Data Word

/-! What a settlement writes: money, shares, ledger rows and volume. -/

/-- A row after one more fill. -/
def OrderRow.fill (row : OrderRow) (quantity : Int64) : OrderRow :=
  { row with
    filledQuantity := row.filledQuantity + numericFromInt quantity
    remainingQuantity :=
      max (row.quantity - (row.filledQuantity + numericFromInt quantity)) 0
    status := Database.fillStatus
      (numericToInt64 row.filledQuantity + quantity)
      (numericToInt64 row.quantity) }

/-- What the buyer pays, in the units of the columns. -/
def TradeData.amount (trade : TradeData) : Int :=
  numericFromScaled (trade.quantity * trade.price)

namespace Database

def shares (db : Database) (id : PositionID) : Int :=
  (db.positions.lookup id).elim 0 (·.shares)

/-- The row of a position after more shares at a price. -/
def positionWith (db : Database) (id : PositionID) (shares : Int)
    (price : Rat) : PositionRow :=
  match db.positions.lookup id with
  | none => ⟨shares, price⟩
  | some row => ⟨row.shares + shares, averagePrice row shares price⟩

def PositionFits (db : Database) (id : PositionID) (shares : Int) (price : Rat) :
    Prop :=
  InColumn shares ∧ ∀ row ∈ db.positions.lookup id,
    InColumn (row.shares + shares) ∧
      -1000000000000 < averagePrice row shares price ∧
      averagePrice row shares price < 1000000000000

private theorem positionWith_shares (db : Database) (id : PositionID)
    (shares : Int) (price : Rat) :
    (db.positionWith id shares price).shares = db.shares id + shares := by
  unfold positionWith Database.shares
  split <;> simp [*]

def transactionRows (trade : TradeData) (keys : TradeKeys) :
    List TransactionRow :=
  [{ userID := keys.buyerID
     orderID := keys.takerOrderID
     tradeID := keys.tradeID
     type := .sideBuy
     outcome := trade.outcome
     quantity := numericFromInt trade.quantity
     price := numericFromScaled trade.price
     amount := trade.amount },
   { userID := keys.sellerID
     orderID := keys.makerOrderID
     tradeID := keys.tradeID
     type := .sideSell
     outcome := trade.outcome
     quantity := numericFromInt trade.quantity
     price := numericFromScaled trade.price
     amount := trade.amount }]

/-- A trade has been settled: the tables before and after. -/
structure Settles (db : Database) (trade : TradeData) (keys : TradeKeys)
    (later : Database) : Prop where
  trades : db.trades.lookup keys.tradeID = none ∧
    ∃ row : TradeRow, row.eventID = keys.eventID ∧
      row.quantity = numericFromInt trade.quantity ∧
      row.price = numericFromScaled trade.price ∧
      later.trades = db.trades.insert keys.tradeID row
  orders : ∃ taker maker, db.orders.lookup keys.takerOrderID = some taker ∧
    (db.orders.insert keys.takerOrderID (taker.fill trade.quantity)).lookup
      keys.makerOrderID = some maker ∧
    later.orders =
      (db.orders.insert keys.takerOrderID (taker.fill trade.quantity)).insert
        keys.makerOrderID (maker.fill trade.quantity)
  filledFits : ∀ id row, id = keys.takerOrderID ∨ id = keys.makerOrderID →
    later.orders.lookup id = some row →
      InColumn row.filledQuantity
  users : ∃ balance credit, db.users.lookup keys.buyerID = some balance ∧
    trade.amount ≤ balance ∧
    (db.users.insert keys.buyerID (balance - trade.amount)).lookup
      keys.sellerID = some credit ∧
    later.users =
      (db.users.insert keys.buyerID (balance - trade.amount)).insert
        keys.sellerID (credit + trade.amount)
  positions : ∃ outcome bought sold,
    Outcome.parse trade.outcome = some outcome ∧
    later.positions =
      (db.positions.insert ⟨keys.buyerID, keys.eventID, outcome⟩ bought).insert
        ⟨keys.sellerID, keys.eventID, outcome⟩ sold ∧
    bought.shares = db.shares ⟨keys.buyerID, keys.eventID, outcome⟩ +
      numericFromInt trade.quantity ∧
    sold.shares = ((db.positions.insert
        ⟨keys.buyerID, keys.eventID, outcome⟩ bought).lookup
          ⟨keys.sellerID, keys.eventID, outcome⟩).elim 0 (·.shares) +
      numericFromInt (-trade.quantity)
  transactions : later.transactions =
    db.transactions ++ transactionRows trade keys
  events : ∃ volume, db.events.lookup keys.eventID = some volume ∧
    later.events = db.events.insert keys.eventID (volume + trade.amount)

variable {db later : Database}

theorem deductBalance_ok {id : UUID} {amount : Int} {tag : Nat} :
    db.deductBalance id amount = .ok (later, tag) ∧ tag ≠ 0 ↔
      ∃ balance, db.users.lookup id = some balance ∧ amount ≤ balance ∧
        InColumn (balance - amount) ∧ tag = 1 ∧
        { db with users := db.users.insert id (balance - amount) } = later := by
  unfold deductBalance
  split
  · rename_i missing
    simp +contextual [missing, eq_comm]
  · rename_i balance found
    split
    · rename_i enough
      simp only [bind_ok, column_ok, pure_ok, found]
      constructor
      · rintro ⟨⟨_, ⟨fits, rfl⟩, written⟩, _⟩
        cases written
        exact ⟨balance, rfl, enough, fits, rfl, rfl⟩
      · rintro ⟨_, same, _, fits, rfl, rfl⟩
        cases same
        exact ⟨⟨_, ⟨fits, rfl⟩, rfl⟩, Nat.one_ne_zero⟩
    · rename_i short
      simp +contextual [found, short, eq_comm]

theorem addBalance_ok {id : UUID} {amount : Int} :
    db.addBalance id amount = .ok later ↔
      (db.users.lookup id = none ∧ db = later) ∨
      ∃ balance, db.users.lookup id = some balance ∧
        InColumn (balance + amount) ∧
        { db with users := db.users.insert id (balance + amount) } = later := by
  cases found : db.users.lookup id <;>
    simp [addBalance, found, column_ok, and_assoc]

theorem incrementEventVolume_ok {id : UUID} {amount : Int} :
    db.incrementEventVolume id amount = .ok later ↔
      (db.events.lookup id = none ∧ db = later) ∨
      ∃ volume, db.events.lookup id = some volume ∧
        InColumn (volume + amount) ∧
        { db with events := db.events.insert id (volume + amount) } =
          later := by
  cases found : db.events.lookup id <;>
    simp [incrementEventVolume, found, column_ok, and_assoc]

theorem upsertPosition_ok {userID eventID : UUID} {text : String}
    {shares : Int} {price : Rat} :
    db.upsertPosition userID eventID text shares price = .ok later ↔
      ∃ outcome, Outcome.parse text = some outcome ∧
        db.PositionFits ⟨userID, eventID, outcome⟩ shares price ∧
        (db.positions.lookup ⟨userID, eventID, outcome⟩ = none →
          db.users.lookup userID ≠ none ∧ db.events.lookup eventID ≠ none) ∧
        { db with
          positions := db.positions.insert ⟨userID, eventID, outcome⟩
            (db.positionWith ⟨userID, eventID, outcome⟩ shares price) } =
              later := by
  simp only [upsertPosition, PositionFits, positionWith, bind_ok, column_ok,
    present_ok]
  constructor
  · rintro ⟨_, ⟨fits, rfl⟩, outcome, parsed, done⟩
    refine ⟨outcome, parsed, ?_⟩
    cases found : db.positions.lookup ⟨userID, eventID, outcome⟩ with
    | none =>
        simp only [found, bind_ok, require_ok, pure_ok] at done
        obtain ⟨_, there, rfl⟩ := done
        simp [fits, there]
    | some row =>
        simp only [found, bind_ok, column_ok, require_ok, pure_ok] at done
        obtain ⟨_, ⟨total, rfl⟩, _, average, rfl⟩ := done
        simp [fits, total, average]
  · rintro ⟨outcome, parsed, ⟨fits, room⟩, there, rfl⟩
    refine ⟨_, ⟨fits, rfl⟩, outcome, parsed, ?_⟩
    cases found : db.positions.lookup ⟨userID, eventID, outcome⟩ with
    | none => exact bind_ok.mpr ⟨(), require_ok.mpr (there found), rfl⟩
    | some row =>
        obtain ⟨total, average⟩ := room row found
        exact bind_ok.mpr ⟨_, total.column,
          bind_ok.mpr ⟨(), require_ok.mpr average, rfl⟩⟩

theorem insertTransaction_ok {row : TransactionRow} :
    db.insertTransaction row = .ok later ↔
      (InColumn row.quantity ∧ InColumn row.price ∧ InColumn row.amount) ∧
      (db.users.lookup row.userID ≠ none ∧
        db.orders.lookup row.orderID ≠ none ∧
        db.trades.lookup row.tradeID ≠ none) ∧
      { db with transactions := db.transactions ++ [row] } = later := by
  simp only [insertTransaction, bind_ok, column_ok, require_ok, pure_ok,
    and_assoc, exists_and_left, exists_eq_left', exists_const]

theorem applyOrderFill_ok {id : UUID} {quantity : Int64} :
    db.applyOrderFill id quantity = .ok later ↔
      ∃ row, db.orders.lookup id = some row ∧
        (InColumn (row.fill quantity).filledQuantity ∧
          InColumn (row.fill quantity).remainingQuantity) ∧
        { db with orders := db.orders.insert id (row.fill quantity) } =
          later := by
  simp only [applyOrderFill, getOrderByID, bind_ok, present_ok]
  refine exists_congr fun row => and_congr_right fun found => ?_
  simp only [updateOrderFill, found, bind_ok, column_ok, pure_ok, and_assoc,
    exists_and_left, exists_eq_left']
  rfl

theorem reflectTrade_settles {trade : TradeData} {keys : TradeKeys}
    {row : TradeRow} (written : (trade.params keys).Written row)
    (new : db.trades.lookup keys.tradeID = none)
    (event : db.events.lookup keys.eventID ≠ none)
    (seller : db.users.lookup keys.sellerID ≠ none)
    (done : reflectTrade { db with trades := db.trades.insert keys.tradeID row }
      trade keys.tradeID keys.eventID keys.buyerID keys.sellerID
      keys.takerOrderID keys.makerOrderID = .ok later) :
    db.Settles trade keys later := by
  simp only [reflectTrade, bind_ok, orElse_ok, require_ok, applyOrderFill_ok,
    upsertPosition_ok, insertTransaction_ok] at done
  obtain ⟨_, ⟨taker, takerFound, ⟨takerFits, _⟩, rfl⟩, _,
    ⟨maker, makerFound, ⟨makerFits, _⟩, rfl⟩, ⟨_, tag⟩, paid, _, affected, _,
    credited, _, ⟨outcome, parsed, _, _, rfl⟩, _, ⟨_, sameParsed, _, _, rfl⟩, _,
    ⟨_, _, rfl⟩, _, ⟨_, _, rfl⟩, counted⟩ := done
  cases parsed.symm.trans sameParsed
  obtain ⟨balance, isBalance, enough, _, _, rfl⟩ :=
    deductBalance_ok.mp ⟨paid, affected⟩
  have there : (db.users.insert keys.buyerID
      (balance - trade.amount)).lookup keys.sellerID ≠ none :=
    FiniteMap.lookup_insert_ne_none _ seller
  obtain ⟨missing, _⟩ | ⟨credit, isCredit, _, rfl⟩ := addBalance_ok.mp credited
  · contradiction
  obtain ⟨missing, _⟩ | ⟨volume, isVolume, _, rfl⟩ :=
    incrementEventVolume_ok.mp counted
  · contradiction
  have filledFits : ∀ id row,
      id = keys.takerOrderID ∨ id = keys.makerOrderID →
      ((db.orders.insert keys.takerOrderID (taker.fill trade.quantity)).insert
        keys.makerOrderID (maker.fill trade.quantity)).lookup id = some row →
          InColumn row.filledQuantity := by
    intro id row named found
    rw [FiniteMap.lookup_insert_eq, FiniteMap.lookup_insert_eq] at found
    split at found
    · cases found
      exact makerFits
    · rename_i notMaker
      rw [if_pos (named.resolve_right notMaker)] at found
      cases found
      exact takerFits
  exact
    { trades := ⟨new, row, written.eventID, written.quantity, written.price,
        rfl⟩
      orders := ⟨taker, maker, takerFound, makerFound, rfl⟩
      filledFits := filledFits
      users := ⟨balance, credit, isBalance, enough, isCredit, rfl⟩
      positions := ⟨outcome, _, _, parsed, rfl, positionWith_shares _ _ _ _,
        positionWith_shares _ _ _ _⟩
      transactions := List.append_assoc _ _ _
      events := ⟨volume, isVolume, rfl⟩ }

theorem handleTradeExecuted_effect [UUID.Parser] {trade : Option TradeData}
    (done : db.handleTradeExecuted trade = .ok later) :
    ∃ data keys, trade = some data ∧ validateTrade data = .ok () ∧
      data.Names keys ∧
      ((db.insertTrade (data.params keys) = .error .uniqueViolation ∧
          later = db) ∨
        ∃ inserted, db.insertTrade (data.params keys) = .ok inserted ∧
          db.Settles data keys later) := by
  obtain ⟨data, isData, valid, settled⟩ := handleTradeExecuted_cases done
  obtain ⟨keys, names, known | ⟨_, insertion, reflected⟩⟩ :=
    settleTrade_cases settled
  · exact ⟨data, keys, isData, valid, names, .inl known⟩
  · obtain ⟨row, rfl, written, new, event, _, seller⟩ :=
      insertTrade_ok insertion
    exact ⟨data, keys, isData, valid, names, .inr ⟨_, insertion,
      reflectTrade_settles written new event seller reflected⟩⟩

end Database

end Predix
