import Predix.Database.Redelivery

namespace Predix

open Data Word

/-! The ledger rows account for the other tables, whatever the worker is
handed. -/

namespace TransactionRow

variable (row : TransactionRow)

def cash (id : UUID) : Int :=
  if row.userID = id then
    match row.type with
    | .sideBuy => -row.amount
    | .sideSell => row.amount
  else
    0

/-- A ledger row does not say which event it is about; its trade does. -/
def shares (trades : FiniteMap UUID TradeRow) (id : PositionID) : Int :=
  if row.userID = id.userID ∧
      (trades.lookup row.tradeID).map (·.eventID) = some id.eventID ∧
      Outcome.parse row.outcome = some id.outcome then
    match row.type with
    | .sideBuy => row.quantity
    | .sideSell => -row.quantity
  else
    0

def filled (id : UUID) : Int :=
  if row.orderID = id then row.quantity else 0

end TransactionRow

structure OrderRow.Filled (before after : OrderRow) (more : Int) : Prop where
  eventID : after.eventID = before.eventID
  userID : after.userID = before.userID
  outcome : after.outcome = before.outcome
  side : after.side = before.side
  quantity : after.quantity = before.quantity
  price : after.price = before.price
  filled : after.filledQuantity = before.filledQuantity + more

theorem OrderRow.Filled.refl (row : OrderRow) : row.Filled row 0 :=
  ⟨rfl, rfl, rfl, rfl, rfl, rfl, (Int.add_zero _).symm⟩

theorem OrderRow.Filled.trans {first second third : OrderRow} {some more : Int}
    (earlier : first.Filled second some) (later : second.Filled third more) :
    first.Filled third (some + more) where
  eventID := later.eventID.trans earlier.eventID
  userID := later.userID.trans earlier.userID
  outcome := later.outcome.trans earlier.outcome
  side := later.side.trans earlier.side
  quantity := later.quantity.trans earlier.quantity
  price := later.price.trans earlier.price
  filled := by rw [later.filled, earlier.filled, Int.add_assoc]

private theorem OrderRow.filled_fill (row : OrderRow) (quantity : Int64) :
    row.Filled (row.fill quantity) (numericFromInt quantity) :=
  ⟨rfl, rfl, rfl, rfl, rfl, rfl, rfl⟩

namespace Database

/-- The rows appended to the ledger say how the tables have changed. -/
structure Reconciles (before after : Database) (rows : List TransactionRow) :
    Prop where
  ledger : after.transactions = before.transactions ++ rows
  traded : ∀ row ∈ rows, after.trades.lookup row.tradeID ≠ none
  trades : ∀ {id row}, before.trades.lookup id = some row →
    after.trades.lookup id = some row
  users : ∀ id, after.users.lookup id = (before.users.lookup id).map
    (· + (rows.map (·.cash id)).sum)
  positions : ∀ id, after.shares id =
    before.shares id + (rows.map (·.shares after.trades id)).sum
  orders : ∀ {id row}, before.orders.lookup id = some row →
    ∃ now, after.orders.lookup id = some now ∧
      row.Filled now (rows.map (·.filled id)).sum

inductive Records (db : Database) : Database → List TransactionRow → Prop where
  | nothing : Records db db []
  | created {id : UUID} {row : OrderRow} (fresh : db.orders.lookup id = none) :
      Records db { db with orders := db.orders.insert id row } []
  | canceled {id : UUID} {row : OrderRow}
      (found : db.orders.lookup id = some row) :
      Records db { db with
        orders := db.orders.insert id { row with status := .statusCanceled } } []
  | settled {trade : TradeData} {keys : TradeKeys} {later : Database}
      (quantity : 0 < trade.quantity.toInt)
      (settles : db.Settles trade keys later) :
      Records db later (transactionRows trade keys)

variable {db later : Database}

private theorem handleOrderCreated_records [UUID.Parser]
    {order : Option OrderData}
    (done : db.handleOrderCreated order = .ok later) :
    db.Records later [] := by
  obtain ⟨data, id, eventID, userID, rfl, _, _, _, effect⟩ :=
    handleOrderCreated_effect done
  rcases effect with ⟨_, rfl⟩ | insertion
  · exact .nothing
  · obtain ⟨row, rfl, _, fresh⟩ := insertOrder_ok insertion
    exact .created fresh

private theorem handleOrderCanceled_records [UUID.Parser]
    {orderID : Option String}
    (done : db.handleOrderCanceled orderID = .ok later) :
    db.Records later [] := by
  obtain ⟨_, id, _, _, rfl⟩ := handleOrderCanceled_effect done
  unfold updateOrderStatus
  split
  · exact .nothing
  · rename_i row found
    exact .canceled found

private theorem handleEvent_records [UUID.Parser] {data : EventData}
    (done : db.handleEvent data = .ok later) :
    ∃ rows, db.Records later rows := by
  cases data with
  | tradeExecuted trade =>
      obtain ⟨data, keys, rfl, valid, _, effect⟩ :=
        handleTradeExecuted_effect done
      rcases effect with ⟨_, rfl⟩ | ⟨_, _, settles⟩
      · exact ⟨[], .nothing⟩
      · have positive := (validateTrade_ok.mp valid).quantity
        exact ⟨_, .settled (Int64.lt_iff_toInt_lt.mp positive) settles⟩
  | orderCreated order => exact ⟨[], handleOrderCreated_records done⟩
  | orderCanceled orderID => exact ⟨[], handleOrderCanceled_records done⟩
  | unknown type =>
      cases done
      exact ⟨[], .nothing⟩

private theorem process_records [UUID.Parser] (db : Database)
    (handling : Handling) :
    ∃ rows, db.Records (db.process handling) rows := by
  rcases process_cases db handling with ⟨same, _⟩ | done
  · rw [same]
    exact ⟨[], .nothing⟩
  · exact handleEvent_records done

/-! The tables of one settlement. -/

private theorem numericFromInt_neg {quantity : Int64}
    (positive : 0 < quantity.toInt) :
    numericFromInt (-quantity) = -numericFromInt quantity := by
  unfold numericFromInt
  rw [toInt_neg positive]
  exact Int.neg_mul _ _

section Settlement

variable {trade : TradeData} {keys : TradeKeys}
  (settles : db.Settles trade keys later)

include settles

private theorem Settles.trades_kept {id : UUID} {row : TradeRow}
    (found : db.trades.lookup id = some row) :
    later.trades.lookup id = some row := by
  obtain ⟨fresh, inserted, _, _, _, written⟩ := settles.trades
  rw [written, FiniteMap.lookup_insert_eq, if_neg, found]
  rintro rfl
  rw [fresh] at found
  cases found

private theorem Settles.users_cash (id : UUID) :
    later.users.lookup id = (db.users.lookup id).map
      (· + ((transactionRows trade keys).map (·.cash id)).sum) := by
  obtain ⟨balance, credit, found, _, foundCredit, written⟩ := settles.users
  rw [FiniteMap.lookup_insert_eq] at foundCredit
  rw [written, FiniteMap.lookup_insert_eq, FiniteMap.lookup_insert_eq]
  simp only [transactionRows, TransactionRow.cash, List.map_cons, List.map_nil,
    List.sum_cons, List.sum_nil, eq_comm (b := id)]
  by_cases buys : id = keys.buyerID <;> by_cases sells : id = keys.sellerID
  · -- the buyer is the seller, and is credited after the deduction
    subst buys
    rw [if_pos sells.symm] at foundCredit
    cases foundCredit
    rw [if_pos sells, if_pos rfl, if_pos sells, found, Option.map_some]
    congr 1
    omega
  · subst buys
    simp only [if_neg sells, if_true, found, Option.map_some]
    congr 1
    omega
  · subst sells
    rw [if_neg buys] at foundCredit
    simp only [if_neg buys, if_true, foundCredit, Option.map_some]
    congr 1
    omega
  · simp [buys, sells]

private theorem Settles.orders_filled {id : UUID} {row : OrderRow}
    (found : db.orders.lookup id = some row) :
    ∃ now, later.orders.lookup id = some now ∧
      row.Filled now
        ((transactionRows trade keys).map (·.filled id)).sum := by
  obtain ⟨taker, maker, foundTaker, foundMaker, written⟩ := settles.orders
  rw [FiniteMap.lookup_insert_eq] at foundMaker
  rw [written, FiniteMap.lookup_insert_eq, FiniteMap.lookup_insert_eq]
  simp only [transactionRows, TransactionRow.filled, List.map_cons,
    List.map_nil, List.sum_cons, List.sum_nil, eq_comm (b := id), Int.add_zero]
  by_cases takes : id = keys.takerOrderID <;>
    by_cases makes : id = keys.makerOrderID
  · subst takes
    rw [if_pos makes.symm] at foundMaker
    cases foundMaker
    rw [foundTaker] at found
    cases found
    refine ⟨_, if_pos makes, ?_⟩
    rw [if_pos rfl, if_pos makes]
    exact (row.filled_fill _).trans (OrderRow.filled_fill _ _)
  · subst takes
    rw [foundTaker] at found
    cases found
    refine ⟨_, by rw [if_neg makes, if_pos rfl], ?_⟩
    rw [if_pos rfl, if_neg makes, Int.add_zero]
    exact row.filled_fill _
  · subst makes
    rw [if_neg takes, found] at foundMaker
    cases foundMaker
    refine ⟨_, if_pos rfl, ?_⟩
    rw [if_neg takes, if_pos rfl, Int.zero_add]
    exact row.filled_fill _
  · refine ⟨row, by rw [if_neg makes, if_neg takes, found], ?_⟩
    rw [if_neg takes, if_neg makes]
    exact .refl row

theorem Settles.event_of_row :
    (later.trades.lookup keys.tradeID).map (·.eventID) = some keys.eventID := by
  obtain ⟨_, row, event, _, _, written⟩ := settles.trades
  rw [written, FiniteMap.lookup_insert_eq, if_pos rfl, Option.map_some, event]

private theorem Settles.positions_shares (quantity : 0 < trade.quantity.toInt)
    (id : PositionID) :
    later.shares id = db.shares id +
      ((transactionRows trade keys).map (·.shares later.trades id)).sum := by
  obtain ⟨traded, bought, sold, parsed, written, boughtShares, soldShares⟩ :=
    settles.positions
  rw [numericFromInt_neg quantity] at soldShares
  have matches_id : ∀ userID : UUID, (userID = id.userID ∧
      some keys.eventID = some id.eventID ∧ some traded = some id.outcome) ↔
        id = ⟨userID, keys.eventID, traded⟩ := by
    intro userID
    cases id
    simp only [Option.some.injEq, PositionID.mk.injEq]
    exact ⟨fun ⟨user, event, outcome⟩ => ⟨user.symm, event.symm, outcome.symm⟩,
      fun ⟨user, event, outcome⟩ => ⟨user.symm, event.symm, outcome.symm⟩⟩
  simp only [transactionRows, TransactionRow.shares, settles.event_of_row,
    parsed, matches_id, List.map_cons, List.map_nil, List.sum_cons,
    List.sum_nil]
  unfold Database.shares at boughtShares ⊢
  rw [FiniteMap.lookup_insert_eq] at soldShares
  rw [written, FiniteMap.lookup_insert_eq, FiniteMap.lookup_insert_eq]
  by_cases buys : id = ⟨keys.buyerID, keys.eventID, traded⟩ <;>
    by_cases sells : id = ⟨keys.sellerID, keys.eventID, traded⟩
  · rw [← buys, ← sells, if_pos rfl] at soldShares
    rw [← buys] at boughtShares
    rw [if_pos sells, if_pos buys, if_pos sells]
    simp only [Option.elim_some] at soldShares ⊢
    omega
  · rw [← buys] at boughtShares
    rw [if_neg sells, if_pos buys, if_pos buys, if_neg sells]
    simp only [Option.elim_some]
    omega
  · rw [← sells, if_neg buys] at soldShares
    rw [if_pos sells, if_neg buys, if_pos sells]
    simp only [Option.elim_some]
    omega
  · rw [if_neg sells, if_neg buys, if_neg buys, if_neg sells]
    omega

private theorem Settles.reconciles (quantity : 0 < trade.quantity.toInt) :
    db.Reconciles later (transactionRows trade keys) where
  ledger := settles.transactions
  traded := by
    intro row member
    have same : row.tradeID = keys.tradeID := by
      simp only [transactionRows, List.mem_cons, List.not_mem_nil,
        or_false] at member
      rcases member with rfl | rfl <;> rfl
    intro missing
    have there := settles.event_of_row
    rw [← same, missing] at there
    cases there
  trades := settles.trades_kept
  users := settles.users_cash
  positions := settles.positions_shares quantity
  orders := settles.orders_filled

end Settlement

/-! Calls one after another. -/

private theorem Reconciles.of_orders {orders : FiniteMap UUID OrderRow}
    (filled : ∀ {id row}, db.orders.lookup id = some row →
      ∃ now, orders.lookup id = some now ∧ row.Filled now 0) :
    db.Reconciles { db with orders := orders } [] where
  ledger := (List.append_nil _).symm
  traded := fun _ member => nomatch member
  trades := id
  users := by simp
  positions := fun _ => (Int.add_zero _).symm
  orders := filled

private theorem Records.reconciles {rows : List TransactionRow}
    (records : db.Records later rows) : db.Reconciles later rows := by
  cases records with
  | nothing =>
      exact .of_orders fun {_ row} found => ⟨row, found, .refl row⟩
  | created fresh =>
      apply Reconciles.of_orders
      intro other row found
      refine ⟨row, ?_, .refl row⟩
      rw [FiniteMap.lookup_insert_eq, if_neg, found]
      rintro rfl
      rw [fresh] at found
      cases found
  | @canceled id canceled known =>
      apply Reconciles.of_orders
      intro other row found
      rw [FiniteMap.lookup_insert_eq]
      by_cases same : other = id
      · subst same
        rw [known] at found
        cases found
        exact ⟨_, if_pos rfl, ⟨rfl, rfl, rfl, rfl, rfl, rfl, by simp⟩⟩
      · exact ⟨row, by rw [if_neg same, found], .refl row⟩
  | settled quantity settles => exact settles.reconciles quantity

private theorem Reconciles.shares_of_row {before after : Database}
    {rows : List TransactionRow} (reconciles : before.Reconciles after rows)
    {row : TransactionRow} (known : before.trades.lookup row.tradeID ≠ none)
    (id : PositionID) :
    row.shares after.trades id = row.shares before.trades id := by
  obtain ⟨trade, found⟩ := Option.ne_none_iff_exists'.mp known
  unfold TransactionRow.shares
  rw [found, reconciles.trades found]

private theorem Reconciles.trans {first second third : Database}
    {rows more : List TransactionRow} (earlier : first.Reconciles second rows)
    (later : second.Reconciles third more) :
    first.Reconciles third (rows ++ more) where
  ledger := by rw [later.ledger, earlier.ledger, List.append_assoc]
  traded := by
    intro row member
    rcases List.mem_append.mp member with old | new
    · obtain ⟨trade, found⟩ :=
        Option.ne_none_iff_exists'.mp (earlier.traded row old)
      rw [later.trades found]
      exact Option.some_ne_none trade
    · exact later.traded row new
  trades := fun found => later.trades (earlier.trades found)
  users := by
    intro id
    rw [later.users, earlier.users, Option.map_map, List.map_append,
      List.sum_append]
    congr 1
    funext balance
    exact Int.add_assoc _ _ _
  positions := by
    intro id
    have same : rows.map (·.shares third.trades id) =
        rows.map (·.shares second.trades id) :=
      List.map_congr_left fun row member =>
        later.shares_of_row (earlier.traded row member) id
    rw [later.positions, earlier.positions, List.map_append, List.sum_append,
      same, Int.add_assoc]
  orders := by
    intro id row found
    obtain ⟨middle, foundMiddle, filled⟩ := earlier.orders found
    obtain ⟨now, foundNow, more⟩ := later.orders foundMiddle
    rw [List.map_append, List.sum_append]
    exact ⟨now, foundNow, filled.trans more⟩

/-- Balances, positions and fills can be recomputed from the ledger: it only
grows, and what it grows by is what the tables have changed by. -/
theorem processAll_reconciles [UUID.Parser]
    (db : Database) (handlings : List Handling) :
    ∃ rows, db.Reconciles (db.processAll handlings) rows := by
  apply always_runFrom (fun later => ∃ rows, db.Reconciles later rows)
  · rintro middle handling ⟨rows, reconciles⟩
    obtain ⟨more, records⟩ := process_records middle handling
    exact ⟨rows ++ more, reconciles.trans records.reconciles⟩
  · exact ⟨[], Records.nothing.reconciles⟩

end Database

end Predix
