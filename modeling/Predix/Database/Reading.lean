import Predix.Database.Redelivery

namespace Predix

open Data Word

/-! The worker reads share counts through a float64. The columns it reads hold
whole shares within their twelve digits, and those a float64 has exactly. -/

def WholeColumn (value : Int) : Prop :=
  100000000 ∣ value ∧ InColumn value

private theorem WholeColumn.readsExactly {value : Int}
    (whole : WholeColumn value) :
    numericToInt64 value = wholeShares value := by
  obtain ⟨⟨shares, rfl⟩, fits⟩ := whole
  unfold InColumn decimalLimit at fits
  have small : |shares| < 2 ^ 53 := by
    rw [abs_lt]
    omega
  rw [Int.mul_comm, numericToInt64_whole small, wholeShares,
    Int.mul_tdiv_cancel _ (by decide)]

private theorem WholeColumn.numericFromInt {shares : Int64}
    (fits : InColumn (numericFromInt shares)) :
    WholeColumn (Predix.numericFromInt shares) :=
  ⟨Dvd.intro_left shares.toInt rfl, fits⟩

structure OrderRow.Whole (row : OrderRow) : Prop where
  quantity : WholeColumn row.quantity
  filled : WholeColumn row.filledQuantity

namespace Database

def Whole (db : Database) : Prop :=
  ∀ id row, db.orders.lookup id = some row → row.Whole

variable {db later : Database}

theorem Whole.insert (whole : db.Whole) {id : UUID} {row : OrderRow}
    (isWhole : row.Whole) :
    Whole { db with orders := db.orders.insert id row } := by
  intro other found isFound
  rw [FiniteMap.lookup_insert_eq] at isFound
  split at isFound
  · cases isFound
    exact isWhole
  · exact whole other found isFound

private theorem insertOrder_whole (whole : db.Whole) {order : OrderData}
    {id eventID userID : UUID}
    (done : db.insertOrder (order.params id eventID userID) = .ok later) :
    later.Whole := by
  obtain ⟨row, rfl, written, _⟩ := insertOrder_ok done
  apply whole.insert
  constructor
  · rw [written.quantity]
    exact .numericFromInt written.quantityFits
  · rw [written.filled]
    exact .numericFromInt written.filledFits

private theorem Settles.whole (whole : db.Whole) {trade : TradeData}
    {keys : TradeKeys}
    (settles : db.Settles trade keys later) : later.Whole := by
  obtain ⟨taker, maker, takerFound, makerFound, orders⟩ := settles.orders
  have more : ∀ {row : OrderRow}, 100000000 ∣ row.filledQuantity →
      100000000 ∣ (row.fill trade.quantity).filledQuantity :=
    fun divides => dvd_add divides (Dvd.intro_left trade.quantity.toInt rfl)
  have taken := whole _ _ takerFound
  have made : WholeColumn maker.quantity ∧ 100000000 ∣ maker.filledQuantity := by
    rw [FiniteMap.lookup_insert_eq] at makerFound
    split at makerFound
    · cases makerFound
      exact ⟨taken.quantity, more taken.filled.1⟩
    · have isWhole := whole _ _ makerFound
      exact ⟨isWhole.quantity, isWhole.filled.1⟩
  intro id row found
  by_cases named : id = keys.takerOrderID ∨ id = keys.makerOrderID
  · have small := settles.filledFits id row named found
    rw [orders, FiniteMap.lookup_insert_eq, FiniteMap.lookup_insert_eq] at found
    split at found
    · cases found
      exact ⟨made.1, more made.2, small⟩
    · rename_i notMaker
      rw [if_pos (named.resolve_right notMaker)] at found
      cases found
      exact ⟨taken.quantity, more taken.filled.1, small⟩
  · rw [not_or] at named
    rw [orders, FiniteMap.lookup_insert_eq, if_neg named.2,
      FiniteMap.lookup_insert_eq, if_neg named.1] at found
    exact whole id row found

private theorem handleEvent_whole [UUID.Parser] (whole : db.Whole)
    {data : EventData}
    (done : db.handleEvent data = .ok later) : later.Whole := by
  cases data with
  | tradeExecuted trade =>
      obtain ⟨_, _, _, _, _, ⟨_, rfl⟩ | ⟨_, _, settles⟩⟩ :=
        handleTradeExecuted_effect done
      · exact whole
      · exact settles.whole whole
  | orderCreated order =>
      obtain ⟨_, _, _, _, _, _, _, _, ⟨_, rfl⟩ | insertion⟩ :=
        handleOrderCreated_effect done
      · exact whole
      · exact insertOrder_whole whole insertion
  | orderCanceled orderID =>
      obtain ⟨_, id, _, _, rfl⟩ := handleOrderCanceled_effect done
      unfold updateOrderStatus
      split
      · exact whole
      · rename_i row found
        have isWhole := whole id row found
        exact whole.insert ⟨isWhole.quantity, isWhole.filled⟩
  | unknown type =>
      cases done
      exact whole

private theorem process_whole [UUID.Parser] (whole : db.Whole)
    (handling : Handling) :
    (db.process handling).Whole := by
  rcases process_cases db handling with ⟨same, _⟩ | done
  · rw [same]
    exact whole
  · exact handleEvent_whole whole done

/-- Whatever the worker has been handed, the share counts it reads are those in
the columns. -/
theorem processAll_readsExactly [UUID.Parser] {db : Database} (whole : db.Whole)
    (handlings : List Handling) {id : UUID} {row : OrderRow}
    (found : (db.processAll handlings).orders.lookup id = some row) :
    numericToInt64 row.filledQuantity = wholeShares row.filledQuantity ∧
      numericToInt64 row.quantity = wholeShares row.quantity := by
  have kept : (db.processAll handlings).Whole :=
    always_runFrom Whole
      (fun _ handling whole => process_whole whole handling) whole handlings
  have isWhole := kept id row found
  exact ⟨isWhole.filled.readsExactly, isWhole.quantity.readsExactly⟩

theorem readsExactly_saleTwice :
    ∃ id row, (emptyTables.processAll saleTwice).orders.lookup id = some row ∧
      numericToInt64 row.filledQuantity = wholeShares row.filledQuantity := by
  have there : ∃ row, (emptyTables.processAll saleTwice).orders.lookup
      (shortID 4) = some row :=
    Option.isSome_iff_exists.mp (by decide +kernel)
  obtain ⟨row, found⟩ := there
  have whole : emptyTables.Whole := fun _ _ found => nomatch found
  exact ⟨_, row, found, (processAll_readsExactly whole saleTwice found).1⟩

end Database

end Predix
