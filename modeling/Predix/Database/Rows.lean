import Predix.Database.Settlement

namespace Predix

open Data

/-! What the worker's handlers do to the order rows when they succeed. -/

namespace Database

variable {db later : Database}

def TradesAmong (db : Database) (ids : List String) : Prop :=
  ∀ uuid, db.trades.lookup uuid ≠ none → uuid.text ∈ ids

theorem TradesAmong.mono {ids more : List String} (among : db.TradesAmong ids)
    (sub : ∀ id ∈ ids, id ∈ more) (trades : later.trades = db.trades) :
    later.TradesAmong more := by
  intro uuid known
  rw [trades] at known
  exact sub _ (among uuid known)

variable [UUID.Parser]

def row? (db : Database) (id : String) : Option OrderRow :=
  (UUID.parse id).bind fun uuid => db.orders.lookup uuid

theorem row?_eq {id : String} {uuid : UUID} (parsed : UUID.parse id = some uuid)
    (db : Database) : db.row? id = db.orders.lookup uuid := by
  simp only [row?, parsed, Option.bind_some]

theorem row?_insert {id other : String} {uuid : UUID}
    (parsed : UUID.parse id = some uuid) (canonical : Canonical id)
    (otherCanonical : Canonical other) {row : OrderRow}
    (written : later.orders = db.orders.insert uuid row) :
    later.row? other = if other = id then some row else db.row? other := by
  obtain ⟨otherUUID, otherParsed, otherText⟩ := otherCanonical.exists
  obtain ⟨own, ownParsed, ownText⟩ := canonical.exists
  rw [parsed] at ownParsed
  cases ownParsed
  rw [row?_eq otherParsed, row?_eq otherParsed, written,
    FiniteMap.lookup_insert_eq]
  by_cases same : other = id
  · rw [if_pos same, if_pos]
    apply UUID.text_injective
    rw [otherText, ownText, same]
  · rw [if_neg same, if_neg]
    rintro rfl
    exact same (otherText.symm.trans ownText)

/-! The three events. -/

theorem handleOrderCreated_rows {order : Order}
    (canonical : Canonical order.id) (fresh : db.row? order.id = none)
    (done : db.handleOrderCreated (some order.data) = .ok later) :
    ∃ row : OrderRow,
      (∀ other, Canonical other → later.row? other =
        if other = order.id then some row else db.row? other) ∧
      row.quantity = numericFromInt order.quantity ∧
      InColumn row.quantity ∧
      row.filledQuantity = numericFromInt order.filledQuantity ∧
      row.remainingQuantity = numericFromInt order.remainingQuantity ∧
      row.status = order.status ∧ later.trades = db.trades := by
  obtain ⟨data, uuid, _, _, isData, parsed, _, _, effect⟩ :=
    handleOrderCreated_effect done
  cases isData
  change UUID.parse order.id = some uuid at parsed
  rcases effect with ⟨unique, _⟩ | insertion
  · rw [row?_eq parsed] at fresh
    exact absurd fresh (insertOrder_unique unique)
  · obtain ⟨row, rfl, written, _⟩ := insertOrder_ok insertion
    have small := written.quantityFits
    rw [← written.quantity] at small
    have sameStatus : row.status = order.status := by
      have parsedStatus : Status.parse order.status.text =
          some row.status := written.status
      rw [Status.parse_text] at parsedStatus
      exact (Option.some.inj parsedStatus).symm
    refine ⟨row, ?_, written.quantity, small, written.filled,
      written.remaining, sameStatus, rfl⟩
    intro other otherCanonical
    exact row?_insert parsed canonical otherCanonical rfl

theorem handleOrderCanceled_rows {id : String} (canonical : Canonical id)
    {row : OrderRow} (found : db.row? id = some row)
    (done : db.handleOrderCanceled (some id) = .ok later) :
    (∀ other, Canonical other → later.row? other =
      if other = id then some { row with status := .statusCanceled }
      else db.row? other) ∧ later.trades = db.trades := by
  obtain ⟨_, uuid, isID, parsed, rfl⟩ := handleOrderCanceled_effect done
  cases isID
  rw [row?_eq parsed] at found
  simp only [updateOrderStatus, found]
  refine ⟨?_, trivial⟩
  intro other otherCanonical
  exact row?_insert parsed canonical otherCanonical rfl

theorem handleTradeExecuted_rows {trade : Trade} {tradeID : UUID}
    (canonical : Canonical trade.orderID)
    (makerCanonical : Canonical trade.matchOrderID)
    (distinct : trade.matchOrderID ≠ trade.orderID)
    (unsettled : db.trades.lookup tradeID = none)
    (done : db.handleTradeExecuted (some (trade.data tradeID.text)) =
      .ok later) :
    ∃ taker maker row, db.row? trade.orderID = some taker ∧
      db.row? trade.matchOrderID = some maker ∧
      (∀ other, Canonical other → later.row? other =
        if other = trade.matchOrderID then some (maker.fill trade.quantity)
        else if other = trade.orderID then some (taker.fill trade.quantity)
        else db.row? other) ∧
      later.trades = db.trades.insert tradeID row := by
  obtain ⟨data, keys, isData, _, names, effect⟩ :=
    handleTradeExecuted_effect done
  cases isData
  have isTrade : keys.tradeID = tradeID :=
    Option.some.inj (names.own.symm.trans (UUID.parse_text tradeID))
  obtain ⟨unique, _⟩ | ⟨_, _, settles⟩ := effect
  · have known := insertTrade_unique unique
    change db.trades.lookup keys.tradeID ≠ none at known
    rw [isTrade] at known
    exact absurd unsettled known
  obtain ⟨_, row, _, _, _, trades⟩ := settles.trades
  rw [isTrade] at trades
  obtain ⟨taker, maker, takerFound, makerFound, orders⟩ := settles.orders
  have isTaker : UUID.parse trade.orderID = some keys.takerOrderID :=
    names.taker
  have isMaker : UUID.parse trade.matchOrderID = some keys.makerOrderID :=
    names.maker
  -- the rows between the two fills
  have between : ∀ other, Canonical other →
      row? { db with
        orders := db.orders.insert keys.takerOrderID
          (taker.fill trade.quantity) } other =
        if other = trade.orderID then some (taker.fill trade.quantity)
        else db.row? other :=
    fun other otherCanonical =>
      row?_insert isTaker canonical otherCanonical rfl
  refine ⟨taker, maker, row, ?_, ?_, ?_, trades⟩
  · rw [row?_eq isTaker]
    exact takerFound
  · have kept := between trade.matchOrderID makerCanonical
    rw [row?_eq isMaker, if_neg distinct] at kept
    rw [← kept]
    exact makerFound
  · intro other otherCanonical
    rw [← between other otherCanonical]
    exact row?_insert isMaker makerCanonical otherCanonical orders

end Database

end Predix
