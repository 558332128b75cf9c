import Predix.Book.SinglePass
import Predix.Replay.Growth

namespace Predix

open Data Word

/-! The trades of a run, and what the gateway says of them. -/

structure TradeMessage where
  price : Int64
  quantity : Int64
  eventID : String
  userID : String
  outcome : Outcome
  side : Side
  deriving DecidableEq, Repr

/-- The message for a decoded trade; it goes to the subscribers of its event. -/
def handleTrade (trade : Trade) : TradeMessage where
  price := trade.price
  quantity := trade.quantity
  eventID := trade.eventID
  userID :=
    -- the actor is the taker that initiated the trade
    match trade.takerSide with
    | .sideBuy => trade.buyerID
    | .sideSell => trade.sellerID
  outcome := trade.outcome
  side := trade.takerSide

/-- A trade is one that two orders have agreed to. -/
structure Trade.Agreed (trade : Trade) (taker maker : Order) : Prop where
  event : taker.eventID = trade.eventID ∧ maker.eventID = trade.eventID
  outcome : taker.outcome = trade.outcome ∧ maker.outcome = trade.outcome
  takerSide : taker.side = trade.takerSide
  makerSide : maker.side = trade.takerSide.opposite
  /-- The resting order names the price. -/
  price : maker.orderType = .orderTypeLimit ∧ maker.price = trade.price
  accepts : taker.accepts trade.price = true
  quantity : 0 < trade.quantity.toInt ∧
    trade.quantity.toInt ≤ taker.quantity.toInt ∧
    trade.quantity.toInt ≤ maker.quantity.toInt
  users : taker.userID ≠ maker.userID
  parties : (trade.buyerID, trade.sellerID) =
    if trade.takerSide = .sideBuy then (taker.userID, maker.userID)
    else (maker.userID, taker.userID)

private theorem Order.SameTerms.accepts {left right : Order}
    (same : left.SameTerms right) (price : Int64) :
    left.accepts price = right.accepts price := by
  unfold Order.accepts
  rw [same.orderType, same.side, same.price]

theorem Trade.Agreed.congr {trade : Trade} {taker maker laterTaker laterMaker :
    Order} (agreed : trade.Agreed taker maker)
    (takerSame : laterTaker.SameTerms taker)
    (makerSame : laterMaker.SameTerms maker) :
    trade.Agreed laterTaker laterMaker where
  event := by
    rw [takerSame.eventID, makerSame.eventID]
    exact agreed.event
  outcome := by
    rw [takerSame.outcome, makerSame.outcome]
    exact agreed.outcome
  takerSide := takerSame.side.trans agreed.takerSide
  makerSide := makerSame.side.trans agreed.makerSide
  price := by
    rw [makerSame.orderType, makerSame.price]
    exact agreed.price
  accepts := by
    rw [takerSame.accepts]
    exact agreed.accepts
  quantity := by
    rw [takerSame.quantity, makerSame.quantity]
    exact agreed.quantity
  users := by
    rw [takerSame.userID, makerSame.userID]
    exact agreed.users
  parties := by
    rw [takerSame.userID, makerSame.userID]
    exact agreed.parties

theorem terms_step {engine : Engine} (wellFormed : WellFormed engine)
    (input : Input) {id : String} {order : Order}
    (present : engine.orders.lookup id = some order) :
    ∃ later, (engine.step input).engine.orders.lookup id = some later ∧
      later.SameTerms order := by
  obtain ⟨later, isLater, _⟩ := (grows_step wellFormed input).orders present
  refine ⟨later, isLater, ?_⟩
  rcases step_terms wellFormed input isLater with
    ⟨old, isOld, same⟩ | ⟨new, admitted, rfl, _⟩
  · rw [present] at isOld
    cases isOld
    exact same
  · rw [(admitted?_spec admitted).2.1] at present
    cases present

def Engine.Holds (engine : Engine) (trade : Trade) : Prop :=
  ∃ taker maker, engine.orders.lookup trade.orderID = some taker ∧
    engine.orders.lookup trade.matchOrderID = some maker ∧
    trade.Agreed taker maker

theorem Engine.Holds.step {engine : Engine} {trade : Trade}
    (holds : engine.Holds trade) (wellFormed : WellFormed engine)
    (input : Input) : (engine.step input).engine.Holds trade := by
  obtain ⟨taker, maker, isTaker, isMaker, agreed⟩ := holds
  obtain ⟨laterTaker, isLaterTaker, takerSame⟩ :=
    terms_step wellFormed input isTaker
  obtain ⟨laterMaker, isLaterMaker, makerSame⟩ :=
    terms_step wellFormed input isMaker
  exact ⟨laterTaker, laterMaker, isLaterTaker, isLaterMaker,
    agreed.congr takerSame makerSame⟩

private theorem quantity_le_filledSum {engine : Engine} {order : Order}
    {fill : Fill}
    (member : fill ∈ engine.fillsFor order) :
    fill.quantity.toInt ≤ filledSum (engine.fillsFor order) := by
  apply List.single_le_sum
  · intro quantity isQuantity
    obtain ⟨other, isOther, rfl⟩ := List.mem_map.mp isQuantity
    exact le_of_lt (fillsFor_positive other isOther)
  · exact List.mem_map_of_mem member

section Accepted

variable {engine : Engine} {order : Order} {market : Market}
  (wellFormed : WellFormed engine) (submitted : order.Submitted)

include wellFormed submitted

private theorem agreed_tradesFor {fill : Fill}
    (member : fill ∈ engine.fillsFor order) :
    (fill.trade order).Agreed order fill.maker := by
  obtain ⟨present, _, event, outcome, side⟩ := fillsFor_maker wellFormed member
  obtain ⟨counterparty, positive, le⟩ := fillsFor_counterparty submitted member
  have accounted := wellFormed.accounted present
  constructor
  · exact ⟨rfl, event⟩
  · exact ⟨rfl, outcome⟩
  · rfl
  · exact side
  · exact ⟨(wellFormed.resting (fills_maker_mem member)).1, rfl⟩
  · change order.accepts fill.maker.price = true
    rw [← canMatch_eq_accepts outcome]
    exact isCounterparty_canMatch counterparty
  · refine ⟨positive, ?_, ?_⟩
    · exact (quantity_le_filledSum member).trans
        (fillsFor_sum_le engine submitted)
    · have balanced := accounted.balanced
      have nonneg := accounted.filledNonneg
      change fill.quantity.toInt ≤ _
      omega
  · exact (isCounterparty_user counterparty).symm
  · unfold Fill.trade buildTrade
    cases order.side <;> rfl

private theorem holds_matched (fresh : engine.orders.lookup order.id = none)
    (hasMarket : engine.markets.lookup order.eventID = some market)
    {trade : Trade} (member : trade ∈ engine.tradesFor order) :
    (engine.matched order market).Holds trade := by
  obtain ⟨fill, fillMember, rfl⟩ := List.mem_map.mp member
  obtain ⟨lock, taker⟩ :=
    lookup_matched_taker wellFormed submitted fresh hasMarket
  have maker := lookup_matched_maker wellFormed submitted fresh hasMarket
    fillMember
  have filled : fill.filled.SameTerms fill.maker := by
    unfold Fill.filled Order.afterFill
    split <;> exact ⟨rfl, rfl, rfl, rfl, rfl, rfl, rfl⟩
  refine ⟨_, _, taker, maker, ?_⟩
  exact (agreed_tradesFor wellFormed submitted fillMember).congr
    (((engine.taker order).withLock_terms lock).trans (taker_terms engine order))
    ((Order.settledAll_terms _ _).trans filled)

end Accepted

theorem holds_step {engine : Engine} (wellFormed : WellFormed engine)
    (input : Input) {trade : Trade}
    (member : trade ∈ (engine.step input).trades) :
    (engine.step input).engine.Holds trade := by
  have effect := step_effect engine input
  generalize engine.step input = reply at effect member ⊢
  cases effect with
  | accepted order market submitted fresh hasMarket _ _ =>
      have valid := Input.order?_submitted submitted
      rw [announceAndMatch_enrolled wellFormed valid fresh hasMarket]
        at member ⊢
      exact holds_matched wellFormed valid fresh hasMarket member
  | unchanged | opened | dropped | canceled | marketCreated | userFunded =>
      exact absurd member List.not_mem_nil

structure HoldsTrades (history : History) : Prop where
  wellFormed : WellFormed history.engine
  holds : ∀ trade ∈ history.trades, history.engine.Holds trade

theorem HoldsTrades.step {history : History} (holds : HoldsTrades history)
    (input : Input) : HoldsTrades (history.step input) where
  wellFormed := wellFormed_step holds.wellFormed input
  holds := by
    intro trade member
    rcases List.mem_append.mp member with old | new
    · exact (holds.holds trade old).step holds.wellFormed input
    · exact holds_step holds.wellFormed input new

theorem holdsTrades_runSeeded (balances positions : Accounts String)
    (inputs : List Input) : HoldsTrades (runSeeded balances positions inputs) :=
  runSeeded_always HoldsTrades (fun _ input holds => holds.step input)
    ⟨wellFormed_seeded balances positions, nofun⟩ inputs

private theorem Trade.Agreed.actor {trade : Trade} {taker maker : Order}
    (agreed : trade.Agreed taker maker) :
    (handleTrade trade).userID = taker.userID := by
  have parties := agreed.parties
  unfold handleTrade
  cases side : trade.takerSide with
  | sideBuy =>
      rw [side, if_pos rfl] at parties
      exact congrArg Prod.fst parties
  | sideSell =>
      rw [side, if_neg (by decide)] at parties
      exact congrArg Prod.snd parties

/-- Every trade of a run is between two orders the engine holds, and the
message about it names the user of the incoming one. -/
theorem runSeeded_trades_between {balances positions : Accounts String}
    {inputs : List Input} {trade : Trade}
    (member : trade ∈ (runSeeded balances positions inputs).trades) :
    ∃ taker maker,
      (runSeeded balances positions inputs).engine.orders.lookup
        trade.orderID = some taker ∧
      (runSeeded balances positions inputs).engine.orders.lookup
        trade.matchOrderID = some maker ∧
      trade.Agreed taker maker ∧
      (handleTrade trade).userID = taker.userID := by
  obtain ⟨taker, maker, isTaker, isMaker, agreed⟩ :=
    (holdsTrades_runSeeded balances positions inputs).holds trade member
  exact ⟨taker, maker, isTaker, isMaker, agreed, agreed.actor⟩

def askAndMarketBuy : List Input :=
  [.createEvent "e",
    .submit "a" "e" "v" "LIMIT" "YES" "SELL" 2 4000,
    .submit "b" "e" "u" "MARKET" "YES" "BUY" 1 0]

theorem trades_between_askAndMarketBuy :
    ∃ trade ∈ (runSeeded (Finmap.insert "u" ⟨100000, 0⟩ ∅)
        (Finmap.insert (positionKey "v" "e" .outcomeYes) ⟨5, 0⟩ ∅)
        askAndMarketBuy).trades,
      ∃ taker maker, trade.Agreed taker maker ∧
        (handleTrade trade).userID = taker.userID := by
  have member : (⟨"b", "a", "e", .outcomeYes, "u", "v", .sideBuy, 1, 4000⟩ :
      Trade) ∈ (runSeeded (Finmap.insert "u" ⟨100000, 0⟩ ∅)
        (Finmap.insert (positionKey "v" "e" .outcomeYes) ⟨5, 0⟩ ∅)
        askAndMarketBuy).trades := by
    decide +kernel
  obtain ⟨taker, maker, _, _, agreed, actor⟩ := runSeeded_trades_between member
  exact ⟨_, member, taker, maker, agreed, actor⟩

end Predix
