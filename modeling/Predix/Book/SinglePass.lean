import Predix.Book.Matched

namespace Predix

open Data Word

/-! Price-time priority as a single pass over the opposite slice. The engine
starts over at the front of the slice after every trade. -/

/-- A limit order accepts the prices at least as good as its own, a market
order every price. -/
def Order.accepts (incoming : Order) (price : Int64) : Bool :=
  match incoming.orderType, incoming.side with
  | .orderTypeMarket, _ => true
  | .orderTypeLimit, .sideBuy => decide (price ≤ incoming.price)
  | .orderTypeLimit, .sideSell => decide (incoming.price ≤ price)

/-- The trades a remaining quantity makes on a slice. Own orders are passed
over, and the first price that is not acceptable ends the pass. -/
def priorityTrades (incoming : Order) : Int64 → List Order → List Trade
  | _, [] => []
  | remaining, resting :: orders =>
      if remaining ≤ 0 then
        []
      else if resting.userID = incoming.userID then
        priorityTrades incoming remaining orders
      else if incoming.accepts resting.price then
        let quantity := minWord remaining resting.remainingQuantity
        buildTrade incoming resting quantity ::
          priorityTrades incoming (remaining - quantity) orders
      else
        []

/-- What some trades leave of a resting order. -/
def Order.leftBy (trades : List Trade) (resting : Order) : Option Order :=
  match trades.find? fun trade => trade.matchOrderID == resting.id with
  | none => some resting
  | some trade =>
      if resting.remainingQuantity ≤ trade.quantity then
        none
      else
        some { resting with
          remainingQuantity := resting.remainingQuantity - trade.quantity
          filledQuantity := resting.filledQuantity + trade.quantity
          status := .statusPartial }

/-- A slice that stands against an incoming order. -/
structure Opposes (orders : List Order) (incoming : Order) : Prop where
  resting : ∀ order ∈ orders, order.resting
  outcome : ∀ order ∈ orders, order.outcome = incoming.outcome
  nodup : (orders.map (·.id)).Nodup
  sorted : orders.Pairwise (Order.sortsBefore incoming.side.opposite)

private theorem Opposes.tail {resting incoming : Order} {orders : List Order}
    (opposes : Opposes (resting :: orders) incoming) :
    Opposes orders incoming where
  resting order member := opposes.resting order (List.mem_cons_of_mem _ member)
  outcome order member := opposes.outcome order (List.mem_cons_of_mem _ member)
  nodup := (List.nodup_cons.mp opposes.nodup).2
  sorted := opposes.sorted.tail

theorem WellFormed.opposes {engine : Engine} (wellFormed : WellFormed engine)
    (order : Order) : Opposes (engine.opposing order) order where
  resting _ member :=
    ⟨(wellFormed.resting member).2.1, (wellFormed.remaining_of_mem member).2⟩
  outcome _ member := (opposing_mem wellFormed member).2.2.2.1
  nodup := wellFormed.queue_ids_nodup _ _ _
  sorted := wellFormed.sorted _ _ _

theorem canMatch_eq_accepts {incoming resting : Order}
    (outcome : resting.outcome = incoming.outcome) :
    canMatch incoming resting = incoming.accepts resting.price := by
  unfold canMatch Order.accepts
  rw [if_neg (not_not.mpr outcome.symm)]
  cases incoming.orderType <;> cases incoming.side <;> rfl

private theorem isCounterparty_eq {incoming resting : Order}
    (isResting : resting.resting)
    (outcome : resting.outcome = incoming.outcome) :
    isCounterparty incoming resting =
      (decide (resting.userID ≠ incoming.userID) &&
        incoming.accepts resting.price) := by
  have alive : decide (0 < resting.remainingQuantity) = true :=
    decide_eq_true (zero_lt_iff.mpr isResting.2)
  rw [isCounterparty, canMatch_eq_accepts outcome, isResting.1, alive,
    Bool.true_and, Bool.true_and]

private theorem not_accepts_behind {incoming resting behind : Order}
    (sorted : Order.sortsBefore incoming.side.opposite resting behind)
    (refused : incoming.accepts resting.price = false) :
    incoming.accepts behind.price = false := by
  unfold Order.accepts at refused ⊢
  cases type : incoming.orderType <;> cases side : incoming.side <;>
    simp only [type, side, decide_eq_false_iff_not, Int64.le_iff_toInt_le,
      Bool.true_eq_false, Side.opposite, Order.sortsBefore] at refused sorted ⊢ <;>
    omega

private theorem allocate_of_none {incoming : Order} {orders : List Order}
    (none : ∀ order ∈ orders, isCounterparty incoming order = false)
    (remaining : Int64) :
    (allocate incoming remaining orders).filter
      (fun fill => decide (0 < fill.quantity)) = [] := by
  induction orders with
  | nil => rfl
  | cons resting orders induction =>
      rw [allocate_cons_of_not_counterparty (none resting (by simp))]
      exact induction fun order member => none order (by simp [member])

/-- The allocation, which looks at every order of the slice, trades as the
pass does. -/
theorem allocate_trades {incoming : Order} {orders : List Order}
    (opposes : Opposes orders incoming) {remaining : Int64}
    (nonneg : 0 ≤ remaining.toInt) :
    ((allocate incoming remaining orders).filter
      fun fill => decide (0 < fill.quantity)).map (Fill.trade incoming) =
        priorityTrades incoming remaining orders := by
  induction orders generalizing remaining with
  | nil => rfl
  | cons resting orders induction =>
      have isResting := opposes.resting resting (by simp)
      have counterparty := isCounterparty_eq isResting
        (opposes.outcome resting (by simp))
      rw [priorityTrades]
      split
      · rename_i filled
        rw [le_zero_iff] at filled
        rw [filter_of_zero fun fill member =>
          allocate_of_zero (by omega) member]
        rfl
      rename_i unfilled
      rw [le_zero_iff] at unfilled
      split
      · rename_i own
        rw [allocate_cons_of_not_counterparty (by simp [counterparty, own])]
        exact induction opposes.tail nonneg
      split
      · rename_i foreign accepted
        rw [allocate_cons_of_counterparty
          (by simp [counterparty, foreign, accepted])]
        have positive : 0 < minWord remaining resting.remainingQuantity := by
          have := isResting.2
          rw [zero_lt_iff, toInt_minWord]
          omega
        have after := remaining_after nonneg isResting.2
        simp only [List.filter_cons, positive, decide_true, if_true,
          List.map_cons]
        rw [induction opposes.tail (by omega)]
        rfl
      · rename_i refused
        rw [Bool.not_eq_true] at refused
        rw [allocate_of_none, List.map_nil]
        intro order member
        rw [isCounterparty_eq (opposes.resting order member)
          (opposes.outcome order member), Bool.and_eq_false_iff]
        right
        rcases List.mem_cons.mp member with rfl | behind
        · exact refused
        · exact not_accepts_behind
            (List.rel_of_pairwise_cons opposes.sorted behind) refused

private theorem priorityTrades_whole {incoming : Order} {orders : List Order}
    (resting : ∀ order ∈ orders, order.resting) {remaining : Int64}
    {trade : Trade}
    (member : trade ∈ (priorityTrades incoming remaining orders).dropLast) :
    ∃ maker ∈ orders, trade.matchOrderID = maker.id ∧
      trade.quantity = maker.remainingQuantity := by
  induction orders generalizing remaining with
  | nil => cases member
  | cons order orders induction =>
      have later : ∀ {remaining : Int64},
          trade ∈ (priorityTrades incoming remaining orders).dropLast →
            ∃ maker ∈ order :: orders, trade.matchOrderID = maker.id ∧
              trade.quantity = maker.remainingQuantity := by
        intro remaining behind
        obtain ⟨maker, among, named⟩ := induction
          (fun other among => resting other (List.mem_cons_of_mem _ among)) behind
        exact ⟨maker, List.mem_cons_of_mem _ among, named⟩
      rw [priorityTrades] at member
      split at member
      · cases member
      split at member
      · exact later member
      split at member
      · rename_i unfilled _ _
        rw [le_zero_iff] at unfilled
        have isOpen := (resting order (by simp)).2
        simp only at member
        generalize rest : priorityTrades incoming
          (remaining - minWord remaining order.remainingQuantity) orders = trades
            at member
        cases trades with
        | nil => cases member
        | cons next trades =>
            rw [List.dropLast_cons_cons, List.mem_cons] at member
            rcases member with rfl | behind
            · -- something is left after this trade, so the order had less
              refine ⟨order, by simp, rfl, ?_⟩
              have some : ¬ remaining - minWord remaining
                  order.remainingQuantity ≤ 0 := by
                intro none
                cases orders <;> simp [priorityTrades, none] at rest
              rw [le_zero_iff, remaining_after (by omega) isOpen] at some
              change minWord remaining order.remainingQuantity =
                order.remainingQuantity
              rw [← Int64.toInt_inj, toInt_minWord]
              omega
            · rw [← rest] at behind
              exact later behind
      · cases member

theorem matchTrades_eq {incoming : Order} {orders : List Order}
    (opposes : Opposes orders incoming)
    (nonneg : 0 ≤ incoming.remainingQuantity.toInt) :
    (fills incoming orders).map (Fill.trade incoming) =
      priorityTrades incoming incoming.remainingQuantity orders :=
  allocate_trades opposes nonneg

private theorem find?_trade {incoming : Order} {orders : List Order}
    (nodup : (orders.map (·.id)).Nodup) {fill : Fill}
    (allocated : fill ∈
      allocate incoming incoming.remainingQuantity orders) :
    ((fills incoming orders).map (Fill.trade incoming)).find?
        (fun trade => trade.matchOrderID == fill.maker.id) =
      if 0 < fill.quantity then some (fill.trade incoming) else none := by
  have ids : ((allocate incoming incoming.remainingQuantity orders).map
      (·.maker.id)).Nodup := by
    rw [← allocate_map_maker incoming incoming.remainingQuantity orders,
      List.map_map] at nodup
    exact nodup
  have only : ∀ other ∈ fills incoming orders,
      other.maker.id = fill.maker.id → other = fill := by
    intro other member same
    exact List.inj_on_of_nodup_map ids (mem_fills.mp member).1 allocated same
  split
  · rename_i positive
    rw [List.find?_map, Option.map_eq_some_iff]
    refine ⟨fill, ?_, rfl⟩
    have member : fill ∈ fills incoming orders :=
      mem_fills.mpr ⟨allocated, zero_lt_iff.mp positive⟩
    have isThere : ((fills incoming orders).find?
        fun other => other.maker.id == fill.maker.id).isSome = true :=
      List.find?_isSome.mpr ⟨fill, member, beq_self_eq_true fill.maker.id⟩
    obtain ⟨other, found⟩ := Option.isSome_iff_exists.mp isThere
    have sameID := List.find?_some found
    rw [only other (List.mem_of_find?_eq_some found)
      (beq_iff_eq.mp sameID)] at found
    exact found
  · rename_i untouched
    rw [List.find?_eq_none]
    intro trade member named
    obtain ⟨other, otherMember, rfl⟩ := List.mem_map.mp member
    have same := only other otherMember (beq_iff_eq.mp named)
    rw [← same] at untouched
    exact untouched (zero_lt_iff.mpr (mem_fills.mp otherMember).2)

private theorem slicePast_eq {incoming : Order} {orders : List Order}
    (nodup : (orders.map (·.id)).Nodup)
    (nonneg : 0 ≤ incoming.remainingQuantity.toInt) :
    slicePast incoming orders = orders.filterMap
      (Order.leftBy ((fills incoming orders).map (Fill.trade incoming))) := by
  conv_rhs => rw [← allocate_map_maker incoming incoming.remainingQuantity orders]
  rw [List.filterMap_map, slicePast]
  apply List.filterMap_congr
  intro fill allocated
  obtain ⟨quantityNonneg, bound⟩ := allocate_quantity nonneg allocated
  rw [Function.comp_apply, Order.leftBy, allocate_map_maker,
    find?_trade nodup allocated, Fill.left]
  by_cases positive : 0 < fill.quantity
  · rw [if_pos positive]
    rw [zero_lt_iff] at positive
    have left : (fill.maker.fill fill.quantity).remainingQuantity.toInt =
        fill.maker.remainingQuantity.toInt - fill.quantity.toInt :=
      toInt_sub_of_le quantityNonneg (bound positive).2
    rw [if_neg (by rw [le_zero_iff]; omega)]
    have whole : (fill.maker.fill fill.quantity).remainingQuantity ≤ 0 ↔
        fill.maker.remainingQuantity ≤ (fill.trade incoming).quantity := by
      rw [Word.le_zero_iff, left, Int64.le_iff_toInt_le]
      exact sub_nonpos
    by_cases taken :
        fill.maker.remainingQuantity ≤ (fill.trade incoming).quantity
    · rw [if_pos (whole.mpr taken)]
      exact (if_pos taken).symm
    · have stays := mt whole.mp taken
      rw [if_neg stays, Fill.filled, Order.afterFill, if_neg stays]
      exact (if_neg taken).symm
  · rw [if_neg positive, if_pos]
    rw [Word.zero_lt_iff] at positive
    rw [Word.le_zero_iff]
    omega

/-- The loop leaves off: nothing is left to trade, or no order of the slice
can trade. -/
def Matching.over (matching : Matching) (orders : List Order) : Prop :=
  matching.incoming.remainingQuantity ≤ 0 ∨
    findCounterparty (removeInvalid orders) matching.incoming = none

private theorem matchAgainstBook_over {orders : List Order} {incoming : Order}
    (resting : ∀ order ∈ orders, order.resting) :
    (matchAgainstBook orders incoming).1.over
      (matchAgainstBook orders incoming).2 := by
  unfold matchAgainstBook
  rw [matchLoop_eq_loop resting,
    SweepRule.loop_eq_pass matchRule_lawful (Nat.lt_succ_self _)]
  rcases SweepRule.pass_ended matchRule_lawful ⟨incoming, [], []⟩ orders with
    done | ineligible
  · exact .inl (of_decide_eq_true done)
  · refine .inr (List.findIdx?_eq_none_iff.mpr ?_)
    intro order member
    exact ineligible order ((List.dropWhile_sublist _).subset member)

/-- Matching against a slice of the book ends, makes the trades of the single
pass, and takes from the slice what these trades name. Only the last trade can
leave something of its resting order. -/
theorem matchAgainstBook_singlePass {orders : List Order} {incoming : Order}
    (opposes : Opposes orders incoming)
    (isOpen : 0 < incoming.remainingQuantity) :
    let trades := priorityTrades incoming incoming.remainingQuantity orders
    (∀ fuel, orders.length < fuel →
      matchLoop fuel ⟨incoming, [], []⟩ orders =
        matchAgainstBook orders incoming) ∧
    (matchAgainstBook orders incoming).1.over
      (matchAgainstBook orders incoming).2 ∧
    (matchAgainstBook orders incoming).1.trades = trades ∧
    (matchAgainstBook orders incoming).2 =
      orders.filterMap (Order.leftBy trades) ∧
    ∀ trade ∈ trades.dropLast, ∃ maker ∈ orders,
      trade.matchOrderID = maker.id ∧
        trade.quantity = maker.remainingQuantity := by
  have nonneg := Int.le_of_lt (zero_lt_iff.mp isOpen)
  have trades := matchTrades_eq opposes nonneg
  have slice := slicePast_eq opposes.nodup nonneg
  have result := matchAgainstBook_eq opposes.resting nonneg
  rw [slice, trades] at result
  have loops : ∀ fuel, orders.length < fuel →
      matchLoop fuel ⟨incoming, [], []⟩ orders =
        matchAgainstBook orders incoming := by
    intro fuel enough
    unfold matchAgainstBook
    rw [matchLoop_eq_loop opposes.resting, matchLoop_eq_loop opposes.resting,
      SweepRule.loop_eq_pass matchRule_lawful enough,
      SweepRule.loop_eq_pass matchRule_lawful (Nat.lt_succ_self _)]
  have ended := @matchAgainstBook_over orders incoming opposes.resting
  rw [result] at loops ended ⊢
  exact ⟨loops, ended, rfl, rfl,
    fun trade member => priorityTrades_whole opposes.resting member⟩

def pendingYes (id userID : String) (side : Side) (quantity price : Int64) :
    Order :=
  { id := id
    eventID := "e"
    userID := userID
    orderType := .orderTypeLimit
    outcome := .outcomeYes
    side := side
    quantity := quantity
    filledQuantity := 0
    remainingQuantity := quantity
    price := price
    status := .statusPending
    lockedFunds := 0 }

def fourAsks : List Order :=
  [pendingYes "own" "u" .sideSell 5 3000, pendingYes "a" "v" .sideSell 2 3000,
    pendingYes "b" "w" .sideSell 4 4000, pendingYes "late" "u" .sideSell 1 9000]

/-- A bid for 3 passes over the own ask, takes the next one whole and part of
the one behind it. -/
theorem singlePass_fourAsks :
    let incoming := pendingYes "bid" "u" .sideBuy 3 5000
    Opposes fourAsks incoming ∧
      (matchAgainstBook fourAsks incoming).1.trades.map
          (fun trade => (trade.matchOrderID, trade.quantity, trade.price)) =
        [("a", 2, 3000), ("b", 1, 4000)] ∧
      (matchAgainstBook fourAsks incoming).2.map
          (fun order => (order.id, order.remainingQuantity)) =
        [("own", 5), ("b", 3), ("late", 1)] := by
  intro incoming
  have opposes : Opposes fourAsks incoming := by
    constructor
    · simp [fourAsks, pendingYes, Order.resting, Status.live]
    · simp [fourAsks, incoming, pendingYes]
    · decide
    · decide
  obtain ⟨_, _, trades, side, _⟩ := matchAgainstBook_singlePass opposes (by decide)
  rw [trades, side]
  exact ⟨opposes, by decide +kernel, by decide +kernel⟩

end Predix
