import Predix.Ledger.Canceled

namespace Predix

open Data Word

/-! Cash under 64-bit arithmetic: what it takes for no amount to wrap. -/

def Trade.exactCost (trade : Trade) : Int :=
  trade.quantity.toInt * trade.price.toInt

/-- What a list of trades brings in for one user. -/
def proceeds (trades : List Trade) (userID : String) : Int :=
  (trades.map fun trade =>
    if trade.sellerID = userID then trade.exactCost else 0).sum

theorem received_eq_proceeds {trades : List Trade}
    (exact : ∀ trade ∈ trades, trade.cost.toInt = trade.exactCost)
    (userID : String) :
    Transfer.received userID (trades.map Leg.cash.transfer) =
      proceeds trades userID := by
  unfold Transfer.received proceeds
  rw [List.map_map]
  apply congrArg List.sum
  apply List.map_congr_left
  intro trade member
  change (if trade.sellerID = userID then trade.cost.toInt else 0) = _
  rw [exact trade member]

theorem drawn_eq_namedSum {trades : List Trade}
    (exact : ∀ trade ∈ trades, trade.cost.toInt = trade.exactCost)
    (orderID : String) :
    Leg.cash.drawn orderID trades =
      namedSum Trade.exactCost trades orderID := by
  unfold Leg.drawn namedSum
  apply congrArg List.sum
  apply List.map_congr_left
  intro trade member
  change (if trade.names orderID then trade.cost.toInt else 0) = _
  rw [exact trade member]

theorem proceeds_fit {balances : Accounts String} {trades : List Trade}
    (room : ∀ trade ∈ trades,
      Fits ((balances.account trade.sellerID).available.toInt +
        proceeds trades trade.sellerID)) (userID : String) :
    Fits ((balances.account userID).available.toInt +
      proceeds trades userID) := by
  by_cases sells : ∃ trade ∈ trades, trade.sellerID = userID
  · obtain ⟨trade, member, rfl⟩ := sells
    exact room trade member
  · have nothing : proceeds trades userID = 0 := by
      apply List.sum_eq_zero
      intro amount amountMember
      obtain ⟨trade, member, rfl⟩ := List.mem_map.mp amountMember
      exact if_neg fun same => sells ⟨trade, member, same⟩
    rw [nothing, add_zero]
    exact fits_toInt _

/-- What a BUY has to freeze: its limit value, or everything available. -/
def Engine.exactHold (engine : Engine) (order : Order) : Int :=
  match order.orderType with
  | .orderTypeLimit => order.quantity.toInt * order.price.toInt
  | .orderTypeMarket =>
      (engine.balances.account order.userID).available.toInt

/-- No cash amount of a command leaves the range of int64. -/
structure CashFits (engine : Engine) (input : Input) : Prop where
  product : ∀ order ∈ engine.admitted? input, order.side = .sideBuy →
    order.orderType = .orderTypeLimit →
      Fits (order.quantity.toInt * order.price.toInt)
  reserve : ∀ order ∈ engine.admitted? input, order.side = .sideBuy →
    Fits ((engine.balances.account order.userID).reserved.toInt +
      engine.exactHold order)
  proceeds : ∀ order ∈ engine.admitted? input,
    input.surroundings.orderCreatedEmitted = true →
      ∀ trade ∈ engine.tradesFor order,
        Fits ((engine.balances.account trade.sellerID).available.toInt +
          Predix.proceeds (engine.tradesFor order) trade.sellerID)
  refund : ∀ order ∈ engine.canceled? input, order.side = .sideBuy →
    Fits ((engine.balances.account order.userID).available.toInt +
      order.lockedFunds.toInt)

instance (engine : Engine) (input : Input) :
    Decidable (CashFits engine input) :=
  decidable_of_iff
    ((∀ order ∈ engine.admitted? input, order.side = .sideBuy →
        order.orderType = .orderTypeLimit →
          Fits (order.quantity.toInt * order.price.toInt)) ∧
      (∀ order ∈ engine.admitted? input, order.side = .sideBuy →
        Fits ((engine.balances.account order.userID).reserved.toInt +
          engine.exactHold order)) ∧
      (∀ order ∈ engine.admitted? input,
        input.surroundings.orderCreatedEmitted = true →
          ∀ trade ∈ engine.tradesFor order,
            Fits ((engine.balances.account trade.sellerID).available.toInt +
              Predix.proceeds (engine.tradesFor order) trade.sellerID)) ∧
      (∀ order ∈ engine.canceled? input, order.side = .sideBuy →
        Fits ((engine.balances.account order.userID).available.toInt +
          order.lockedFunds.toInt)))
    ⟨fun ⟨product, reserve, proceeds, refund⟩ =>
      ⟨product, reserve, proceeds, refund⟩,
      fun ⟨product, reserve, proceeds, refund⟩ =>
        ⟨product, reserve, proceeds, refund⟩⟩

/-- The cash of a state is sound, and every open BUY order has its remaining
limit value locked. -/
structure CashSound (engine : Engine) : Prop where
  sound : Leg.cash.Sound engine
  adequate : ∀ {id order}, engine.orders.lookup id = some order →
    order.side = .sideBuy → order.status.live = true →
      order.remainingQuantity.toInt * order.price.toInt ≤
        order.lockedFunds.toInt

section Accepted

variable {engine : Engine} {order : Order} {market : Market}
  (wellFormed : WellFormed engine) (submitted : order.Submitted)
  (fresh : engine.orders.lookup order.id = none)
  (hasMarket : engine.markets.lookup order.eventID = some market)
  (affords : engine.Affords order)

/-! The reservation. -/

include submitted in
variable (engine) in
theorem lockFor_buy (side : order.side = .sideBuy)
    (product : order.orderType = .orderTypeLimit →
      Fits (order.quantity.toInt * order.price.toInt)) :
    (engine.lockFor order).toInt = engine.exactHold order := by
  simp only [Engine.lockFor, side, Engine.cost, reservationCost,
    Engine.exactHold]
  cases type : order.orderType with
  | orderTypeLimit =>
      simp only
      rw [submitted.remaining]
      exact toInt_mul (product type)
  | orderTypeMarket => rfl

include submitted affords in
theorem reserves_cash (cash : Leg.cash.Sound engine)
    (product : order.side = .sideBuy → order.orderType = .orderTypeLimit →
      Fits (order.quantity.toInt * order.price.toInt))
    (reserve : order.side = .sideBuy →
      Fits ((engine.balances.account order.userID).reserved.toInt +
        engine.exactHold order)) :
    Leg.cash.Reserves engine order where
  nonneg := by
    intro side
    rw [lockFor_buy _ submitted side (product side)]
    unfold Engine.exactHold
    cases type : order.orderType with
    | orderTypeLimit =>
        exact Int.mul_nonneg (le_of_lt submitted.quantity)
          (le_of_lt (submitted.price type))
    | orderTypeMarket => exact cash.available order.userID
  covered := by
    intro side
    change order.side = .sideBuy at side
    simp only [Engine.Affords, side, Int64.le_iff_toInt_le] at affords
    simp only [Engine.lockFor, side]
    exact affords
  fits := by
    intro side
    rw [lockFor_buy _ submitted side (product side)]
    exact reserve side

/-! The trades. -/

include wellFormed submitted in
theorem tradesFor_positive {trade : Trade}
    (member : trade ∈ engine.tradesFor order) :
    0 < trade.quantity.toInt ∧ 0 < trade.price.toInt := by
  obtain ⟨fill, fillMember, rfl⟩ := List.mem_map.mp member
  have limit := (wellFormed.resting (fills_maker_mem fillMember)).1
  have present := (fillsFor_maker wellFormed fillMember).1
  exact ⟨(fillsFor_counterparty submitted fillMember).2.1,
    (wellFormed.accounted present).price limit⟩

include wellFormed submitted in
theorem exactCost_nonneg {trade : Trade}
    (member : trade ∈ engine.tradesFor order) : 0 ≤ trade.exactCost := by
  obtain ⟨quantity, price⟩ := tradesFor_positive wellFormed submitted member
  exact Int.mul_nonneg (le_of_lt quantity) (le_of_lt price)

include wellFormed submitted in
private theorem exactCost_le_proceeds {trade : Trade}
    (member : trade ∈ engine.tradesFor order) :
    trade.exactCost ≤
      proceeds (engine.tradesFor order) trade.sellerID := by
  have single := List.single_le_sum
    (l := (engine.tradesFor order).map fun other =>
      if other.sellerID = trade.sellerID then other.exactCost else 0)
    (by
      intro amount amountMember
      obtain ⟨other, otherMember, rfl⟩ := List.mem_map.mp amountMember
      split
      · exact exactCost_nonneg wellFormed submitted otherMember
      · exact le_refl 0)
    trade.exactCost
  apply single
  refine List.mem_map.mpr ⟨trade, member, ?_⟩
  rw [if_pos rfl]

variable (cash : Leg.cash.Sound engine)
  (room : ∀ trade ∈ engine.tradesFor order,
    Fits ((engine.balances.account trade.sellerID).available.toInt +
      proceeds (engine.tradesFor order) trade.sellerID))

include wellFormed submitted cash room

theorem cost_exact {trade : Trade} (member : trade ∈ engine.tradesFor order) :
    trade.cost.toInt = trade.exactCost := by
  apply toInt_mul
  have available := cash.available trade.sellerID
  have le := exactCost_le_proceeds wellFormed submitted member
  have nonneg := exactCost_nonneg wellFormed submitted member
  change 0 ≤ (engine.balances.account trade.sellerID).available.toInt
    at available
  refine Fits.of_between (by decide : Fits 0) (room trade member) nonneg ?_
  change trade.exactCost ≤ _
  omega

theorem settles_cash : Leg.cash.Settles engine order where
  amounts := by
    intro trade member
    change 0 ≤ trade.cost.toInt
    rw [cost_exact wellFormed submitted cash room member]
    exact exactCost_nonneg wellFormed submitted member
  fits := by
    intro userID
    have exact : ∀ trade ∈ engine.tradesFor order,
        trade.cost.toInt = trade.exactCost :=
      fun trade member => cost_exact wellFormed submitted cash room member
    rw [received_eq_proceeds exact]
    exact proceeds_fit room userID

theorem drawn_eq_exact (orderID : String) :
    Leg.cash.drawn orderID (engine.tradesFor order) =
      namedSum Trade.exactCost (engine.tradesFor order) orderID :=
  drawn_eq_namedSum
    (fun _ member => cost_exact wellFormed submitted cash room member) orderID

omit wellFormed submitted cash room in
theorem counterparty_price {resting : Order} (side : order.side = .sideBuy)
    (limit : order.orderType = .orderTypeLimit)
    (counterparty : isCounterparty order resting = true) :
    resting.price.toInt ≤ order.price.toInt := by
  have matching := isCounterparty_canMatch counterparty
  unfold canMatch at matching
  split at matching
  · contradiction
  · simpa [limit, side, Int64.le_iff_toInt_le] using matching

omit wellFormed submitted cash room in
theorem cost_le_of_prices {incoming : Order} {price : Int}
    {fills : List Fill}
    (bounded : ∀ fill ∈ fills, 0 < fill.quantity.toInt ∧
      fill.maker.price.toInt ≤ price) :
    (fills.map fun fill => (fill.trade incoming).exactCost).sum ≤
      filledSum fills * price := by
  induction fills with
  | nil => simp
  | cons fill fills induction =>
      obtain ⟨positive, le⟩ := bounded fill (by simp)
      have tail := induction fun other member => bounded other (by simp [member])
      have head : (fill.trade incoming).exactCost ≤
          fill.quantity.toInt * price :=
        Int.mul_le_mul_of_nonneg_left le (le_of_lt positive)
      rw [List.map_cons, List.sum_cons, filledSum_cons, Int.add_mul]
      omega

omit wellFormed cash room in
variable (engine) in
theorem taker_cost_le (side : order.side = .sideBuy)
    (limit : order.orderType = .orderTypeLimit) :
    namedSum Trade.exactCost (engine.tradesFor order) order.id ≤
      filledSum (engine.fillsFor order) * order.price.toInt := by
  unfold Engine.tradesFor
  rw [namedSum_taker]
  apply cost_le_of_prices
  intro fill member
  obtain ⟨counterparty, positive, _⟩ := fillsFor_counterparty submitted member
  exact ⟨positive, counterparty_price side limit counterparty⟩

omit submitted cash room in
include fresh in
theorem maker_cost {fill : Fill} (member : fill ∈ engine.fillsFor order) :
    namedSum Trade.exactCost (engine.tradesFor order) fill.maker.id =
      fill.quantity.toInt * fill.maker.price.toInt := by
  unfold Engine.tradesFor
  rw [namedSum_maker _ _ (fillsFor_ids_nodup wellFormed)
    (fun _ other => fillsFor_ne_fresh wellFormed fresh other) member]
  rfl

variable (reserves : Leg.cash.Reserves engine order)

include reserves

private theorem remnant_adequate (side : order.side = .sideBuy)
    (limit : order.orderType = .orderTypeLimit)
    (product : Fits (order.quantity.toInt * order.price.toInt)) :
    (order.quantity.toInt - filledSum (engine.fillsFor order)) *
        order.price.toInt ≤
      (engine.remnant order).lockedFunds.toInt := by
  have settles := settles_cash wellFormed submitted cash room
  have lock := Leg.remnant_lockedFunds reserves settles side
  have hold := lockFor_buy engine submitted side fun _ => product
  have cost := taker_cost_le engine submitted side limit
  rw [drawn_eq_exact wellFormed submitted cash room, hold] at lock
  simp only [Engine.exactHold, limit] at lock
  rw [Int.sub_mul]
  omega

include fresh hasMarket in
theorem CashSound.matched (cashSound : CashSound engine)
    (product : order.side = .sideBuy → order.orderType = .orderTypeLimit →
      Fits (order.quantity.toInt * order.price.toInt)) :
    CashSound (engine.matched order market) where
  sound := Leg.Sound.matched wellFormed submitted fresh hasMarket
    cashSound.sound reserves (settles_cash wellFormed submitted cash room)
  adequate := by
    have settles := settles_cash wellFormed submitted cash room
    intro id found present side live
    cases afterMatch wellFormed submitted fresh hasMarket present with
    | resting takerLive =>
        have terms := remnant_terms engine order
        have limit := (taker_live.mp takerLive).1
        rw [terms.side] at side
        rw [remnant_remaining engine submitted, terms.price]
        exact remnant_adequate wellFormed submitted cash room reserves side
          limit (product side limit)
    | released closed =>
        rw [Order.released_status, remnant_status, closed] at live
        contradiction
    | maker fill member =>
        obtain ⟨makerPresent, makerLive, _⟩ := fillsFor_maker wellFormed member
        obtain ⟨_, positive, le⟩ := fillsFor_counterparty submitted member
        have accounted := wellFormed.accounted makerPresent
        have remaining := (filled_accounted accounted positive le).2.1
        have terms := (fill.filled.settledAll_terms
          (engine.tradesFor order)).trans fill.filled_terms
        have progress := fill.filled.settledAll_progress
          (engine.tradesFor order)
        rw [terms.side] at side
        have old := cashSound.adequate makerPresent side makerLive
        have lock := Leg.maker_lockedFunds side
          (cash.locks _ _ makerPresent side) settles.amounts
        rw [drawn_eq_exact wellFormed submitted cash room,
          maker_cost wellFormed fresh member] at lock
        rw [progress.2.1, remaining, terms.price, Int.sub_mul]
        omega
    | other _ _ present => exact cashSound.adequate present side live

omit reserves in
include fresh in
/-- Every BUY lock covers what an accepted order draws on it, provided that a
market BUY does not cost more than its user has. -/
theorem adequate_walked (cashSound : CashSound engine)
    (product : order.side = .sideBuy → order.orderType = .orderTypeLimit →
      Fits (order.quantity.toInt * order.price.toInt))
    (means : order.side = .sideBuy → order.orderType = .orderTypeMarket →
      namedSum Trade.exactCost (engine.tradesFor order) order.id ≤
        (engine.balances.account order.userID).available.toInt) :
    Leg.cash.Adequate (engine.walked order market)
      (engine.tradesFor order) := by
  intro id found present side
  rw [drawn_eq_exact wellFormed submitted cash room]
  cases afterWalk wellFormed fresh present with
  | taker =>
      rw [(taker_terms engine order).side] at side
      have hold := lockFor_buy engine submitted side (product side)
      rw [taker_lockedFunds, hold]
      unfold Engine.exactHold
      cases type : order.orderType with
      | orderTypeLimit =>
          have cost := taker_cost_le engine submitted side type
          have sum := fillsFor_sum_le engine submitted
          have whole := Int.mul_le_mul_of_nonneg_right sum
            (le_of_lt (submitted.price type))
          exact cost.trans whole
      | orderTypeMarket => exact means side type
  | maker fill member =>
      obtain ⟨makerPresent, makerLive, _⟩ := fillsFor_maker wellFormed member
      obtain ⟨_, _, le⟩ := fillsFor_counterparty submitted member
      rw [fill.filled_terms.side] at side
      have limit := (wellFormed.resting (fills_maker_mem member)).1
      have price := (wellFormed.accounted makerPresent).price limit
      have old := cashSound.adequate makerPresent side makerLive
      have part := Int.mul_le_mul_of_nonneg_right le (le_of_lt price)
      rw [maker_cost wellFormed fresh member, fill.filled_lockedFunds]
      exact part.trans old
  | other notTaker notMaker present =>
      have nothing : namedSum Trade.exactCost (engine.tradesFor order) id =
          0 := namedSum_other _ _ notTaker notMaker
      rw [nothing]
      exact cash.locks id found present side

end Accepted

end Predix
