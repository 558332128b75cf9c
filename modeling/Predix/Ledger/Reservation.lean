import Predix.Book.LifeCycle
import Predix.Ledger.Conservation
import Predix.Ledger.Shares

namespace Predix

open Data Word

/-! How exactly the cash that is reserved follows the locks of BUY orders. -/

/-- The locks of one user's BUY orders together. -/
def lockedCash (engine : Engine) (userID : String) : Int :=
  FiniteMap.total
    (fun _ order =>
      if order.side = .sideBuy ∧ order.userID = userID then
        order.lockedFunds.toInt
      else
        0)
    engine.orders

theorem gap_eq_lockedCash (engine : Engine) (userID : String) :
    Leg.cash.gap engine userID =
      (engine.balances.account userID).reserved.toInt -
        lockedCash engine userID := rfl

/-! Limit trading: the cash in Reserved is exactly what is locked. -/

/-- The command submits no market order, announces what it accepts, and wraps
no cash amount. -/
structure LimitCommand (history : History) (input : Input) : Prop where
  limit : ∀ order ∈ input.order?, order.orderType = .orderTypeLimit
  emitted : input.surroundings.orderCreatedEmitted = true
  fits : CashFits history.engine input

instance (history : History) (input : Input) :
    Decidable (LimitCommand history input) :=
  decidable_of_iff
    ((∀ order ∈ input.order?, order.orderType = .orderTypeLimit) ∧
      input.surroundings.orderCreatedEmitted = true ∧
      CashFits history.engine input)
    ⟨fun ⟨limit, emitted, fits⟩ => ⟨limit, emitted, fits⟩,
      fun ⟨limit, emitted, fits⟩ => ⟨limit, emitted, fits⟩⟩

theorem LimitCommand.withinMeans {history : History} {input : Input}
    (command : LimitCommand history input) :
    WithinMeans history.engine input := by
  intro order admitted _ market
  have limit := command.limit order (admitted?_spec admitted).1
  rw [limit] at market
  contradiction

/-- What one order has cost its owner so far. -/
def paidFor (trades : List Trade) (orderID : String) : Int :=
  namedSum (fun trade => trade.cost.toInt) trades orderID

structure LimitTrading (history : History) : Prop where
  account : TradesAccount history
  limit : ∀ {id order}, history.engine.orders.lookup id = some order →
    order.orderType = .orderTypeLimit
  inRange : CashInRange history
  balanced : ∀ userID, Leg.cash.gap history.engine userID = 0
  spent : ∀ {id order}, history.engine.orders.lookup id = some order →
    order.side = .sideBuy →
      paidFor history.trades id ≤
        order.filledQuantity.toInt * order.price.toInt

theorem LimitTrading.solvent {history : History}
    (trading : LimitTrading history) : CashSolvent history where
  inRange := trading.inRange
  solvent := fun userID => le_of_eq (trading.balanced userID).symm

theorem limitTrading_start {balances : Accounts String}
    (unreserved : balances.Unreserved) (positions : Accounts String) :
    LimitTrading (History.start (Engine.seeded balances positions)) where
  account := TradesAccount.start balances positions
  limit := by
    intro id order present
    simp [History.start, Engine.seeded] at present
  inRange := cashInRange_start unreserved positions
  balanced := Leg.gap_seeded .cash unreserved
  spent := by
    intro id order present
    simp [History.start, Engine.seeded] at present

section Step

variable {history : History} {input : Input}
  (trading : LimitTrading history) (command : LimitCommand history input)

include trading command in
private theorem limitTrading_balanced (userID : String) :
    Leg.cash.gap (history.step input).engine userID = 0 := by
  have wellFormed := trading.inRange.wellFormed
  have cash := trading.inRange.cash
  have fits := command.fits
  have before := trading.balanced userID
  simp only [History.step]
  have effect := step_effect history.engine input
  generalize history.engine.step input = reply at effect ⊢
  cases effect with
  | unchanged response _ _ => exact before
  | opened order message _ _ _ _ =>
      have same := Leg.gap_of_same .cash
        (opened_orders history.engine order)
        (fun key => by rw [Leg.account_opened]) userID
      exact same.trans before
  | dropped order market _ _ _ _ lost =>
      rw [command.emitted] at lost
      contradiction
  | accepted order market submitted fresh hasMarket affords announced =>
      have valid := Input.order?_submitted submitted
      have admitted := admitted?_eq submitted fresh hasMarket affords
      rw [announceAndMatch_enrolled wellFormed valid fresh hasMarket]
      have same := Leg.gap_matched wellFormed valid fresh hasMarket cash.sound
        (fits.reserves cash admitted submitted affords)
        (settles_cash wellFormed valid cash.sound
          (fits.proceeds order admitted announced))
        (adequate_of_means trading.solvent fits command.withinMeans submitted
          fresh admitted announced)
        trading.solvent.solvent userID
      exact same.trans before
  | canceled req order market _ present live hasMarket _ =>
      have ownID := wellFormed.keyed _ _ present
      rw [← ownID] at present
      have same := Leg.gap_cancel market present cash.sound
        trading.solvent.solvent userID
      exact same.trans before
  | marketCreated eventID _ _ => exact before
  | userFunded funded _ absent => exact (gap_funded absent userID).trans before

private theorem paidFor_exact {engine : Engine} {order : Order}
    (wellFormed : WellFormed engine) (submitted : order.Submitted)
    (cash : Leg.cash.Sound engine)
    (room : ∀ trade ∈ engine.tradesFor order,
      Fits ((engine.balances.account trade.sellerID).available.toInt +
        proceeds (engine.tradesFor order) trade.sellerID))
    (orderID : String) :
    paidFor (engine.tradesFor order) orderID =
      namedSum Trade.exactCost (engine.tradesFor order) orderID :=
  drawn_eq_exact wellFormed submitted cash room orderID

include trading in
private theorem paidFor_fresh {id : String}
    (fresh : history.engine.orders.lookup id = none) :
    paidFor history.trades id = 0 := by
  apply namedSum_of_unnamed
  intro trade member named
  obtain ⟨old, present⟩ := trading.account.registered trade member id named
  rw [fresh] at present
  contradiction

include trading command in
private theorem spent_accepted {order : Order} {market : Market}
    (submitted : input.order? = some order)
    (fresh : history.engine.orders.lookup order.id = none)
    (hasMarket : history.engine.markets.lookup order.eventID = some market)
    (affords : history.engine.Affords order) {id : String} {found : Order}
    (present : (history.engine.matched order market).orders.lookup id =
      some found)
    (side : found.side = .sideBuy) :
    paidFor (history.trades ++ history.engine.tradesFor order) id ≤
      found.filledQuantity.toInt * found.price.toInt := by
  have wellFormed := trading.inRange.wellFormed
  have sound := trading.inRange.cash.sound
  have valid := Input.order?_submitted submitted
  have admitted := admitted?_eq submitted fresh hasMarket affords
  have exact := paidFor_exact wellFormed valid sound
    (command.fits.proceeds order admitted command.emitted)
  have append : paidFor (history.trades ++ history.engine.tradesFor order) id =
      paidFor history.trades id +
        paidFor (history.engine.tradesFor order) id :=
    namedSum_append _ _
  rw [append, exact]
  have takerCost : order.side = .sideBuy →
      paidFor history.trades order.id +
          namedSum Trade.exactCost (history.engine.tradesFor order) order.id ≤
        filledSum (history.engine.fillsFor order) * order.price.toInt := by
    intro orderSide
    rw [paidFor_fresh trading fresh, zero_add]
    exact taker_cost_le _ valid orderSide (command.limit order submitted)
  cases afterMatch wellFormed valid fresh hasMarket present with
  | resting _ =>
      have terms := remnant_terms history.engine order
      rw [terms.side] at side
      rw [remnant_filled _ valid, terms.price]
      exact takerCost side
  | released _ =>
      have terms := ((history.engine.remnant order).released_terms).trans
        (remnant_terms history.engine order)
      rw [terms.side] at side
      rw [Order.released_filled, remnant_filled _ valid, terms.price]
      exact takerCost side
  | maker fill member =>
      obtain ⟨makerPresent, _⟩ := fillsFor_maker wellFormed member
      obtain ⟨_, positive, le⟩ := fillsFor_counterparty valid member
      have filled := (filled_accounted (wellFormed.accounted makerPresent)
        positive le).2.2
      have terms := (fill.filled.settledAll_terms
        (history.engine.tradesFor order)).trans fill.filled_terms
      have progress := fill.filled.settledAll_progress
        (history.engine.tradesFor order)
      rw [terms.side] at side
      have before := trading.spent makerPresent side
      rw [maker_cost wellFormed fresh member, progress.1, terms.price, filled,
        Int.add_mul]
      omega
  | other notTaker notMaker present =>
      have nothing : namedSum Trade.exactCost (history.engine.tradesFor order)
          id = 0 := namedSum_other _ _ notTaker notMaker
      rw [nothing, add_zero]
      exact trading.spent present side

include trading command in
private theorem limitTrading_spent {id : String} {found : Order}
    (present : (history.step input).engine.orders.lookup id = some found)
    (side : found.side = .sideBuy) :
    paidFor (history.step input).trades id ≤
      found.filledQuantity.toInt * found.price.toInt := by
  have wellFormed := trading.inRange.wellFormed
  simp only [History.step] at present ⊢
  have effect := step_effect history.engine input
  generalize history.engine.step input = reply at effect present ⊢
  cases effect with
  | unchanged response _ _ =>
      simp only [Reply.unchanged, List.append_nil] at present ⊢
      exact trading.spent present side
  | opened order message _ _ _ _ =>
      simp only [Reply.unchanged, List.append_nil, opened_orders] at present ⊢
      exact trading.spent present side
  | dropped order market _ _ _ _ lost =>
      rw [command.emitted] at lost
      contradiction
  | accepted order market submitted fresh hasMarket affords _ =>
      have valid := Input.order?_submitted submitted
      rw [announceAndMatch_enrolled wellFormed valid fresh hasMarket] at present ⊢
      exact spent_accepted trading command submitted fresh hasMarket affords
        present side
  | canceled req order market _ oldPresent live hasMarket _ =>
      have ownID := wellFormed.keyed _ _ oldPresent
      rw [← ownID] at oldPresent
      simp only [List.append_nil] at present ⊢
      obtain ⟨lock, lookedUp⟩ := lookup_cancel history.engine
        order market id
      rw [lookedUp] at present
      split at present
      · rename_i same
        cases present
        rw [same]
        have before := trading.spent oldPresent
        exact before side
      · exact trading.spent present side
  | marketCreated eventID _ _ =>
      simp only [Reply.unchanged, List.append_nil] at present ⊢
      exact trading.spent present side
  | userFunded userID _ _ =>
      simp only [Reply.unchanged, List.append_nil] at present ⊢
      exact trading.spent present side

include trading command in
private theorem limitTrading_limit {id : String} {found : Order}
    (present : (history.step input).engine.orders.lookup id = some found) :
    found.orderType = .orderTypeLimit := by
  rcases step_terms trading.inRange.wellFormed input present with
    ⟨old, oldPresent, same⟩ | ⟨order, admitted, _, same⟩
  · exact same.orderType.trans (trading.limit oldPresent)
  · exact same.orderType.trans
      (command.limit order (admitted?_spec admitted).1)

include trading command in
theorem limitTrading_step : LimitTrading (history.step input) where
  account := tradesAccount_step trading.account input
  limit := fun present => limitTrading_limit trading command present
  inRange := cashInRange_step trading.inRange command.fits
  balanced := limitTrading_balanced trading command
  spent := fun present side => limitTrading_spent trading command present side

include trading command in
private theorem limitTrading_unclamped :
    Leg.cash.Unclamped history.engine input := by
  have inRange := trading.inRange
  have fits := command.fits
  apply Leg.unclamped inRange.wellFormed inRange.cash.sound
    trading.solvent.solvent
  · intro order admitted
    obtain ⟨submitted, _, _, affords⟩ := admitted?_spec admitted
    exact fits.reserves inRange.cash admitted submitted affords
  · intro order admitted emitted
    exact settles_cash inRange.wellFormed
      (Input.order?_submitted (admitted?_spec admitted).1) inRange.cash.sound
      (fits.proceeds order admitted emitted)
  · intro order admitted emitted market
    obtain ⟨submitted, fresh, _, _⟩ := admitted?_spec admitted
    exact adequate_of_means trading.solvent fits command.withinMeans submitted
      fresh admitted emitted

end Step

/-- What limit trading guarantees in a state, seen from outside. -/
structure ExactReservations (history : History) : Prop where
  reserved : ∀ userID,
    (history.engine.balances.account userID).reserved.toInt =
      lockedCash history.engine userID
  funded : ∀ id order, history.engine.orders.lookup id = some order →
    order.side = .sideBuy → order.Unfinished →
      order.remainingQuantity.toInt * order.price.toInt ≤
        order.lockedFunds.toInt
  available : ∀ userID,
    0 ≤ (history.engine.balances.account userID).available
  spent : ∀ id order, history.engine.orders.lookup id = some order →
    order.side = .sideBuy →
      paidFor history.trades id ≤ order.quantity.toInt * order.price.toInt

/-- Limit trading without wrap-around keeps cash reservations exact: what is
reserved is what BUY orders lock, open BUY orders are funded, and no clamp is
taken with a negative value by any further such command. The clamps on shares
are dead as well when positions do not wrap. -/
theorem runSeeded_exactReservations {balances positions : Accounts String}
    (unreserved : balances.Unreserved) {inputs : List Input}
    (limits : MeetsAlong LimitCommand balances positions inputs) :
    ExactReservations (runSeeded balances positions inputs) ∧
    (∀ input, LimitCommand (runSeeded balances positions inputs) input →
      Leg.cash.Unclamped (runSeeded balances positions inputs).engine
        input) ∧
    (positions.Unreserved →
      MeetsAlong (fun history input => SharesFit history.engine input)
        balances positions inputs →
      ∀ input,
        SharesFit (runSeeded balances positions inputs).engine input →
          Leg.shares.Unclamped (runSeeded balances positions inputs).engine
            input) := by
  have trading : LimitTrading (runSeeded balances positions inputs) :=
    runSeeded_invariant LimitTrading
      (fun _ _ trading command => limitTrading_step trading command)
      (limitTrading_start unreserved positions) limits
  refine ⟨⟨?_, ?_, ?_, ?_⟩, ?_, ?_⟩
  · intro userID
    have balanced := trading.balanced userID
    rw [gap_eq_lockedCash] at balanced
    omega
  · intro id order present side unfinished
    exact trading.inRange.cash.adequate present side
      ((Status.live_iff _).mpr unfinished)
  · intro userID
    rw [Int64.le_iff_toInt_le]
    exact trading.inRange.cash.sound.available userID
  · intro id order present side
    have spent := trading.spent present side
    have accounted := trading.inRange.wellFormed.accounted present
    have price := accounted.price (trading.limit present)
    have balanced := accounted.balanced
    have remaining := accounted.remainingNonneg
    have whole := Int.mul_le_mul_of_nonneg_right
      (show order.filledQuantity.toInt ≤ order.quantity.toInt by omega)
      (le_of_lt price)
    exact spent.trans whole
  · intro input command
    exact limitTrading_unclamped trading command
  · intro sharesUnreserved fits input inputFits
    have both : MeetsAlong (fun history input =>
        LimitCommand history input ∧ SharesFit history.engine input)
        balances positions inputs := along_and limits fits
    have reserved : SharesReserved (runSeeded balances positions inputs) :=
      runSeeded_invariant SharesReserved
        (fun _ _ reserved meets =>
          sharesReserved_step reserved meets.2 meets.1.emitted)
        (sharesReserved_start balances sharesUnreserved) both
    exact sharesReserved_unclamped reserved inputFits

/-- A limit BUY that trades at a better price and keeps the rest open. -/
theorem exactReservations_improved :
    MeetsAlong LimitCommand (Finmap.insert "b" ⟨1000000, 0⟩ ∅)
        (Finmap.insert "s:e:YES" ⟨4, 0⟩ ∅)
        [.createEvent "e", .submit "o1" "e" "s" "LIMIT" "YES" "SELL" 4 5000,
          .submit "o2" "e" "b" "LIMIT" "YES" "BUY" 10 6000] ∧
      ExactReservations (runSeeded (Finmap.insert "b" ⟨1000000, 0⟩ ∅)
        (Finmap.insert "s:e:YES" ⟨4, 0⟩ ∅)
        [.createEvent "e", .submit "o1" "e" "s" "LIMIT" "YES" "SELL" 4 5000,
          .submit "o2" "e" "b" "LIMIT" "YES" "BUY" 10 6000]) ∧
      ∀ leg : Leg, leg.Unclamped (runSeeded (Finmap.insert "b" ⟨1000000, 0⟩ ∅)
        (Finmap.insert "s:e:YES" ⟨4, 0⟩ ∅)
        [.createEvent "e", .submit "o1" "e" "s" "LIMIT" "YES" "SELL" 4 5000,
          .submit "o2" "e" "b" "LIMIT" "YES" "BUY" 10 6000]).engine
        (.cancel "o2") := by
  have meets : MeetsAlong LimitCommand (Finmap.insert "b" ⟨1000000, 0⟩ ∅)
      (Finmap.insert "s:e:YES" ⟨4, 0⟩ ∅)
      [.createEvent "e", .submit "o1" "e" "s" "LIMIT" "YES" "SELL" 4 5000,
        .submit "o2" "e" "b" "LIMIT" "YES" "BUY" 10 6000] := by
    decide
  obtain ⟨exact, cash, shares⟩ := runSeeded_exactReservations
    (Accounts.unreserved_empty.insert "b" (by decide)) meets
  refine ⟨meets, exact, fun leg => ?_⟩
  cases leg with
  | cash => exact cash (.cancel "o2") (by decide)
  | shares =>
      exact shares (Accounts.unreserved_empty.insert "s:e:YES" (by decide))
        (by decide) (.cancel "o2") (by decide)

/-! Locks of orders that are done. -/

/-- A resting BUY that an incoming SELL completes has nothing locked beyond
what its last fill costs. -/
def ClosesExactly (engine : Engine) (input : Input) : Prop :=
  ∀ order ∈ engine.admitted? input, order.side = .sideSell →
    input.surroundings.orderCreatedEmitted = true →
      ∀ fill ∈ engine.fillsFor order,
        fill.quantity = fill.maker.remainingQuantity →
          fill.maker.lockedFunds.toInt ≤
            fill.maker.remainingQuantity.toInt * fill.maker.price.toInt

instance (engine : Engine) (input : Input) :
    Decidable (ClosesExactly engine input) :=
  inferInstanceAs (Decidable (∀ order ∈ engine.admitted? input, _))

structure ReleasingCommand (history : History) (input : Input) : Prop where
  emitted : input.surroundings.orderCreatedEmitted = true
  fits : CashFits history.engine input
  exact : ClosesExactly history.engine input

instance (history : History) (input : Input) :
    Decidable (ReleasingCommand history input) :=
  decidable_of_iff
    (input.surroundings.orderCreatedEmitted = true ∧
      CashFits history.engine input ∧ ClosesExactly history.engine input)
    ⟨fun ⟨emitted, fits, exact⟩ => ⟨emitted, fits, exact⟩,
      fun ⟨emitted, fits, exact⟩ => ⟨emitted, fits, exact⟩⟩

/-- A run in which every lock belongs to an open order, and nothing is
reserved beyond the locks. -/
structure NothingStuck (history : History) : Prop where
  inRange : CashInRange history
  released : ∀ {id order}, history.engine.orders.lookup id = some order →
    order.side = .sideBuy → order.status.live = false →
      order.lockedFunds.toInt = 0
  backed : ∀ userID, Leg.cash.gap history.engine userID ≤ 0

section Stuck

variable {history : History} {input : Input}
  (stuck : NothingStuck history) (command : ReleasingCommand history input)

include stuck command in
private theorem released_accepted {order : Order} {market : Market}
    (submitted : input.order? = some order)
    (fresh : history.engine.orders.lookup order.id = none)
    (hasMarket : history.engine.markets.lookup order.eventID = some market)
    (affords : history.engine.Affords order) {id : String} {found : Order}
    (present : (history.engine.matched order market).orders.lookup id =
      some found)
    (side : found.side = .sideBuy) (closed : found.status.live = false) :
    found.lockedFunds.toInt = 0 := by
  have wellFormed := stuck.inRange.wellFormed
  have cash := stuck.inRange.cash
  have valid := Input.order?_submitted submitted
  have admitted := admitted?_eq submitted fresh hasMarket affords
  have reserves := command.fits.reserves cash admitted submitted affords
  have room := command.fits.proceeds order admitted command.emitted
  have settles := settles_cash wellFormed valid cash.sound room
  cases afterMatch wellFormed valid fresh hasMarket present with
  | resting live =>
      rw [remnant_status, live] at closed
      contradiction
  | released _ =>
      have nonneg := Leg.remnant_nonneg wellFormed valid fresh hasMarket
        cash.sound reserves settles
      have lock := nonneg
        ((history.engine.remnant order).released_terms.side.symm.trans side)
      rw [Order.released_lockedFunds]
      omega
  | maker fill member =>
      obtain ⟨makerPresent, makerLive, _, _, across⟩ :=
        fillsFor_maker wellFormed member
      rw [(fill.filled.settledAll_terms _).side, fill.filled_terms.side]
        at side
      rw [(fill.filled.settledAll_progress _).2.2] at closed
      have apart : order.side ≠ .sideBuy := by
        rw [← side, across]
        exact order.side.opposite_ne.symm
      have orderSide : order.side = .sideSell := Side.eq_opposite_of_ne apart
      have whole := filled_whole wellFormed valid member closed
      have exact := command.exact order admitted orderSide command.emitted
        fill member whole
      have lock := Leg.maker_lockedFunds side
        (cash.sound.locks _ _ makerPresent side) settles.amounts
      rw [drawn_eq_exact wellFormed valid cash.sound room,
        maker_cost wellFormed fresh member, whole] at lock
      omega
  | other _ _ present => exact stuck.released present side closed

include stuck command in
theorem released_step {id : String} {found : Order}
    (present : (history.engine.step input).engine.orders.lookup id =
      some found)
    (side : found.side = .sideBuy) (closed : found.status.live = false) :
    found.lockedFunds.toInt = 0 := by
  have wellFormed := stuck.inRange.wellFormed
  have effect := step_effect history.engine input
  generalize history.engine.step input = reply at effect present
  cases effect with
  | unchanged response _ _ => exact stuck.released present side closed
  | opened order message _ _ _ _ =>
      simp only [Reply.unchanged, opened_orders] at present
      exact stuck.released present side closed
  | dropped order market _ _ _ _ lost =>
      rw [command.emitted] at lost
      contradiction
  | accepted order market submitted fresh hasMarket affords _ =>
      have valid := Input.order?_submitted submitted
      rw [announceAndMatch_enrolled wellFormed valid fresh hasMarket] at present
      exact released_accepted stuck command submitted fresh hasMarket
        affords present side closed
  | canceled req order market _ oldPresent live hasMarket _ =>
      have ownID := wellFormed.keyed _ _ oldPresent
      rw [← ownID] at oldPresent
      rw [lookup_cancel_released] at present
      split at present
      · cases present
        have lock := stuck.inRange.cash.sound.locks order.id order oldPresent
          (order.canceled.released_terms.side.symm.trans side)
        rw [Order.released_lockedFunds]
        change min 0 order.lockedFunds.toInt = 0
        omega
      · exact stuck.released present side closed
  | marketCreated eventID _ _ => exact stuck.released present side closed
  | userFunded userID _ _ => exact stuck.released present side closed

include stuck command in
theorem backed_step (userID : String) :
    Leg.cash.gap (history.engine.step input).engine userID ≤ 0 := by
  have wellFormed := stuck.inRange.wellFormed
  have cash := stuck.inRange.cash
  have before := stuck.backed userID
  have effect := step_effect history.engine input
  generalize history.engine.step input = reply at effect ⊢
  cases effect with
  | unchanged response _ _ => exact before
  | opened order message _ _ _ _ =>
      have same := Leg.gap_of_same .cash
        (opened_orders history.engine order)
        (fun key => by rw [Leg.account_opened]) userID
      exact le_of_eq_of_le same before
  | dropped order market _ _ _ _ lost =>
      rw [command.emitted] at lost
      contradiction
  | accepted order market submitted fresh hasMarket affords announced =>
      have valid := Input.order?_submitted submitted
      have admitted := admitted?_eq submitted fresh hasMarket affords
      rw [announceAndMatch_enrolled wellFormed valid fresh hasMarket]
      exact Leg.gap_matched_nonpos wellFormed valid fresh hasMarket
        cash.sound (command.fits.reserves cash admitted submitted affords)
        (settles_cash wellFormed valid cash.sound
          (command.fits.proceeds order admitted announced))
        stuck.backed userID
  | canceled req order market _ oldPresent live hasMarket _ =>
      have ownID := wellFormed.keyed _ _ oldPresent
      rw [← ownID] at oldPresent
      exact Leg.gap_cancel_nonpos oldPresent cash.sound stuck.backed userID
  | marketCreated eventID _ _ => exact before
  | userFunded funded _ absent =>
      exact le_of_eq_of_le (gap_funded absent userID) before

include stuck command in
theorem nothingStuck_step : NothingStuck (history.step input) where
  inRange := cashInRange_step stuck.inRange command.fits
  released := released_step stuck command
  backed := backed_step stuck command

end Stuck

structure NoStuckReservation (engine : Engine) : Prop where
  released : ∀ id order, engine.orders.lookup id = some order →
    order.status = .statusFilled ∨ order.status = .statusCanceled ∨
      order.status = .statusRejected → order.lockedFunds = 0
  reserved : ∀ userID,
    (∀ id order, engine.orders.lookup id = some order →
      order.userID = userID → order.side = .sideBuy → ¬ order.Unfinished) →
      (engine.balances.account userID).reserved = 0

/-- In a run that wraps nothing and in which no SELL completes a resting BUY
that locks more than its last fill costs, no reservation gets stuck. -/
theorem runSeeded_noStuckReservation {balances positions : Accounts String}
    (unreserved : balances.Unreserved) {inputs : List Input}
    (releasing : MeetsAlong ReleasingCommand balances positions inputs) :
    NoStuckReservation (runSeeded balances positions inputs).engine := by
  have stuck : NothingStuck (runSeeded balances positions inputs) :=
    runSeeded_invariant NothingStuck
      (fun _ _ stuck command => nothingStuck_step stuck command)
      ⟨cashInRange_start unreserved positions, by
        intro id order present
        simp [History.start, Engine.seeded] at present,
        fun userID => le_of_eq (Leg.gap_seeded .cash unreserved
          userID)⟩ releasing
  generalize runSeeded balances positions inputs = history at stuck
  have wellFormed := stuck.inRange.wellFormed
  constructor
  case released =>
    intro id order present done
    have closed : order.status.live = false := by
      rcases done with is | is | is <;> rw [is] <;> rfl
    rw [eq_zero_iff]
    cases side : order.side with
    | sideBuy => exact stuck.released present side closed
    | sideSell =>
        rw [stuck.inRange.sells id order present side, Order.heldShares,
          closed]
        rfl
  case reserved =>
    intro userID none
    have backed := stuck.backed userID
    have nonneg := stuck.inRange.cash.sound.reserved userID
    have nothing : lockedCash history.engine userID = 0 := by
      apply FiniteMap.total_eq_zero
      intro id order present
      split
      · rename_i both
        apply stuck.released present both.1
        by_contra live
        exact none id order present both.2 both.1
          ((Status.live_iff _).mp (by simpa using live))
      · rfl
    rw [gap_eq_lockedCash, nothing] at backed
    rw [eq_zero_iff]
    change 0 ≤ (history.engine.balances.account userID).reserved.toInt
      at nonneg
    omega

/-- A BUY that rests at its price and is filled there. -/
theorem noStuckReservation_maker :
    NoStuckReservation (runSeeded (Finmap.insert "b" ⟨1000000, 0⟩ ∅)
      (Finmap.insert "s:e:YES" ⟨10, 0⟩ ∅)
      [.createEvent "e", .submit "o1" "e" "b" "LIMIT" "YES" "BUY" 10 6000,
        .submit "o2" "e" "s" "LIMIT" "YES" "SELL" 10 5000]).engine :=
  runSeeded_noStuckReservation
    (Accounts.unreserved_empty.insert "b" (by decide)) (by decide)

/-- A BUY that improved its price as a taker and is completed as a maker: the
improvement stays locked in a FILLED order. -/
theorem improvedBuy_staysLocked :
    ((runSeeded (Finmap.insert "b" ⟨1000000, 0⟩ ∅)
        (Finmap.insert "s:e:YES" ⟨10, 0⟩ ∅)
        [.createEvent "e", .submit "o1" "e" "s" "LIMIT" "YES" "SELL" 4 5000,
          .submit "o2" "e" "b" "LIMIT" "YES" "BUY" 10 6000,
          .submit "o3" "e" "s" "LIMIT" "YES" "SELL" 6 6000]).engine.orders.lookup
            "o2").map (fun order => (order.status, order.lockedFunds)) =
        some (.statusFilled, 4000) ∧
      ((runSeeded (Finmap.insert "b" ⟨1000000, 0⟩ ∅)
        (Finmap.insert "s:e:YES" ⟨10, 0⟩ ∅)
        [.createEvent "e", .submit "o1" "e" "s" "LIMIT" "YES" "SELL" 4 5000,
          .submit "o2" "e" "b" "LIMIT" "YES" "BUY" 10 6000,
          .submit "o3" "e" "s" "LIMIT" "YES" "SELL" 6 6000]).engine.balances.account
            "b").reserved = 4000 := by
  decide

end Predix
