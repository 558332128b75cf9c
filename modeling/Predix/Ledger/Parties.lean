import Predix.Book.SinglePass
import Predix.Ledger.ShareTotals

namespace Predix

open Data Word

/-! An order touches nothing but its parties. -/

/-- The owner of a resting order that one of the trades names. -/
def Engine.OwnsMaker (engine : Engine) (trades : List Trade)
    (userID : String) : Prop :=
  ∃ trade ∈ trades, ∃ maker,
    engine.orders.lookup trade.matchOrderID = some maker ∧
      maker.userID = userID

/-- The submitter and the owners of the resting orders they trade with. -/
def Engine.Party (engine : Engine) (order : Order) (trades : List Trade)
    (userID : String) : Prop :=
  userID = order.userID ∨ engine.OwnsMaker trades userID

/-- What a submitted order may change, and what it brings its makers. -/
structure TouchesParties (before : Engine) (order : Order) (reply : Reply) :
    Prop where
  books : ∀ {eventID outcome},
    ¬ (eventID = order.eventID ∧ outcome = order.outcome) → ∀ side,
      reply.engine.slice eventID outcome side =
          before.slice eventID outcome side ∧
        reply.engine.queue eventID outcome side =
          before.queue eventID outcome side
  orders : ∀ {id}, id ≠ order.id →
    (∀ trade ∈ reply.trades, trade.matchOrderID ≠ id) →
      reply.engine.orders.lookup id = before.orders.lookup id
  cash : ∀ {userID}, ¬ before.Party order reply.trades userID →
    reply.engine.balances.lookup userID = before.balances.lookup userID
  shares : ∀ {userID eventID outcome}, ColonFree userID → ColonFree eventID →
    ¬ (before.Party order reply.trades userID ∧ eventID = order.eventID ∧
      outcome = order.outcome) →
        reply.engine.positions.lookup (positionKey userID eventID outcome) =
          before.positions.lookup (positionKey userID eventID outcome)
  sold : order.side = .sideBuy → ∀ {userID},
    before.OwnsMaker reply.trades userID →
      (reply.engine.balances.account userID).available.toInt =
        (before.balances.account userID).available.toInt +
          proceeds reply.trades userID
  bought : order.side = .sideSell → ∀ {userID},
    before.OwnsMaker reply.trades userID →
      (reply.engine.balances.account userID).available =
        (before.balances.account userID).available

/-! Orders that do not get to trade. -/

namespace Leg

theorem lookup_frozen_other (leg : Leg) (engine : Engine) {order : Order}
    {key : String} (other : key ≠ leg.key order) :
    (leg.accounts (engine.frozen order)).lookup key =
      (leg.accounts engine).lookup key := by
  rw [accounts_frozen]
  split
  · exact Accounts.lookup_update_of_ne _ other _
  · rfl

private theorem accounts_opened (leg : Leg) (engine : Engine) (order : Order) :
    leg.accounts (engine.opened order) =
      if order.side = leg.side then
        (leg.accounts engine).update (leg.key order) id
      else
        leg.accounts engine := by
  unfold Engine.opened
  cases leg <;> cases orderSide : order.side <;>
    simp [accounts, side, key, Engine.updateBalance, Engine.updatePosition]

private theorem lookup_opened_other (leg : Leg) (engine : Engine)
    {order : Order}
    {key : String} (other : key ≠ leg.key order) :
    (leg.accounts (engine.opened order)).lookup key =
      (leg.accounts engine).lookup key := by
  rw [accounts_opened]
  split
  · exact Accounts.lookup_update_of_ne _ other _
  · rfl

end Leg

theorem positionKey_ne {engine : Engine} {order : Order} {trades : List Trade}
    {userID eventID : String} {outcome : Outcome}
    (userFree : ColonFree userID) (eventFree : ColonFree eventID)
    (elsewhere : ¬ (engine.Party order trades userID ∧
      eventID = order.eventID ∧ outcome = order.outcome))
    {other : String} (party : engine.Party order trades other) :
    positionKey userID eventID outcome ≠
      positionKey other order.eventID order.outcome := by
  intro same
  obtain ⟨rfl, event, outcomes⟩ := positionKey_inj userFree eventFree same
  exact elsewhere ⟨party, event, outcomes⟩

private theorem TouchesParties.of_untraded {before : Engine} {order : Order}
    {reply : Reply} (untraded : reply.trades = [])
    (markets : reply.engine.markets = before.markets)
    (orders : reply.engine.orders = before.orders)
    (accounts : ∀ (leg : Leg) {key : String}, key ≠ leg.key order →
      (leg.accounts reply.engine).lookup key =
        (leg.accounts before).lookup key) :
    TouchesParties before order reply := by
  have nobody : ∀ userID, ¬ before.OwnsMaker reply.trades userID := by
    rintro userID ⟨trade, member, _⟩
    rw [untraded] at member
    cases member
  constructor
  case books =>
    intro eventID outcome _ side
    simp only [Engine.queue, Engine.load, Engine.slice, markets, orders,
      and_self]
  case orders =>
    intro id _ _
    rw [orders]
  case cash =>
    intro userID other
    exact accounts .cash fun same => other (.inl same)
  case shares =>
    intro userID eventID outcome userFree eventFree elsewhere
    exact accounts .shares
      (positionKey_ne userFree eventFree elsewhere (.inl rfl))
  case sold => exact fun _ _ owns => absurd owns (nobody _)
  case bought => exact fun _ _ owns => absurd owns (nobody _)

/-! Orders that trade. -/

section Matched

variable {engine : Engine} {order : Order} {market : Market}
  (wellFormed : WellFormed engine) (submitted : order.Submitted)
  (fresh : engine.orders.lookup order.id = none)
  (hasMarket : engine.markets.lookup order.eventID = some market)

include wellFormed submitted

private theorem OwnsMaker.other {userID : String}
    (owns : engine.OwnsMaker (engine.tradesFor order) userID) :
    userID ≠ order.userID := by
  obtain ⟨trade, member, maker, present, rfl⟩ := owns
  obtain ⟨fill, fillMember, rfl⟩ := List.mem_map.mp member
  have makerPresent := (fillsFor_maker wellFormed fillMember).1
  change engine.orders.lookup fill.maker.id = some maker at present
  rw [makerPresent] at present
  cases present
  exact isCounterparty_user (fillsFor_counterparty submitted fillMember).1

omit submitted in
private theorem tradesFor_parties {trade : Trade}
    (member : trade ∈ engine.tradesFor order) :
    engine.Party order (engine.tradesFor order) trade.buyerID ∧
      engine.Party order (engine.tradesFor order) trade.sellerID ∧
      trade.eventID = order.eventID ∧ trade.outcome = order.outcome := by
  have traded := member
  obtain ⟨fill, fillMember, rfl⟩ := List.mem_map.mp member
  have maker : engine.Party order (engine.tradesFor order)
      fill.maker.userID :=
    .inr ⟨_, traded, fill.maker, (fillsFor_maker wellFormed fillMember).1, rfl⟩
  have taker : engine.Party order (engine.tradesFor order) order.userID :=
    .inl rfl
  cases side : order.side with
  | sideBuy =>
      simp only [Fill.trade, buildTrade, side, and_self, and_true]
      exact ⟨taker, maker⟩
  | sideSell =>
      simp only [Fill.trade, buildTrade, side, and_self, and_true]
      exact ⟨maker, taker⟩

include fresh hasMarket

/-- Cash and shares of everybody else stay as they are. -/
theorem Leg.lookup_matched_account (leg : Leg) {key : String}
    (own : key ≠ leg.key order)
    (apart : ∀ trade ∈ engine.tradesFor order,
      key ≠ (leg.transfer trade).payer ∧ key ≠ (leg.transfer trade).payee) :
    (leg.accounts (engine.matched order market)).lookup key =
      (leg.accounts engine).lookup key := by
  have settled : (leg.accounts (engine.settled order market)).lookup key =
      (leg.accounts engine).lookup key := by
    have outside : ∀ transfer ∈ (engine.tradesFor order).map leg.transfer,
        ¬ key = transfer.payer ∧ ¬ key = transfer.payee := by
      intro transfer member
      obtain ⟨trade, traded, rfl⟩ := List.mem_map.mp member
      exact apart trade traded
    have untouched := @Transfer.agreeOn_applyAll_outside _ _ (key = ·) _
      outside (leg.accounts (engine.frozen order)) key rfl
    rw [Engine.settled, leg.accounts_settleAll, accounts_walked, ← untouched,
      leg.lookup_frozen_other engine own]
  rw [matched_eq wellFormed submitted fresh hasMarket]
  split
  · exact settled
  · have remnantKey := leg.key_of_terms (remnant_terms engine order)
    rw [accounts_releaseOrderLocked, remnantKey]
    split
    · rw [Accounts.lookup_update_of_ne _ own, settled]
    · exact settled

private theorem book_matched_other {eventID : String} {outcome : Outcome}
    (elsewhere : ¬ (eventID = order.eventID ∧ outcome = order.outcome))
    (side : Side) :
    (engine.matched order market).slice eventID outcome side =
        engine.slice eventID outcome side ∧
      (engine.matched order market).queue eventID outcome side =
        engine.queue eventID outcome side := by
  have slice : (engine.matched order market).slice eventID outcome side =
      engine.slice eventID outcome side := by
    rw [(matched_sameUpToLocks wellFormed submitted fresh hasMarket).slice_eq,
      slice_walked wellFormed fresh hasMarket, if_neg elsewhere]
  refine ⟨slice, ?_⟩
  unfold Engine.queue
  rw [slice]
  apply load_congr
  intro id member
  obtain ⟨resting, inQueue, rfl⟩ := wellFormed.id_mem_slice.mp member
  have present := wellFormed.lookup_of_mem inQueue
  apply lookup_matched_other wellFormed submitted fresh hasMarket
  · intro same
    rw [same, fresh] at present
    contradiction
  · intro fill fillMember same
    obtain ⟨makerPresent, _, event, outcomes, _⟩ :=
      fillsFor_maker wellFormed fillMember
    rw [same, present] at makerPresent
    cases makerPresent
    obtain ⟨_, _, ownEvent, ownOutcome, _⟩ := wellFormed.resting inQueue
    exact elsewhere ⟨ownEvent.symm.trans event, ownOutcome.symm.trans outcomes⟩

variable (sound : Leg.cash.Sound engine)
  (reserves : Leg.cash.Reserves engine order)
  (room : ∀ trade ∈ engine.tradesFor order,
    Fits ((engine.balances.account trade.sellerID).available.toInt +
      proceeds (engine.tradesFor order) trade.sellerID))

include sound reserves room

theorem available_matched_other {userID : String}
    (other : userID ≠ order.userID) :
    ((engine.matched order market).balances.account userID).available.toInt =
      (engine.balances.account userID).available.toInt +
        proceeds (engine.tradesFor order) userID := by
  have settles := settles_cash wellFormed submitted sound room
  have exact : ∀ trade ∈ engine.tradesFor order,
      trade.cost.toInt = trade.exactCost :=
    fun trade member => cost_exact wellFormed submitted sound room member
  have available := Leg.settled_available market sound reserves settles userID
  have unfrozen : Leg.cash.frozenAt engine order userID = 0 := by
    rw [Leg.frozenAt_eq, if_neg fun both => other both.2.symm]
  have same : Leg.cash.account (engine.matched order market) userID =
      Leg.cash.account (engine.settled order market) userID := by
    rw [matched_eq wellFormed submitted fresh hasMarket]
    split
    · rfl
    · have owner : Leg.cash.key (engine.remnant order) = order.userID :=
        (remnant_terms engine order).userID
      rw [Leg.account_release, owner, if_neg fun all => other all.2.1.symm]
  change (Leg.cash.account _ userID).available.toInt = _
  rw [same, available, unfrozen, sub_zero, received_eq_proceeds exact]
  rfl

private theorem available_matched_buyer (side : order.side = .sideSell)
    {userID : String} (other : userID ≠ order.userID) :
    ((engine.matched order market).balances.account userID).available =
      (engine.balances.account userID).available := by
  have nothing : proceeds (engine.tradesFor order) userID = 0 := by
    apply List.sum_eq_zero
    intro amount amountMember
    obtain ⟨trade, member, rfl⟩ := List.mem_map.mp amountMember
    obtain ⟨fill, _, rfl⟩ := List.mem_map.mp member
    apply if_neg
    simp only [Fill.trade, buildTrade, side]
    exact Ne.symm other
  have available := available_matched_other wellFormed submitted fresh
    hasMarket sound reserves room other
  rw [nothing, add_zero] at available
  exact Int64.toInt_inj.mp available

private theorem touchesParties_matched (response : EngineResponse)
    (events : List Event) :
    TouchesParties engine order
      ⟨engine.matched order market, response, engine.tradesFor order,
        events⟩ := by
  constructor
  case books => exact book_matched_other wellFormed submitted fresh hasMarket
  case orders =>
    intro id notTaker notMaker
    apply lookup_matched_other wellFormed submitted fresh hasMarket notTaker
    intro fill member
    exact notMaker _ (List.mem_map_of_mem member)
  case cash =>
    intro userID stranger
    apply Leg.lookup_matched_account wellFormed submitted fresh hasMarket .cash
    · exact fun same => stranger (.inl same)
    · intro trade member
      obtain ⟨buyer, seller, _⟩ := tradesFor_parties wellFormed member
      constructor
      · rintro rfl
        exact stranger buyer
      · rintro rfl
        exact stranger seller
  case shares =>
    intro userID eventID outcome userFree eventFree elsewhere
    have apart := fun {other} => @positionKey_ne engine order
      (engine.tradesFor order) userID eventID outcome userFree eventFree
      elsewhere other
    apply Leg.lookup_matched_account wellFormed submitted fresh hasMarket
      .shares
    · exact apart (.inl rfl)
    · intro trade member
      obtain ⟨buyer, seller, event, outcomes⟩ :=
        tradesFor_parties wellFormed member
      simp only [Leg.transfer, Trade.shareTransfer, event, outcomes]
      exact ⟨apart seller, apart buyer⟩
  case sold =>
    intro _ userID owns
    exact available_matched_other wellFormed submitted fresh hasMarket sound
      reserves room (OwnsMaker.other wellFormed submitted owns)
  case bought =>
    intro side userID owns
    exact available_matched_buyer wellFormed submitted fresh hasMarket sound
      reserves room side (OwnsMaker.other wellFormed submitted owns)

end Matched

section Step

variable {engine : Engine} {input : Input} {payload : Option CreateOrderPayload}
  (created : input.command = .createOrder payload)

include created in
private theorem step_invalid (invalid : input.order? = none) :
    (engine.step input).engine = engine := by
  have effect := step_effect engine input
  generalize engine.step input = reply at effect ⊢
  cases effect with
  | unchanged _ _ _ => rfl
  | opened order _ submitted _ _ _ =>
      rw [invalid] at submitted
      contradiction
  | dropped order _ submitted _ _ _ _ =>
      rw [invalid] at submitted
      contradiction
  | accepted order _ submitted _ _ _ _ =>
      rw [invalid] at submitted
      contradiction
  | canceled _ _ _ requested _ _ _ _ =>
      rw [created] at requested
      contradiction
  | marketCreated _ requested _ _ =>
      rw [created] at requested
      contradiction
  | userFunded _ requested _ _ =>
      rw [created] at requested
      contradiction

theorem touchesParties_step (wellFormed : WellFormed engine)
    (cash : CashSound engine) (fits : CashFits engine input) {order : Order}
    (submitted : input.order? = some order) :
    TouchesParties engine order (engine.step input) := by
  obtain ⟨payload, created⟩ := Input.order?_command submitted
  have effect := step_effect engine input
  generalize engine.step input = reply at effect ⊢
  cases effect with
  | unchanged response _ _ => exact .of_untraded rfl rfl rfl fun _ _ _ => rfl
  | opened found message isSubmitted _ _ _ =>
      rw [submitted] at isSubmitted
      cases isSubmitted
      exact .of_untraded rfl (opened_markets engine order)
        (opened_orders engine order) fun leg _ => leg.lookup_opened_other engine
  | dropped found market isSubmitted _ _ _ _ =>
      rw [submitted] at isSubmitted
      cases isSubmitted
      exact .of_untraded rfl (frozen_markets engine order)
        (frozen_orders engine order) fun leg _ => leg.lookup_frozen_other engine
  | accepted found market isSubmitted fresh hasMarket affords announced =>
      rw [submitted] at isSubmitted
      cases isSubmitted
      have valid := Input.order?_submitted submitted
      have admitted := admitted?_eq submitted fresh hasMarket affords
      rw [announceAndMatch_enrolled wellFormed valid fresh hasMarket]
      exact touchesParties_matched wellFormed valid fresh hasMarket cash.sound
        (fits.reserves cash admitted submitted affords)
        (fits.proceeds order admitted announced) _ _
  | canceled _ _ _ requested _ _ _ _ =>
      rw [created] at requested
      contradiction
  | marketCreated _ requested _ _ =>
      rw [created] at requested
      contradiction
  | userFunded _ requested _ _ =>
      rw [created] at requested
      contradiction

end Step

/-- Whatever CREATE_ORDER meets in a run that wraps no cash amount, it touches
only its parties; a request that is no valid order touches nothing. -/
theorem runSeeded_touchesParties {balances positions : Accounts String}
    (unreserved : balances.Unreserved) {inputs : List Input}
    (fits : CashFitsAlong balances positions inputs)
    {payload : Option CreateOrderPayload} {surroundings : Surroundings} :
    let engine := (runSeeded balances positions inputs).engine
    let input : Input := ⟨.createOrder payload, surroundings⟩
    CashFits engine input →
      (input.order? = none → (engine.step input).engine = engine) ∧
        ∀ order ∈ input.order?,
          TouchesParties engine order (engine.step input) := by
  intro engine input inputFits
  have inRange := cashInRange_run unreserved fits
  exact ⟨step_invalid rfl, fun order submitted =>
    touchesParties_step inRange.wellFormed inRange.cash inputFits submitted⟩

/-- A market BUY that takes two asks of one user and part of one of another. -/
theorem touchesParties_threeAsks :
    let engine := (runSeeded (Finmap.insert "u" ⟨100000, 0⟩ ∅)
      (Finmap.insert "v:e:YES" ⟨5, 0⟩ (Finmap.insert "w:e:YES" ⟨5, 0⟩ ∅))
      [.createEvent "e", .submit "a" "e" "v" "LIMIT" "YES" "SELL" 2 3000,
        .submit "b" "e" "w" "LIMIT" "YES" "SELL" 3 5000,
        .submit "c" "e" "v" "LIMIT" "YES" "SELL" 1 4000]).engine
    let reply := engine.step (.submit "o" "e" "u" "MARKET" "YES" "BUY" 4 0)
    reply.trades.map (fun trade => (trade.matchOrderID, trade.quantity)) =
        [("a", 2), ("c", 1), ("b", 1)] ∧
      TouchesParties engine
        { pendingYes "o" "u" .sideBuy 4 0 with orderType := .orderTypeMarket }
        reply := by
  intro engine reply
  refine ⟨by decide +kernel, ?_⟩
  exact (@runSeeded_touchesParties (Finmap.insert "u" ⟨100000, 0⟩ ∅)
    (Finmap.insert "v:e:YES" ⟨5, 0⟩ (Finmap.insert "w:e:YES" ⟨5, 0⟩ ∅))
    (Accounts.unreserved_empty.insert "u" (by decide)) _ (by decide +kernel)
    (some ⟨"o", "e", "u", "MARKET", "YES", "BUY", 4, 0⟩) ⟨"", true⟩
    (by decide +kernel)).2 _ (by decide +kernel)

end Predix
