import Predix.Book.SinglePass
import Predix.Ledger.Shares

namespace Predix

open Data Word

/-! An order that trades with nobody and is canceled leaves no trace but
itself. -/

/-! Books. -/

private theorem OrderBook.eq_of_slices {left right : OrderBook}
    (slices : ∀ side, left.slice side = right.slice side) : left = right := by
  cases left
  cases right
  have bids := slices .sideBuy
  have asks := slices .sideSell
  simp only [OrderBook.slice] at bids asks
  rw [bids, asks]

private theorem Market.setBook_setBook (market : Market) (outcome : Outcome)
    (first : OrderBook) :
    (market.setBook outcome first).setBook outcome (market.book outcome) =
      market := by
  cases outcome <;> rfl

/-- Taking an order off the slice it was sorted into gives the slice back, also
among orders of its price. -/
theorem erase_addToBook {orders : List Order} {added : Order}
    (sorted : orders.Pairwise (Order.sortsBefore added.side))
    (absent : added.id ∉ orders.map (·.id)) :
    ((addToBook orders added).map (·.id)).erase added.id =
      orders.map (·.id) := by
  have := sortsBefore_total added.side
  have := sortsBefore_trans added.side
  have kept : (orders.map (·.id)).Sublist
      ((addToBook orders added).map (·.id)) :=
    (List.sublist_insertionSort sorted
      (List.sublist_append_left orders [added])).map _
  have left := kept.erase added.id
  rw [List.erase_of_not_mem absent] at left
  have member : added.id ∈ (addToBook orders added).map (·.id) :=
    List.mem_map_of_mem (mem_addToBook.mpr (.inr rfl))
  have length : (addToBook orders added).length = orders.length + 1 := by
    rw [(addToBook_perm orders added).length_eq, List.length_append,
      List.length_singleton]
  refine (left.eq_of_length ?_).symm
  rw [List.length_erase_of_mem member, List.length_map, List.length_map,
    length, Nat.add_sub_cancel]

/-! The order in the book. -/

/-- No order on the other side can trade against this one. -/
def Engine.Unmatched (engine : Engine) (order : Order) : Prop :=
  ∀ resting ∈ engine.opposing order, isCounterparty order resting = false

instance (engine : Engine) (order : Order) :
    Decidable (engine.Unmatched order) :=
  inferInstanceAs (Decidable (∀ resting ∈ engine.opposing order,
    isCounterparty order resting = false))

section Placed

variable {engine : Engine} {order : Order} {market : Market}
  (submitted : order.Submitted) (limit : order.orderType = .orderTypeLimit)
  (unmatched : engine.Unmatched order)

include unmatched in
theorem fillsFor_unmatched : engine.fillsFor order = [] :=
  (fills_of_ineligible unmatched).1

theorem registered_live (engine : Engine) (submitted : order.Submitted) :
    (engine.registered order).status.live = true := by
  change order.status.live = true
  rw [submitted.status]
  rfl

include submitted limit unmatched

theorem taker_unmatched : engine.taker order = engine.registered order := by
  have isOpen : ¬ order.remainingQuantity = 0 := by
    have positive := submitted.quantity
    rw [submitted.remaining, eq_zero_iff]
    omega
  have pending : (engine.registered order).statusAfterMatch =
      (engine.registered order).status := by
    simp only [Order.statusAfterMatch, Engine.registered, if_neg isOpen,
      submitted.filled, submitted.status, limit]
    rfl
  unfold Engine.taker
  rw [fillsFor_unmatched unmatched]
  change { engine.registered order with
    status := (engine.registered order).statusAfterMatch } = _
  rw [pending]

private theorem matched_unmatched :
    engine.matched order market = engine.walked order market := by
  unfold Engine.matched Engine.tradesFor
  rw [taker_unmatched submitted limit unmatched,
    if_pos (registered_live engine submitted), fillsFor_unmatched unmatched]
  rfl

theorem lookup_unmatched (id : String) :
    (engine.walked order market).orders.lookup id =
      if id = order.id then some (engine.registered order)
      else engine.orders.lookup id := by
  by_cases own : id = order.id
  · rw [if_pos own, own, lookup_walked_taker,
      taker_unmatched submitted limit unmatched]
  · rw [if_neg own, lookup_walked_other own]
    rw [fillsFor_unmatched unmatched]
    intro fill member
    cases member

variable (wellFormed : WellFormed engine)
  (fresh : engine.orders.lookup order.id = none)
  (hasMarket : engine.markets.lookup order.eventID = some market)

include wellFormed fresh hasMarket

private theorem bookAfter_erase :
    let placed := engine.bookAfter order market
    placed.setSlice order.side ((placed.slice order.side).erase order.id) =
      market.book order.outcome := by
  have own : ((engine.ownQueue order).map (·.id)).erase order.id =
      engine.slice order.eventID order.outcome order.side := by
    have absent := wellFormed.not_mem_slice_of_fresh fresh order.eventID
      order.outcome order.side
    rw [← wellFormed.registered] at absent ⊢
    unfold Engine.ownQueue
    rw [taker_unmatched submitted limit unmatched,
      if_pos (registered_live engine submitted)]
    exact @erase_addToBook _ (engine.registered order)
      (wellFormed.sorted order.eventID order.outcome order.side) absent
  have across : (slicePast order (engine.opposing order)).map (·.id) =
      engine.slice order.eventID order.outcome order.side.opposite := by
    rw [(fills_of_ineligible unmatched).2]
    exact wellFormed.registered _ _ _
  apply OrderBook.eq_of_slices
  intro side
  rw [OrderBook.slice_setSlice, slice_bookAfter wellFormed hasMarket,
    slice_bookAfter wellFormed hasMarket, if_pos rfl]
  by_cases same : side = order.side
  · rw [if_pos same, own, same, slice_of_market hasMarket]
  · rw [if_neg same, if_neg same, across, Side.eq_opposite_of_ne same,
      slice_of_market hasMarket]

end Placed

/-! The order taken off the book again. -/

def Order.withdrawn (order : Order) : Order :=
  { order with status := .statusCanceled, lockedFunds := 0 }

def Engine.placedIn (engine : Engine) (order : Order) (market : Market) :
    Market :=
  market.setBook order.outcome (engine.bookAfter order market)

/-- The state after the order was placed, unmatched, and canceled. -/
def Engine.placedCanceled (engine : Engine) (order : Order)
    (market : Market) : Engine :=
  (engine.walked order market).cancel (engine.placedIn order market)
    (engine.registered order)

section Canceled

variable {engine : Engine} {order : Order} {market : Market}
  (submitted : order.Submitted) (limit : order.orderType = .orderTypeLimit)
  (unmatched : engine.Unmatched order)

include submitted limit unmatched in
private theorem markets_placedCanceled (wellFormed : WellFormed engine)
    (fresh : engine.orders.lookup order.id = none)
    (hasMarket : engine.markets.lookup order.eventID = some market) :
    (engine.placedCanceled order market).markets = engine.markets := by
  have restored := bookAfter_erase submitted limit unmatched wellFormed fresh
    hasMarket
  have book : (engine.placedIn order market).book order.outcome =
      engine.bookAfter order market := by
    rw [Engine.placedIn, Market.book_setBook, if_pos rfl]
  have closed : (engine.placedCanceled order market).markets =
      (engine.walked order market).markets.insert order.eventID
        ((engine.placedIn order market).setBook order.outcome
          (((engine.placedIn order market).book order.outcome).setSlice
            order.side
            ((((engine.placedIn order market).book order.outcome).slice
              order.side).erase order.id))) := by
    rw [Engine.placedCanceled, cancel_eq, releaseOrderLocked_markets]
    rfl
  rw [closed, book, restored, Engine.placedIn, Market.setBook_setBook,
    walked_markets wellFormed fresh hasMarket, Finmap.insert_insert,
    FiniteMap.insert_self hasMarket]

variable (locks : 0 < (engine.lockFor order).toInt)

include submitted limit unmatched locks in
private theorem orders_placedCanceled :
    (engine.placedCanceled order market).orders =
      engine.orders.insert order.id order.withdrawn := by
  have released : (engine.registered order).canceled.released =
      order.withdrawn := by
    have positive : ¬ engine.lockFor order ≤ 0 := by
      rw [Word.le_zero_iff]
      omega
    exact if_neg positive
  apply Finmap.ext_lookup
  intro id
  rw [Engine.placedCanceled, lookup_cancel_released, released,
    lookup_unmatched submitted limit unmatched, FiniteMap.lookup_insert_eq]
  change (if id = order.id then _ else _) = _
  split
  · rfl
  · rfl

include locks in
private theorem account_placedCanceled {leg : Leg} (sound : leg.Sound engine)
    (key : String) :
    leg.account (engine.placedCanceled order market) key =
      leg.account engine key := by
  have sameKey : leg.key (engine.registered order) = leg.key order :=
    leg.key_withLock order (engine.lockFor order)
  unfold Leg.account
  rw [Engine.placedCanceled, Leg.accounts_cancel, Leg.accounts_walked,
    Leg.accounts_frozen, sameKey]
  change (if order.side = leg.side ∧ 0 < (engine.lockFor order).toInt then
    Accounts.update _ _ (·.unfreeze (engine.lockFor order)) else _).account
      key = _
  by_cases side : order.side = leg.side
  · rw [if_pos ⟨side, locks⟩, if_pos side, Accounts.update_update_self,
      Accounts.account_update]
    split
    · rename_i owned
      rw [owned]
      exact Account.unfreeze_freeze (sound.reserved (leg.key order)) _
    · rfl
  · rw [if_neg fun both => side both.1, if_neg side]

end Canceled

private theorem lockFor_positive {engine : Engine} {order : Order}
    (submitted : order.Submitted) (limit : order.orderType = .orderTypeLimit)
    (product : order.side = .sideBuy →
      Fits (order.quantity.toInt * order.price.toInt)) :
    0 < (engine.lockFor order).toInt := by
  cases side : order.side with
  | sideBuy =>
      rw [lockFor_buy engine submitted side fun _ => product side]
      simp only [Engine.exactHold, limit]
      exact Int.mul_pos submitted.quantity (submitted.price limit)
  | sideSell =>
      rw [lockFor_sell submitted side]
      exact submitted.quantity

theorem step_cancelOrder {engine : Engine} {order : Order} {market : Market}
    {eventID : String} {surroundings : Surroundings}
    (named : order.id ≠ "")
    (belongs : eventID = "" ∨ eventID = order.eventID)
    (present : engine.orders.lookup order.id = some order)
    (live : order.status.live = true)
    (hasMarket : engine.markets.lookup order.eventID = some market) :
    engine.step ⟨.cancelOrder (some ⟨order.id, eventID⟩), surroundings⟩ =
      { engine := engine.cancel market order
        response := .successJSON (.orderStatus order.id .statusCanceled)
        trades := []
        events := [.orderCanceled order.id] } := by
  have ours : ¬ (eventID ≠ "" ∧ order.eventID ≠ eventID) := by
    rintro ⟨given, foreign⟩
    rcases belongs with blank | own
    · exact given blank
    · exact foreign own.symm
  simp only [Engine.step, handleMessage, handleCancelOrder, if_neg named,
    present, if_neg ours, live, hasMarket, Bool.true_eq_false, if_false]

/-- A later state that differs from an earlier one by one withdrawn order. -/
structure OnlyWithdrawn (before after : Engine) (order : Order) : Prop where
  markets : after.markets = before.markets
  queues : ∀ eventID outcome side,
    after.queue eventID outcome side = before.queue eventID outcome side
  orders : after.orders = before.orders.insert order.id order.withdrawn
  balances : ∀ userID,
    after.balances.account userID = before.balances.account userID
  positions : ∀ key,
    after.positions.account key = before.positions.account key

private theorem onlyWithdrawn_placedCanceled {engine : Engine} {order : Order}
    {market : Market} (wellFormed : WellFormed engine)
    (sound : ∀ leg : Leg, leg.Sound engine) (submitted : order.Submitted)
    (limit : order.orderType = .orderTypeLimit)
    (fresh : engine.orders.lookup order.id = none)
    (hasMarket : engine.markets.lookup order.eventID = some market)
    (unmatched : engine.Unmatched order)
    (product : order.side = .sideBuy →
      Fits (order.quantity.toInt * order.price.toInt)) :
    OnlyWithdrawn engine (engine.placedCanceled order market) order := by
  have locks : 0 < (engine.lockFor order).toInt :=
    lockFor_positive submitted limit product
  have markets := markets_placedCanceled submitted limit unmatched wellFormed
    fresh hasMarket
  have orders : (engine.placedCanceled order market).orders = _ :=
    orders_placedCanceled submitted limit unmatched locks
  refine ⟨markets, ?_, orders, account_placedCanceled locks (sound .cash),
    account_placedCanceled locks (sound .shares)⟩
  intro eventID outcome side
  unfold Engine.queue
  have sameSlice : (engine.placedCanceled order market).slice eventID outcome
      side = engine.slice eventID outcome side := by
    simp only [Engine.slice, markets]
  rw [sameSlice]
  apply load_congr
  intro id member
  rw [orders, FiniteMap.lookup_insert_eq, if_neg]
  rintro rfl
  exact wellFormed.not_mem_slice_of_fresh fresh _ _ _ member

/-- Placing and canceling an order that finds nobody to trade with is
invisible, whatever else is in the books and in the ledger. -/
theorem runSeeded_placeCancel {balances positions : Accounts String}
    (cash : balances.Unreserved) (shares : positions.Unreserved)
    {inputs : List Input}
    (fits : MeetsAlong (fun history input => NothingWraps history.engine input)
      balances positions inputs)
    {input : Input} {order : Order} {eventID : String}
    {surroundings : Surroundings} (submitted : input.order? = some order)
    (limit : order.orderType = .orderTypeLimit) (named : order.id ≠ "")
    (belongs : eventID = "" ∨ eventID = order.eventID)
    (unmatched :
      (runSeeded balances positions inputs).engine.Unmatched order)
    (product : order.side = .sideBuy →
      Fits (order.quantity.toInt * order.price.toInt)) :
    let engine := (runSeeded balances positions inputs).engine
    let placed := engine.step input
    let canceled := placed.engine.step
      ⟨.cancelOrder (some ⟨order.id, eventID⟩), surroundings⟩
    placed.response.accepted? ≠ none →
      canceled.response =
          .successJSON (.orderStatus order.id .statusCanceled) ∧
        OnlyWithdrawn engine canceled.engine order := by
  intro engine placed canceled accepted
  have sound := ledgerSound_run cash shares fits
  have wellFormed := sound.inRange.wellFormed
  have valid := Input.order?_submitted submitted
  obtain ⟨market, fresh, hasMarket, _, matched, _⟩ :=
    step_accepted wellFormed submitted accepted
  have present : placed.engine.orders.lookup order.id =
      some (engine.registered order) := by
    rw [matched, matched_unmatched valid limit unmatched,
      lookup_unmatched valid limit unmatched, if_pos rfl]
  have placedMarket : placed.engine.markets.lookup order.eventID =
      some (engine.placedIn order market) := by
    rw [matched, matched_unmatched valid limit unmatched,
      walked_markets wellFormed fresh hasMarket, FiniteMap.lookup_insert_eq,
      if_pos rfl]
    rfl
  have reply := @step_cancelOrder placed.engine (engine.registered order)
    (engine.placedIn order market) eventID surroundings named belongs present
    (registered_live engine valid) placedMarket
  have engineAfter : placed.engine.cancel (engine.placedIn order market)
      (engine.registered order) = engine.placedCanceled order market := by
    rw [matched, matched_unmatched valid limit unmatched]
    rfl
  rw [engineAfter] at reply
  have whole : canceled = _ := reply
  rw [whole]
  exact ⟨rfl, onlyWithdrawn_placedCanceled wellFormed sound.leg valid limit
    fresh hasMarket unmatched product⟩

def ownCross : List Input :=
  [.createEvent "e", .submit "a" "e" "u" "LIMIT" "YES" "BUY" 2 3000,
    .submit "b" "e" "u" "LIMIT" "YES" "BUY" 3 3000,
    .submit "c" "e" "v" "LIMIT" "YES" "BUY" 1 2000,
    .submit "d" "e" "u" "LIMIT" "YES" "SELL" 4 3000]

/-- One more bid of that user at that price, placed and canceled. -/
theorem placeCancel_ownCross :
    let balances := Finmap.insert "u" ⟨100000, 0⟩
      (Finmap.insert "v" ⟨100000, 0⟩ ∅)
    let positions := Finmap.insert "u:e:YES" ⟨5, 0⟩ ∅
    let engine := (runSeeded balances positions ownCross).engine
    let canceled := (engine.step
      (.submit "o" "e" "u" "LIMIT" "YES" "BUY" 7 3000)).engine.step
        ⟨.cancelOrder (some ⟨"o", "e"⟩), ⟨"", true⟩⟩
    canceled.response = .successJSON (.orderStatus "o" .statusCanceled) ∧
      OnlyWithdrawn engine canceled.engine
        (pendingYes "o" "u" .sideBuy 7 3000) := by
  intro balances positions engine canceled
  exact @runSeeded_placeCancel balances positions
    ((Accounts.unreserved_empty.insert "v" (by decide)).insert "u" (by decide))
    (Accounts.unreserved_empty.insert "u:e:YES" (by decide)) ownCross
    (by decide +kernel) (.submit "o" "e" "u" "LIMIT" "YES" "BUY" 7 3000)
    (pendingYes "o" "u" .sideBuy 7 3000) "e" ⟨"", true⟩ (by decide +kernel)
    rfl (by decide) (.inr rfl) (by decide +kernel)
    (fun _ => by decide) (by decide +kernel)

end Predix
