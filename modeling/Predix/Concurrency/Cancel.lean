import Predix.Concurrency.Tidy
import Predix.Ledger.Overflow

namespace Predix

open Data Word

/-! A cancel is final, whatever else is under way. -/

/-- No user's available cash is negative, and no lock. -/
structure Solvent (engine : Engine) : Prop where
  available : ∀ userID,
    0 ≤ (engine.balances.account userID).available.toInt
  locks : ∀ {id order}, engine.orders.lookup id = some order →
    0 ≤ order.lockedFunds.toInt

section Exact

variable (engine : Engine)

def Engine.settledUp (order : Order) (market : Market) : Engine :=
  settleAll (engine.stored order market) (engine.walk order market).1.trades

def Engine.BeginsExactly (input : Input) : Prop :=
  (∀ order ∈ engine.admitted? input, order.side = .sideBuy →
    order.orderType = .orderTypeLimit →
      Fits (order.quantity.toInt * order.price.toInt)) ∧
  (∀ order ∈ engine.canceled? input, order.side = .sideBuy →
    Fits ((engine.balances.account order.userID).available.toInt +
      order.lockedFunds.toInt))

/-- No cash amount of the walk of an order leaves the range of int64: not the
cost of a trade, not what its seller then has, not what the order gives back. -/
def Engine.MatchesExactly (order : Order) (market : Market) : Prop :=
  (∀ trade ∈ (engine.walk order market).1.trades,
    Fits trade.exactCost ∧
      Fits ((engine.balances.account trade.sellerID).available.toInt +
        proceeds (engine.walk order market).1.trades trade.sellerID)) ∧
  (order.side = .sideBuy →
    ∀ registered ∈ (engine.settledUp order market).orders.lookup order.id,
      Fits (((engine.settledUp order market).balances.account
        order.userID).available.toInt + registered.lockedFunds.toInt))

def Engine.FinishesExactly (orderID : String) : Prop :=
  ∀ order ∈ engine.orders.lookup orderID, order.status ≠ .statusCanceled →
    ∀ market ∈ engine.markets.lookup order.eventID,
      engine.MatchesExactly order market

instance (input : Input) : Decidable (engine.BeginsExactly input) :=
  inferInstanceAs (Decidable (_ ∧ _))

instance (order : Order) (market : Market) :
    Decidable (engine.MatchesExactly order market) :=
  inferInstanceAs (Decidable (_ ∧ _))

instance (orderID : String) : Decidable (engine.FinishesExactly orderID) :=
  inferInstanceAs (Decidable (∀ order ∈ engine.orders.lookup orderID,
    order.status ≠ .statusCanceled →
      ∀ market ∈ engine.markets.lookup order.eventID,
        engine.MatchesExactly order market))

end Exact

def Interleaved.Exact (state : Interleaved) : SectionEvent → Prop
  | .begin input => state.engine.BeginsExactly input
  | .finish orderID => state.engine.FinishesExactly orderID

instance (state : Interleaved) (event : SectionEvent) :
    Decidable (state.Exact event) :=
  match event with
  | .begin input =>
      inferInstanceAs (Decidable (state.engine.BeginsExactly input))
  | .finish orderID =>
      inferInstanceAs (Decidable (state.engine.FinishesExactly orderID))

/-! Solvency. -/

theorem solvent_seeded {balances positions : Accounts String}
    (available : ∀ userID, 0 ≤ (balances.account userID).available.toInt) :
    Solvent (Engine.seeded balances positions) where
  available := available
  locks := by
    intro id order present
    simp [Engine.seeded] at present

private theorem Solvent.of_accounts {left right : Engine}
    (solvent : Solvent left)
    (available : ∀ userID, (right.balances.account userID).available =
      (left.balances.account userID).available)
    (orders : right.orders = left.orders) : Solvent right where
  available := by
    intro userID
    rw [available]
    exact solvent.available userID
  locks := by
    intro id order present
    rw [orders] at present
    exact solvent.locks present

section Begin

variable {engine : Engine} {order : Order} {market : Market}
  (solvent : Solvent engine)

include solvent

private theorem solvent_opened : Solvent (engine.opened order) := by
  apply solvent.of_accounts
  · intro userID
    unfold Engine.opened
    cases order.side with
    | sideBuy =>
        simp only [Engine.updateBalance]
        rw [Accounts.account_update]
        split
        · rename_i same
          rw [same]
          rfl
        · rfl
    | sideSell => rfl
  · exact opened_orders engine order

theorem solvent_release (present : engine.orders.lookup order.id = some order)
    (refund : order.side = .sideBuy →
      Fits ((engine.balances.account order.userID).available.toInt +
        order.lockedFunds.toInt)) :
    Solvent (releaseOrderLocked engine order) where
  available := by
    intro userID
    have old := solvent.available userID
    rw [releaseOrderLocked_balances]
    split
    · rename_i locked
      rw [Accounts.account_update]
      split
      · rename_i same
        rw [Account.unfreeze_available (refund locked.1)]
        rw [same] at old
        omega
      · exact old
    · exact old
  locks := by
    intro id found lookedUp
    rw [lookup_releaseOrderLocked engine order present] at lookedUp
    split at lookedUp
    · cases lookedUp
      have := solvent.locks present
      rw [Order.released_lockedFunds]
      omega
    · exact solvent.locks lookedUp

private theorem solvent_cancel
    (present : engine.orders.lookup order.id = some order)
    (refund : order.side = .sideBuy →
      Fits ((engine.balances.account order.userID).available.toInt +
        order.lockedFunds.toInt)) :
    Solvent (engine.cancel market order) := by
  rw [cancel_eq]
  have closed : Solvent (engine.closed market order) := by
    refine ⟨solvent.available, ?_⟩
    intro id found lookedUp
    rw [lookup_closed] at lookedUp
    split at lookedUp
    · cases lookedUp
      have lock := solvent.locks present
      exact lock
    · exact solvent.locks lookedUp
  apply solvent_release closed
  · rw [lookup_closed]
    exact if_pos rfl
  · exact refund

private theorem lockFor_nonneg (submitted : order.Submitted)
    (product : order.side = .sideBuy → order.orderType = .orderTypeLimit →
      Fits (order.quantity.toInt * order.price.toInt)) :
    0 ≤ (engine.lockFor order).toInt := by
  cases side : order.side with
  | sideBuy =>
      rw [lockFor_buy engine submitted side (product side), Engine.exactHold]
      cases type : order.orderType with
      | orderTypeLimit =>
          exact Int.mul_nonneg (le_of_lt submitted.quantity)
            (le_of_lt (submitted.price type))
      | orderTypeMarket => exact solvent.available order.userID
  | sideSell =>
      simp only [Engine.lockFor, side]
      rw [submitted.remaining]
      exact le_of_lt submitted.quantity

private theorem solvent_enrolled (submitted : order.Submitted)
    (affords : engine.Affords order)
    (product : order.side = .sideBuy → order.orderType = .orderTypeLimit →
      Fits (order.quantity.toInt * order.price.toInt)) :
    Solvent (engine.enrolled order) where
  available := by
    intro userID
    have old := solvent.available userID
    change 0 ≤ ((engine.frozen order).balances.account userID).available.toInt
    unfold Engine.frozen
    cases side : order.side with
    | sideSell => exact old
    | sideBuy =>
        have cost : engine.lockFor order = engine.cost order := by
          simp only [Engine.lockFor, side]
        have nonneg := lockFor_nonneg solvent submitted product
        simp only [Engine.Affords, side] at affords
        rw [cost] at nonneg
        rw [Int64.le_iff_toInt_le] at affords
        simp only [Engine.updateBalance]
        rw [Accounts.account_update]
        split
        · rw [Account.freeze_available nonneg affords]
          omega
        · exact old
  locks := by
    intro id found lookedUp
    rw [lookup_enrolled] at lookedUp
    split at lookedUp
    · cases lookedUp
      exact lockFor_nonneg solvent submitted product
    · exact solvent.locks lookedUp

private theorem solvent_begin {waiting : String → Prop}
    (tidy : Tidy engine waiting)
    {input : Input} (exact : engine.BeginsExactly input) :
    Solvent (beginCommand engine input).1 := by
  have opening := beginCommand_opening engine input
  generalize beginCommand engine input = result at opening ⊢
  cases opening with
  | unchanged response idle => exact solvent
  | opened order message => exact solvent_opened solvent
  | canceled req order market requested present live hasMarket chosen =>
      have ownID := tidy.keyed _ _ present
      rw [← ownID] at present
      exact solvent_cancel solvent present (exact.2 order chosen)
  | marketCreated eventID requested absent =>
      exact ⟨solvent.available, solvent.locks⟩
  | userFunded userID requested absent =>
      refine ⟨?_, solvent.locks⟩
      intro other
      change 0 ≤ (Leg.cash.account _ other).available.toInt
      rw [account_funded]
      split
      · decide
      · exact solvent.available other
  | registered order market submitted fresh hasMarket affords =>
      exact solvent_enrolled solvent (Input.order?_submitted submitted) affords
        (exact.1 order (admitted?_eq submitted fresh hasMarket affords))

end Begin

private theorem settledAll_lock_nonneg {order : Order}
    (lock : 0 ≤ order.lockedFunds.toInt) (trades : List Trade) :
    0 ≤ (order.settledAll trades).lockedFunds.toInt := by
  induction trades generalizing order with
  | nil => exact lock
  | cons trade trades induction =>
      have settled : 0 ≤ (order.settled trade).lockedFunds.toInt := by
        unfold Order.settled
        split
        · simp
        · exact lock
      exact induction settled

section Finish

variable {engine : Engine} {waiting : String → Prop} {order : Order}
  {market : Market} (tidy : Tidy engine waiting)
  (isWaiting : waiting order.id)
  (present : engine.orders.lookup order.id = some order)
  (hasMarket : engine.markets.lookup order.eventID = some market)

include tidy isWaiting hasMarket

private theorem walk_exactCost_nonneg {trade : Trade}
    (member : trade ∈ (engine.walk order market).1.trades) :
    0 ≤ trade.exactCost := by
  obtain ⟨maker, registered, inSlice, isTrade, _, _, _, positive⟩ :=
    walk_trade tidy hasMarket isWaiting member
  obtain ⟨found, foundPresent, _, _, _, limit⟩ := tidy.listed inSlice
  rw [registered] at foundPresent
  cases foundPresent
  have price := tidy.priced registered limit
  have priceIs : trade.price = maker.price := by
    rw [isTrade]
    rfl
  rw [zero_lt_iff] at positive
  rw [Trade.exactCost, priceIs]
  exact Int.mul_nonneg (le_of_lt positive) (le_of_lt price)

variable (solvent : Solvent engine)
  (exact : engine.MatchesExactly order market)

omit tidy isWaiting hasMarket in
include exact in
theorem walk_costs : ∀ trade ∈ (engine.walk order market).1.trades,
    trade.cost.toInt = trade.exactCost :=
  fun trade member => toInt_mul (exact.1 trade member).1

include exact in
theorem walk_amounts :
    Leg.cash.AmountsNonneg (engine.walk order market).1.trades := by
  intro trade isTrade
  change 0 ≤ trade.cost.toInt
  rw [walk_costs exact trade isTrade]
  exact walk_exactCost_nonneg tidy isWaiting hasMarket isTrade

omit tidy isWaiting hasMarket in
include exact in
theorem walk_room (userID : String) :
    Fits ((engine.balances.account userID).available.toInt +
      Transfer.received userID
        ((engine.walk order market).1.trades.map Leg.cash.transfer)) := by
  rw [received_eq_proceeds (walk_costs exact)]
  exact proceeds_fit (fun trade member => (exact.1 trade member).2) userID

include solvent exact in
private theorem settledUp_available (userID : String) :
    0 ≤ ((engine.settledUp order market).balances.account
      userID).available.toInt := by
  have amounts := (walk_amounts tidy isWaiting hasMarket exact).transfers
  have received := Transfer.received_nonneg amounts userID
  have old := solvent.available userID
  unfold Engine.settledUp
  rw [settleAll_balances]
  change 0 ≤ ((Transfer.applyAll engine.balances
    ((engine.walk order market).1.trades.map Leg.cash.transfer)).account
      userID).available.toInt
  rw [Transfer.applyAll_available _ _ _ amounts (walk_room exact userID)]
  omega

include present

theorem lookup_settledUp (id : String) :
    (engine.settledUp order market).orders.lookup id =
      ((engine.stored order market).orders.lookup id).map
        (·.settledAll (engine.walk order market).1.trades) :=
  lookup_settleAll (stored_keyed tidy present hasMarket)
    (walk_distinct tidy hasMarket isWaiting) id

include solvent exact

private theorem solvent_settledUp :
    Solvent (engine.settledUp order market) where
  available := settledUp_available tidy isWaiting hasMarket solvent exact
  locks := by
    intro id later lookedUp
    rw [lookup_settledUp tidy isWaiting present hasMarket] at lookedUp
    obtain ⟨found, stored, rfl⟩ := Option.map_eq_some_iff.mp lookedUp
    obtain ⟨earlier, old, progressed⟩ :=
      (stored_progressed tidy present hasMarket).of_left stored
    apply settledAll_lock_nonneg
    rw [progressed.lockedFunds]
    exact solvent.locks old

private theorem solvent_finished : Solvent (engine.finished order market) := by
  have settled := solvent_settledUp tidy isWaiting present hasMarket solvent
    exact
  change Solvent (if _ then (engine.settledUp order market).release order.id
    else engine.settledUp order market)
  split
  · unfold Engine.release
    split
    · exact settled
    · rename_i registered lookedUp
      have own := lookup_settledUp tidy isWaiting present hasMarket order.id
      rw [lookedUp, lookup_stored_self, Option.map_some] at own
      have continues : registered.Continues order := by
        cases own
        exact (Order.settledAll_continues _ _).trans
          walker_progressed.continues
      apply solvent_release settled
      · rw [continues.id]
        exact lookedUp
      · intro side
        rw [continues.userID]
        exact exact.2 (continues.side.symm.trans side) registered lookedUp
  · exact settled

end Finish

private theorem solvent_matchOrder {engine : Engine} {waiting : String → Prop}
    (tidy : Tidy engine waiting) {orderID : String}
    (isWaiting : waiting orderID) (solvent : Solvent engine)
    (exact : engine.FinishesExactly orderID) :
    Solvent (matchOrder engine orderID).1 := by
  have finishing := matchOrder_finishing tidy.keyed orderID
  generalize matchOrder engine orderID = result at finishing ⊢
  cases finishing with
  | absent absent => exact solvent
  | canceled order present canceled => exact solvent
  | rejected order present notCanceled noMarket =>
      obtain ⟨market, hasMarket⟩ := tidy.hasMarket present
      rw [noMarket] at hasMarket
      contradiction
  | matched order market present notCanceled hasMarket =>
      have ownID := tidy.keyed orderID order present
      subst ownID
      dsimp only
      exact solvent_finished tidy isWaiting present hasMarket solvent
        (exact order present notCanceled market hasMarket)

/-! The canceled order. -/

/-- An order is canceled, locks nothing and is in no book. -/
structure Engine.Withdrawn (engine : Engine) (orderID : String) : Prop where
  closed : ∃ order, engine.orders.lookup orderID = some order ∧
    order.status = .statusCanceled ∧ order.lockedFunds = 0
  unlisted : ∀ eventID outcome side,
    orderID ∉ engine.slice eventID outcome side

section Withdrawn

variable {engine : Engine} {waiting : String → Prop}
  (tidy : Tidy engine waiting) {orderID : String}

theorem Engine.Withdrawn.of_same {left right : Engine}
    (withdrawn : left.Withdrawn orderID)
    (lookup : right.orders.lookup orderID = left.orders.lookup orderID)
    (slices : ∀ eventID outcome side,
      orderID ∈ right.slice eventID outcome side →
        orderID ∈ left.slice eventID outcome side) :
    right.Withdrawn orderID where
  closed := by
    rw [lookup]
    exact withdrawn.closed
  unlisted := fun eventID outcome side member =>
    withdrawn.unlisted eventID outcome side
      (slices eventID outcome side member)

include tidy

private theorem withdrawn_cancel (solvent : Solvent engine) {order : Order}
    {market : Market} (present : engine.orders.lookup order.id = some order)
    (hasMarket : engine.markets.lookup order.eventID = some market) :
    (engine.cancel market order).Withdrawn order.id where
  closed := by
    refine ⟨order.canceled.released, ?_, ?_, ?_⟩
    · rw [lookup_cancel_released, if_pos rfl]
    · rw [Order.released_status]
      rfl
    · have lock := solvent.locks present
      rw [eq_zero_iff, Order.released_lockedFunds]
      change min 0 order.lockedFunds.toInt = 0
      omega
  unlisted := by
    intro eventID outcome side member
    rw [slice_cancel tidy present hasMarket, List.mem_filter] at member
    simp at member

private theorem withdrawn_begin (withdrawn : engine.Withdrawn orderID)
    (input : Input) :
    (beginCommand engine input).1.Withdrawn orderID := by
  have opening := beginCommand_opening engine input
  generalize beginCommand engine input = result at opening ⊢
  cases opening with
  | unchanged response idle => exact withdrawn
  | opened order message =>
      apply withdrawn.of_same
      · rw [opened_orders]
      · intro eventID outcome side member
        simp only [Engine.slice, opened_markets] at member
        exact member
  | canceled req order market requested present live hasMarket chosen =>
      have ownID := tidy.keyed _ _ present
      rw [← ownID] at present
      apply withdrawn.of_same
      · rw [lookup_cancel_released, if_neg]
        rintro rfl
        obtain ⟨closed, closedPresent, canceled, _⟩ := withdrawn.closed
        rw [present] at closedPresent
        cases closedPresent
        rw [canceled] at live
        contradiction
      · intro eventID outcome side member
        rw [slice_cancel tidy present hasMarket] at member
        exact (List.mem_filter.mp member).1
  | marketCreated created requested absent =>
      apply withdrawn.of_same
      · rfl
      · intro eventID outcome side member
        rw [slice_newMarket absent] at member
        exact member
  | userFunded userID requested absent =>
      exact withdrawn.of_same rfl fun _ _ _ member => member
  | registered order market submitted fresh hasMarket affords =>
      apply withdrawn.of_same
      · rw [lookup_enrolled, if_neg]
        rintro rfl
        obtain ⟨closed, closedPresent, _⟩ := withdrawn.closed
        rw [fresh] at closedPresent
        contradiction
      · intro eventID outcome side member
        rw [slice_enrolled] at member
        exact member

/-- A match section neither revives the order nor trades it: its own is over
before it starts, and the others find it in no slice. -/
theorem withdrawn_matchOrder (withdrawn : engine.Withdrawn orderID)
    {matched : String} (isWaiting : waiting matched) :
    (matchOrder engine matched).1.Withdrawn orderID ∧
      ∀ trade ∈ (matchOrder engine matched).2, ¬ trade.names orderID := by
  obtain ⟨closed, closedPresent, canceled, unlocked⟩ := withdrawn.closed
  have finishing := matchOrder_finishing tidy.keyed matched
  generalize matchOrder engine matched = result at finishing ⊢
  cases finishing with
  | absent absent => exact ⟨withdrawn, by simp⟩
  | canceled order present canceled => exact ⟨withdrawn, by simp⟩
  | rejected order present notCanceled noMarket =>
      obtain ⟨market, hasMarket⟩ := tidy.hasMarket present
      rw [noMarket] at hasMarket
      contradiction
  | matched order market present notCanceled hasMarket =>
      have ownID := tidy.keyed matched order present
      subst ownID
      have other : orderID ≠ order.id := by
        rintro rfl
        rw [present] at closedPresent
        cases closedPresent
        exact notCanceled canceled
      have unnamed : ∀ trade ∈ (engine.walk order market).1.trades,
          ¬ trade.names orderID := by
        intro trade member names
        obtain ⟨maker, _, inSlice, isTrade, _⟩ :=
          walk_trade tidy hasMarket isWaiting member
        rw [isTrade] at names
        rcases names with taker | isMaker
        · exact other taker.symm
        · have same : maker.id = orderID := isMaker
          rw [same] at inSlice
          exact withdrawn.unlisted _ _ _ inSlice
      refine ⟨withdrawn.of_same ?_ ?_, unnamed⟩
      · have settled : engine.finishedOrder order market orderID closed =
            closed := by
          unfold Engine.finishedOrder
          simp only
          rw [if_neg fun own => other own.1]
          apply Order.settledAll_of_unnamed
          rw [tidy.keyed orderID closed closedPresent]
          exact unnamed
        rw [lookup_finished tidy present hasMarket isWaiting,
          lookup_stored_outside tidy hasMarket other
            (withdrawn.unlisted _ _ _), closedPresent, Option.map_some,
          settled]
      · intro eventID outcome side member
        rcases mem_slice_finished tidy hasMarket member with old | ⟨same, _⟩
        · exact old
        · exact absurd same other

end Withdrawn

/-! Whole interleavings. -/

namespace Interleaved

variable {state : Interleaved}

theorem solvent_step {event : SectionEvent} (orderly : state.Orderly)
    (solvent : Solvent state.engine)
    (exact : state.Exact event) : Solvent (state.step event).engine := by
  cases event with
  | begin input =>
      change Solvent (state.begin input).engine
      rw [(state.begin_engine input).1]
      exact solvent_begin solvent orderly.tidy exact
  | finish orderID =>
      change Solvent (state.finish orderID).engine
      cases found : state.waiting? orderID with
      | none =>
          simp only [Interleaved.finish, found]
          exact solvent
      | some command =>
          rw [(finish_engine found).1]
          exact solvent_matchOrder orderly.tidy (mem_waiting found) solvent
            exact

theorem solvent_runInterleaved {balances positions : Accounts String}
    (available : ∀ userID, 0 ≤ (balances.account userID).available.toInt)
    {events : List SectionEvent}
    (exact : Along Interleaved.step Interleaved.Exact
      (Interleaved.start (Engine.seeded balances positions)) events) :
    Solvent (runInterleaved balances positions events).engine := by
  have both := invariant_runFrom
    (fun state : Interleaved => state.Orderly ∧ Solvent state.engine)
    (fun _ event holds fits =>
      ⟨orderly_step event holds.1, solvent_step holds.1 holds.2 fits⟩)
    ⟨orderly_seeded balances positions, solvent_seeded available⟩ exact
  exact both.2

/-- The trades since another state do not name an order. -/
def Spares (later earlier : Interleaved) (orderID : String) : Prop :=
  ∃ trades, later.trades = earlier.trades ++ trades ∧
    ∀ trade ∈ trades, ¬ trade.names orderID

theorem withdrawn_step {earlier : Interleaved} {orderID : String}
    (event : SectionEvent) (orderly : state.Orderly)
    (withdrawn : state.engine.Withdrawn orderID)
    (spares : state.Spares earlier orderID) :
    (state.step event).engine.Withdrawn orderID ∧
      (state.step event).Spares earlier orderID := by
  cases event with
  | begin input =>
      obtain ⟨engine, _, trades⟩ := state.begin_engine input
      change (state.begin input).engine.Withdrawn orderID ∧
        (state.begin input).Spares earlier orderID
      rw [engine, Spares, trades]
      exact ⟨withdrawn_begin orderly.tidy withdrawn input, spares⟩
  | finish matched =>
      change (state.finish matched).engine.Withdrawn orderID ∧
        (state.finish matched).Spares earlier orderID
      cases found : state.waiting? matched with
      | none =>
          simp only [Interleaved.finish, found]
          exact ⟨withdrawn, spares⟩
      | some command =>
          obtain ⟨engine, trades, _⟩ := finish_engine found
          obtain ⟨kept, unnamed⟩ :=
            withdrawn_matchOrder orderly.tidy withdrawn (mem_waiting found)
          obtain ⟨since, split, spared⟩ := spares
          rw [engine, Spares, trades, split]
          refine ⟨kept, since ++ (matchOrder state.engine matched).2,
            List.append_assoc _ _ _, ?_⟩
          intro trade isTrade
          rcases List.mem_append.mp isTrade with old | new
          · exact spared trade old
          · exact unnamed trade new

private theorem withdrawn_of_answered {input : Input} {req : CancelOrderPayload}
    (orderly : state.Orderly) (solvent : Solvent state.engine)
    (requested : input.command = .cancelOrder (some req))
    (answered : (state.begin input).answered =
      state.answered ++ [(input, true)]) :
    (state.begin input).engine.Withdrawn req.orderID := by
  rw [(state.begin_engine input).1]
  have begun : beginCommand state.engine input =
      ((handleCancelOrder state.engine (some req)).engine,
        .answered (handleCancelOrder state.engine (some req)).response) := by
    simp only [beginCommand, requested, handleMessage]
  simp only [Interleaved.begin, begun, List.append_cancel_left_eq,
    List.cons.injEq, Prod.mk.injEq, true_and, and_true] at answered
  rw [begun]
  unfold handleCancelOrder at answered ⊢
  simp only at answered ⊢
  split at answered
  · contradiction
  · rename_i named
    rw [if_neg named]
    cases present : state.engine.orders.lookup req.orderID with
    | none =>
        simp only [present] at answered
        contradiction
    | some order =>
        simp only [present] at answered ⊢
        split at answered
        · contradiction
        · rename_i belongs
          rw [if_neg belongs]
          split at answered
          · contradiction
          · rename_i live
            rw [if_neg live]
            have ownID := orderly.tidy.keyed _ _ present
            rw [← ownID] at present ⊢
            obtain ⟨market, hasMarket⟩ := orderly.tidy.hasMarket present
            simp only [hasMarket]
            exact withdrawn_cancel orderly.tidy solvent present hasMarket

end Interleaved

/-- Once CANCEL_ORDER has answered success, the order stays canceled, locks
nothing, is in no book and is traded no more, whatever sections have run and
will run. -/
theorem cancel_isFinal {balances positions : Accounts String}
    (available : ∀ userID, 0 ≤ (balances.account userID).available.toInt)
    {before : List SectionEvent}
    (exact : Along Interleaved.step Interleaved.Exact
      (Interleaved.start (Engine.seeded balances positions)) before)
    {input : Input} {req : CancelOrderPayload}
    (requested : input.command = .cancelOrder (some req))
    (answered :
      (runInterleaved balances positions
        (before ++ [.begin input])).answered =
      (runInterleaved balances positions before).answered ++ [(input, true)])
    (after : List SectionEvent) :
    (runInterleaved balances positions
      (before ++ [.begin input] ++ after)).engine.Withdrawn req.orderID ∧
    (runInterleaved balances positions
      (before ++ [.begin input] ++ after)).Spares
        (runInterleaved balances positions (before ++ [.begin input]))
        req.orderID := by
  have orderly := orderly_runInterleaved balances positions
  have solvent := Interleaved.solvent_runInterleaved available exact
  have begun : runInterleaved balances positions (before ++ [.begin input]) =
      (runInterleaved balances positions before).begin input :=
    runFrom_append _ _ _ _
  have withdrawn : (runInterleaved balances positions
      (before ++ [.begin input])).engine.Withdrawn req.orderID := by
    rw [begun] at answered ⊢
    exact Interleaved.withdrawn_of_answered (orderly before) solvent requested
      answered
  have ended : runInterleaved balances positions
      (before ++ [.begin input] ++ after) =
        (runInterleaved balances positions (before ++ [.begin input])).run
          after := runFrom_append _ _ _ _
  rw [ended]
  generalize earlierIs : runInterleaved balances positions
    (before ++ [.begin input]) = earlier at withdrawn
  have orderlyEarlier := orderly (before ++ [.begin input])
  rw [earlierIs] at orderlyEarlier
  have kept := always_runFrom
    (fun state : Interleaved => state.Orderly ∧
      state.engine.Withdrawn req.orderID ∧ state.Spares earlier req.orderID)
    (fun _ event holds => ⟨Interleaved.orderly_step event holds.1,
      Interleaved.withdrawn_step event holds.1 holds.2.1 holds.2.2⟩)
    ⟨orderlyEarlier, withdrawn, [], (List.append_nil _).symm, by simp⟩ after
  exact kept.2

def waitingOrder : List SectionEvent :=
  [.begin (.createEvent "e"), .begin ⟨.userCreated (some "u"), "", true⟩,
    .begin (.submit "o" "e" "u" "LIMIT" "YES" "BUY" 2 3)]

/-- The cancel comes between the two sections of the order. -/
theorem cancel_isFinal_unmatched :
    (runInterleaved ∅ ∅
      (waitingOrder ++ [.begin (.cancel "o")] ++
        [.finish "o"])).engine.Withdrawn "o" ∧
    (runInterleaved ∅ ∅
      (waitingOrder ++ [.begin (.cancel "o")] ++ [.finish "o"])).Spares
        (runInterleaved ∅ ∅ (waitingOrder ++ [.begin (.cancel "o")])) "o" :=
  @cancel_isFinal ∅ ∅ (fun _ => le_refl 0) waitingOrder (by decide)
    (.cancel "o") ⟨"o", ""⟩ rfl (by decide) [.finish "o"]

/-- No cost of a section wraps: not what a limit bid reserves, not what a trade
is worth. The sums that the ledger forms of such costs are left open. -/
def Interleaved.CostsFit (state : Interleaved) : SectionEvent → Prop
  | .begin input =>
      ∀ order ∈ state.engine.admitted? input,
        order.orderType = .orderTypeLimit →
          Fits (order.quantity.toInt * order.price.toInt)
  | .finish orderID =>
      ∀ order ∈ state.engine.orders.lookup orderID,
        ∀ market ∈ state.engine.markets.lookup order.eventID,
          ∀ trade ∈ (state.engine.walk order market).1.trades,
            Fits trade.exactCost

instance (state : Interleaved) (event : SectionEvent) :
    Decidable (state.CostsFit event) :=
  match event with
  | .begin input =>
      inferInstanceAs (Decidable (∀ order ∈ state.engine.admitted? input,
        order.orderType = .orderTypeLimit →
          Fits (order.quantity.toInt * order.price.toInt)))
  | .finish orderID =>
      inferInstanceAs (Decidable
        (∀ order ∈ state.engine.orders.lookup orderID,
          ∀ market ∈ state.engine.markets.lookup order.eventID,
            ∀ trade ∈ (state.engine.walk order market).1.trades,
              Fits trade.exactCost))

def twoShares : Accounts String :=
  Finmap.insert (positionKey "s" "e" .outcomeYes) ⟨2, 0⟩ ∅

/-- Two buyers without cash pay a seller `2 ^ 62` each, which wraps the seller's
balance to `-2 ^ 63`; the market bid of the seller then locks that much and
waits for its second section. -/
def overpaidSeller : List SectionEvent :=
  [.begin (.createEvent "e"),
    .begin (.submit "a1" "e" "s" "LIMIT" "YES" "SELL" 1 (2 ^ 62)),
    .finish "a1",
    .begin (.submit "a2" "e" "s" "LIMIT" "YES" "SELL" 1 (2 ^ 62)),
    .finish "a2",
    .begin (.submit "b1" "e" "u" "MARKET" "YES" "BUY" 1 0), .finish "b1",
    .begin (.submit "b2" "e" "v" "MARKET" "YES" "BUY" 1 0), .finish "b2",
    .begin (.submit "o" "e" "s" "MARKET" "YES" "BUY" 1 0)]

/-- Without a bound on the seller's balance the lock is negative, and a cancel
that answers success leaves it. -/
theorem cancel_keepsLock :
    Along Interleaved.step Interleaved.CostsFit
      (Interleaved.start (Engine.seeded ∅ twoShares))
      (overpaidSeller ++ [.begin (.cancel "o")]) ∧
    (runInterleaved ∅ twoShares
      (overpaidSeller ++ [.begin (.cancel "o")])).answered =
        (runInterleaved ∅ twoShares overpaidSeller).answered ++
          [(.cancel "o", true)] ∧
    ((runInterleaved ∅ twoShares
      (overpaidSeller ++ [.begin (.cancel "o")])).engine.orders.lookup
        "o").map (fun order => (order.status, order.lockedFunds)) =
          some (.statusCanceled, Int64.minValue) ∧
    ¬ (runInterleaved ∅ twoShares
      (overpaidSeller ++ [.begin (.cancel "o")])).engine.Withdrawn "o" := by
  refine ⟨by decide +kernel, by decide +kernel, by decide +kernel, ?_⟩
  rintro ⟨⟨order, present, _, unlocked⟩, _⟩
  have locked : ((runInterleaved ∅ twoShares
      (overpaidSeller ++ [.begin (.cancel "o")])).engine.orders.lookup
        "o").map Order.lockedFunds = some Int64.minValue := by decide +kernel
  rw [present, Option.map_some, unlocked] at locked
  exact absurd locked (by decide +kernel)

end Predix
