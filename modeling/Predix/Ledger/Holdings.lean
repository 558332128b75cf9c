import Predix.Data.Posting
import Predix.Ledger.Reservation
import Predix.Replay.Growth

namespace Predix

open Data Word

/-! What an account holds on its two sides together. Reservations and releases
move it from one side to the other; only trades change it. -/

namespace Leg

variable {leg : Leg} {engine : Engine} {order : Order} {market : Market}

def holdings (leg : Leg) (engine : Engine) (key : String) : Int :=
  (leg.account engine key).holdings

def net (leg : Leg) (trades : List Trade) (key : String) : Int :=
  Transfer.net key (trades.map leg.transfer)

@[simp] theorem net_nil (key : String) : leg.net [] key = 0 := rfl

theorem net_cons (trade : Trade) (trades : List Trade) (key : String) :
    leg.net (trade :: trades) key =
      (if (leg.transfer trade).payee = key then
          (leg.transfer trade).amount.toInt else 0) -
        (if (leg.transfer trade).payer = key then
          (leg.transfer trade).amount.toInt else 0) +
        leg.net trades key :=
  Transfer.net_cons key (leg.transfer trade) (trades.map leg.transfer)

theorem net_append (first second : List Trade) (key : String) :
    leg.net (first ++ second) key = leg.net first key + leg.net second key := by
  unfold net
  rw [List.map_append, Transfer.net_append]

private theorem net_of_absent {trades : List Trade} {key : String}
    (absent : ∀ trade ∈ trades, (leg.transfer trade).payer ≠ key ∧
      (leg.transfer trade).payee ≠ key) : leg.net trades key = 0 := by
  induction trades with
  | nil => rfl
  | cons trade trades induction =>
      obtain ⟨notPayer, notPayee⟩ := absent trade (by simp)
      rw [net_cons, if_neg notPayer, if_neg notPayee,
        induction fun other member => absent other (by simp [member])]
      rfl

theorem holdings_release
    (lockNonneg : order.side = leg.side → 0 ≤ order.lockedFunds.toInt)
    (reservedNonneg : ∀ key, 0 ≤ (leg.account engine key).reserved.toInt)
    (key : String)
    (fits : Fits ((leg.account engine key).available.toInt +
      leg.weight key order))
    (covered : leg.weight key order ≤
      (leg.account engine key).reserved.toInt) :
    leg.holdings (releaseOrderLocked engine order) key =
      leg.holdings engine key := by
  unfold holdings Account.holdings
  rw [release_available lockNonneg key fits,
    release_reserved lockNonneg reservedNonneg]
  omega

theorem holdings_opened (key : String) :
    leg.holdings (engine.opened order) key = leg.holdings engine key := by
  unfold holdings
  rw [account_opened]

section Matched

variable (wellFormed : WellFormed engine) (submitted : order.Submitted)
  (fresh : engine.orders.lookup order.id = none)
  (hasMarket : engine.markets.lookup order.eventID = some market)
  (sound : leg.Sound engine) (reserves : leg.Reserves engine order)
  (settles : leg.Settles engine order)
  (adequate : leg.Adequate (engine.walked order market)
    (engine.tradesFor order))
  (solvent : ∀ key, 0 ≤ leg.gap engine key)

include wellFormed submitted fresh hasMarket sound reserves settles adequate
  solvent

private theorem holdings_matched (key : String) :
    leg.holdings (engine.matched order market) key =
      leg.holdings engine key + leg.net (engine.tradesFor order) key := by
  have settled : leg.holdings (engine.settled order market) key =
      leg.holdings engine key + leg.net (engine.tradesFor order) key := by
    have available := settled_available market sound reserves settles key
    have reserved := (settled_exact wellFormed submitted fresh hasMarket sound
      reserves settles adequate solvent key).1
    unfold holdings Account.holdings net Transfer.net
    omega
  rw [matched_eq wellFormed submitted fresh hasMarket, ← settled]
  split
  · rfl
  · exact holdings_release
      (remnant_nonneg wellFormed submitted fresh hasMarket sound reserves
        settles)
      (sound.settled wellFormed submitted fresh hasMarket reserves
        settles).reserved key
      (settled_room sound reserves settles key)
      (remnant_covered wellFormed submitted fresh hasMarket sound reserves
        settles adequate solvent key)

/-- An account pays for its trades out of what it held before them. -/
theorem paid_le_holdings (key : String) :
    Transfer.paid key ((engine.tradesFor order).map leg.transfer) ≤
      leg.holdings engine key := by
  have paid := paid_le_frozen wellFormed submitted fresh hasMarket sound
    reserves settles.amounts adequate solvent key
  have frozen := reserves.frozenAt_le sound.available key
  rw [reserves.frozen_reserved] at paid
  unfold holdings Account.holdings
  omega

end Matched

theorem holdings_cancel (present : engine.orders.lookup order.id = some order)
    (sound : leg.Sound engine) (solvent : ∀ key, 0 ≤ leg.gap engine key)
    (refund : order.side = leg.side →
      Fits ((leg.account engine (leg.key order)).available.toInt +
        order.lockedFunds.toInt)) (key : String) :
    leg.holdings (engine.cancel market order) key =
      leg.holdings engine key := by
  have closed : leg.Sound (engine.closed market order) := sound.closed present
  have same : leg.account (engine.closed market order) key =
      leg.account engine key := by
    rw [account, accounts_closed]
    rfl
  have weight := weight_le_locked present sound key
  have before := solvent key
  unfold gap at before
  rw [cancel_eq, holdings_release (canceled_nonneg present sound)
    closed.reserved key (refund_fits refund key)]
  · unfold holdings
    rw [same]
  · rw [weight_canceled, same]
    omega

/-- The ledger side of a command is in order: what its order reserves, what its
fills move and what a cancel gives back neither wraps nor overdraws. -/
structure Handles (leg : Leg) (engine : Engine) (input : Input) : Prop where
  reserves : ∀ order ∈ engine.admitted? input, leg.Reserves engine order
  settles : ∀ order ∈ engine.admitted? input, leg.Settles engine order
  adequate : ∀ order ∈ engine.admitted? input, ∀ market,
    leg.Adequate (engine.walked order market) (engine.tradesFor order)
  refund : ∀ order ∈ engine.canceled? input, order.side = leg.side →
    Fits ((leg.account engine (leg.key order)).available.toInt +
      order.lockedFunds.toInt)

section Step

variable {input : Input} (wellFormed : WellFormed engine)
  (sound : leg.Sound engine) (solvent : ∀ key, 0 ≤ leg.gap engine key)
  (handles : leg.Handles engine input)

include wellFormed sound solvent handles

/-- A command changes what an account holds by its trades, unless it grants a
new user the starting balance. -/
theorem holdings_step (emitted : input.surroundings.orderCreatedEmitted = true)
    {key : String}
    (entered : leg = .cash → engine.balances.lookup key ≠ none) :
    leg.holdings (engine.step input).engine key =
      leg.holdings engine key + leg.net (engine.step input).trades key := by
  have effect := step_effect engine input
  generalize engine.step input = reply at effect ⊢
  cases effect with
  | unchanged response _ _ => exact (Int.add_zero _).symm
  | opened order message _ _ _ _ =>
      exact (holdings_opened key).trans (Int.add_zero _).symm
  | dropped order market _ _ _ _ lost =>
      rw [emitted] at lost
      contradiction
  | accepted order market submitted fresh hasMarket affords _ =>
      have valid := Input.order?_submitted submitted
      have admitted := admitted?_eq submitted fresh hasMarket affords
      rw [announceAndMatch_enrolled wellFormed valid fresh hasMarket]
      exact holdings_matched wellFormed valid fresh hasMarket sound
        (handles.reserves order admitted) (handles.settles order admitted)
        (handles.adequate order admitted market) solvent key
  | canceled req order market _ present _ _ chosen =>
      have ownID := wellFormed.keyed _ _ present
      rw [← ownID] at present
      exact (holdings_cancel present sound solvent
        (handles.refund order chosen) key).trans (Int.add_zero _).symm
  | marketCreated eventID _ _ => cases leg <;> exact (Int.add_zero _).symm
  | userFunded userID _ absent =>
      rw [Reply.unchanged, net_nil, Int.add_zero]
      cases leg with
      | shares => rfl
      | cash =>
          have other : key ≠ userID := by
            rintro rfl
            exact entered rfl absent
          unfold holdings
          rw [account_funded, if_neg other]

theorem paid_step (key : String) :
    Transfer.paid key ((engine.step input).trades.map leg.transfer) ≤
      leg.holdings engine key := by
  have held : 0 ≤ leg.holdings engine key :=
    Int.add_nonneg (sound.available key) (sound.reserved key)
  have effect := step_effect engine input
  generalize engine.step input = reply at effect ⊢
  cases effect with
  | accepted order market submitted fresh hasMarket affords _ =>
      have valid := Input.order?_submitted submitted
      have admitted := admitted?_eq submitted fresh hasMarket affords
      rw [announceAndMatch_enrolled wellFormed valid fresh hasMarket]
      exact paid_le_holdings wellFormed valid fresh hasMarket sound
        (handles.reserves order admitted) (handles.settles order admitted)
        (handles.adequate order admitted market) solvent key
  | unchanged | opened | dropped | canceled | marketCreated | userFunded =>
      exact held

end Step

end Leg

theorem LimitTrading.handles {history : History} {input : Input}
    (trading : LimitTrading history) (command : LimitCommand history input) :
    Leg.cash.Handles history.engine input where
  reserves := by
    intro order admitted
    obtain ⟨submitted, _, _, affords⟩ := admitted?_spec admitted
    exact command.fits.reserves trading.inRange.cash admitted submitted affords
  settles := by
    intro order admitted
    exact settles_cash trading.inRange.wellFormed
      (Input.order?_submitted (admitted?_spec admitted).1)
      trading.inRange.cash.sound
      (command.fits.proceeds order admitted command.emitted)
  adequate := by
    intro order admitted market
    obtain ⟨submitted, fresh, _, _⟩ := admitted?_spec admitted
    exact adequate_of_means trading.solvent command.fits command.withinMeans
      submitted fresh admitted command.emitted
  refund := command.fits.refund

theorem SharesReserved.handles {history : History} {input : Input}
    (reserved : SharesReserved history) (fits : SharesFit history.engine input)
    (emitted : input.surroundings.orderCreatedEmitted = true) :
    Leg.shares.Handles history.engine input where
  reserves := fun order admitted =>
    reserves_shares admitted (fits.reserve order admitted)
  settles := fun _ admitted => settles_shares fits admitted emitted
  adequate := fun _ admitted _ =>
    adequate_shares reserved.wellFormed reserved.sells admitted
  refund := fits.refund

/-! Users whom the engine does not know yet. -/

/-- What a user is worth in cash. One without an entry will be granted the
starting balance. -/
def Engine.worth (engine : Engine) (userID : String) : Int :=
  (engine.balances.lookup userID).elim defaultStartingBalance.toInt
    Account.holdings

theorem worth_of_entered {engine : Engine} {userID : String}
    (entered : engine.balances.lookup userID ≠ none) :
    engine.worth userID = Leg.cash.holdings engine userID := by
  obtain ⟨account, found⟩ := Option.ne_none_iff_exists'.mp entered
  simp only [Engine.worth, Leg.holdings, Leg.account, Leg.accounts,
    Accounts.account, found, Option.elim_some, Option.getD_some]

theorem holdings_le_worth (engine : Engine) (userID : String) :
    Leg.cash.holdings engine userID ≤ engine.worth userID := by
  by_cases entered : engine.balances.lookup userID ≠ none
  · rw [worth_of_entered entered]
  · rw [not_not] at entered
    simp only [Engine.worth, Leg.holdings, Leg.account, Leg.accounts,
      Accounts.account, entered, Option.elim_none, Option.getD_none]
    decide

def OwnersEntered (engine : Engine) : Prop :=
  ∀ {id order}, engine.orders.lookup id = some order →
    engine.balances.lookup order.userID ≠ none

section Entered

variable {engine : Engine} {order : Order} {market : Market}
  (wellFormed : WellFormed engine) (submitted : order.Submitted)
  (fresh : engine.orders.lookup order.id = none)
  (hasMarket : engine.markets.lookup order.eventID = some market)
  (owners : OwnersEntered engine)
  (entered : engine.balances.lookup order.userID ≠ none)

include wellFormed owners entered

theorem traders_entered {trade : Trade}
    (member : trade ∈ engine.tradesFor order) :
    engine.balances.lookup trade.buyerID ≠ none ∧
      engine.balances.lookup trade.sellerID ≠ none := by
  obtain ⟨fill, fillMember, rfl⟩ := List.mem_map.mp member
  have maker := owners (fillsFor_maker wellFormed fillMember).1
  simp only [Fill.trade, buildTrade]
  cases order.side with
  | sideBuy => exact ⟨entered, maker⟩
  | sideSell => exact ⟨maker, entered⟩

include submitted fresh hasMarket

private theorem entries_matched :
    (engine.matched order market).balances.KeptIn engine.balances := by
  have frozen : (engine.frozen order).balances.KeptIn engine.balances := by
    change (Leg.cash.accounts (engine.frozen order)).KeptIn _
    rw [Leg.cash.accounts_frozen]
    split
    · exact Accounts.keptIn_of_update entered _
    · exact .refl _
  have grown : engine.balances.KeptIn (engine.frozen order).balances :=
    Leg.cash.keptIn_frozen engine order
  have settled : (engine.settled order market).balances.KeptIn
      engine.balances := by
    refine .trans ?_ frozen
    change (Leg.cash.accounts (engine.settled order market)).KeptIn _
    unfold Engine.settled
    rw [Leg.cash.accounts_settleAll, Leg.accounts_walked]
    apply Transfer.keptIn_of_applyAll
    intro transfer member
    obtain ⟨trade, isTrade, rfl⟩ := List.mem_map.mp member
    obtain ⟨buyer, seller⟩ :=
      traders_entered wellFormed owners entered isTrade
    exact ⟨grown.entered buyer, grown.entered seller⟩
  rw [matched_eq wellFormed submitted fresh hasMarket]
  split
  · exact settled
  · change (Leg.cash.accounts (releaseOrderLocked _ _)).KeptIn _
    rw [Leg.cash.accounts_releaseOrderLocked]
    split
    · have owner : Leg.cash.key (engine.remnant order) = order.userID :=
        (remnant_terms engine order).userID
      rw [owner]
      refine .trans (Accounts.keptIn_of_update ?_ _) settled
      exact (Leg.cash.keptIn_settled engine order market).entered entered
    · exact settled

end Entered

section Step

variable {history : History} {input : Input}
  (trading : LimitTrading history) (command : LimitCommand history input)
  (owners : OwnersEntered history.engine)
  (entered : ∀ order ∈ input.order?,
    history.engine.balances.lookup order.userID ≠ none)

include trading command owners entered

omit command in
theorem ownersEntered_step :
    OwnersEntered (history.engine.step input).engine := by
  have wellFormed := trading.inRange.wellFormed
  have grows := grows_step wellFormed input
  intro id found present
  apply grows.balances.entered
  rcases step_terms wellFormed input present with
    ⟨old, oldPresent, same⟩ | ⟨order, admitted, _, same⟩
  · rw [same.userID]
    exact owners oldPresent
  · rw [same.userID]
    exact entered order (admitted?_spec admitted).1

theorem worth_step (userID : String) :
    (history.engine.step input).engine.worth userID =
      history.engine.worth userID +
        Leg.cash.net (history.engine.step input).trades userID := by
  have wellFormed := trading.inRange.wellFormed
  by_cases known : history.engine.balances.lookup userID ≠ none
  · have still := (grows_step wellFormed input).balances.entered known
    rw [worth_of_entered known, worth_of_entered still]
    exact Leg.holdings_step wellFormed trading.inRange.cash.sound
      trading.solvent.solvent (trading.handles command) command.emitted
      fun _ => known
  · rw [not_not] at known
    -- whoever trades has an entry, so this user is not among them
    have nobody : ∀ {engine : Engine}, engine.balances.lookup userID = none →
        engine.worth userID = history.engine.worth userID := by
      intro engine absent
      simp only [Engine.worth, absent, known]
    have effect := step_effect history.engine input
    generalize history.engine.step input = reply at effect ⊢
    cases effect with
    | unchanged response _ _ => exact (Int.add_zero _).symm
    | opened order message submitted _ _ _ =>
        have owner := entered order submitted
        refine Eq.trans (nobody ?_) (Int.add_zero _).symm
        cases side : order.side with
        | sideSell => simp only [Reply.unchanged, Engine.opened, side]; exact known
        | sideBuy =>
            simp only [Reply.unchanged, Engine.opened, side]
            exact Accounts.keptIn_of_update owner _ _ known
    | dropped order market _ _ _ _ lost =>
        rw [command.emitted] at lost
        contradiction
    | accepted order market submitted fresh hasMarket affords _ =>
        have valid := Input.order?_submitted submitted
        have owner := entered order submitted
        rw [announceAndMatch_enrolled wellFormed valid fresh hasMarket]
        have apart : Leg.cash.net (history.engine.tradesFor order) userID =
            0 := by
          apply Leg.net_of_absent
          intro trade member
          obtain ⟨buyer, seller⟩ :=
            traders_entered wellFormed owners owner member
          constructor
          · rintro rfl
            exact buyer known
          · rintro rfl
            exact seller known
        rw [apart, Int.add_zero]
        exact nobody (entries_matched wellFormed valid fresh hasMarket owners
          owner _ known)
    | canceled req order market _ present _ _ _ =>
        have owner := owners present
        refine Eq.trans (nobody ?_) (Int.add_zero _).symm
        change (Leg.cash.accounts (releaseOrderLocked _ _)).lookup userID = none
        rw [Leg.cash.accounts_releaseOrderLocked]
        split
        · exact Accounts.keptIn_of_update owner _ _ known
        · exact known
    | marketCreated eventID _ _ => exact (Int.add_zero _).symm
    | userFunded funded _ absent =>
        refine Eq.trans ?_ (Int.add_zero _).symm
        simp only [Reply.unchanged, Engine.worth, FiniteMap.lookup_insert_eq]
        split
        · rename_i same
          rw [known]
          rfl
        · rfl

end Step

end Predix
