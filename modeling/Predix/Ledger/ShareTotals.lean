import Predix.Book.PriceTime
import Predix.Ledger.Shares

namespace Predix

open Data Word

/-! Position keys. Users and events are joined by colons, so keys are faithful
only to ids without one. -/

def ColonFree (text : String) : Prop := ':' ∉ text.toList

instance (text : String) : Decidable (ColonFree text) :=
  inferInstanceAs (Decidable (':' ∉ text.toList))

theorem positionKey_toList (userID eventID : String) (outcome : Outcome) :
    (positionKey userID eventID outcome).toList =
      (userID.toList ++ ':' :: eventID.toList) ++
        ':' :: outcome.text.toList := by
  simp [positionKey, String.toList_append]

/-- A key of colon-free ids is the key of no other ids. -/
theorem positionKey_inj {userID eventID : String} {outcome : Outcome}
    (userFree : ColonFree userID) (eventFree : ColonFree eventID)
    {otherUser otherEvent : String} {otherOutcome : Outcome}
    (same : positionKey userID eventID outcome =
      positionKey otherUser otherEvent otherOutcome) :
    userID = otherUser ∧ eventID = otherEvent ∧ outcome = otherOutcome := by
  have lists := congrArg String.toList same
  rw [positionKey_toList, positionKey_toList] at lists
  have outcomes : outcome = otherOutcome := by
    have last := congrArg List.getLast? lists
    rw [List.getLast?_append_cons, List.getLast?_append_cons] at last
    revert last
    cases outcome <;> cases otherOutcome <;> decide
  subst outcomes
  have front := List.append_cancel_right lists
  rw [List.append_cons_inj_of_notMem userFree eventFree] at front
  exact ⟨String.toList_inj.mp front.1, String.toList_inj.mp front.2.2, rfl⟩

theorem positionKey_injective (eventID : String) (outcome : Outcome) :
    Function.Injective fun userID => positionKey userID eventID outcome := by
  intro left right same
  have lists := congrArg String.toList same
  rw [positionKey_toList, positionKey_toList, List.append_assoc,
    List.append_assoc] at lists
  exact String.toList_inj.mp (List.append_cancel_right lists)

def ofOutcome (eventID : String) (outcome : Outcome) (key : String) : Bool :=
  decide ((':' :: eventID.toList ++ ':' :: outcome.text.toList) <:+ key.toList)

theorem ofOutcome_iff (eventID : String) (outcome : Outcome) (key : String) :
    ofOutcome eventID outcome key = true ↔
      key ∈ Set.range fun userID => positionKey userID eventID outcome := by
  unfold ofOutcome
  rw [decide_eq_true_eq]
  constructor
  · rintro ⟨user, split⟩
    refine ⟨String.ofList user, String.toList_inj.mp ?_⟩
    rw [positionKey_toList, String.toList_ofList, ← split, List.append_assoc]
  · rintro ⟨userID, rfl⟩
    refine ⟨userID.toList, ?_⟩
    rw [positionKey_toList, List.append_assoc]

noncomputable def totalShares (positions : Accounts String) (eventID : String)
    (outcome : Outcome) : Int :=
  ∑ᶠ userID, (positions.account (positionKey userID eventID outcome)).holdings

theorem totalShares_eq (positions : Accounts String) (eventID : String)
    (outcome : Outcome) :
    totalShares positions eventID outcome =
      positions.totalHeld (ofOutcome eventID outcome) :=
  Accounts.finsum_holdings (positionKey_injective eventID outcome)
    (ofOutcome_iff eventID outcome) positions

private theorem totalShares_fits {positions : Accounts String}
    (unreserved : positions.Unreserved)
    (fits : Fits (positions.totalHeld fun _ => true)) (eventID : String)
    (outcome : Outcome) : Fits (totalShares positions eventID outcome) := by
  have nonneg : ∀ key account, positions.lookup key = some account →
      0 ≤ account.holdings := by
    intro key account present
    obtain ⟨available, reserved⟩ := unreserved key account present
    unfold Account.holdings
    omega
  rw [totalShares_eq]
  apply Fits.of_between (by decide : Fits 0) fits
  · apply FiniteMap.total_nonneg
    intro key account present
    split
    · exact nonneg key account present
    · exact le_refl 0
  · apply FiniteMap.total_le_total
    intro key account present
    rw [if_pos rfl]
    split
    · exact le_refl _
    · exact nonneg key account present

/-- What a user's open SELL orders have not sold of one outcome. -/
def openSells (engine : Engine) (userID eventID : String)
    (outcome : Outcome) : Int :=
  FiniteMap.total
    (fun _ order =>
      if order.side = .sideSell ∧ order.userID = userID ∧
          order.eventID = eventID ∧ order.outcome = outcome ∧
          order.Unfinished then
        order.remainingQuantity.toInt
      else
        0)
    engine.orders

/-- Neither the user nor the event of an order has a colon in its id. -/
def Order.ColonFree (order : Order) : Prop :=
  Predix.ColonFree order.userID ∧ Predix.ColonFree order.eventID

instance (order : Order) : Decidable order.ColonFree :=
  inferInstanceAs (Decidable (_ ∧ _))

private theorem Order.SameTerms.colonFree {left right : Order}
    (same : left.SameTerms right) (free : right.ColonFree) :
    left.ColonFree := by
  unfold Order.ColonFree
  rw [same.userID, same.eventID]
  exact free

private theorem Order.ofOutcome_positionKey (order : Order) :
    ofOutcome order.eventID order.outcome order.positionKey = true :=
  (ofOutcome_iff _ _ _).mpr ⟨order.userID, rfl⟩

private theorem ofOutcome_positionKey_iff {userID eventID : String}
    (userFree : ColonFree userID) (eventFree : ColonFree eventID)
    (outcome : Outcome) (otherEvent : String) (otherOutcome : Outcome) :
    ofOutcome otherEvent otherOutcome (positionKey userID eventID outcome) =
        true ↔
      eventID = otherEvent ∧ outcome = otherOutcome := by
  rw [ofOutcome_iff]
  constructor
  · rintro ⟨otherUser, same⟩
    exact (positionKey_inj userFree eventFree same.symm).2
  · rintro ⟨rfl, rfl⟩
    exact ⟨userID, rfl⟩

/-! A run between users and events without colons. -/

structure ShareCommand (input : Input) : Prop where
  emitted : input.surroundings.orderCreatedEmitted = true
  free : ∀ order ∈ input.order?, order.ColonFree

instance (input : Input) : Decidable (ShareCommand input) :=
  decidable_of_iff (input.surroundings.orderCreatedEmitted = true ∧
      ∀ order ∈ input.order?, order.ColonFree)
    ⟨fun ⟨emitted, free⟩ => ⟨emitted, free⟩,
      fun ⟨emitted, free⟩ => ⟨emitted, free⟩⟩

/-- The shares of every outcome are those of the start. -/
structure SharesKept (positions : Accounts String) (history : History) :
    Prop where
  reserved : SharesReserved history
  total : ∀ eventID outcome,
    history.engine.positions.totalHeld (ofOutcome eventID outcome) =
      positions.totalHeld (ofOutcome eventID outcome)
  free : ∀ {id order}, history.engine.orders.lookup id = some order →
    order.ColonFree

theorem sharesKept_start (balances : Accounts String)
    {positions : Accounts String} (unreserved : positions.Unreserved) :
    SharesKept positions
      (History.start (Engine.seeded balances positions)) where
  reserved := sharesReserved_start balances unreserved
  total := fun _ _ => rfl
  free := by
    intro id order present
    simp [History.start, Engine.seeded] at present

section Step

variable {positions : Accounts String} {history : History} {input : Input}
  (kept : SharesKept positions history)
  (fits : ∀ eventID outcome,
    Fits (positions.totalHeld (ofOutcome eventID outcome)))
  (command : ShareCommand input)

include kept in
theorem SharesKept.holdings_le (order : Order) :
    (history.engine.positions.account order.positionKey).available.toInt +
        (history.engine.positions.account order.positionKey).reserved.toInt ≤
      positions.totalHeld (ofOutcome order.eventID order.outcome) := by
  have sound := kept.reserved.sound
  rw [← kept.total]
  exact Accounts.holdings_le_totalHeld
    (fun key => ⟨sound.available key, sound.reserved key⟩)
    order.ofOutcome_positionKey

include kept fits in
theorem SharesKept.reserve_fits {order : Order}
    (admitted : history.engine.admitted? input = some order)
    (side : order.side = .sideSell) :
    Fits ((history.engine.positions.account order.positionKey).reserved.toInt +
      order.quantity.toInt) := by
  obtain ⟨submitted, _, _, affords⟩ := admitted?_spec admitted
  have valid := Input.order?_submitted submitted
  have quantity := valid.quantity
  have held := kept.holdings_le order
  have nonneg := kept.reserved.sound.reserved order.positionKey
  change 0 ≤ (history.engine.positions.account
    order.positionKey).reserved.toInt at nonneg
  simp only [Engine.Affords, side, Int64.le_iff_toInt_le, valid.remaining]
    at affords
  exact Fits.of_between (by decide : Fits 0)
    (fits order.eventID order.outcome) (by omega) (by omega)

include kept fits in
theorem SharesKept.refund_fits {order : Order}
    (chosen : history.engine.canceled? input = some order)
    (side : order.side = .sideSell) :
    Fits ((history.engine.positions.account order.positionKey).available.toInt +
      order.lockedFunds.toInt) := by
  have sound := kept.reserved.sound
  obtain ⟨present, _⟩ := canceled?_spec kept.reserved.wellFormed chosen
  have lock := sound.locks.lock_le present side
  have lockNonneg := sound.locks _ _ present side
  have balanced := kept.reserved.balanced order.positionKey
  have held := kept.holdings_le order
  have available := sound.available order.positionKey
  unfold Leg.gap at balanced
  change _ ≤ Leg.shares.locked _ order.positionKey at lock
  change 0 ≤ (history.engine.positions.account
    order.positionKey).available.toInt at available
  change (history.engine.positions.account
    order.positionKey).reserved.toInt - _ = 0 at balanced
  exact Fits.of_between (by decide : Fits 0)
    (fits order.eventID order.outcome) (by omega) (by omega)

private theorem trade_positions {engine : Engine} {order : Order}
    {trade : Trade}
    (member : trade ∈ engine.tradesFor order) :
    trade.eventID = order.eventID ∧ trade.outcome = order.outcome := by
  obtain ⟨fill, _, rfl⟩ := List.mem_map.mp member
  exact ⟨rfl, rfl⟩

/-- What an order freezes is not where its fills bring shares: nobody trades
with themselves. -/
theorem frozenAt_payee {engine : Engine} {order : Order} {trade : Trade}
    (valid : order.Submitted) (member : trade ∈ engine.tradesFor order) :
    Leg.shares.frozenAt engine order trade.shareTransfer.payee = 0 := by
  rw [Leg.frozenAt_eq]
  apply if_neg
  rintro ⟨side, same⟩
  change order.side = .sideSell at side
  obtain ⟨fill, fillMember, rfl⟩ := List.mem_map.mp member
  obtain ⟨counterparty, _⟩ := fillsFor_counterparty valid fillMember
  apply isCounterparty_user counterparty
  apply positionKey_injective order.eventID order.outcome
  simp only [Leg.key, Trade.shareTransfer, Fill.trade, buildTrade, side]
    at same
  exact same.symm

include kept fits in
private theorem SharesKept.credit_fits {order : Order}
    (admitted : history.engine.admitted? input = some order) {trade : Trade}
    (member : trade ∈ history.engine.tradesFor order) :
    Fits ((history.engine.positions.account
        trade.shareTransfer.payee).available.toInt +
      sharesBought (history.engine.tradesFor order)
        trade.shareTransfer.payee) := by
  have wellFormed := kept.reserved.wellFormed
  have sound := kept.reserved.sound
  obtain ⟨submitted, fresh, ⟨market, hasMarket⟩, _⟩ := admitted?_spec admitted
  have valid := Input.order?_submitted submitted
  have reserves := reserves_shares admitted (kept.reserve_fits fits admitted)
  have amounts := amounts_shares history.engine order
  have total : (history.engine.frozen order).positions.totalHeld
      (ofOutcome order.eventID order.outcome) =
        positions.totalHeld (ofOutcome order.eventID order.outcome) :=
    (reserves.totalHeld_frozen _).trans (kept.total _ _)
  have inClass : ∀ transfer ∈ (history.engine.tradesFor order).map
      Leg.shares.transfer,
      ofOutcome order.eventID order.outcome transfer.payer = true ∧
        ofOutcome order.eventID order.outcome transfer.payee = true := by
    intro transfer transferMember
    obtain ⟨other, otherMember, rfl⟩ := List.mem_map.mp transferMember
    obtain ⟨event, outcome⟩ := trade_positions otherMember
    rw [← event, ← outcome]
    exact ⟨(ofOutcome_iff _ _ _).mpr ⟨_, rfl⟩,
      (ofOutcome_iff _ _ _).mpr ⟨_, rfl⟩⟩
  -- the outcome's shares are conserved by the freeze, and fit
  have bounded := Transfer.received_le_totalHeld inClass amounts.transfers
    (Leg.paid_le_frozen wellFormed valid fresh hasMarket sound reserves amounts
      (adequate_shares wellFormed kept.reserved.sells admitted)
      fun key => le_of_eq (kept.reserved.balanced key).symm)
    (fun key => by
      have le := reserves.frozenAt_le sound.available key
      have frozen := reserves.frozen_available key
      change 0 ≤ (Leg.shares.account (history.engine.frozen order)
        key).available.toInt
      omega)
    (by
      change Fits ((history.engine.frozen order).positions.totalHeld _)
      rw [total]
      exact fits _ _)
    (inClass _ (List.mem_map_of_mem member)).2
  have untouched := reserves.frozen_available trade.shareTransfer.payee
  rw [frozenAt_payee valid member, Int.sub_zero] at untouched
  have nonneg := Transfer.received_nonneg amounts.transfers
    trade.shareTransfer.payee
  have available := sound.available trade.shareTransfer.payee
  change (Leg.shares.account (history.engine.frozen order)
    trade.shareTransfer.payee).available.toInt + _ ≤
      (history.engine.frozen order).positions.totalHeld _ at bounded
  rw [untouched, total] at bounded
  change 0 ≤ _ at available
  exact Fits.of_between (by decide : Fits 0)
    (fits order.eventID order.outcome) (Int.add_nonneg available nonneg)
    bounded

include kept fits in
/-- Shares that fit together never make a position wrap. -/
theorem SharesKept.sharesFit : SharesFit history.engine input where
  reserve := fun _ admitted side => kept.reserve_fits fits admitted side
  credit := fun _ admitted _ _ member =>
    kept.credit_fits fits admitted member
  refund := fun _ chosen side => kept.refund_fits fits chosen side

include kept command in
private theorem SharesKept.sameClass {order : Order}
    (admitted : history.engine.admitted? input = some order)
    (eventID : String) (outcome : Outcome) {trade : Trade}
    (member : trade ∈ history.engine.tradesFor order) :
    ofOutcome eventID outcome trade.shareTransfer.payer =
      ofOutcome eventID outcome trade.shareTransfer.payee := by
  have free := command.free order (admitted?_spec admitted).1
  obtain ⟨fill, fillMember, rfl⟩ := List.mem_map.mp member
  have makerFree := kept.free
    (fillsFor_maker kept.reserved.wellFormed fillMember).1
  have own := ofOutcome_positionKey_iff free.1 free.2 order.outcome eventID
    outcome
  have makers := ofOutcome_positionKey_iff makerFree.1 free.2 order.outcome
    eventID outcome
  rw [Bool.eq_iff_iff]
  cases side : order.side <;>
    simp only [Trade.shareTransfer, Fill.trade, buildTrade, side, own, makers]

include kept fits command in
private theorem sharesKept_total (eventID : String) (outcome : Outcome) :
    (history.step input).engine.positions.totalHeld
        (ofOutcome eventID outcome) =
      positions.totalHeld (ofOutcome eventID outcome) := by
  have wellFormed := kept.reserved.wellFormed
  have sound := kept.reserved.sound
  have solvent : ∀ key, 0 ≤ Leg.shares.gap history.engine key :=
    fun key => le_of_eq (kept.reserved.balanced key).symm
  have sharesFit : SharesFit history.engine input := kept.sharesFit fits
  rw [← kept.total eventID outcome]
  simp only [History.step]
  have effect := step_effect history.engine input
  generalize history.engine.step input = reply at effect ⊢
  cases effect with
  | unchanged response _ _ => rfl
  | opened order message _ _ _ _ =>
      exact Leg.totalHeld_opened .shares history.engine order _
  | dropped order market _ _ _ _ lost =>
      rw [command.emitted] at lost
      contradiction
  | accepted order market submitted fresh hasMarket affords announced =>
      have valid := Input.order?_submitted submitted
      have admitted := admitted?_eq submitted fresh hasMarket affords
      rw [announceAndMatch_enrolled wellFormed valid fresh hasMarket]
      exact Leg.totalHeld_matched wellFormed valid fresh hasMarket sound
        (reserves_shares admitted (kept.reserve_fits fits admitted))
        (settles_shares sharesFit admitted announced)
        (adequate_shares wellFormed kept.reserved.sells admitted) solvent _
        fun _ member => kept.sameClass command admitted eventID outcome member
  | canceled req order market _ present live hasMarket chosen =>
      have ownID := wellFormed.keyed _ _ present
      rw [← ownID] at present
      exact Leg.totalHeld_cancel present sound
        (kept.refund_fits fits chosen) solvent _
  | marketCreated eventID _ _ => rfl
  | userFunded userID _ _ => rfl

include kept fits command in
theorem sharesKept_step : SharesKept positions (history.step input) where
  reserved := sharesReserved_step kept.reserved (kept.sharesFit fits)
    command.emitted
  total := sharesKept_total kept fits command
  free := by
    intro id found present
    rcases step_terms kept.reserved.wellFormed input present with
      ⟨old, oldPresent, same⟩ | ⟨order, admitted, _, same⟩
    · exact same.colonFree (kept.free oldPresent)
    · exact same.colonFree (command.free order (admitted?_spec admitted).1)

include kept in
private theorem SharesKept.reserved_eq (userID eventID : String)
    (outcome : Outcome) :
    (history.engine.positions.account
        (positionKey userID eventID outcome)).reserved.toInt =
      openSells history.engine userID eventID outcome := by
  have balanced := kept.reserved.balanced (positionKey userID eventID outcome)
  have locked : Leg.shares.locked history.engine
      (positionKey userID eventID outcome) =
        openSells history.engine userID eventID outcome := by
    apply FiniteMap.total_congr
    intro id order present
    have owned : order.positionKey = positionKey userID eventID outcome ↔
        order.userID = userID ∧ order.eventID = eventID ∧
          order.outcome = outcome :=
      ⟨positionKey_inj (kept.free present).1 (kept.free present).2,
        fun ⟨user, event, same⟩ => by
          rw [Order.positionKey, user, event, same]⟩
    have held := kept.reserved.sells id order present
    unfold Leg.weight
    by_cases side : order.side = .sideSell
    · rw [held side, Order.heldShares, ← ite_and]
      apply if_congr _ rfl rfl
      simp only [Leg.side, Leg.key, owned, Status.live_iff, Order.Unfinished,
        and_assoc]
    · rw [if_neg fun both => side both.1, if_neg fun all => side all.1]
  unfold Leg.gap at balanced
  rw [locked] at balanced
  change (history.engine.positions.account _).reserved.toInt - _ = 0
    at balanced
  omega

end Step

/-! Without shares at the start there is never anything to sell. -/

structure NothingToSell (history : History) : Prop where
  wellFormed : WellFormed history.engine
  positions : ∀ key, history.engine.positions.account key = Account.empty
  buys : ∀ {id order}, history.engine.orders.lookup id = some order →
    order.side = .sideBuy
  untraded : history.trades = []

theorem nothingToSell_start (balances : Accounts String) :
    NothingToSell (History.start (Engine.seeded balances ∅)) where
  wellFormed := wellFormed_seeded balances ∅
  positions := fun _ => rfl
  buys := by
    intro id order present
    simp [History.start, Engine.seeded] at present
  untraded := rfl

section NothingToSell

variable {history : History} {input : Input} {order : Order} {market : Market}
  (nothing : NothingToSell history)

include nothing

theorem NothingToSell.admitted_buy
    (admitted : history.engine.admitted? input = some order) :
    order.side = .sideBuy := by
  obtain ⟨submitted, _, _, affords⟩ := admitted?_spec admitted
  have valid := Input.order?_submitted submitted
  have quantity := valid.quantity
  cases side : order.side with
  | sideBuy => rfl
  | sideSell =>
      simp only [Engine.Affords, side, nothing.positions, valid.remaining,
        Int64.le_iff_toInt_le] at affords
      change order.quantity.toInt ≤ 0 at affords
      omega

theorem NothingToSell.tradesFor (side : order.side = .sideBuy) :
    history.engine.tradesFor order = [] := by
  apply List.map_eq_nil_iff.mpr
  apply List.eq_nil_iff_forall_not_mem.mpr
  intro fill member
  obtain ⟨present, _, _, _, makerSide⟩ :=
    fillsFor_maker nothing.wellFormed member
  rw [nothing.buys present, side] at makerSide
  contradiction

private theorem NothingToSell.positions_matched (valid : order.Submitted)
    (fresh : history.engine.orders.lookup order.id = none)
    (hasMarket : history.engine.markets.lookup order.eventID = some market)
    (side : order.side = .sideBuy) :
    (history.engine.matched order market).positions =
      history.engine.positions := by
  have notSell : ¬ order.side = Leg.shares.side := by
    rw [side]
    decide
  have settled : Leg.shares.accounts (history.engine.settled order market) =
      history.engine.positions := by
    unfold Engine.settled
    rw [Leg.shares.accounts_settleAll, nothing.tradesFor side, List.map_nil,
      Leg.accounts_walked, Leg.accounts_frozen, if_neg notSell]
    rfl
  have remnantSide := (remnant_terms history.engine order).side
  rw [matched_eq nothing.wellFormed valid fresh hasMarket]
  split
  · exact settled
  · have released := Leg.shares.accounts_releaseOrderLocked
      (history.engine.settled order market) (history.engine.remnant order)
    rw [remnantSide, if_neg fun both => notSell both.1] at released
    exact released.trans settled

omit nothing in
private theorem positions_cancel (engine : Engine)
    (side : order.side = .sideBuy) :
    (engine.cancel market order).positions = engine.positions := by
  have canceled := Leg.shares.accounts_cancel engine market order
  rw [side, if_neg fun both => absurd both.1 (by decide)] at canceled
  exact canceled

theorem NothingToSell.positions_step (key : String) :
    (history.step input).engine.positions.account key = Account.empty := by
  rw [← nothing.positions key]
  simp only [History.step]
  have effect := step_effect history.engine input
  generalize history.engine.step input = reply at effect ⊢
  cases effect with
  | unchanged response _ _ => rfl
  | opened order message _ _ _ _ =>
      exact Leg.account_opened .shares history.engine order key
  | dropped order market submitted fresh hasMarket affords _ =>
      have side := nothing.admitted_buy
        (admitted?_eq submitted fresh hasMarket affords)
      have frozen := Leg.shares.accounts_frozen history.engine order
      rw [if_neg (by rw [side]; decide)] at frozen
      exact congrArg (Accounts.account · key) frozen
  | accepted order market submitted fresh hasMarket affords _ =>
      have valid := Input.order?_submitted submitted
      have side := nothing.admitted_buy
        (admitted?_eq submitted fresh hasMarket affords)
      rw [announceAndMatch_enrolled nothing.wellFormed valid fresh hasMarket]
      exact congrArg (Accounts.account · key)
        (nothing.positions_matched valid fresh hasMarket side)
  | canceled req order market _ present live hasMarket _ =>
      exact congrArg (Accounts.account · key)
        (positions_cancel history.engine (nothing.buys present))
  | marketCreated eventID _ _ => rfl
  | userFunded userID _ _ => rfl

theorem NothingToSell.untraded_step : (history.step input).trades = [] := by
  simp only [History.step, nothing.untraded, List.nil_append]
  have effect := step_effect history.engine input
  generalize history.engine.step input = reply at effect ⊢
  cases effect with
  | accepted order market submitted fresh hasMarket affords _ =>
      have valid := Input.order?_submitted submitted
      have side := nothing.admitted_buy
        (admitted?_eq submitted fresh hasMarket affords)
      rw [announceAndMatch_enrolled nothing.wellFormed valid fresh hasMarket]
      exact nothing.tradesFor side
  | _ => rfl

theorem nothingToSell_step : NothingToSell (history.step input) where
  wellFormed := wellFormed_step nothing.wellFormed input
  positions := nothing.positions_step
  buys := by
    intro id found present
    rcases step_terms nothing.wellFormed input present with
      ⟨old, oldPresent, same⟩ | ⟨order, admitted, _, same⟩
    · exact same.side.trans (nothing.buys oldPresent)
    · exact same.side.trans (nothing.admitted_buy admitted)
  untraded := nothing.untraded_step

end NothingToSell

/-! Shares over whole runs. -/

/-- The shares of a state reached from seeded positions: none created or lost,
exactly those of open SELL orders reserved. -/
structure ShareLedger (positions : Accounts String) (history : History) :
    Prop where
  total : ∀ eventID outcome,
    totalShares history.engine.positions eventID outcome =
      totalShares positions eventID outcome
  reserved : ∀ userID eventID outcome,
    (history.engine.positions.account
        (positionKey userID eventID outcome)).reserved.toInt =
      openSells history.engine userID eventID outcome
  nonneg : ∀ key, 0 ≤ (history.engine.positions.account key).available ∧
    0 ≤ (history.engine.positions.account key).reserved

/-- In a state reached without seeded positions nothing was ever sold and no
command can sell. -/
structure NoSales (history : History) : Prop where
  untraded : history.trades = []
  registered : ∀ id order, history.engine.orders.lookup id = some order →
    order.side = .sideBuy
  admitted : ∀ input, ∀ order ∈ history.engine.admitted? input,
    order.side = .sideBuy

/-- Shares are conserved and reserved exactly in every run between colon-free
ids whose seeded shares fit. A run without seeded shares sells nothing. -/
theorem runSeeded_shareLedger (balances : Accounts String) :
    (∀ positions : Accounts String, positions.Unreserved →
      (∀ eventID outcome, Fits (totalShares positions eventID outcome)) →
      ∀ inputs, MeetsAlong (fun _ input => ShareCommand input) balances
          positions inputs →
        ShareLedger positions (runSeeded balances positions inputs)) ∧
    ∀ inputs, NoSales (runSeeded balances ∅ inputs) := by
  constructor
  · intro positions unreserved fits inputs commands
    simp only [totalShares_eq] at fits
    have kept : SharesKept positions (runSeeded balances positions inputs) :=
      runSeeded_invariant (SharesKept positions)
        (fun _ _ kept command => sharesKept_step kept fits command)
        (sharesKept_start balances unreserved) commands
    have sound := kept.reserved.sound
    constructor
    case total =>
      intro eventID outcome
      rw [totalShares_eq, totalShares_eq]
      exact kept.total eventID outcome
    case reserved => exact kept.reserved_eq
    case nonneg =>
      intro key
      rw [Int64.le_iff_toInt_le, Int64.le_iff_toInt_le]
      exact ⟨sound.available key, sound.reserved key⟩
  · intro inputs
    have nothing : NothingToSell (runSeeded balances ∅ inputs) :=
      runSeeded_always NothingToSell
        (fun _ _ nothing => nothingToSell_step nothing)
        (nothingToSell_start balances) inputs
    exact ⟨nothing.untraded, fun _ _ present => nothing.buys present,
      fun _ _ admitted => nothing.admitted_buy admitted⟩

/-- A market BUY takes part of a seller's offer, who then withdraws the rest;
with empty hands a SELL changes nothing. -/
theorem shareLedger_partlySold :
    ShareLedger (Finmap.insert "s:e:YES" ⟨10, 0⟩ ∅)
        (runSeeded (Finmap.insert "b" ⟨1000000, 0⟩ ∅)
          (Finmap.insert "s:e:YES" ⟨10, 0⟩ ∅)
          [.createEvent "e", .submit "o1" "e" "s" "LIMIT" "YES" "SELL" 8 5000,
            .submit "o2" "e" "b" "MARKET" "YES" "BUY" 3 0, .cancel "o1"]) ∧
      NoSales (runSeeded (Finmap.insert "b" ⟨1000000, 0⟩ ∅) ∅
        [.createEvent "e",
          .submit "o1" "e" "s" "LIMIT" "YES" "SELL" 8 5000]) := by
  have unreserved : Accounts.Unreserved
      (Finmap.insert "s:e:YES" ⟨10, 0⟩ ∅) :=
    Accounts.unreserved_empty.insert "s:e:YES" (by decide)
  obtain ⟨ledger, noSales⟩ :=
    runSeeded_shareLedger (Finmap.insert "b" ⟨1000000, 0⟩ ∅)
  exact ⟨ledger _ unreserved (totalShares_fits unreserved (by decide)) _
    (by decide), noSales _⟩

end Predix
