import Predix.Ledger.Clamps
import Predix.Ledger.Overflow

namespace Predix

open Data Word

/-! Shares: reservations are exact as long as no position wraps. -/

def sharesBought (trades : List Trade) (key : String) : Int :=
  Transfer.received key (trades.map Leg.shares.transfer)

/-- No position of a command leaves the range of int64. -/
structure SharesFit (engine : Engine) (input : Input) : Prop where
  reserve : ∀ order ∈ engine.admitted? input, order.side = .sideSell →
    Fits ((engine.positions.account order.positionKey).reserved.toInt +
      order.quantity.toInt)
  credit : ∀ order ∈ engine.admitted? input,
    input.surroundings.orderCreatedEmitted = true →
      ∀ trade ∈ engine.tradesFor order,
        Fits ((engine.positions.account
            trade.shareTransfer.payee).available.toInt +
          sharesBought (engine.tradesFor order) trade.shareTransfer.payee)
  refund : ∀ order ∈ engine.canceled? input, order.side = .sideSell →
    Fits ((engine.positions.account order.positionKey).available.toInt +
      order.lockedFunds.toInt)

instance (engine : Engine) (input : Input) :
    Decidable (SharesFit engine input) :=
  decidable_of_iff
    ((∀ order ∈ engine.admitted? input, order.side = .sideSell →
        Fits ((engine.positions.account order.positionKey).reserved.toInt +
          order.quantity.toInt)) ∧
      (∀ order ∈ engine.admitted? input,
        input.surroundings.orderCreatedEmitted = true →
          ∀ trade ∈ engine.tradesFor order,
            Fits ((engine.positions.account
                trade.shareTransfer.payee).available.toInt +
              sharesBought (engine.tradesFor order)
                trade.shareTransfer.payee)) ∧
      (∀ order ∈ engine.canceled? input, order.side = .sideSell →
        Fits ((engine.positions.account order.positionKey).available.toInt +
          order.lockedFunds.toInt)))
    ⟨fun ⟨reserve, credit, refund⟩ => ⟨reserve, credit, refund⟩,
      fun ⟨reserve, credit, refund⟩ => ⟨reserve, credit, refund⟩⟩

section Accepted

variable {engine : Engine} {input : Input} {order : Order} {market : Market}
  (wellFormed : WellFormed engine) (sells : SellLocks engine)
  (fits : SharesFit engine input)
  (admitted : engine.admitted? input = some order)

include admitted in
theorem reserves_shares (reserve : order.side = .sideSell →
    Fits ((engine.positions.account order.positionKey).reserved.toInt +
      order.quantity.toInt)) :
    Leg.shares.Reserves engine order := by
  obtain ⟨submitted, _, _, affords⟩ := admitted?_spec admitted
  have valid := Input.order?_submitted submitted
  constructor
  case nonneg =>
    intro side
    rw [lockFor_sell valid side]
    exact le_of_lt valid.quantity
  case covered =>
    intro side
    change order.side = .sideSell at side
    simp only [Engine.Affords, side, Int64.le_iff_toInt_le] at affords
    simp only [Engine.lockFor, side]
    exact affords
  case fits =>
    intro side
    rw [lockFor_sell valid side]
    exact reserve side

include fits admitted in
theorem settles_shares
    (emitted : input.surroundings.orderCreatedEmitted = true) :
    Leg.shares.Settles engine order where
  amounts := amounts_shares engine order
  fits := by
    intro key
    by_cases buys : ∃ trade ∈ engine.tradesFor order,
        trade.shareTransfer.payee = key
    · obtain ⟨trade, member, rfl⟩ := buys
      exact fits.credit order admitted emitted trade member
    · have nothing : Transfer.received key
          ((engine.tradesFor order).map Leg.shares.transfer) = 0 := by
        apply Transfer.received_of_absent
        intro transfer member same
        obtain ⟨trade, tradeMember, rfl⟩ := List.mem_map.mp member
        exact buys ⟨trade, tradeMember, same⟩
      rw [nothing, add_zero]
      exact fits_toInt _

include wellFormed sells admitted in
theorem adequate_shares :
    Leg.shares.Adequate (engine.walked order market)
      (engine.tradesFor order) := by
  obtain ⟨submitted, fresh, _, _⟩ := admitted?_spec admitted
  have valid := Input.order?_submitted submitted
  intro id found present side
  cases afterWalk wellFormed fresh present with
  | taker =>
      rw [(taker_terms engine order).side] at side
      rw [drawn_shares_taker, taker_lockedFunds, lockFor_sell valid side]
      exact fillsFor_sum_le _ valid
  | maker fill member =>
      obtain ⟨makerPresent, makerLive, _⟩ := fillsFor_maker wellFormed member
      rw [fill.filled_terms.side] at side
      have held := sells _ _ makerPresent side
      rw [Order.heldShares, if_pos makerLive] at held
      rw [drawn_shares_maker wellFormed fresh member, fill.filled_lockedFunds,
        held]
      exact (fillsFor_counterparty valid member).2.2
  | other notTaker notMaker present =>
      have nothing : Leg.shares.drawn id (engine.tradesFor order) = 0 :=
        namedSum_other _ _ notTaker notMaker
      rw [nothing]
      exact sells.locksNonneg wellFormed id found present side

end Accepted

/-- As long as no position wraps, none is negative, also when an announcement
fails and the shares of a dropped order stay frozen. -/
theorem sharesSound_step {engine : Engine} {input : Input}
    (wellFormed : WellFormed engine) (sound : Leg.shares.Sound engine)
    (fits : SharesFit engine input) :
    Leg.shares.Sound (engine.step input).engine := by
  have effect := step_effect engine input
  generalize engine.step input = reply at effect ⊢
  cases effect with
  | unchanged response _ _ => exact sound
  | opened order message _ _ _ _ =>
      exact sound.of_same (opened_orders _ order)
        (Leg.account_opened .shares engine order)
  | dropped order market submitted fresh hasMarket affords _ =>
      have admitted := admitted?_eq submitted fresh hasMarket affords
      exact sound.frozen
        (reserves_shares admitted (fits.reserve order admitted))
  | accepted order market submitted fresh hasMarket affords announced =>
      have valid := Input.order?_submitted submitted
      have admitted := admitted?_eq submitted fresh hasMarket affords
      rw [announceAndMatch_enrolled wellFormed valid fresh hasMarket]
      exact sound.matched wellFormed valid fresh hasMarket
        (reserves_shares admitted (fits.reserve order admitted))
        (settles_shares fits admitted announced)
  | canceled req order market _ present live hasMarket chosen =>
      have ownID := wellFormed.keyed _ _ present
      rw [← ownID] at present
      exact sound.cancel present (fits.refund order chosen)
  | marketCreated eventID _ _ => exact sound.of_same rfl fun _ => rfl
  | userFunded userID _ _ => exact sound.of_same rfl fun _ => rfl

structure SharesReserved (history : History) : Prop where
  wellFormed : WellFormed history.engine
  sells : SellLocks history.engine
  sound : Leg.shares.Sound history.engine
  balanced : ∀ key, Leg.shares.gap history.engine key = 0

theorem sharesReserved_start (balances : Accounts String)
    {positions : Accounts String} (unreserved : positions.Unreserved) :
    SharesReserved (History.start (Engine.seeded balances positions)) where
  wellFormed := wellFormed_seeded balances positions
  sells := by
    intro id order present
    simp [History.start, Engine.seeded] at present
  sound := Leg.sound_seeded .shares unreserved
  balanced := Leg.gap_seeded .shares unreserved

section Step

variable {history : History} {input : Input}
  (reserved : SharesReserved history)
  (fits : SharesFit history.engine input)

include reserved fits in
private theorem sharesReserved_balanced
    (emitted : input.surroundings.orderCreatedEmitted = true) (key : String) :
    Leg.shares.gap (history.step input).engine key = 0 := by
  have wellFormed := reserved.wellFormed
  have sound := reserved.sound
  have solvent : ∀ key, 0 ≤ Leg.shares.gap history.engine key :=
    fun key => le_of_eq (reserved.balanced key).symm
  simp only [History.step]
  have effect := step_effect history.engine input
  generalize history.engine.step input = reply at effect ⊢
  cases effect with
  | unchanged response _ _ => exact reserved.balanced key
  | opened order message _ _ _ _ =>
      have same := Leg.account_opened .shares history.engine order
      exact (Leg.gap_of_same .shares (opened_orders _ order)
        (fun other => by rw [same]) key).trans (reserved.balanced key)
  | dropped order market _ _ _ _ lost =>
      rw [emitted] at lost
      contradiction
  | accepted order market submitted fresh hasMarket affords announced =>
      have valid := Input.order?_submitted submitted
      have admitted := admitted?_eq submitted fresh hasMarket affords
      rw [announceAndMatch_enrolled wellFormed valid fresh hasMarket]
      have reserves := reserves_shares admitted (fits.reserve order admitted)
      have settles := settles_shares fits admitted announced
      exact (Leg.gap_matched wellFormed valid fresh hasMarket sound reserves
        settles (adequate_shares wellFormed reserved.sells admitted) solvent
        key).trans (reserved.balanced key)
  | canceled req order market _ present live hasMarket chosen =>
      have ownID := wellFormed.keyed _ _ present
      rw [← ownID] at present
      exact (Leg.gap_cancel market present sound solvent key).trans
        (reserved.balanced key)
  | marketCreated eventID _ _ => exact reserved.balanced key
  | userFunded userID _ _ => exact reserved.balanced key

include reserved fits in
theorem sharesReserved_step
    (emitted : input.surroundings.orderCreatedEmitted = true) :
    SharesReserved (history.step input) where
  wellFormed := wellFormed_step reserved.wellFormed input
  sells := sellLocks_step reserved.wellFormed reserved.sells input
  sound := sharesSound_step reserved.wellFormed reserved.sound fits
  balanced := sharesReserved_balanced reserved fits emitted

include reserved fits in
theorem sharesReserved_unclamped :
    Leg.shares.Unclamped history.engine input :=
  Leg.unclamped reserved.wellFormed reserved.sound
    (fun key => le_of_eq (reserved.balanced key).symm)
    (fun order admitted =>
      reserves_shares admitted (fits.reserve order admitted))
    (fun _ admitted emitted => settles_shares fits admitted emitted)
    (fun _ admitted _ _ =>
      adequate_shares reserved.wellFormed reserved.sells admitted)

end Step

/-! Cash and shares together. -/

structure NothingWraps (engine : Engine) (input : Input) : Prop where
  cash : CashFits engine input
  shares : SharesFit engine input

instance (engine : Engine) (input : Input) :
    Decidable (NothingWraps engine input) :=
  decidable_of_iff (CashFits engine input ∧ SharesFit engine input)
    ⟨fun ⟨cash, shares⟩ => ⟨cash, shares⟩,
      fun ⟨cash, shares⟩ => ⟨cash, shares⟩⟩

structure LedgerSound (history : History) : Prop where
  inRange : CashInRange history
  shares : Leg.shares.Sound history.engine

theorem LedgerSound.leg {history : History} (sound : LedgerSound history)
    (leg : Leg) : leg.Sound history.engine := by
  cases leg with
  | cash => exact sound.inRange.cash.sound
  | shares => exact sound.shares

theorem ledgerSound_run {balances positions : Accounts String}
    (cash : balances.Unreserved) (shares : positions.Unreserved)
    {inputs : List Input}
    (fits : MeetsAlong (fun history input => NothingWraps history.engine input)
      balances positions inputs) :
    LedgerSound (runSeeded balances positions inputs) := by
  apply runSeeded_invariant LedgerSound _ _ fits
  · intro history input sound fits
    exact ⟨cashInRange_step sound.inRange fits.cash,
      sharesSound_step sound.inRange.wellFormed sound.shares fits.shares⟩
  · exact ⟨cashInRange_start cash positions, Leg.sound_seeded .shares shares⟩

end Predix
