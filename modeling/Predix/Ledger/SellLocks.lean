import Predix.Ledger.Canceled

namespace Predix

open Data Word

/-! A SELL order locks exactly the shares it has not sold. -/

/-- What a SELL order keeps locked: its remainder while it is open. -/
def Order.heldShares (order : Order) : Int :=
  if order.status.live then order.remainingQuantity.toInt else 0

/-- Every SELL order of a state locks exactly its open remainder. -/
def SellLocks (engine : Engine) : Prop :=
  ∀ id order, engine.orders.lookup id = some order →
    order.side = .sideSell → order.lockedFunds.toInt = order.heldShares

theorem SellLocks.locksNonneg {engine : Engine} (locks : SellLocks engine)
    (wellFormed : WellFormed engine) : Leg.shares.LocksNonneg engine := by
  intro id order present side
  rw [locks id order present side]
  unfold Order.heldShares
  split
  · exact (wellFormed.accounted present).remainingNonneg
  · exact le_refl 0

private theorem SellLocks.of_orders {left right : Engine}
    (orders : right.orders = left.orders) (locks : SellLocks left) :
    SellLocks right := by
  intro id order present
  rw [orders] at present
  exact locks id order present

section Accepted

variable {engine : Engine} {order : Order} {market : Market}
  (wellFormed : WellFormed engine) (submitted : order.Submitted)
  (fresh : engine.orders.lookup order.id = none)
  (hasMarket : engine.markets.lookup order.eventID = some market)

variable (engine order) in
theorem amounts_shares : Leg.shares.AmountsNonneg (engine.tradesFor order) := by
  intro trade member
  obtain ⟨fill, fillMember, rfl⟩ := List.mem_map.mp member
  exact le_of_lt (fillsFor_positive fill fillMember)

theorem drawn_shares_taker :
    Leg.shares.drawn order.id (engine.tradesFor order) =
      filledSum (engine.fillsFor order) :=
  namedSum_taker _ order (engine.fillsFor order)

include wellFormed fresh in
theorem drawn_shares_maker {fill : Fill}
    (member : fill ∈ engine.fillsFor order) :
    Leg.shares.drawn fill.maker.id (engine.tradesFor order) =
      fill.quantity.toInt :=
  namedSum_maker _ order (fillsFor_ids_nodup wellFormed)
    (fun _ other => fillsFor_ne_fresh wellFormed fresh other) member

include submitted in
theorem lockFor_sell (side : order.side = .sideSell) :
    (engine.lockFor order).toInt = order.quantity.toInt := by
  simp only [Engine.lockFor, side, submitted.remaining]

include submitted in
variable (engine) in
private theorem remnant_sell (side : order.side = .sideSell) :
    (engine.remnant order).lockedFunds.toInt =
      order.quantity.toInt - filledSum (engine.fillsFor order) := by
  have takerLock := taker_lockedFunds engine order
  have lock := Leg.settledAll_lockedFunds
    ((taker_terms engine order).side.trans side : _ = Leg.shares.side)
    (by
      rw [takerLock, lockFor_sell submitted side]
      exact le_of_lt submitted.quantity)
    (amounts_shares engine order)
  have sum := fillsFor_sum_le engine submitted
  rw [takerLock, taker_id, drawn_shares_taker,
    lockFor_sell submitted side] at lock
  change ((engine.taker order).settledAll _).lockedFunds.toInt = _
  omega

include wellFormed submitted in
private theorem heldShares_filled {fill : Fill}
    (member : fill ∈ engine.fillsFor order) :
    fill.filled.heldShares =
      fill.maker.remainingQuantity.toInt - fill.quantity.toInt := by
  obtain ⟨_, positive, le⟩ := fillsFor_counterparty submitted member
  obtain ⟨_, remaining, _⟩ := filled_accounted
    (wellFormed.accounted (fillsFor_maker wellFormed member).1) positive le
  rw [← remaining]
  unfold Order.heldShares
  split
  · rfl
  · rename_i closed
    have whole := filled_whole wellFormed submitted member
      (Bool.eq_false_iff.mpr closed)
    rw [remaining, whole, sub_self]

include wellFormed submitted fresh hasMarket in
private theorem SellLocks.matched (locks : SellLocks engine) :
    SellLocks (engine.matched order market) := by
  intro id found present side
  cases afterMatch wellFormed submitted fresh hasMarket present with
  | resting live =>
      rw [(remnant_terms engine order).side] at side
      rw [Order.heldShares, if_pos (by rw [remnant_status]; exact live),
        remnant_remaining engine submitted, remnant_sell engine submitted side]
  | released closed =>
      rw [(engine.remnant order).released_terms.side,
        (remnant_terms engine order).side] at side
      have sum := fillsFor_sum_le engine submitted
      rw [Order.heldShares,
        if_neg (by rw [Order.released_status, remnant_status, closed]; decide),
        Order.released_lockedFunds, remnant_sell engine submitted side]
      omega
  | maker fill member =>
      obtain ⟨makerPresent, makerLive, _⟩ := fillsFor_maker wellFormed member
      obtain ⟨_, positive, le⟩ := fillsFor_counterparty submitted member
      rw [(fill.filled.settledAll_terms _).side, fill.filled_terms.side]
        at side
      have old := locks _ _ makerPresent side
      rw [Order.heldShares, if_pos makerLive] at old
      have lock := Leg.maker_lockedFunds (side : _ = Leg.shares.side) (by omega)
        (amounts_shares engine order)
      rw [drawn_shares_maker wellFormed fresh member] at lock
      have held : (fill.filled.settledAll
          (engine.tradesFor order)).heldShares = fill.filled.heldShares := by
        rw [Order.settledAll_eq]
        rfl
      rw [held, heldShares_filled wellFormed submitted member, lock]
      omega
  | other _ _ present => exact locks id found present side

end Accepted

private theorem SellLocks.cancel {engine : Engine} {order : Order}
    {market : Market}
    (wellFormed : WellFormed engine)
    (present : engine.orders.lookup order.id = some order)
    (locks : SellLocks engine) : SellLocks (engine.cancel market order) := by
  intro id found lookedUp side
  rw [lookup_cancel_released] at lookedUp
  split at lookedUp
  · cases lookedUp
    have orderSide : order.side = .sideSell :=
      order.canceled.released_terms.side.symm.trans side
    have closed : ¬ order.canceled.released.status.live = true := by
      rw [Order.released_status]
      exact Bool.false_ne_true
    have nonneg : 0 ≤ order.lockedFunds.toInt :=
      locks.locksNonneg wellFormed order.id order present orderSide
    rw [Order.heldShares, if_neg closed, Order.released_lockedFunds]
    change min 0 order.lockedFunds.toInt = 0
    omega
  · exact locks id found lookedUp side

theorem sellLocks_step {engine : Engine} (wellFormed : WellFormed engine)
    (locks : SellLocks engine) (input : Input) :
    SellLocks (engine.step input).engine := by
  have effect := step_effect engine input
  generalize engine.step input = reply at effect ⊢
  cases effect with
  | unchanged response _ _ => exact locks
  | opened order message _ _ _ _ => exact locks.of_orders (opened_orders _ order)
  | dropped order market _ _ _ _ _ =>
      exact locks.of_orders (frozen_orders _ order)
  | accepted order market submitted fresh hasMarket _ _ =>
      have valid := Input.order?_submitted submitted
      rw [announceAndMatch_enrolled wellFormed valid fresh hasMarket]
      exact locks.matched wellFormed valid fresh hasMarket
  | canceled req order market _ present live hasMarket _ =>
      have ownID := wellFormed.keyed _ _ present
      rw [← ownID] at present
      exact locks.cancel wellFormed present
  | marketCreated eventID _ _ => exact locks
  | userFunded userID _ _ => exact locks

end Predix
