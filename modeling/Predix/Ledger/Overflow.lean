import Predix.Ledger.Cash
import Predix.Ledger.SellLocks

namespace Predix

open Data Word

/-! Runs in which no cash amount wraps. -/

namespace Leg

variable (leg : Leg)

theorem sound_seeded {balances positions : Accounts String}
    (unreserved : (leg.accounts
      (Engine.seeded balances positions)).Unreserved) :
    leg.Sound (Engine.seeded balances positions) where
  available := fun key => (unreserved.account key).1
  reserved := fun key => le_of_eq (unreserved.account key).2.symm
  locks := by
    intro id order present
    simp [Engine.seeded] at present

theorem gap_seeded {balances positions : Accounts String}
    (unreserved : (leg.accounts
      (Engine.seeded balances positions)).Unreserved) (key : String) :
    leg.gap (Engine.seeded balances positions) key = 0 := by
  have reserved := (unreserved.account key).2
  unfold gap locked account
  rw [reserved]
  rfl

end Leg

theorem cashSound_seeded {balances : Accounts String}
    (unreserved : balances.Unreserved) (positions : Accounts String) :
    CashSound (Engine.seeded balances positions) where
  sound := Leg.sound_seeded .cash unreserved
  adequate := by
    intro id order present
    simp [Engine.seeded] at present

private theorem CashSound.of_same {left right : Engine} (cash : CashSound left)
    (sound : Leg.cash.Sound right) (orders : right.orders = left.orders) :
    CashSound right where
  sound := sound
  adequate := by
    intro id order present
    rw [orders] at present
    exact cash.adequate present

theorem account_funded {engine : Engine} {userID : String} (key : String) :
    Leg.cash.account
        { engine with
          balances := engine.balances.insert userID
            ⟨defaultStartingBalance, 0⟩ } key =
      if key = userID then ⟨defaultStartingBalance, 0⟩
      else Leg.cash.account engine key := by
  change Option.getD (Finmap.lookup key (engine.balances.insert userID
    (⟨defaultStartingBalance, 0⟩ : Account))) Account.empty = _
  rw [FiniteMap.lookup_insert_eq]
  split
  · rfl
  · rfl

private theorem Leg.Sound.funded {engine : Engine}
    (sound : Leg.cash.Sound engine)
    (userID : String) :
    Leg.cash.Sound
      { engine with
        balances := engine.balances.insert userID
          ⟨defaultStartingBalance, 0⟩ } where
  available := by
    intro key
    rw [account_funded]
    split
    · decide
    · exact sound.available key
  reserved := by
    intro key
    rw [account_funded]
    split
    · decide
    · exact sound.reserved key
  locks := sound.locks

section Step

variable {engine : Engine} {input : Input} {order : Order} {market : Market}
  (wellFormed : WellFormed engine) (cash : CashSound engine)
  (fits : CashFits engine input)

include cash fits in
theorem CashFits.reserves (admitted : engine.admitted? input = some order)
    (submitted : input.order? = some order) (affords : engine.Affords order) :
    Leg.cash.Reserves engine order :=
  reserves_cash (Input.order?_submitted submitted) affords cash.sound
    (fits.product order admitted) (fits.reserve order admitted)

include cash in
private theorem CashSound.cancel
    (present : engine.orders.lookup order.id = some order)
    (refund : order.side = .sideBuy →
      Fits ((engine.balances.account order.userID).available.toInt +
        order.lockedFunds.toInt)) :
    CashSound (engine.cancel market order) where
  sound := cash.sound.cancel present refund
  adequate := by
    intro id found lookedUp side live
    obtain ⟨lock, lookedUpIs⟩ := lookup_cancel engine
      order market id
    rw [lookedUpIs] at lookedUp
    split at lookedUp
    · cases lookedUp
      contradiction
    · exact cash.adequate lookedUp side live

include wellFormed cash fits in
theorem cashSound_step : CashSound (engine.step input).engine := by
  have effect := step_effect engine input
  generalize engine.step input = reply at effect ⊢
  cases effect with
  | unchanged response _ _ => exact cash
  | opened order message _ _ _ _ =>
      exact cash.of_same
        (cash.sound.of_same (opened_orders _ order)
          (Leg.account_opened .cash engine order))
        (opened_orders _ order)
  | dropped order market submitted fresh hasMarket affords _ =>
      have admitted := admitted?_eq submitted fresh hasMarket affords
      exact cash.of_same
        (cash.sound.frozen (fits.reserves cash admitted submitted affords))
        (frozen_orders _ order)
  | accepted order market submitted fresh hasMarket affords announced =>
      have valid := Input.order?_submitted submitted
      have admitted := admitted?_eq submitted fresh hasMarket affords
      rw [announceAndMatch_enrolled wellFormed valid fresh hasMarket]
      exact CashSound.matched wellFormed valid fresh hasMarket cash.sound
        (fits.proceeds order admitted announced)
        (fits.reserves cash admitted submitted affords) cash
        (fits.product order admitted)
  | canceled req order market _ present live hasMarket chosen =>
      have ownID := wellFormed.keyed _ _ present
      rw [← ownID] at present
      exact cash.cancel present (fits.refund order chosen)
  | marketCreated eventID _ _ =>
      exact cash.of_same (cash.sound.of_same rfl fun _ => rfl) rfl
  | userFunded userID _ _ =>
      exact cash.of_same (cash.sound.funded userID) rfl

end Step

structure CashInRange (history : History) : Prop where
  wellFormed : WellFormed history.engine
  cash : CashSound history.engine
  sells : SellLocks history.engine

theorem cashInRange_start {balances : Accounts String}
    (unreserved : balances.Unreserved) (positions : Accounts String) :
    CashInRange (History.start (Engine.seeded balances positions)) where
  wellFormed := wellFormed_seeded balances positions
  cash := cashSound_seeded unreserved positions
  sells := by
    intro id order present
    simp [History.start, Engine.seeded] at present

theorem cashInRange_step {history : History} {input : Input}
    (inRange : CashInRange history) (fits : CashFits history.engine input) :
    CashInRange (history.step input) where
  wellFormed := wellFormed_step inRange.wellFormed input
  cash := cashSound_step inRange.wellFormed inRange.cash fits
  sells := sellLocks_step inRange.wellFormed inRange.sells input

def CashFitsAlong (balances positions : Accounts String)
    (inputs : List Input) : Prop :=
  MeetsAlong (fun history input => CashFits history.engine input) balances
    positions inputs

instance (balances positions : Accounts String) (inputs : List Input) :
    Decidable (CashFitsAlong balances positions inputs) :=
  inferInstanceAs (Decidable (MeetsAlong _ balances positions inputs))

theorem cashInRange_run {balances positions : Accounts String}
    (unreserved : balances.Unreserved) {inputs : List Input}
    (fits : CashFitsAlong balances positions inputs) :
    CashInRange (runSeeded balances positions inputs) :=
  runSeeded_invariant CashInRange
    (fun _ _ inRange => cashInRange_step inRange)
    (cashInRange_start unreserved positions) fits

private theorem CashInRange.lock_nonneg {history : History}
    (inRange : CashInRange history) {id : String} {order : Order}
    (present : history.engine.orders.lookup id = some order) :
    0 ≤ order.lockedFunds.toInt := by
  cases side : order.side with
  | sideBuy => exact inRange.cash.sound.locks id order present side
  | sideSell =>
      exact inRange.sells.locksNonneg inRange.wellFormed id order present side

/-- For a limit BUY that passes the reservation, not wrapping and being
covered are the same. -/
theorem admitted_covered_iff {engine : Engine} {input : Input} {order : Order}
    (admitted : engine.admitted? input = some order)
    (side : order.side = .sideBuy)
    (limit : order.orderType = .orderTypeLimit) :
    order.quantity.toInt * order.price.toInt ≤
        (engine.balances.account order.userID).available.toInt ↔
      Fits (order.quantity.toInt * order.price.toInt) := by
  obtain ⟨submitted, _, _, affords⟩ := admitted?_spec admitted
  have valid := Input.order?_submitted submitted
  have positive : 0 ≤ order.quantity.toInt * order.price.toInt :=
    Int.mul_nonneg (le_of_lt valid.quantity) (le_of_lt (valid.price limit))
  constructor
  · exact fits_of_nonneg_le positive
  · intro fits
    have hold := lockFor_buy engine valid side fun _ => fits
    simp only [Engine.exactHold, limit, Engine.lockFor, side] at hold
    simp only [Engine.Affords, side, Int64.le_iff_toInt_le] at affords
    omega

/-- No cash is promised twice, and nothing of it is negative. -/
structure NoOvercommitment (engine : Engine) : Prop where
  available : ∀ userID, 0 ≤ (engine.balances.account userID).available
  reserved : ∀ userID, 0 ≤ (engine.balances.account userID).reserved
  locked : ∀ id order, engine.orders.lookup id = some order →
    0 ≤ order.lockedFunds
  /-- A limit BUY that passes is covered by its exact value if and only if
  that value is in range. -/
  covered : ∀ input order, engine.admitted? input = some order →
    order.side = .sideBuy → order.orderType = .orderTypeLimit →
      (order.quantity.toInt * order.price.toInt ≤
          (engine.balances.account order.userID).available.toInt ↔
        Fits (order.quantity.toInt * order.price.toInt))
  /-- Exactly that value is frozen and locked. -/
  moved : ∀ input order, engine.admitted? input = some order →
    order.side = .sideBuy → order.orderType = .orderTypeLimit →
    CashFits engine input →
      ∃ after locked, reserveOrderLocked engine order = (after, .ok locked) ∧
        (after.balances.account order.userID).available.toInt =
          (engine.balances.account order.userID).available.toInt -
            order.quantity.toInt * order.price.toInt ∧
        (after.balances.account order.userID).reserved.toInt =
          (engine.balances.account order.userID).reserved.toInt +
            order.quantity.toInt * order.price.toInt ∧
        locked.lockedFunds.toInt =
          order.quantity.toInt * order.price.toInt

/-- A run that wraps no cash amount never over-commits. -/
theorem runSeeded_noOvercommitment {balances positions : Accounts String}
    (unreserved : balances.Unreserved) {inputs : List Input}
    (fits : CashFitsAlong balances positions inputs) :
    NoOvercommitment (runSeeded balances positions inputs).engine := by
  have inRange := cashInRange_run unreserved fits
  generalize runSeeded balances positions inputs = history at inRange ⊢
  constructor
  case available =>
    intro userID
    rw [Int64.le_iff_toInt_le]
    exact inRange.cash.sound.available userID
  case reserved =>
    intro userID
    rw [Int64.le_iff_toInt_le]
    exact inRange.cash.sound.reserved userID
  case locked =>
    intro id order present
    rw [Int64.le_iff_toInt_le]
    exact inRange.lock_nonneg present
  case covered =>
    intro input order admitted side limit
    exact admitted_covered_iff admitted side limit
  case moved =>
    intro input order admitted side limit inputFits
    obtain ⟨submitted, _, _, affords⟩ := admitted?_spec admitted
    have valid := Input.order?_submitted submitted
    have reserves := inputFits.reserves inRange.cash admitted submitted affords
    have hold := lockFor_buy history.engine valid side
      (inputFits.product order admitted side)
    have value : history.engine.exactHold order =
        order.quantity.toInt * order.price.toInt := by
      simp only [Engine.exactHold, limit]
    have moved := @Leg.frozenAt_eq .cash history.engine order order.userID
    rw [if_pos ⟨side, rfl⟩, hold, value] at moved
    have available := reserves.frozen_available order.userID
    have reserved := reserves.frozen_reserved order.userID
    rw [moved] at available reserved
    exact ⟨_, _, reserveOrderLocked_of_affords affords, available, reserved,
      hold.trans value⟩

/-- One funded user with one limit BUY in the book. -/
theorem noOvercommitment_single :
    NoOvercommitment (runSeeded (Finmap.insert "u" ⟨1000000, 0⟩ ∅) ∅
      [.createEvent "e",
        .submit "o" "e" "u" "LIMIT" "YES" "BUY" 5 6000]).engine :=
  runSeeded_noOvercommitment
    (Accounts.unreserved_empty.insert "u" (by decide)) (by decide)

/-- A value of 3 * 2^62 wraps to -2^62: a user without any cash has the order
accepted, gets 2^62 available and a negative lock. -/
theorem wrappedBuy_overcommits :
    ((runSeeded ∅ ∅ [.createEvent "e"]).engine.balances.account
        "u").available.toInt < 3 * 4611686018427387904 ∧
      (runSeeded ∅ ∅ [.createEvent "e",
        .submit "o" "e" "u" "LIMIT" "YES" "BUY" 3
          4611686018427387904]).accepted = ["o"] ∧
      (runSeeded ∅ ∅ [.createEvent "e",
        .submit "o" "e" "u" "LIMIT" "YES" "BUY" 3
          4611686018427387904]).engine.balances.account "u" =
        ⟨4611686018427387904, -4611686018427387904⟩ ∧
      ((runSeeded ∅ ∅ [.createEvent "e",
        .submit "o" "e" "u" "LIMIT" "YES" "BUY" 3
          4611686018427387904]).engine.orders.lookup "o").map
            (·.lockedFunds) = some (-4611686018427387904) := by
  decide

end Predix
