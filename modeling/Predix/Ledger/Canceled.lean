import Predix.Ledger.Accepted

namespace Predix

open Data Word

/-! What canceled, dropped and refused orders do to one leg of the ledger. -/

namespace Leg

variable {leg : Leg} {engine : Engine} {order : Order} {market : Market}

/-! Canceling releases the lock of an order that has left its slice. -/

section Cancel

theorem accounts_closed (leg : Leg) (engine : Engine) (market : Market)
    (order : Order) :
    leg.accounts (engine.closed market order) = leg.accounts engine := by
  cases leg <;> rfl

theorem weight_canceled (leg : Leg) (key : String) (order : Order) :
    leg.weight key order.canceled = leg.weight key order := by
  cases leg <;> rfl

theorem key_canceled (leg : Leg) (order : Order) :
    leg.key order.canceled = leg.key order := by
  cases leg <;> rfl

theorem accounts_cancel (leg : Leg) (engine : Engine) (market : Market)
    (order : Order) :
    leg.accounts (engine.cancel market order) =
      if order.side = leg.side ∧ 0 < order.lockedFunds.toInt then
        (leg.accounts engine).update (leg.key order)
          (·.unfreeze order.lockedFunds)
      else
        leg.accounts engine := by
  rw [cancel_eq, accounts_releaseOrderLocked, accounts_closed, key_canceled]
  rfl

theorem lookup_closed_self :
    (engine.closed market order).orders.lookup order.canceled.id =
      some order.canceled := by
  rw [lookup_closed]
  exact if_pos rfl

variable (present : engine.orders.lookup order.id = some order)

include present

private theorem locked_closed (key : String) :
    leg.locked (engine.closed market order) key = leg.locked engine key := by
  have inserted := FiniteMap.total_insert_of_lookup
    (fun _ order => leg.weight key order) order.canceled present
  rw [weight_canceled] at inserted
  have same : leg.locked (engine.closed market order) key =
      leg.locked engine key - leg.weight key order + leg.weight key order :=
    inserted
  omega

private theorem LocksNonneg.closed (locks : leg.LocksNonneg engine) :
    leg.LocksNonneg (engine.closed market order) := by
  intro id found lookedUp sameSide
  rw [lookup_closed] at lookedUp
  split at lookedUp
  · cases lookedUp
    exact locks order.id order present sameSide
  · exact locks id found lookedUp sameSide

variable (sound : leg.Sound engine)

include sound

theorem Sound.closed : leg.Sound (engine.closed market order) where
  available := by
    intro key
    rw [account, accounts_closed]
    exact sound.available key
  reserved := by
    intro key
    rw [account, accounts_closed]
    exact sound.reserved key
  locks := sound.locks.closed present

theorem canceled_nonneg (sameSide : order.canceled.side = leg.side) :
    0 ≤ order.canceled.lockedFunds.toInt :=
  sound.locks order.id order present sameSide

variable (refund : order.side = leg.side →
  Fits ((leg.account engine (leg.key order)).available.toInt +
    order.lockedFunds.toInt))

omit present sound in
include refund in
theorem refund_fits (key : String) :
    Fits ((leg.account (engine.closed market order) key).available.toInt +
      leg.weight key order.canceled) := by
  rw [account, accounts_closed, weight_canceled]
  exact leg.weight_fits refund key

include refund in
theorem Sound.cancel : leg.Sound (engine.cancel market order) := by
  have closed : leg.Sound (engine.closed market order) := sound.closed present
  have nonneg := canceled_nonneg present sound
  rw [cancel_eq]
  refine ⟨?_, ?_, closed.locks.release lookup_closed_self nonneg⟩
  · intro key
    have old := closed.available key
    have weight : 0 ≤ leg.weight key order.canceled :=
      closed.locks.weight lookup_closed_self key
    rw [release_available nonneg key (refund_fits refund key)]
    omega
  · intro key
    rw [release_reserved nonneg closed.reserved]
    omega

theorem gap_cancel_eq (key : String) :
    leg.gap (engine.cancel market order) key =
      max 0 ((leg.account engine key).reserved.toInt -
          leg.weight key order) -
        (leg.locked engine key - leg.weight key order) := by
  have closed : leg.Sound (engine.closed market order) := sound.closed present
  have nonneg := canceled_nonneg present sound
  have same : leg.account (engine.closed market order) key =
      leg.account engine key := by
    rw [account, accounts_closed]
    rfl
  rw [cancel_eq, gap, release_reserved nonneg closed.reserved,
    locked_release lookup_closed_self nonneg, weight_canceled,
    locked_closed present, same]

theorem weight_le_locked (key : String) :
    leg.weight key order ≤ leg.locked engine key :=
  FiniteMap.weight_le_total (fun _ order => leg.weight key order)
    (fun _ _ lookedUp => sound.locks.weight lookedUp key) present

variable (market) in
theorem gap_cancel (solvent : ∀ key, 0 ≤ leg.gap engine key) (key : String) :
    leg.gap (engine.cancel market order) key = leg.gap engine key := by
  have weight := weight_le_locked present sound key
  have before := solvent key
  rw [gap_cancel_eq present sound]
  unfold gap at before ⊢
  omega

theorem gap_cancel_nonpos (backed : ∀ key, leg.gap engine key ≤ 0)
    (key : String) : leg.gap (engine.cancel market order) key ≤ 0 := by
  have weight := weight_le_locked present sound key
  have before := backed key
  rw [gap_cancel_eq present sound]
  unfold gap at before
  omega

include refund in
theorem totalHeld_cancel (solvent : ∀ key, 0 ≤ leg.gap engine key)
    (counted : String → Bool) :
    (leg.accounts (engine.cancel market order)).totalHeld counted =
      (leg.accounts engine).totalHeld counted := by
  have weight := weight_le_locked present sound (leg.key order)
  have before := solvent (leg.key order)
  unfold gap at before
  rw [cancel_eq, totalHeld_release, accounts_closed]
  · exact refund_fits refund _
  · rw [key_canceled, weight_canceled, account, accounts_closed]
    change _ ≤ (leg.account engine (leg.key order)).reserved.toInt
    omega

end Cancel

/-! A reservation whose announcement fails stays in the ledger. -/

section Dropped

variable (sound : leg.Sound engine) (reserves : leg.Reserves engine order)

private theorem locked_frozen (key : String) :
    leg.locked (engine.frozen order) key = leg.locked engine key := by
  unfold locked
  rw [frozen_orders]

theorem LocksNonneg.of_orders {left right : Engine}
    (orders : right.orders = left.orders) (locks : leg.LocksNonneg left) :
    leg.LocksNonneg right := by
  intro id found present
  rw [orders] at present
  exact locks id found present

include sound reserves in
theorem Sound.frozen : leg.Sound (engine.frozen order) where
  available := by
    intro key
    have le := reserves.frozenAt_le sound.available key
    rw [reserves.frozen_available]
    omega
  reserved := by
    intro key
    have nonneg := reserves.frozenAt_nonneg key
    have old := sound.reserved key
    rw [reserves.frozen_reserved]
    omega
  locks := sound.locks.of_orders (frozen_orders engine order)

include reserves in
theorem gap_frozen (key : String) :
    leg.gap engine key ≤ leg.gap (engine.frozen order) key := by
  have nonneg := reserves.frozenAt_nonneg key
  unfold gap
  rw [reserves.frozen_reserved, locked_frozen]
  omega

end Dropped

/-! Commands that only open accounts. -/

theorem account_opened (leg : Leg) (engine : Engine) (order : Order)
    (key : String) :
    leg.account (engine.opened order) key = leg.account engine key := by
  have kept : ∀ (accounts : Accounts String) (other : String),
      (accounts.update other id).account key = accounts.account key := by
    intro accounts other
    rw [Accounts.account_update]
    split
    · rename_i same
      rw [same]
      rfl
    · rfl
  unfold account Engine.opened
  cases leg <;> cases order.side <;> first | exact kept _ _ | rfl

theorem totalHeld_opened (leg : Leg) (engine : Engine) (order : Order)
    (counted : String → Bool) :
    (leg.accounts (engine.opened order)).totalHeld counted =
      (leg.accounts engine).totalHeld counted := by
  have kept : ∀ (accounts : Accounts String) (other : String),
      (accounts.update other id).totalHeld counted =
        accounts.totalHeld counted := fun accounts other =>
    Accounts.totalHeld_update_of_holdings counted accounts other id rfl
  unfold Engine.opened
  cases leg <;> cases order.side <;> first | exact kept _ _ | rfl

theorem Sound.of_same {left right : Engine} (sound : leg.Sound left)
    (orders : right.orders = left.orders)
    (accounts : ∀ key, leg.account right key = leg.account left key) :
    leg.Sound right where
  available := by
    intro key
    rw [accounts]
    exact sound.available key
  reserved := by
    intro key
    rw [accounts]
    exact sound.reserved key
  locks := sound.locks.of_orders orders

variable (leg) in
theorem gap_of_same {left right : Engine}
    (orders : right.orders = left.orders)
    (accounts : ∀ key, (leg.account right key).reserved =
      (leg.account left key).reserved) (key : String) :
    leg.gap right key = leg.gap left key := by
  unfold gap locked
  rw [orders, accounts]

end Leg

end Predix
