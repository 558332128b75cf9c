import Predix.Engine.Handler

namespace Predix

open Data Word

/-! What settling trades and releasing locks does to each part of the state. -/

def Engine.Keyed (engine : Engine) : Prop :=
  ∀ id order, engine.orders.lookup id = some order → order.id = id

def Trade.cashTransfer (trade : Trade) : Transfer String :=
  ⟨trade.buyerID, trade.sellerID, trade.cost⟩

def Trade.shareTransfer (trade : Trade) : Transfer String :=
  ⟨positionKey trade.sellerID trade.eventID trade.outcome,
    positionKey trade.buyerID trade.eventID trade.outcome,
    trade.quantity⟩

def Trade.names (trade : Trade) (orderID : String) : Prop :=
  trade.orderID = orderID ∨ trade.matchOrderID = orderID

instance (trade : Trade) (orderID : String) :
    Decidable (trade.names orderID) :=
  inferInstanceAs (Decidable (_ ∨ _))

def namedSum (amount : Trade → Int) (trades : List Trade)
    (orderID : String) : Int :=
  (trades.map fun trade =>
    if trade.names orderID then amount trade else 0).sum

section NamedSum

variable {amount : Trade → Int} {orderID : String}

theorem namedSum_cons (trade : Trade) (trades : List Trade) :
    namedSum amount (trade :: trades) orderID =
      (if trade.names orderID then amount trade else 0) +
        namedSum amount trades orderID := rfl

theorem namedSum_append (first second : List Trade) :
    namedSum amount (first ++ second) orderID =
      namedSum amount first orderID + namedSum amount second orderID := by
  unfold namedSum
  rw [List.map_append, List.sum_append]

theorem namedSum_of_unnamed {trades : List Trade}
    (unnamed : ∀ trade ∈ trades, ¬ trade.names orderID) :
    namedSum amount trades orderID = 0 := by
  apply List.sum_eq_zero
  intro value member
  obtain ⟨trade, tradeMember, rfl⟩ := List.mem_map.mp member
  exact if_neg (unnamed trade tradeMember)

theorem namedSum_nonneg {trades : List Trade}
    (nonneg : ∀ trade ∈ trades, 0 ≤ amount trade) :
    0 ≤ namedSum amount trades orderID := by
  apply List.sum_nonneg
  intro value member
  obtain ⟨trade, tradeMember, rfl⟩ := List.mem_map.mp member
  split
  · exact nonneg trade tradeMember
  · exact le_refl 0

end NamedSum

def Order.settled (order : Order) (trade : Trade) : Order :=
  if trade.names order.id then
    { order with
      lockedFunds := clampZero (order.lockedFunds - order.unlockFor trade) }
  else
    order

def Order.settledAll (order : Order) (trades : List Trade) : Order :=
  trades.foldl Order.settled order

def settleAll (engine : Engine) (trades : List Trade) : Engine :=
  trades.foldl settleTradeLocked engine

section Unlock

variable (engine : Engine) (trade : Trade) (orderID : String)

@[simp] theorem unlock_markets :
    (engine.unlock trade orderID).markets = engine.markets := by
  unfold Engine.unlock
  split <;> rfl

@[simp] theorem unlock_balances :
    (engine.unlock trade orderID).balances = engine.balances := by
  unfold Engine.unlock
  split <;> rfl

@[simp] theorem unlock_positions :
    (engine.unlock trade orderID).positions = engine.positions := by
  unfold Engine.unlock
  split <;> rfl

theorem lookup_unlock (id : String) :
    (engine.unlock trade orderID).orders.lookup id =
      if id = orderID then
        (engine.orders.lookup id).map fun order =>
          { order with
            lockedFunds :=
              clampZero (order.lockedFunds - order.unlockFor trade) }
      else
        engine.orders.lookup id := by
  unfold Engine.unlock
  by_cases same : id = orderID
  · subst same
    rw [if_pos rfl]
    cases present : engine.orders.lookup id with
    | none => simp [present]
    | some order => simp
  · rw [if_neg same]
    cases present : engine.orders.lookup orderID with
    | none => rfl
    | some order =>
        exact Finmap.lookup_insert_of_ne _ same

end Unlock

private theorem unlock_orders_congr {left right : Engine}
    (orders : left.orders = right.orders) (trade : Trade) (orderID : String) :
    (left.unlock trade orderID).orders =
      (right.unlock trade orderID).orders := by
  unfold Engine.unlock
  rw [orders]
  split <;> simp only [orders]

section Settle

variable (engine : Engine) (trade : Trade)

theorem settleTradeLocked_orders :
    (settleTradeLocked engine trade).orders =
      ((engine.unlock trade trade.orderID).unlock trade
        trade.matchOrderID).orders := by
  apply unlock_orders_congr
  apply unlock_orders_congr
  rfl

@[simp] theorem settleTradeLocked_markets :
    (settleTradeLocked engine trade).markets = engine.markets := by
  simp [settleTradeLocked, Engine.updateBalance, Engine.updatePosition]

@[simp] theorem settleTradeLocked_balances :
    (settleTradeLocked engine trade).balances =
      Transfer.apply engine.balances trade.cashTransfer := by
  simp [settleTradeLocked, Engine.updateBalance, Engine.updatePosition,
    Transfer.apply, Trade.cashTransfer]

@[simp] theorem settleTradeLocked_positions :
    (settleTradeLocked engine trade).positions =
      Transfer.apply engine.positions trade.shareTransfer := by
  rw [← Transfer.apply_eq_credit_spend]
  simp [settleTradeLocked, Engine.updateBalance, Engine.updatePosition,
    Trade.shareTransfer]

theorem lookup_settleTradeLocked (keyed : engine.Keyed)
    (distinct : trade.orderID ≠ trade.matchOrderID) (id : String) :
    (settleTradeLocked engine trade).orders.lookup id =
      (engine.orders.lookup id).map (·.settled trade) := by
  simp only [settleTradeLocked, List.foldl_cons, List.foldl_nil,
    lookup_unlock, Engine.updateBalance, Engine.updatePosition]
  cases present : engine.orders.lookup id with
  | none => simp
  | some order =>
      have sameID := keyed id order present
      subst sameID
      simp only [Option.map_some, Order.settled, Trade.names]
      by_cases taker : order.id = trade.orderID
      · have notMaker : order.id ≠ trade.matchOrderID := by
          rw [taker]
          exact distinct
        simp [taker, distinct]
      · by_cases maker : order.id = trade.matchOrderID
        · simp [maker, Ne.symm distinct]
        · simp [taker, maker, Ne.symm taker, Ne.symm maker]

end Settle

def Order.withLock (order : Order) (lock : Int64) : Order :=
  { order with lockedFunds := lock }

theorem Order.settled_id (order : Order) (trade : Trade) :
    (order.settled trade).id = order.id := by
  unfold Order.settled
  split <;> rfl

theorem Order.settled_eq (order : Order) (trade : Trade) :
    order.settled trade =
      order.withLock (order.settled trade).lockedFunds := by
  unfold Order.settled
  split <;> rfl

theorem Order.settled_side (order : Order) (trade : Trade) :
    (order.settled trade).side = order.side := by
  rw [Order.settled_eq]
  rfl

theorem Order.settledAll_eq (order : Order) (trades : List Trade) :
    order.settledAll trades =
      order.withLock (order.settledAll trades).lockedFunds := by
  induction trades generalizing order with
  | nil => rfl
  | cons trade trades induction =>
      change (order.settled trade).settledAll trades =
        order.withLock ((order.settled trade).settledAll trades).lockedFunds
      have head := Order.settled_eq order trade
      generalize order.settled trade = after at head ⊢
      rw [induction after, head]
      rfl

/-! The terms of an order: what neither a fill nor the ledger touches. -/

structure Order.SameTerms (left right : Order) : Prop where
  userID : left.userID = right.userID
  eventID : left.eventID = right.eventID
  outcome : left.outcome = right.outcome
  side : left.side = right.side
  orderType : left.orderType = right.orderType
  quantity : left.quantity = right.quantity
  price : left.price = right.price

theorem Order.SameTerms.refl (order : Order) : order.SameTerms order :=
  ⟨rfl, rfl, rfl, rfl, rfl, rfl, rfl⟩

theorem Order.SameTerms.trans {first second third : Order}
    (left : first.SameTerms second) (right : second.SameTerms third) :
    first.SameTerms third :=
  ⟨left.userID.trans right.userID, left.eventID.trans right.eventID,
    left.outcome.trans right.outcome, left.side.trans right.side,
    left.orderType.trans right.orderType, left.quantity.trans right.quantity,
    left.price.trans right.price⟩

theorem Order.withLock_terms (order : Order) (lock : Int64) :
    (order.withLock lock).SameTerms order :=
  ⟨rfl, rfl, rfl, rfl, rfl, rfl, rfl⟩

theorem Order.SameTerms.of_withLock {left right : Order} (lock : Int64)
    (same : (left.withLock lock).SameTerms right) : left.SameTerms right :=
  ⟨same.userID, same.eventID, same.outcome, same.side, same.orderType,
    same.quantity, same.price⟩

theorem Order.settledAll_terms (order : Order) (trades : List Trade) :
    (order.settledAll trades).SameTerms order := by
  rw [Order.settledAll_eq]
  exact order.withLock_terms _

theorem Order.settledAll_progress (order : Order) (trades : List Trade) :
    (order.settledAll trades).filledQuantity = order.filledQuantity ∧
      (order.settledAll trades).remainingQuantity = order.remainingQuantity ∧
      (order.settledAll trades).status = order.status := by
  rw [Order.settledAll_eq]
  exact ⟨rfl, rfl, rfl⟩

theorem Order.settledAll_of_unnamed {order : Order} {trades : List Trade}
    (unnamed : ∀ trade ∈ trades, ¬ trade.names order.id) :
    order.settledAll trades = order := by
  induction trades with
  | nil => rfl
  | cons trade trades induction =>
      have head : order.settled trade = order :=
        if_neg (unnamed trade (by simp))
      change (order.settled trade).settledAll trades = order
      rw [head, induction fun later member => unnamed later (by simp [member])]

theorem Keyed_settle {engine : Engine} (keyed : engine.Keyed)
    {trade : Trade} (distinct : trade.orderID ≠ trade.matchOrderID) :
    (settleTradeLocked engine trade).Keyed := by
  intro id order present
  rw [lookup_settleTradeLocked engine trade keyed distinct] at present
  obtain ⟨old, oldPresent, rfl⟩ := Option.map_eq_some_iff.mp present
  rw [Order.settled_id, keyed id old oldPresent]

@[simp] theorem settleAll_markets (engine : Engine) (trades : List Trade) :
    (settleAll engine trades).markets = engine.markets := by
  induction trades generalizing engine with
  | nil => rfl
  | cons trade trades induction =>
      change (settleAll (settleTradeLocked engine trade) trades).markets = _
      rw [induction, settleTradeLocked_markets]

@[simp] theorem settleAll_balances (engine : Engine) (trades : List Trade) :
    (settleAll engine trades).balances =
      Transfer.applyAll engine.balances (trades.map Trade.cashTransfer) := by
  induction trades generalizing engine with
  | nil => rfl
  | cons trade trades induction =>
      change (settleAll (settleTradeLocked engine trade) trades).balances = _
      rw [induction, settleTradeLocked_balances]
      rfl

@[simp] theorem settleAll_positions (engine : Engine) (trades : List Trade) :
    (settleAll engine trades).positions =
      Transfer.applyAll engine.positions (trades.map Trade.shareTransfer) := by
  induction trades generalizing engine with
  | nil => rfl
  | cons trade trades induction =>
      change (settleAll (settleTradeLocked engine trade) trades).positions = _
      rw [induction, settleTradeLocked_positions]
      rfl

theorem lookup_settleAll {engine : Engine} (keyed : engine.Keyed)
    {trades : List Trade}
    (distinct : ∀ trade ∈ trades, trade.orderID ≠ trade.matchOrderID)
    (id : String) :
    (settleAll engine trades).orders.lookup id =
      (engine.orders.lookup id).map (·.settledAll trades) := by
  induction trades generalizing engine with
  | nil => simp [settleAll, Order.settledAll]
  | cons trade trades induction =>
      have headDistinct := distinct trade (by simp)
      change (settleAll (settleTradeLocked engine trade) trades).orders.lookup
        id = _
      rw [induction (Keyed_settle keyed headDistinct)
          fun later member => distinct later (by simp [member]),
        lookup_settleTradeLocked engine trade keyed headDistinct,
        Option.map_map]
      rfl

/-! Releasing a lock. -/

section Release

variable (engine : Engine) (order : Order)

@[simp] theorem releaseOrderLocked_markets :
    (releaseOrderLocked engine order).markets = engine.markets := by
  unfold releaseOrderLocked
  split
  · rfl
  · split <;> rfl

theorem releaseOrderLocked_balances :
    (releaseOrderLocked engine order).balances =
      if order.side = .sideBuy ∧ 0 < order.lockedFunds.toInt then
        engine.balances.update order.userID (·.unfreeze order.lockedFunds)
      else
        engine.balances := by
  unfold releaseOrderLocked
  by_cases locked : order.lockedFunds ≤ 0
  · rw [if_pos locked, if_neg]
    rw [le_zero_iff] at locked
    omega
  · rw [if_neg locked]
    rw [le_zero_iff] at locked
    cases side : order.side with
    | sideBuy =>
        rw [if_pos ⟨rfl, by omega⟩]
        rfl
    | sideSell =>
        rw [if_neg (by simp)]
        rfl

theorem releaseOrderLocked_positions :
    (releaseOrderLocked engine order).positions =
      if order.side = .sideSell ∧ 0 < order.lockedFunds.toInt then
        engine.positions.update order.positionKey
          (·.unfreeze order.lockedFunds)
      else
        engine.positions := by
  unfold releaseOrderLocked
  by_cases locked : order.lockedFunds ≤ 0
  · rw [if_pos locked, if_neg]
    rw [le_zero_iff] at locked
    omega
  · rw [if_neg locked]
    rw [le_zero_iff] at locked
    cases side : order.side with
    | sideBuy =>
        rw [if_neg (by simp)]
        rfl
    | sideSell =>
        rw [if_pos ⟨rfl, by omega⟩]
        rfl

/-- The lock of an order after its release: a lock that is not positive is
left as it is. -/
def Order.released (order : Order) : Order :=
  if order.lockedFunds ≤ 0 then order else { order with lockedFunds := 0 }

theorem lookup_releaseOrderLocked
    (registered : engine.orders.lookup order.id = some order) (id : String) :
    (releaseOrderLocked engine order).orders.lookup id =
      if id = order.id then some order.released
      else engine.orders.lookup id := by
  unfold releaseOrderLocked Order.released
  by_cases locked : order.lockedFunds ≤ 0
  · rw [if_pos locked, if_pos locked]
    split
    · rename_i same
      rw [same, registered]
    · rfl
  · rw [if_neg locked, if_neg locked]
    cases order.side with
    | sideBuy => exact FiniteMap.lookup_insert_eq _ _ _ _
    | sideSell => exact FiniteMap.lookup_insert_eq _ _ _ _

end Release

theorem Order.released_eq (order : Order) :
    order.released = order.withLock order.released.lockedFunds := by
  unfold Order.released
  split <;> rfl

theorem Order.released_terms (order : Order) :
    order.released.SameTerms order := by
  rw [Order.released_eq]
  exact order.withLock_terms _

theorem Order.released_status (order : Order) :
    order.released.status = order.status := by
  rw [Order.released_eq]
  rfl

theorem Order.released_filled (order : Order) :
    order.released.filledQuantity = order.filledQuantity := by
  rw [Order.released_eq]
  rfl

theorem Order.released_lockedFunds (order : Order) :
    order.released.lockedFunds.toInt = min 0 order.lockedFunds.toInt := by
  unfold Order.released
  split
  · rename_i locked
    rw [le_zero_iff] at locked
    omega
  · rename_i locked
    rw [le_zero_iff] at locked
    rw [Int64.toInt_zero]
    omega

/-! Two states that differ at most in ledgers and locks. -/

def Order.unlocked (order : Order) : Order :=
  { order with lockedFunds := 0 }

structure SameUpToLocks (left right : Engine) : Prop where
  markets : right.markets = left.markets
  orders : ∀ id, (right.orders.lookup id).map Order.unlocked =
    (left.orders.lookup id).map Order.unlocked

theorem SameUpToLocks.trans {first second third : Engine}
    (left : SameUpToLocks first second)
    (right : SameUpToLocks second third) :
    SameUpToLocks first third :=
  ⟨right.markets.trans left.markets,
    fun id => (right.orders id).trans (left.orders id)⟩

theorem settleAll_sameUpToLocks {engine : Engine} (trades : List Trade)
    (keyed : engine.Keyed)
    (distinct : ∀ trade ∈ trades, trade.orderID ≠ trade.matchOrderID) :
    SameUpToLocks engine (settleAll engine trades) where
  markets := settleAll_markets engine trades
  orders := by
    intro id
    rw [lookup_settleAll keyed distinct, Option.map_map]
    apply congrArg fun change => (engine.orders.lookup id).map change
    funext order
    change (order.settledAll trades).unlocked = order.unlocked
    rw [Order.settledAll_eq]
    rfl

theorem releaseOrderLocked_sameUpToLocks {engine : Engine} {order : Order}
    (registered : engine.orders.lookup order.id = some order) :
    SameUpToLocks engine (releaseOrderLocked engine order) where
  markets := releaseOrderLocked_markets engine order
  orders := by
    intro id
    rw [lookup_releaseOrderLocked engine order registered]
    split
    · rename_i same
      rw [same, registered, Option.map_some, Option.map_some,
        Order.released_eq]
      rfl
    · rfl

theorem release_sameUpToLocks {engine : Engine} (keyed : engine.Keyed)
    (orderID : String) : SameUpToLocks engine (engine.release orderID) := by
  unfold Engine.release
  cases present : engine.orders.lookup orderID with
  | none => exact ⟨rfl, fun _ => rfl⟩
  | some order =>
      apply releaseOrderLocked_sameUpToLocks
      rw [keyed orderID order present]
      exact present

end Predix
