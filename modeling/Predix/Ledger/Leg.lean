import Predix.Book.Step

namespace Predix

open Data Word

/-! Cash and shares are kept alike: orders of one side lock an amount of an
account, and each trade pays out of it. -/

inductive Leg where
  | cash
  | shares
  deriving DecidableEq, Repr

namespace Leg

def side : Leg → Side
  | .cash => .sideBuy
  | .shares => .sideSell

def accounts : Leg → Engine → Accounts String
  | .cash, engine => engine.balances
  | .shares, engine => engine.positions

def key : Leg → Order → String
  | .cash, order => order.userID
  | .shares, order => order.positionKey

def transfer : Leg → Trade → Transfer String
  | .cash, trade => trade.cashTransfer
  | .shares, trade => trade.shareTransfer

def account (leg : Leg) (engine : Engine) (key : String) : Account :=
  (leg.accounts engine).account key

def weight (leg : Leg) (key : String) (order : Order) : Int :=
  if order.side = leg.side ∧ leg.key order = key then
    order.lockedFunds.toInt
  else
    0

/-- What the orders of a state keep locked of one account. -/
def locked (leg : Leg) (engine : Engine) (key : String) : Int :=
  FiniteMap.total (fun _ order => leg.weight key order) engine.orders

/-- The order that pays in a fill of an incoming order. -/
def debtor (leg : Leg) (incoming : Order) (fill : Fill) : Order :=
  if incoming.side = leg.side then incoming else fill.maker

variable (leg : Leg)

theorem key_withLock (order : Order) (lock : Int64) :
    leg.key (order.withLock lock) = leg.key order := by
  cases leg <;> rfl

theorem key_of_terms {left right : Order} (terms : left.SameTerms right) :
    leg.key left = leg.key right := by
  cases leg with
  | cash => exact terms.userID
  | shares =>
      change left.positionKey = right.positionKey
      unfold Order.positionKey
      rw [terms.userID, terms.eventID, terms.outcome]

theorem unlockFor_eq {order : Order} (sameSide : order.side = leg.side)
    (trade : Trade) :
    order.unlockFor trade = (leg.transfer trade).amount := by
  cases leg <;> simp only [Order.unlockFor, sameSide, side] <;> rfl

theorem accounts_settleAll (engine : Engine) (trades : List Trade) :
    leg.accounts (settleAll engine trades) =
      Transfer.applyAll (leg.accounts engine) (trades.map leg.transfer) := by
  cases leg with
  | cash => exact settleAll_balances engine trades
  | shares => exact settleAll_positions engine trades

theorem accounts_releaseOrderLocked (engine : Engine) (order : Order) :
    leg.accounts (releaseOrderLocked engine order) =
      if order.side = leg.side ∧ 0 < order.lockedFunds.toInt then
        (leg.accounts engine).update (leg.key order)
          (·.unfreeze order.lockedFunds)
      else
        leg.accounts engine := by
  cases leg with
  | cash => exact releaseOrderLocked_balances engine order
  | shares => exact releaseOrderLocked_positions engine order

theorem accounts_frozen (engine : Engine) (order : Order) :
    leg.accounts (engine.frozen order) =
      if order.side = leg.side then
        (leg.accounts engine).update (leg.key order)
          (·.freeze (engine.lockFor order))
      else
        leg.accounts engine := by
  unfold Engine.frozen Engine.lockFor
  cases leg <;> cases orderSide : order.side <;>
    simp [accounts, side, key, Engine.updateBalance, Engine.updatePosition]

private theorem transfer_payer {incoming : Order} {fill : Fill}
    (event : fill.maker.eventID = incoming.eventID)
    (outcome : fill.maker.outcome = incoming.outcome) :
    (leg.transfer (fill.trade incoming)).payer =
      leg.key (leg.debtor incoming fill) := by
  unfold debtor
  cases leg <;> cases incomingSide : incoming.side <;>
    simp [transfer, side, key, Trade.cashTransfer, Trade.shareTransfer,
      Fill.trade, buildTrade, incomingSide, Order.positionKey, event, outcome]

/-! The locks of a state. -/

private theorem weight_of_side {order : Order}
    (otherSide : order.side ≠ leg.side)
    (key : String) : leg.weight key order = 0 := by
  unfold weight
  rw [if_neg fun both => otherSide both.1]

theorem weight_withLock {order : Order} (sameSide : order.side = leg.side)
    (key : String) (lock : Int64) :
    leg.weight key (order.withLock lock) =
      if leg.key order = key then lock.toInt else 0 := by
  unfold weight
  rw [key_withLock]
  by_cases owned : leg.key order = key
  · rw [if_pos owned, if_pos ⟨sameSide, owned⟩]
    rfl
  · rw [if_neg owned, if_neg fun both => owned both.2]

theorem weight_of_same {order : Order} (sameSide : order.side = leg.side)
    (key : String) :
    leg.weight key order =
      if leg.key order = key then order.lockedFunds.toInt else 0 :=
  leg.weight_withLock sameSide key order.lockedFunds

theorem weight_fits {engine : Engine} {order : Order}
    (refund : order.side = leg.side →
      Fits ((leg.account engine (leg.key order)).available.toInt +
        order.lockedFunds.toInt)) (key : String) :
    Fits ((leg.account engine key).available.toInt +
      leg.weight key order) := by
  unfold weight
  split
  · rename_i both
    rw [← both.2]
    exact refund both.1
  · rw [add_zero]
    exact fits_toInt _

def LocksNonneg (leg : Leg) (engine : Engine) : Prop :=
  ∀ id order, engine.orders.lookup id = some order →
    order.side = leg.side → 0 ≤ order.lockedFunds.toInt

variable {leg}

theorem LocksNonneg.weight {engine : Engine}
    (nonneg : leg.LocksNonneg engine) {id : String} {order : Order}
    (present : engine.orders.lookup id = some order) (key : String) :
    0 ≤ leg.weight key order := by
  unfold Leg.weight
  split
  · rename_i both
    exact nonneg id order present both.1
  · exact le_refl 0

theorem LocksNonneg.locked {engine : Engine}
    (nonneg : leg.LocksNonneg engine) (key : String) :
    0 ≤ leg.locked engine key :=
  FiniteMap.total_nonneg fun _ _ present => nonneg.weight present key

theorem LocksNonneg.lock_le {engine : Engine}
    (nonneg : leg.LocksNonneg engine) {id : String} {order : Order}
    (present : engine.orders.lookup id = some order)
    (sameSide : order.side = leg.side) :
    order.lockedFunds.toInt ≤ leg.locked engine (leg.key order) := by
  have le := FiniteMap.weight_le_total
    (fun _ other => leg.weight (leg.key order) other)
    (fun _ _ lookedUp => nonneg.weight lookedUp (leg.key order)) present
  rw [leg.weight_of_same sameSide, if_pos rfl] at le
  exact le

/-! One trade. -/

/-- The two orders a trade names: the one that pays on this leg, and one of
the other side. -/
structure Debits (leg : Leg) (engine : Engine) (trade : Trade)
    (payer other : Order) : Prop where
  payerPresent : engine.orders.lookup payer.id = some payer
  otherPresent : engine.orders.lookup other.id = some other
  named : trade.orderID = payer.id ∧ trade.matchOrderID = other.id ∨
    trade.orderID = other.id ∧ trade.matchOrderID = payer.id
  distinct : payer.id ≠ other.id
  payerSide : payer.side = leg.side
  otherSide : other.side ≠ leg.side
  owner : leg.key payer = (leg.transfer trade).payer

private theorem total_unlock (weight : Order → Int) {engine : Engine}
    {trade : Trade}
    {id : String} {order : Order}
    (present : engine.orders.lookup id = some order) :
    FiniteMap.total (fun _ order => weight order)
        (engine.unlock trade id).orders =
      FiniteMap.total (fun _ order => weight order) engine.orders -
        weight order +
        weight (order.withLock
          (clampZero (order.lockedFunds - order.unlockFor trade))) := by
  unfold Engine.unlock
  rw [present]
  exact FiniteMap.total_insert_of_lookup (fun _ order => weight order) _
    present

private theorem Debits.locked_settle {engine : Engine} {trade : Trade}
    {payer other : Order} (debits : leg.Debits engine trade payer other)
    (key : String) :
    leg.locked (settleTradeLocked engine trade) key =
      leg.locked engine key - leg.weight key payer +
        leg.weight key (payer.withLock
          (clampZero (payer.lockedFunds - (leg.transfer trade).amount))) := by
  have otherZero : ∀ lock, leg.weight key (other.withLock lock) = 0 := by
    intro lock
    apply leg.weight_of_side
    exact debits.otherSide
  have otherNow : leg.weight key other = 0 := otherZero other.lockedFunds
  have amount := leg.unlockFor_eq debits.payerSide trade
  unfold Leg.locked
  rw [settleTradeLocked_orders]
  rcases debits.named with ⟨taker, maker⟩ | ⟨taker, maker⟩
  · have otherLater : (engine.unlock trade payer.id).orders.lookup other.id =
        some other := by
      rw [lookup_unlock, if_neg debits.distinct.symm]
      exact debits.otherPresent
    rw [taker, maker, total_unlock (leg.weight key) otherLater,
      total_unlock (leg.weight key) debits.payerPresent, otherZero, otherNow,
      amount]
    omega
  · have payerLater : (engine.unlock trade other.id).orders.lookup payer.id =
        some payer := by
      rw [lookup_unlock, if_neg debits.distinct]
      exact debits.payerPresent
    rw [taker, maker, total_unlock (leg.weight key) payerLater,
      total_unlock (leg.weight key) debits.otherPresent, otherZero, otherNow,
      amount]
    omega

theorem debits_fill {engine : Engine} {incoming taker maker : Order}
    {fill : Fill} (takerPresent : engine.orders.lookup taker.id = some taker)
    (makerPresent : engine.orders.lookup maker.id = some maker)
    (takerID : taker.id = incoming.id) (makerID : maker.id = fill.maker.id)
    (takerTerms : taker.SameTerms incoming)
    (makerTerms : maker.SameTerms fill.maker)
    (different : fill.maker.id ≠ incoming.id)
    (event : fill.maker.eventID = incoming.eventID)
    (outcome : fill.maker.outcome = incoming.outcome)
    (across : fill.maker.side = incoming.side.opposite) :
    ∃ payer other, leg.Debits engine (fill.trade incoming) payer other := by
  have makerSide := makerTerms.side.trans across
  have payer := leg.transfer_payer event outcome
  have apart : maker.id ≠ taker.id := by
    rw [makerID, takerID]
    exact different
  have names : (fill.trade incoming).orderID = taker.id ∧
      (fill.trade incoming).matchOrderID = maker.id := by
    rw [takerID, makerID]
    exact ⟨rfl, rfl⟩
  unfold debtor at payer
  by_cases sameSide : incoming.side = leg.side
  · rw [if_pos sameSide] at payer
    refine ⟨taker, maker, takerPresent, makerPresent, .inl names, apart.symm,
      ?_, ?_, ?_⟩
    · rw [takerTerms.side, sameSide]
    · rw [makerSide, sameSide]
      exact leg.side.opposite_ne
    · rw [leg.key_of_terms takerTerms, payer]
  · rw [if_neg sameSide] at payer
    refine ⟨maker, taker, makerPresent, takerPresent, .inr names, apart, ?_,
      ?_, ?_⟩
    · rw [makerSide]
      exact (Side.eq_opposite_of_ne (Ne.symm sameSide)).symm
    · rw [takerTerms.side]
      exact sameSide
    · rw [leg.key_of_terms makerTerms, payer]

/-! A list of trades. -/

def DebitsAll (leg : Leg) (engine : Engine) (trades : List Trade) : Prop :=
  ∀ trade ∈ trades, ∃ payer other, leg.Debits engine trade payer other

/-- What a list of trades draws on the lock of one order. -/
def drawn (leg : Leg) (orderID : String) (trades : List Trade) : Int :=
  namedSum (fun trade => (leg.transfer trade).amount.toInt) trades orderID

@[simp] theorem drawn_nil (orderID : String) : leg.drawn orderID [] = 0 := rfl

theorem drawn_cons (orderID : String) (trade : Trade) (trades : List Trade) :
    leg.drawn orderID (trade :: trades) =
      (if trade.names orderID then (leg.transfer trade).amount.toInt else 0) +
        leg.drawn orderID trades := rfl

def AmountsNonneg (leg : Leg) (trades : List Trade) : Prop :=
  ∀ trade ∈ trades, 0 ≤ (leg.transfer trade).amount.toInt

theorem AmountsNonneg.tail {trade : Trade} {trades : List Trade}
    (nonneg : leg.AmountsNonneg (trade :: trades)) :
    leg.AmountsNonneg trades :=
  fun later member => nonneg later (List.mem_cons_of_mem trade member)

theorem AmountsNonneg.drawn {trades : List Trade}
    (nonneg : leg.AmountsNonneg trades) (orderID : String) :
    0 ≤ leg.drawn orderID trades :=
  namedSum_nonneg nonneg

theorem AmountsNonneg.transfers {trades : List Trade}
    (nonneg : leg.AmountsNonneg trades) :
    ∀ transfer ∈ trades.map leg.transfer, 0 ≤ transfer.amount.toInt := by
  intro transfer member
  obtain ⟨trade, tradeMember, rfl⟩ := List.mem_map.mp member
  exact nonneg trade tradeMember

theorem Debits.named_payer {engine : Engine} {trade : Trade}
    {payer other : Order} (debits : leg.Debits engine trade payer other) :
    trade.names payer.id := by
  rcases debits.named with ⟨taker, _⟩ | ⟨_, maker⟩
  · exact .inl taker
  · exact .inr maker

theorem Debits.trade_distinct {engine : Engine} {trade : Trade}
    {payer other : Order} (debits : leg.Debits engine trade payer other) :
    trade.orderID ≠ trade.matchOrderID := by
  rcases debits.named with ⟨taker, maker⟩ | ⟨taker, maker⟩
  · rw [taker, maker]
    exact debits.distinct
  · rw [taker, maker]
    exact debits.distinct.symm

theorem DebitsAll.of_sameUpToLocks {left right : Engine}
    (same : SameUpToLocks left right) {trades : List Trade}
    (debits : leg.DebitsAll left trades) : leg.DebitsAll right trades := by
  intro trade member
  obtain ⟨payer, other, payerPresent, otherPresent, named, distinct,
    payerSide, otherSide, owner⟩ := debits trade member
  obtain ⟨payerLock, payerLater⟩ := same.symm.lookup payerPresent
  obtain ⟨otherLock, otherLater⟩ := same.symm.lookup otherPresent
  exact ⟨payer.withLock payerLock, other.withLock otherLock, payerLater,
    otherLater, named, distinct, payerSide, otherSide,
    (leg.key_withLock payer payerLock).trans owner⟩

theorem DebitsAll.distinct {engine : Engine} {trades : List Trade}
    (debits : leg.DebitsAll engine trades) {trade : Trade}
    (member : trade ∈ trades) : trade.orderID ≠ trade.matchOrderID := by
  obtain ⟨payer, other, debit⟩ := debits trade member
  exact debit.trade_distinct

theorem DebitsAll.settle {engine : Engine} {trade : Trade}
    {trades : List Trade} (keyed : engine.Keyed)
    (debits : leg.DebitsAll engine (trade :: trades)) :
    leg.DebitsAll (settleTradeLocked engine trade) trades := by
  have distinct := debits.distinct List.mem_cons_self
  have same : SameUpToLocks engine (settleTradeLocked engine trade) :=
    settleAll_sameUpToLocks [trade] keyed (by simpa using distinct)
  have tail : leg.DebitsAll engine trades :=
    fun later member => debits later (List.mem_cons_of_mem trade member)
  exact tail.of_sameUpToLocks same

theorem settled_lockedFunds {order : Order}
    (sameSide : order.side = leg.side)
    (lockNonneg : 0 ≤ order.lockedFunds.toInt) {trade : Trade}
    (amountNonneg : 0 ≤ (leg.transfer trade).amount.toInt) :
    (order.settled trade).lockedFunds.toInt =
      max 0 (order.lockedFunds.toInt -
        if trade.names order.id then
          (leg.transfer trade).amount.toInt
        else 0) := by
  unfold Order.settled
  rw [leg.unlockFor_eq sameSide]
  split
  · simp only [toInt_clampZero]
    rw [toInt_sub_of_nonneg lockNonneg amountNonneg]
  · omega

theorem settledAll_lockedFunds {order : Order}
    (sameSide : order.side = leg.side)
    (lockNonneg : 0 ≤ order.lockedFunds.toInt) {trades : List Trade}
    (nonneg : leg.AmountsNonneg trades) :
    (order.settledAll trades).lockedFunds.toInt =
      max 0 (order.lockedFunds.toInt - leg.drawn order.id trades) := by
  induction trades generalizing order with
  | nil =>
      simp only [Order.settledAll, List.foldl_nil, drawn_nil]
      omega
  | cons trade trades induction =>
      have head := settled_lockedFunds sameSide lockNonneg
        (nonneg trade (by simp))
      have rest := nonneg.tail.drawn order.id
      have step := induction ((order.settled_side trade).trans sameSide)
        (by omega) nonneg.tail
      rw [Order.settled_id] at step
      rw [drawn_cons]
      change ((order.settled trade).settledAll trades).lockedFunds.toInt = _
      omega

theorem LocksNonneg.settle {engine : Engine} {trade : Trade}
    (keyed : engine.Keyed) (distinct : trade.orderID ≠ trade.matchOrderID)
    (locks : leg.LocksNonneg engine)
    (amountNonneg : 0 ≤ (leg.transfer trade).amount.toInt) :
    leg.LocksNonneg (settleTradeLocked engine trade) := by
  intro id order present sameSide
  rw [lookup_settleTradeLocked engine trade keyed distinct] at present
  obtain ⟨old, oldPresent, rfl⟩ := Option.map_eq_some_iff.mp present
  have oldSide := (old.settled_side trade).symm.trans sameSide
  rw [settled_lockedFunds oldSide (locks id old oldPresent oldSide)
    amountNonneg]
  omega

theorem LocksNonneg.settleAll {engine : Engine} {trades : List Trade}
    (keyed : engine.Keyed) (debits : leg.DebitsAll engine trades)
    (locks : leg.LocksNonneg engine) (nonneg : leg.AmountsNonneg trades) :
    leg.LocksNonneg (Predix.settleAll engine trades) := by
  intro id order present sameSide
  rw [lookup_settleAll keyed fun _ member => debits.distinct member] at present
  obtain ⟨old, oldPresent, rfl⟩ := Option.map_eq_some_iff.mp present
  have oldSide := (old.settledAll_terms trades).side.symm.trans sameSide
  rw [settledAll_lockedFunds oldSide (locks id old oldPresent oldSide) nonneg]
  omega

theorem Debits.locked_settle_eq {engine : Engine} {trade : Trade}
    {payer other : Order} (debits : leg.Debits engine trade payer other)
    (lockNonneg : 0 ≤ payer.lockedFunds.toInt)
    (amountNonneg : 0 ≤ (leg.transfer trade).amount.toInt) (key : String) :
    leg.locked (settleTradeLocked engine trade) key =
      leg.locked engine key -
        if (leg.transfer trade).payer = key then
          min payer.lockedFunds.toInt (leg.transfer trade).amount.toInt
        else 0 := by
  rw [debits.locked_settle, leg.weight_of_same debits.payerSide,
    leg.weight_withLock debits.payerSide, debits.owner, toInt_clampZero,
    toInt_sub_of_nonneg lockNonneg amountNonneg]
  split <;> omega

theorem locked_settleAll_ge {engine : Engine} {trades : List Trade}
    (keyed : engine.Keyed) (debits : leg.DebitsAll engine trades)
    (locks : leg.LocksNonneg engine) (nonneg : leg.AmountsNonneg trades)
    (key : String) :
    leg.locked engine key - Transfer.paid key (trades.map leg.transfer) ≤
      leg.locked (settleAll engine trades) key := by
  induction trades generalizing engine with
  | nil =>
      simp only [List.map_nil, Transfer.paid_nil, settleAll, List.foldl_nil]
      omega
  | cons trade trades induction =>
      have amountNonneg := nonneg trade (by simp)
      obtain ⟨payer, other, debit⟩ := debits trade (by simp)
      have distinct := debit.trade_distinct
      have tail := induction (Keyed_settle keyed distinct)
        (debits.settle keyed) (locks.settle keyed distinct amountNonneg)
        nonneg.tail
      have head := debit.locked_settle_eq
        (locks _ _ debit.payerPresent debit.payerSide) amountNonneg key
      rw [List.map_cons, Transfer.paid_cons]
      change _ ≤ leg.locked (settleAll (settleTradeLocked engine trade)
        trades) key
      split at head <;> rename_i paying
      · rw [if_pos paying]
        omega
      · rw [if_neg paying]
        omega

/-- Every lock covers what the trades draw on it. -/
def Adequate (leg : Leg) (engine : Engine) (trades : List Trade) : Prop :=
  ∀ id order, engine.orders.lookup id = some order →
    order.side = leg.side → leg.drawn id trades ≤ order.lockedFunds.toInt

private theorem Adequate.settle {engine : Engine} {trade : Trade}
    {trades : List Trade} (keyed : engine.Keyed)
    (distinct : trade.orderID ≠ trade.matchOrderID)
    (locks : leg.LocksNonneg engine)
    (amountNonneg : 0 ≤ (leg.transfer trade).amount.toInt)
    (adequate : leg.Adequate engine (trade :: trades)) :
    leg.Adequate (settleTradeLocked engine trade) trades := by
  intro id order present sameSide
  rw [lookup_settleTradeLocked engine trade keyed distinct] at present
  obtain ⟨old, oldPresent, rfl⟩ := Option.map_eq_some_iff.mp present
  have oldSide := (old.settled_side trade).symm.trans sameSide
  have covered := adequate id old oldPresent oldSide
  rw [drawn_cons] at covered
  rw [settled_lockedFunds oldSide (locks id old oldPresent oldSide)
    amountNonneg, keyed id old oldPresent]
  omega

/-- Adequate locks shrink by exactly what is paid. -/
theorem locked_settleAll {engine : Engine} {trades : List Trade}
    (keyed : engine.Keyed) (debits : leg.DebitsAll engine trades)
    (locks : leg.LocksNonneg engine) (nonneg : leg.AmountsNonneg trades)
    (adequate : leg.Adequate engine trades) (key : String) :
    leg.locked (settleAll engine trades) key =
      leg.locked engine key -
        Transfer.paid key (trades.map leg.transfer) := by
  induction trades generalizing engine with
  | nil =>
      simp only [List.map_nil, Transfer.paid_nil, settleAll, List.foldl_nil]
      omega
  | cons trade trades induction =>
      have amountNonneg := nonneg trade (by simp)
      obtain ⟨payer, other, debit⟩ := debits trade (by simp)
      have distinct := debit.trade_distinct
      have tail := induction (Keyed_settle keyed distinct)
        (debits.settle keyed) (locks.settle keyed distinct amountNonneg)
        nonneg.tail (adequate.settle keyed distinct locks amountNonneg)
      have head := debit.locked_settle_eq
        (locks _ _ debit.payerPresent debit.payerSide) amountNonneg key
      have covered := adequate _ payer debit.payerPresent debit.payerSide
      rw [drawn_cons, if_pos debit.named_payer] at covered
      have restNonneg := nonneg.tail.drawn payer.id
      -- the payer's lock covers the whole amount, so the minimum is the amount
      rw [List.map_cons, Transfer.paid_cons]
      change leg.locked (settleAll (settleTradeLocked engine trade)
        trades) key = _
      split at head <;> rename_i paying
      · rw [if_pos paying]
        omega
      · rw [if_neg paying]
        omega

theorem paid_le_locked {engine : Engine} {trades : List Trade}
    (keyed : engine.Keyed) (debits : leg.DebitsAll engine trades)
    (locks : leg.LocksNonneg engine) (nonneg : leg.AmountsNonneg trades)
    (adequate : leg.Adequate engine trades) (key : String) :
    Transfer.paid key (trades.map leg.transfer) ≤ leg.locked engine key := by
  have left := locked_settleAll keyed debits locks nonneg adequate key
  have leftNonneg := (locks.settleAll keyed debits nonneg).locked key
  omega

end Leg

end Predix
