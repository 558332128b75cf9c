import Predix.Book.SinglePass
import Predix.Ledger.Conservation

namespace Predix

open Data Word

/-! What a market BUY does to the cash of its user. It freezes everything
available, whatever the asks it meets will cost. -/

section Sweep

variable (account : Account) (amounts : List Int64)

def Account.spendAll : Account :=
  amounts.foldl Account.spend account

def lockLeft (lock : Int64) : Int64 :=
  amounts.foldl (fun left amount => clampZero (left - amount)) lock

/-- Freeze everything available, pay some amounts out of the reserved side,
and give back what is left of the lock. -/
def Account.sweep : Account :=
  let spent := Account.spendAll (account.freeze account.available) amounts
  let lock := lockLeft amounts account.available
  if 0 < lock.toInt then spent.unfreeze lock else spent

end Sweep

def amountSum (amounts : List Int64) : Int :=
  (amounts.map Int64.toInt).sum

section SweepValues

variable {account : Account} {amounts : List Int64}

theorem amountSum_cons (amount : Int64) (amounts : List Int64) :
    amountSum (amount :: amounts) = amount.toInt + amountSum amounts := rfl

theorem amountSum_nonneg (positive : ∀ amount ∈ amounts, 0 < amount.toInt) :
    0 ≤ amountSum amounts := by
  apply List.sum_nonneg
  intro value member
  obtain ⟨amount, amountMember, rfl⟩ := List.mem_map.mp member
  exact le_of_lt (positive amount amountMember)

private theorem spendAll_available (account : Account) (amounts : List Int64) :
    (Account.spendAll account amounts).available = account.available := by
  induction amounts generalizing account with
  | nil => rfl
  | cons amount amounts induction => exact induction (account.spend amount)

theorem spendAll_reserved (positive : ∀ amount ∈ amounts, 0 < amount.toInt)
    (nonneg : 0 ≤ account.reserved.toInt) :
    (Account.spendAll account amounts).reserved.toInt =
      max 0 (account.reserved.toInt - amountSum amounts) := by
  induction amounts generalizing account with
  | nil =>
      change account.reserved.toInt = max 0 (account.reserved.toInt - 0)
      omega
  | cons amount amounts induction =>
      have tail : ∀ later ∈ amounts, 0 < later.toInt :=
        fun later member => positive later (by simp [member])
      have rest := amountSum_nonneg tail
      have spent := Account.spend_reserved nonneg
        (le_of_lt (positive amount (by simp)))
      have step := @induction (account.spend amount) tail (by omega)
      rw [amountSum_cons]
      change (Account.spendAll (account.spend amount) amounts).reserved.toInt = _
      omega

private theorem spendAll_nonneg {amount : Int64}
    (positive : ∀ amount ∈ amounts, 0 < amount.toInt) :
    0 ≤ (Account.spendAll account (amount :: amounts)).reserved.toInt := by
  have spent : 0 ≤ (account.spend amount).reserved.toInt := by
    simp only [Account.spend, toInt_clampZero]
    omega
  have rest := spendAll_reserved positive spent
  change 0 ≤ (Account.spendAll (account.spend amount) amounts).reserved.toInt
  omega

theorem lockLeft_eq {lock : Int64}
    (positive : ∀ amount ∈ amounts, 0 < amount.toInt)
    (covered : amountSum amounts ≤ lock.toInt) :
    (lockLeft amounts lock).toInt = lock.toInt - amountSum amounts := by
  induction amounts generalizing lock with
  | nil =>
      change lock.toInt = lock.toInt - 0
      omega
  | cons amount amounts induction =>
      have head := positive amount (by simp)
      have tail : ∀ later ∈ amounts, 0 < later.toInt :=
        fun later member => positive later (by simp [member])
      have rest := amountSum_nonneg tail
      rw [amountSum_cons] at covered ⊢
      have left : (clampZero (lock - amount)).toInt =
          lock.toInt - amount.toInt := by
        rw [toInt_clampZero, toInt_sub_of_le (le_of_lt head) (by omega)]
        omega
      have step := @induction (clampZero (lock - amount)) tail (by omega)
      change (lockLeft amounts (clampZero (lock - amount))).toInt = _
      omega

variable (positive : ∀ amount ∈ amounts, 0 < amount.toInt)
  (covered : amountSum amounts ≤ account.available.toInt)

include positive covered

private theorem sweep_available :
    (Account.sweep account amounts).available.toInt =
      account.available.toInt - amountSum amounts := by
  have lock := lockLeft_eq positive covered
  have nothing : (Account.spendAll (account.freeze account.available)
      amounts).available = 0 := by
    rw [spendAll_available]
    exact Int64.sub_self account.available
  unfold Account.sweep
  simp only
  split
  · change ((Account.spendAll (account.freeze account.available)
      amounts).available + lockLeft amounts account.available).toInt = _
    rw [nothing, Int64.zero_add, lock]
  · rw [nothing, Int64.toInt_zero]
    omega

theorem sweep_reserved
    (nonneg : 0 ≤ (Account.spendAll (account.freeze account.available)
      amounts).reserved.toInt) :
    (Account.sweep account amounts).reserved.toInt =
      max 0 ((Account.spendAll (account.freeze account.available)
        amounts).reserved.toInt -
          (account.available.toInt - amountSum amounts)) := by
  have lock := lockLeft_eq positive covered
  unfold Account.sweep
  simp only
  split
  · rw [Account.unfreeze_reserved nonneg (by omega), lock]
  · omega

private theorem sweep_nil_reserved (none : amounts = []) :
    (Account.sweep account amounts).reserved =
      if account.available = 0 then account.reserved
      else clampZero account.reserved := by
  subst none
  change 0 ≤ account.available.toInt at covered
  have whole : lockLeft [] account.available = account.available := rfl
  unfold Account.sweep
  rw [whole]
  simp only
  by_cases zero : account.available = 0
  · rw [if_pos zero, zero, if_neg (by decide)]
    exact Int64.add_zero account.reserved
  · rw [if_neg zero]
    rw [eq_zero_iff] at zero
    rw [if_pos (by omega)]
    simp only [Account.unfreeze, Account.spendAll, List.foldl_nil,
      Account.freeze, Int64.add_sub_cancel]

section Payments

variable {amount : Int64} {later : List Int64}
  (isFirst : amounts = amount :: later)

include isFirst

/-- The first payment brings a sum that has wrapped back into range. -/
theorem sweep_reserved_of_room (nonneg : 0 ≤ account.reserved.toInt)
    (room : Fits (account.reserved.toInt + account.available.toInt -
      amount.toInt)) :
    (Account.sweep account amounts).reserved = account.reserved := by
  have afterwards := sweep_reserved positive covered
  subst isFirst
  have tail : ∀ other ∈ later, 0 < other.toInt :=
    fun other member => positive other (by simp [member])
  have rest := amountSum_nonneg tail
  rw [amountSum_cons] at covered afterwards
  have first : ((account.freeze account.available).spend
      amount).reserved.toInt =
        account.reserved.toInt + account.available.toInt - amount.toInt := by
    simp only [Account.spend, Account.freeze, toInt_clampZero]
    rw [toInt_add_sub, bmod_of_fits room]
    omega
  have spent := @spendAll_reserved
    ((account.freeze account.available).spend amount) later tail (by omega)
  change (Account.spendAll (account.freeze account.available)
    (amount :: later)).reserved.toInt = _ at spent
  rw [← Int64.toInt_inj]
  omega

/-- A sum that stays wrapped is cut off, and does not come back. -/
theorem sweep_reserved_of_wrap (nonneg : 0 ≤ account.reserved.toInt)
    (wraps : ¬ Fits (account.reserved.toInt + account.available.toInt -
      amount.toInt)) :
    (Account.sweep account amounts).reserved ≠ account.reserved := by
  have afterwards := sweep_reserved positive covered
  subst isFirst
  have tail : ∀ other ∈ later, 0 < other.toInt :=
    fun other member => positive other (by simp [member])
  have head := positive amount (by simp)
  have rest := amountSum_nonneg tail
  rw [amountSum_cons] at covered afterwards
  have small := fits_toInt account.available
  have bound := fits_toInt account.reserved
  unfold Fits at wraps small bound
  have first : ((account.freeze account.available).spend
      amount).reserved.toInt = 0 := by
    simp only [Account.spend, Account.freeze, toInt_clampZero]
    rw [toInt_add_sub, Int.bmod_def]
    omega
  have spent := @spendAll_reserved
    ((account.freeze account.available).spend amount) later tail (by omega)
  change (Account.spendAll (account.freeze account.available)
    (amount :: later)).reserved.toInt = _ at spent
  rw [Ne, ← Int64.toInt_inj]
  omega

end Payments

/-- When a sweep that its account covers leaves the reserved side as it was.
The rest of the condition is about sums that wrap. -/
theorem sweep_reserved_iff :
    (Account.sweep account amounts).reserved = account.reserved ↔
      (0 ≤ account.reserved.toInt ∨ account.available = 0) ∧
        ∀ first ∈ amounts.head?, Fits (account.reserved.toInt +
          account.available.toInt - first.toInt) := by
  cases isFirst : amounts with
  | nil =>
      rw [← isFirst, sweep_nil_reserved positive covered isFirst, isFirst]
      have clamped := toInt_clampZero account.reserved
      by_cases zero : account.available = 0
      · simp [zero]
      · rw [if_neg zero, ← Int64.toInt_inj]
        constructor
        · intro same
          exact ⟨.inl (by omega), by simp⟩
        · rintro ⟨nonneg | none, _⟩
          · omega
          · exact absurd none zero
  | cons amount later =>
      rw [← isFirst]
      have some : account.available ≠ 0 := by
        have head := positive amount (by simp [isFirst])
        have rest := amountSum_nonneg fun other member =>
          positive other (isFirst ▸ List.mem_cons_of_mem amount member)
        rw [isFirst, amountSum_cons] at covered
        rw [Ne, eq_zero_iff]
        omega
      rw [or_iff_left some, isFirst, List.head?_cons]
      simp only [Option.mem_def, Option.some.injEq, forall_eq']
      rw [← isFirst]
      by_cases nonneg : 0 ≤ account.reserved.toInt
      · by_cases room : Fits (account.reserved.toInt +
            account.available.toInt - amount.toInt)
        · exact iff_of_true
            (sweep_reserved_of_room positive covered isFirst nonneg room)
            ⟨nonneg, room⟩
        · exact iff_of_false
            (sweep_reserved_of_wrap positive covered isFirst nonneg room)
            fun both => room both.2
      · -- a negative reserved side does not survive a payment
        refine iff_of_false ?_ fun both => nonneg both.1
        have cut : 0 ≤ (Account.spendAll (account.freeze account.available)
            amounts).reserved.toInt := by
          rw [isFirst]
          exact spendAll_nonneg fun other member =>
            positive other (isFirst ▸ List.mem_cons_of_mem amount member)
        have afterwards := sweep_reserved positive covered cut
        rw [← Int64.toInt_inj]
        omega

end SweepValues

/-! The cash account of a market BUY's user. -/

private theorem applyAll_spends {accounts : Accounts String} {key : String}
    {transfers : List (Transfer String)}
    (outgoing : ∀ transfer ∈ transfers,
      transfer.payer = key ∧ transfer.payee ≠ key) :
    (Transfer.applyAll accounts transfers).account key =
      Account.spendAll (accounts.account key)
        (transfers.map Transfer.amount) := by
  induction transfers generalizing accounts with
  | nil => rfl
  | cons transfer transfers induction =>
      obtain ⟨payer, payee⟩ := outgoing transfer (by simp)
      have head : (Transfer.apply accounts transfer).account key =
          (accounts.account key).spend transfer.amount := by
        unfold Transfer.apply
        rw [Accounts.account_update_of_ne _ _ (Ne.symm payee), payer,
          Accounts.account_update_self]
      have tail := @induction (Transfer.apply accounts transfer)
        fun later member => outgoing later (by simp [member])
      rw [head] at tail
      exact tail

private theorem settledAll_lockLeft {order : Order} {trades : List Trade}
    (side : order.side = .sideBuy)
    (named : ∀ trade ∈ trades, trade.names order.id) :
    (order.settledAll trades).lockedFunds =
      lockLeft (trades.map Trade.cost) order.lockedFunds := by
  induction trades generalizing order with
  | nil => rfl
  | cons trade trades induction =>
      have head : (order.settled trade).lockedFunds =
          clampZero (order.lockedFunds - trade.cost) := by
        rw [Order.settled, if_pos (named trade (by simp)), Order.unlockFor, side]
      have tail := @induction (order.settled trade)
        ((order.settled_side trade).trans side) (by
          intro later member
          rw [Order.settled_id]
          exact named later (by simp [member]))
      rw [head] at tail
      exact tail

section Buy

variable {engine : Engine} {order : Order} {market : Market}
  (wellFormed : WellFormed engine) (submitted : order.Submitted)
  (fresh : engine.orders.lookup order.id = none)
  (hasMarket : engine.markets.lookup order.eventID = some market)
  (side : order.side = .sideBuy) (type : order.orderType = .orderTypeMarket)

include submitted side in
private theorem tradesFor_outgoing {trade : Trade}
    (member : trade ∈ engine.tradesFor order) :
    trade.buyerID = order.userID ∧ trade.sellerID ≠ order.userID := by
  obtain ⟨fill, fillMember, rfl⟩ := List.mem_map.mp member
  have counterparty := (fillsFor_counterparty submitted fillMember).1
  simp only [Fill.trade, buildTrade, side]
  exact ⟨trivial, isCounterparty_user counterparty⟩

include wellFormed submitted fresh hasMarket side type

private theorem account_marketBuy :
    (engine.matched order market).balances.account order.userID =
      Account.sweep (engine.balances.account order.userID)
        ((engine.tradesFor order).map Trade.cost) := by
  have lock : engine.lockFor order =
      (engine.balances.account order.userID).available := by
    simp only [Engine.lockFor, side, Engine.cost, reservationCost, type]
  have closed : (engine.taker order).status.live = false := by
    rw [Bool.eq_false_iff]
    intro live
    have limit := (taker_live.mp live).1
    rw [type] at limit
    contradiction
  have remnantLock : (engine.remnant order).lockedFunds =
      lockLeft ((engine.tradesFor order).map Trade.cost)
        (engine.balances.account order.userID).available := by
    unfold Engine.remnant
    rw [settledAll_lockLeft ((taker_terms engine order).side.trans side),
      taker_lockedFunds, lock]
    intro trade member
    obtain ⟨fill, _, rfl⟩ := List.mem_map.mp member
    rw [taker_id]
    exact .inl rfl
  have settled : Leg.cash.account (engine.settled order market) order.userID =
      Account.spendAll ((engine.balances.account order.userID).freeze
          (engine.balances.account order.userID).available)
        ((engine.tradesFor order).map Trade.cost) := by
    rw [Leg.account_settled, applyAll_spends, List.map_map]
    · have frozen := @Leg.account_frozen .cash engine order order.userID
      rw [if_pos ⟨side, rfl⟩, lock] at frozen
      exact congrArg (Account.spendAll · _) frozen
    · intro transfer member
      obtain ⟨trade, tradeMember, rfl⟩ := List.mem_map.mp member
      exact tradesFor_outgoing submitted side tradeMember
  have terms := remnant_terms engine order
  rw [matched_eq wellFormed submitted fresh hasMarket, closed,
    if_neg Bool.false_ne_true]
  change Leg.cash.account (releaseOrderLocked _ _) order.userID = _
  rw [Leg.account_release, settled, remnantLock, Account.sweep]
  by_cases positive : 0 < (lockLeft ((engine.tradesFor order).map Trade.cost)
      (engine.balances.account order.userID).available).toInt
  · rw [if_pos ⟨terms.side.trans side, terms.userID, positive⟩]
    simp only [if_pos positive]
  · rw [if_neg fun all => positive all.2.2]
    simp only [if_neg positive]

end Buy

/-- The trades an order would make, read off the other side of its book. -/
def Engine.quoted (engine : Engine) (order : Order) : List Trade :=
  priorityTrades order order.quantity (engine.opposing order)

/-- The trades were paid out of what was available, and of nothing else. -/
structure SpendsFree (before after : Balance) (trades : List Trade) :
    Prop where
  covered : sweepCost trades ≤ before.available.toInt
  available : after.available.toInt =
    before.available.toInt - sweepCost trades
  reserved : after.reserved = before.reserved

/-- The user can pay what is quoted. What is frozen together with what is
reserved must not wrap beyond the first payment, and there must be nothing
negative for a clamp to cut off. -/
structure Engine.CanPay (engine : Engine) (order : Order) : Prop where
  means : sweepCost (engine.quoted order) ≤
    (engine.balances.account order.userID).available.toInt
  nonneg : 0 ≤ (engine.balances.account order.userID).reserved.toInt ∨
    (engine.balances.account order.userID).available = 0
  room : ∀ first ∈ (engine.quoted order).head?,
    Fits ((engine.balances.account order.userID).reserved.toInt +
      (engine.balances.account order.userID).available.toInt -
        first.exactCost)

private theorem tradesFor_quoted {engine : Engine}
    (wellFormed : WellFormed engine)
    {order : Order} (submitted : order.Submitted) :
    engine.tradesFor order = engine.quoted order := by
  unfold Engine.tradesFor Engine.fillsFor Engine.quoted
  rw [matchTrades_eq (wellFormed.opposes order)
    (le_of_lt (submitted_open submitted)), submitted.remaining]

private theorem exactCost_le_sweepCost {trades : List Trade}
    (nonneg : ∀ trade ∈ trades, 0 ≤ trade.exactCost) {trade : Trade}
    (member : trade ∈ trades) : trade.exactCost ≤ sweepCost trades := by
  apply List.single_le_sum
  · intro amount amountMember
    obtain ⟨other, otherMember, rfl⟩ := List.mem_map.mp amountMember
    exact nonneg other otherMember
  · exact List.mem_map_of_mem member

private theorem spendsFree_sweep_iff {account : Balance} {trades : List Trade}
    (positive : ∀ trade ∈ trades, 0 < trade.exactCost) :
    SpendsFree account (Account.sweep account (trades.map Trade.cost)) trades ↔
      sweepCost trades ≤ account.available.toInt ∧
        (0 ≤ account.reserved.toInt ∨ account.available = 0) ∧
        ∀ first ∈ trades.head?, Fits (account.reserved.toInt +
          account.available.toInt - first.exactCost) := by
  by_cases means : sweepCost trades ≤ account.available.toInt
  · -- costs that sum up to no more than a balance do not wrap
    have exact : ∀ trade ∈ trades, trade.cost.toInt = trade.exactCost := by
      intro trade member
      have le := exactCost_le_sweepCost
        (fun other otherMember => le_of_lt (positive other otherMember)) member
      exact toInt_mul (fits_of_nonneg_le (le_of_lt (positive trade member))
        (le.trans means))
    have sum : amountSum (trades.map Trade.cost) = sweepCost trades := by
      unfold amountSum sweepCost
      rw [List.map_map]
      exact congrArg List.sum (List.map_congr_left exact)
    have amounts : ∀ amount ∈ trades.map Trade.cost, 0 < amount.toInt := by
      intro amount member
      obtain ⟨trade, tradeMember, rfl⟩ := List.mem_map.mp member
      rw [exact trade tradeMember]
      exact positive trade tradeMember
    have covered := le_of_eq_of_le sum means
    have available := sweep_available amounts covered
    have reserved := sweep_reserved_iff amounts covered
    rw [sum] at available
    have first : (∀ amount ∈ (trades.map Trade.cost).head?,
        Fits (account.reserved.toInt + account.available.toInt -
          amount.toInt)) ↔
        ∀ trade ∈ trades.head?, Fits (account.reserved.toInt +
          account.available.toInt - trade.exactCost) := by
      cases trades with
      | nil => simp
      | cons trade trades => simp [exact trade]
    rw [first] at reserved
    exact ⟨fun spends => ⟨means, reserved.mp spends.reserved⟩,
      fun all => ⟨means, available, reserved.mpr all.2⟩⟩
  · exact iff_of_false (fun spends => means spends.covered)
      fun all => means all.1

/-- In every state a run reaches, a market BUY spends only free money exactly
when its user can pay for what the book offers. -/
theorem runSeeded_spendsFree_iff (balances positions : Accounts String)
    (inputs : List Input) {input : Input} {order : Order}
    (submitted : input.order? = some order)
    (side : order.side = .sideBuy) (type : order.orderType = .orderTypeMarket)
    (accepted : ((runSeeded balances positions inputs).engine.step
      input).response.accepted? ≠ none) :
    let engine := (runSeeded balances positions inputs).engine
    SpendsFree (engine.balances.account order.userID)
        ((engine.step input).engine.balances.account order.userID)
        (engine.step input).trades ↔
      engine.CanPay order := by
  intro engine
  have wellFormed : WellFormed engine :=
    wellFormed_runSeeded balances positions inputs
  have valid := Input.order?_submitted submitted
  obtain ⟨market, fresh, hasMarket, _, later, trades⟩ :=
    step_accepted wellFormed submitted accepted
  have quoted := tradesFor_quoted wellFormed valid
  rw [later, trades,
    account_marketBuy wellFormed valid fresh hasMarket side type]
  rw [spendsFree_sweep_iff, quoted]
  · exact ⟨fun ⟨means, nonneg, room⟩ => ⟨means, nonneg, room⟩,
      fun canPay => ⟨canPay.means, canPay.nonneg, canPay.room⟩⟩
  · intro trade member
    obtain ⟨quantity, price⟩ := tradesFor_positive wellFormed valid member
    exact Int.mul_pos quantity price

def twoAsks : List Input :=
  [.createEvent "e",
    .submit "o1" "e" "s" "LIMIT" "YES" "SELL" 1 5000,
    .submit "o2" "e" "s" "LIMIT" "YES" "SELL" 2 5000,
    .submit "o3" "e" "b" "LIMIT" "YES" "BUY" 10 1000]

def twoAsksEngine : Engine :=
  (runSeeded (Finmap.insert "b" ⟨20000, 0⟩ ∅)
    (Finmap.insert "s:e:YES" ⟨10, 0⟩ ∅) twoAsks).engine

/-- Two shares cost what is available. -/
theorem spendsFree_twoAsks :
    SpendsFree (twoAsksEngine.balances.account "b")
      ((twoAsksEngine.step
        (.submit "o4" "e" "b" "MARKET" "YES" "BUY" 2 0)).engine.balances.account
          "b")
      (twoAsksEngine.step
        (.submit "o4" "e" "b" "MARKET" "YES" "BUY" 2 0)).trades := by
  have iff := @runSeeded_spendsFree_iff (Finmap.insert "b" ⟨20000, 0⟩ ∅)
    (Finmap.insert "s:e:YES" ⟨10, 0⟩ ∅) twoAsks
    (.submit "o4" "e" "b" "MARKET" "YES" "BUY" 2 0)
    ⟨"o4", "e", "b", .orderTypeMarket, .outcomeYes, .sideBuy, 2, 0, 2, 0,
      .statusPending, 0⟩ rfl rfl rfl (by decide +kernel)
  exact iff.mpr ⟨by decide +kernel, by decide +kernel, by decide +kernel⟩

/-- The third share is paid out of what the open order has reserved. -/
theorem marketBuy_spendsReserved :
    (twoAsksEngine.balances.account "b") = ⟨10000, 10000⟩ ∧
      sweepCost (twoAsksEngine.step
        (.submit "o4" "e" "b" "MARKET" "YES" "BUY" 3 0)).trades = 15000 ∧
      (twoAsksEngine.step
        (.submit "o4" "e" "b" "MARKET" "YES" "BUY" 3 0)).engine.balances.account
          "b" = ⟨0, 5000⟩ := by
  decide +kernel

end Predix
