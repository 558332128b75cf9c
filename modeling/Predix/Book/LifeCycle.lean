import Predix.Book.PriceTime

namespace Predix

open Data Word

/-! The life of an order along a run, and the trades that fill it. -/

/-- What the trades of a run have moved for one order. -/
def tradedQuantity (trades : List Trade) (orderID : String) : Int :=
  namedSum (fun trade => trade.quantity.toInt) trades orderID

/-- The trades of a run account for every filled quantity. -/
structure TradesAccount (history : History) : Prop where
  wellFormed : WellFormed history.engine
  registered : ∀ trade ∈ history.trades, ∀ orderID, trade.names orderID →
    ∃ order, history.engine.orders.lookup orderID = some order
  filled : ∀ {orderID order},
    history.engine.orders.lookup orderID = some order →
      order.filledQuantity.toInt = tradedQuantity history.trades orderID

namespace TradesAccount

variable {history : History} {engine : Engine}

theorem start (balances positions : Accounts String) :
    TradesAccount (History.start (Engine.seeded balances positions)) where
  wellFormed := wellFormed_seeded balances positions
  registered := by
    intro trade member
    simp [History.start] at member
  filled := by
    intro orderID order present
    simp [History.start, Engine.seeded] at present

theorem of_same (account : TradesAccount history)
    (wellFormed : WellFormed engine)
    (forward : ∀ id order, history.engine.orders.lookup id = some order →
      ∃ later, engine.orders.lookup id = some later)
    (back : ∀ id later, engine.orders.lookup id = some later →
      ∃ order, history.engine.orders.lookup id = some order ∧
        later.filledQuantity = order.filledQuantity)
    (accepted : List String) :
    TradesAccount ⟨engine, accepted, history.trades⟩ where
  wellFormed := wellFormed
  registered := by
    intro trade member orderID named
    obtain ⟨order, present⟩ := account.registered trade member orderID named
    exact forward orderID order present
  filled := by
    intro orderID later present
    obtain ⟨order, old, same⟩ := back orderID later present
    rw [same]
    exact account.filled old

private theorem of_orders (account : TradesAccount history)
    (wellFormed : WellFormed engine)
    (orders : engine.orders = history.engine.orders)
    (accepted : List String) :
    TradesAccount ⟨engine, accepted, history.trades⟩ := by
  refine account.of_same wellFormed ?_ ?_ accepted
  · intro id order present
    exact ⟨order, by rw [orders]; exact present⟩
  · intro id later present
    exact ⟨later, by rw [← orders]; exact present, rfl⟩

private theorem traded_fresh (account : TradesAccount history)
    {orderID : String}
    (fresh : history.engine.orders.lookup orderID = none) :
    tradedQuantity history.trades orderID = 0 := by
  apply namedSum_of_unnamed
  intro trade member named
  obtain ⟨order, present⟩ := account.registered trade member orderID named
  rw [fresh] at present
  contradiction

private theorem accepted {order : Order} {market : Market}
    (account : TradesAccount history) (submitted : order.Submitted)
    (fresh : history.engine.orders.lookup order.id = none)
    (hasMarket : history.engine.markets.lookup order.eventID = some market)
    (accepted : List String) :
    TradesAccount ⟨history.engine.matched order market, accepted,
      history.trades ++ history.engine.tradesFor order⟩ := by
  have wellFormed := account.wellFormed
  have same := matched_sameUpToLocks wellFormed submitted fresh hasMarket
  have foreign : ∀ fill ∈ history.engine.fillsFor order,
      fill.maker.id ≠ order.id :=
    fun fill member => fillsFor_ne_fresh wellFormed fresh member
  refine ⟨wellFormed_matched wellFormed submitted fresh hasMarket, ?_, ?_⟩
  · intro trade member orderID named
    rcases List.mem_append.mp member with old | new
    · obtain ⟨found, present⟩ := account.registered trade old orderID named
      exact matched_keeps wellFormed submitted fresh hasMarket present
    · obtain ⟨fill, fillMember, rfl⟩ := List.mem_map.mp new
      rcases trade_names.mp named with rfl | rfl
      · obtain ⟨lock, present⟩ :=
          lookup_matched_taker wellFormed submitted fresh hasMarket
        exact ⟨_, present⟩
      · exact matched_keeps wellFormed submitted fresh hasMarket
          (fillsFor_maker wellFormed fillMember).1
  · intro orderID found present
    obtain ⟨lock, walkedPresent⟩ := same.lookup present
    have locked : (found.withLock lock).filledQuantity =
      found.filledQuantity := rfl
    rw [← locked, tradedQuantity, namedSum_append]
    generalize found.withLock lock = walked at walkedPresent
    cases afterWalk wellFormed fresh walkedPresent with
    | taker =>
        have before := account.traded_fresh fresh
        unfold tradedQuantity at before
        rw [taker_filled _ submitted, before, Engine.tradesFor,
          namedSum_taker, zero_add]
        rfl
    | maker fill fillMember =>
        have makerPresent := (fillsFor_maker wellFormed fillMember).1
        obtain ⟨_, positive, le⟩ := fillsFor_counterparty submitted fillMember
        rw [(filled_accounted (wellFormed.accounted makerPresent) positive
            le).2.2, account.filled makerPresent, Engine.tradesFor,
          namedSum_maker _ order (fillsFor_ids_nodup wellFormed) foreign
            fillMember]
        rfl
    | other notTaker notMaker oldPresent =>
        rw [account.filled oldPresent, Engine.tradesFor,
          namedSum_other _ order notTaker notMaker, add_zero]
        rfl

end TradesAccount

theorem tradesAccount_step {history : History}
    (account : TradesAccount history) (input : Input) :
    TradesAccount (history.step input) := by
  have wellFormed := account.wellFormed
  have next := wellFormed_step wellFormed input
  simp only [History.step]
  have effect := step_effect history.engine input
  generalize history.engine.step input = reply at effect next ⊢
  cases effect with
  | unchanged response _ _ =>
      simp only [Reply.unchanged, List.append_nil]
      exact account.of_orders next rfl _
  | opened order message _ _ _ _ =>
      simp only [Reply.unchanged, List.append_nil] at next ⊢
      exact account.of_orders next (opened_orders _ order) _
  | dropped order market _ _ _ _ _ =>
      simp only [List.append_nil] at next ⊢
      exact account.of_orders next (frozen_orders _ order) _
  | accepted order market submitted fresh hasMarket _ _ =>
      have valid := Input.order?_submitted submitted
      rw [announceAndMatch_enrolled wellFormed valid fresh hasMarket]
      exact account.accepted valid fresh hasMarket _
  | canceled req order market _ present live hasMarket _ =>
      have ownID := wellFormed.keyed _ _ present
      rw [← ownID] at present
      simp only [List.append_nil] at next ⊢
      refine account.of_same next ?_ ?_ _
      · intro id found foundPresent
        obtain ⟨lock, lookedUp⟩ := lookup_cancel history.engine
          order market id
        rw [lookedUp]
        split
        · exact ⟨_, rfl⟩
        · exact ⟨found, foundPresent⟩
      · intro id later laterPresent
        obtain ⟨lock, lookedUp⟩ := lookup_cancel history.engine
          order market id
        rw [lookedUp] at laterPresent
        split at laterPresent
        · rename_i same
          cases laterPresent
          exact ⟨order, by rw [same]; exact present, rfl⟩
        · exact ⟨later, laterPresent, rfl⟩
  | marketCreated eventID _ absent =>
      simp only [Reply.unchanged, List.append_nil] at next ⊢
      exact account.of_orders next rfl _
  | userFunded userID _ _ =>
      simp only [Reply.unchanged, List.append_nil] at next ⊢
      exact account.of_orders next rfl _

theorem tradesAccount_run (balances positions : Accounts String)
    (inputs : List Input) :
    TradesAccount (runSeeded balances positions inputs) :=
  runSeeded_always TradesAccount
    (fun _ input account => tradesAccount_step account input)
    (TradesAccount.start balances positions) inputs

/-! An order that is FILLED or CANCELED is final. -/

private theorem step_closed {engine : Engine} (wellFormed : WellFormed engine)
    (input : Input) {id : String} {order : Order}
    (present : engine.orders.lookup id = some order)
    (closed : order.status.live = false) :
    (∃ lock, (engine.step input).engine.orders.lookup id =
      some (order.withLock lock)) ∧
    ∀ trade ∈ (engine.step input).trades, ¬ trade.names id := by
  have same : order.withLock order.lockedFunds = order := rfl
  have effect := step_effect engine input
  generalize engine.step input = reply at effect ⊢
  cases effect with
  | unchanged response _ _ =>
      exact ⟨⟨order.lockedFunds, present⟩, by simp [Reply.unchanged]⟩
  | opened other message _ _ _ =>
      refine ⟨⟨order.lockedFunds, ?_⟩, by simp [Reply.unchanged]⟩
      rw [Reply.unchanged, opened_orders, same]
      exact present
  | dropped other market _ _ _ _ _ =>
      refine ⟨⟨order.lockedFunds, ?_⟩, by simp⟩
      rw [frozen_orders, same]
      exact present
  | accepted other market submitted fresh hasMarket _ _ =>
      have valid := Input.order?_submitted submitted
      rw [announceAndMatch_enrolled wellFormed valid fresh hasMarket]
      have notTaker : id ≠ other.id := by
        intro equal
        rw [equal, fresh] at present
        contradiction
      have notMaker : ∀ fill ∈ engine.fillsFor other, fill.maker.id ≠ id := by
        -- only open orders rest in a book
        intro fill member equal
        obtain ⟨makerPresent, live, _⟩ := fillsFor_maker wellFormed member
        rw [equal, present] at makerPresent
        cases makerPresent
        rw [closed] at live
        contradiction
      constructor
      · apply (matched_sameUpToLocks wellFormed valid fresh
          hasMarket).symm.lookup
        rw [lookup_walked_other notTaker notMaker]
        exact present
      · intro trade member
        obtain ⟨fill, fillMember, rfl⟩ := List.mem_map.mp member
        rw [trade_names]
        rintro (taker | maker)
        · exact notTaker taker.symm
        · exact notMaker fill fillMember maker
  | canceled req other market _ otherPresent live hasMarket _ =>
      have ownID := wellFormed.keyed _ _ otherPresent
      refine ⟨⟨order.lockedFunds, ?_⟩, by simp⟩
      obtain ⟨lock, lookedUp⟩ := lookup_cancel engine
        other market id
      rw [lookedUp, if_neg, same]
      · exact present
      · intro equal
        rw [equal, ownID, otherPresent] at present
        cases present
        rw [live] at closed
        contradiction
  | marketCreated eventID _ absent =>
      exact ⟨⟨order.lockedFunds, present⟩, by simp [Reply.unchanged]⟩
  | userFunded userID _ _ =>
      exact ⟨⟨order.lockedFunds, present⟩, by simp [Reply.unchanged]⟩

theorem run_closed {history : History} (wellFormed : WellFormed history.engine)
    (inputs : List Input) :
    ∃ later, (history.run inputs).trades = history.trades ++ later ∧
      ∀ {id order}, history.engine.orders.lookup id = some order →
        order.status.live = false →
          (∃ lock, (history.run inputs).engine.orders.lookup id =
            some (order.withLock lock)) ∧
          ∀ trade ∈ later, ¬ trade.names id := by
  induction inputs generalizing history with
  | nil =>
      refine ⟨[], by simp [History.run, runFrom], ?_⟩
      intro id order present _
      exact ⟨⟨order.lockedFunds, present⟩, by simp⟩
  | cons input inputs induction =>
      obtain ⟨later, trades, final⟩ := @induction (history.step input)
        (wellFormed_step wellFormed input)
      refine ⟨(history.engine.step input).trades ++ later, ?_, ?_⟩
      · rw [← List.append_assoc]
        exact trades
      · intro id order present closed
        obtain ⟨⟨lock, kept⟩, unnamed⟩ :=
          step_closed wellFormed input present closed
        obtain ⟨⟨lastLock, last⟩, laterUnnamed⟩ := final kept closed
        refine ⟨⟨lastLock, last⟩, ?_⟩
        intro trade member
        rcases List.mem_append.mp member with now | after
        · exact unnamed trade now
        · exact laterUnnamed trade after

structure Order.Reconciled (order : Order) (trades : List Trade) : Prop where
  balanced : order.filledQuantity.toInt + order.remainingQuantity.toInt =
    order.quantity.toInt
  filledNonneg : 0 ≤ order.filledQuantity
  remainingNonneg : 0 ≤ order.remainingQuantity
  traded : order.filledQuantity.toInt = tradedQuantity trades order.id
  pending : order.status = .statusPending → order.filledQuantity = 0
  partly : order.status = .statusPartial →
    0 < order.filledQuantity ∧ order.filledQuantity < order.quantity
  full : order.status = .statusFilled ↔ order.remainingQuantity = 0
  notRejected : order.status ≠ .statusRejected

/-- Every order of every reached state is reconciled with the trades produced
so far; one that is FILLED or CANCELED keeps its status and quantities, and no
later trade names it. -/
theorem runSeeded_lifeCycle (balances positions : Accounts String)
    (inputs later : List Input) :
    (∀ id order,
      (runSeeded balances positions inputs).engine.orders.lookup id =
        some order →
          order.id = id ∧ order.Reconciled
            (runSeeded balances positions inputs).trades) ∧
    ∃ newTrades,
      (runSeeded balances positions (inputs ++ later)).trades =
        (runSeeded balances positions inputs).trades ++ newTrades ∧
      ∀ id order,
        (runSeeded balances positions inputs).engine.orders.lookup id =
          some order →
        order.status = .statusFilled ∨ order.status = .statusCanceled →
          (∃ final,
            (runSeeded balances positions
              (inputs ++ later)).engine.orders.lookup id = some final ∧
            final.status = order.status ∧ final.quantity = order.quantity ∧
            final.filledQuantity = order.filledQuantity ∧
            final.remainingQuantity = order.remainingQuantity) ∧
          ∀ trade ∈ newTrades, ¬ trade.names id := by
  have account := tradesAccount_run balances positions inputs
  have continued : runSeeded balances positions (inputs ++ later) =
      (runSeeded balances positions inputs).run later :=
    runFrom_append History.step _ inputs later
  rw [continued]
  generalize runSeeded balances positions inputs = history at account ⊢
  have wellFormed := account.wellFormed
  constructor
  · intro id order present
    have accounted := wellFormed.accounted present
    have ownID := wellFormed.keyed id order present
    refine ⟨ownID, accounted.balanced, ?_, ?_, ?_, ?_, ?_, ?_,
      accounted.notRejected⟩
    · rw [Int64.le_iff_toInt_le]
      exact accounted.filledNonneg
    · rw [Int64.le_iff_toInt_le]
      exact accounted.remainingNonneg
    · rw [ownID]
      exact account.filled present
    · intro pending
      exact eq_zero_iff.mpr (accounted.pending pending)
    · intro partly
      rw [zero_lt_iff, Int64.lt_iff_toInt_lt]
      exact accounted.partly partly
    · rw [eq_zero_iff]
      exact accounted.full
  · obtain ⟨newTrades, trades, final⟩ := run_closed wellFormed later
    refine ⟨newTrades, trades, ?_⟩
    intro id order present isFinal
    have closed : order.status.live = false := by
      rcases isFinal with filled | canceled
      · rw [filled]
        rfl
      · rw [canceled]
        rfl
    obtain ⟨⟨lock, kept⟩, unnamed⟩ := final present closed
    exact ⟨⟨order.withLock lock, kept, rfl, rfl, rfl, rfl⟩, unnamed⟩

end Predix
