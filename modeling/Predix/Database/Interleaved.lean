import Predix.Concurrency.Journal
import Predix.Database.Mirror

namespace Predix

open Data Word

/-! The stream of several partitions. -/

def Delivers (event : Event) (handling : Handling) : Prop :=
  ¬ handling.envelope.Stale handling.counter ∧
    ∃ tradeID : UUID, handling.envelope.data = event.data tradeID

namespace Database

/-- The worker's way through a stream, up to the first error. Each envelope
meets the fencing counter of its own partition. -/
def drainAll [UUID.Parser] (db : Database) (handlings : List Handling) :
    Except String Database :=
  handlings.foldlM (fun db handling =>
    db.handleEnvelope handling.counter handling.envelope) db

/-! The error of a buyer who is short. -/

variable {db later : Database}

private theorem deductBalance_short {id : UUID} {amount : Int}
    (done : db.deductBalance id amount = .ok (later, 0)) {balance : Int}
    (found : db.users.lookup id = some balance) : balance < amount := by
  unfold deductBalance at done
  rw [found] at done
  dsimp only at done
  split at done
  · obtain ⟨_, _, written⟩ := bind_ok.mp done
    cases written
  · omega

private theorem reflectTrade_short {trade : TradeData} {keys : TradeKeys}
    (failed : db.reflectTrade trade keys.tradeID keys.eventID keys.buyerID
      keys.sellerID keys.takerOrderID keys.makerOrderID =
        .error "insufficient buyer balance")
    {balance : Int} (found : db.users.lookup keys.buyerID = some balance) :
    balance < trade.amount := by
  -- every other step fails with words of its own
  simp only [reflectTrade, bind_error, orElse_error, orElse_ok, require_error,
    String.reduceEq, and_false, false_or, or_false, exists_false, and_true,
    not_not] at failed
  obtain ⟨_, takerDone, _, makerDone, ⟨_, tag⟩, paid, none⟩ := failed
  obtain ⟨_, _, _, rfl⟩ := applyOrderFill_ok.mp takerDone
  obtain ⟨_, _, _, rfl⟩ := applyOrderFill_ok.mp makerDone
  subst none
  exact deductBalance_short paid found

private theorem settleTrade_short [UUID.Parser] {trade : TradeData}
    (failed : db.settleTrade trade = .error "insufficient buyer balance") :
    ∃ keys balance, trade.Names keys ∧
      db.users.lookup keys.buyerID = some balance ∧ balance < trade.amount := by
  obtain ⟨keys, names⟩ : ∃ keys, trade.Names keys := by
    simp only [settleTrade, bind_error, present_error, present_ok,
      String.reduceEq, and_false, false_or] at failed
    obtain ⟨tradeID, isTrade, eventID, isEvent, buyerID, isBuyer, sellerID,
      isSeller, takerOrderID, isTaker, makerOrderID, isMaker, _⟩ := failed
    exact ⟨⟨tradeID, eventID, buyerID, sellerID, takerOrderID, makerOrderID⟩,
      isTrade, isEvent, isBuyer, isSeller, isTaker, isMaker⟩
  rw [settleTrade_eq names] at failed
  split at failed
  · cases failed
  · exact absurd (Except.error.inj failed) (by decide)
  · rename_i inserted insertion
    obtain ⟨row, rfl, _, _, _, buyer, _⟩ := insertTrade_ok insertion
    obtain ⟨balance, found⟩ := Option.ne_none_iff_exists'.mp buyer
    exact ⟨keys, balance, names, found, reflectTrade_short failed found⟩

private theorem validateTrade_ne {trade : TradeData} :
    validateTrade trade ≠ .error "insufficient buyer balance" := by
  simp [validateTrade, bind_error]

private theorem handleTradeExecuted_short [UUID.Parser] {trade : TradeData}
    (failed : db.handleTradeExecuted (some trade) =
      .error "insufficient buyer balance") :
    ∃ keys balance, trade.Names keys ∧
      db.users.lookup keys.buyerID = some balance ∧ balance < trade.amount := by
  change (validateTrade trade >>= fun _ => db.settleTrade trade) = _ at failed
  obtain ⟨_, _, failed⟩ := bind_error_of_ne validateTrade_ne failed
  exact settleTrade_short failed

private theorem handleOrderCreated_ne [UUID.Parser] (order : Option OrderData) :
    db.handleOrderCreated order ≠ .error "insufficient buyer balance" := by
  simp only [handleOrderCreated, ne_eq, bind_error, present_error,
    String.reduceEq, and_false, false_or, not_exists, not_and]
  intro _ _ _ _ _ _ _ _
  split <;> simp [pure, Except.pure]

private theorem handleOrderCanceled_ne [UUID.Parser] (orderID : Option String) :
    db.handleOrderCanceled orderID ≠ .error "insufficient buyer balance" := by
  simp [handleOrderCanceled, bind_error]

/-! The way through a stream. -/

def ShowsCash (db : Database) (cash : String → Int) : Prop :=
  ∀ id balance, db.users.lookup id = some balance →
    balance = 10000 * cash id.text

theorem Canonical.parsed [UUID.Parser]
    {text : String} (canonical : Canonical text)
    {uuid : UUID} (parsed : UUID.parse text = some uuid) :
    uuid.text = text := by
  obtain ⟨found, isFound, isText⟩ := canonical.exists
  cases parsed.symm.trans isFound
  exact isText

section Trade

variable [UUID.Parser]

variable {trade : Trade} {tradeID : UUID} {cash : String → Int}
  (between : trade.Between Canonical) (shows : db.ShowsCash cash)

include between shows

private theorem handleTradeExecuted_ne
    (covered : trade.cost.toInt ≤ cash trade.buyerID) :
    db.handleTradeExecuted (some (trade.data tradeID.text)) ≠
      .error "insufficient buyer balance" := by
  intro failed
  obtain ⟨keys, balance, names, found, short⟩ :=
    handleTradeExecuted_short failed
  have isBuyer : keys.buyerID.text = trade.buyerID :=
    Canonical.parsed between.1 names.buyer
  rw [shows _ _ found, amount_data, isBuyer] at short
  omega

private theorem handleTradeExecuted_shows
    (new : db.trades.lookup tradeID = none)
    (done : db.handleTradeExecuted (some (trade.data tradeID.text)) =
      .ok later) :
    later.ShowsCash (fun userID => cash userID + Leg.cash.net [trade] userID) ∧
      ∀ {id : UUID}, id ≠ tradeID →
        later.trades.lookup id = db.trades.lookup id := by
  obtain ⟨data, keys, isData, _, names, effect⟩ :=
    handleTradeExecuted_effect done
  cases isData
  have isID : keys.tradeID = tradeID :=
    Option.some.inj (names.own.symm.trans (UUID.parse_text tradeID))
  rcases effect with ⟨unique, _⟩ | ⟨_, _, settles⟩
  · have there := insertTrade_unique unique
    change db.trades.lookup keys.tradeID ≠ none at there
    rw [isID] at there
    exact absurd new there
  · refine ⟨?_, ?_⟩
    · intro id balance found
      exact settles.balances (Canonical.parsed between.1 names.buyer)
        (Canonical.parsed between.2 names.seller)
        (fun isBefore => shows _ _ isBefore) found
    · intro id other
      obtain ⟨_, row, _, _, _, written⟩ := settles.trades
      rw [written, FiniteMap.lookup_insert_eq, isID, if_neg other]

end Trade

def handledIDs (handlings : List Handling) : List String :=
  tradeIDs (handlings.map Handling.envelope)

/-- A stream whose debits are covered one by one finds no buyer short. -/
theorem drainAll_ne [UUID.Parser]
    {events : List Event} {handlings : List Handling}
    (delivered : List.Forall₂ Delivers events handlings)
    (between : ∀ trade ∈ tradesOf events, trade.Between Canonical)
    (distinct : (handledIDs handlings).Nodup)
    (new : ∀ id : UUID, id.text ∈ handledIDs handlings →
      db.trades.lookup id = none)
    {cash : String → Int} (shows : db.ShowsCash cash)
    (covered : Transfer.Covered cash
      ((tradesOf events).map Leg.cash.transfer)) :
    db.drainAll handlings ≠ .error "insufficient buyer balance" := by
  induction delivered generalizing db cash with
  | nil =>
      intro failed
      cases failed
  | @cons event handling events handlings delivers rest induction =>
      intro failed
      obtain ⟨current, tradeID, isData⟩ := delivers
      have handled := handleEnvelope_accepted db current
      rw [isData] at handled
      change (db.handleEnvelope handling.counter handling.envelope >>=
        fun db => db.drainAll handlings) = _ at failed
      rw [handled] at failed
      unfold handledIDs at distinct new
      rw [List.map_cons, tradeIDs_cons, EventEnvelope.tradeID?, isData]
        at distinct new
      cases event with
      | orderCreated order =>
          obtain ⟨later, done, failed⟩ :=
            bind_error_of_ne (handleOrderCreated_ne _) failed
          cases handleOrderCreated_writes done with
          | orders orders =>
              exact absurd failed
                (induction between distinct new shows covered)
      | orderCanceled orderID =>
          obtain ⟨later, done, failed⟩ :=
            bind_error_of_ne (handleOrderCanceled_ne _) failed
          cases handleOrderCanceled_writes done with
          | orders orders =>
              exact absurd failed
                (induction between distinct new shows covered)
      | tradeExecuted trade =>
          have enough := covered [] _ _ rfl
          rw [Transfer.net_nil, Int.add_zero] at enough
          have own := between trade List.mem_cons_self
          obtain ⟨later, done, failed⟩ :=
            bind_error_of_ne (handleTradeExecuted_ne own shows enough) failed
          have isNew := new tradeID (by simp [Event.data, Trade.data])
          obtain ⟨nowShows, others⟩ :=
            handleTradeExecuted_shows own shows isNew done
          obtain ⟨_, distinctRest, apart⟩ := List.nodup_append.mp distinct
          apply absurd failed
          apply induction _ distinctRest _ nowShows covered.tail
          · intro other member
            exact between other (List.mem_cons_of_mem trade member)
          · intro id member
            have other : id ≠ tradeID := by
              rintro rfl
              exact apart _ (by simp [Event.data, Trade.data]) _ member rfl
            rw [others other]
            exact new id (List.mem_append_right _ member)

/-! Whole runs. -/

/-- A move under limit trading, of users by their canonical ids, that emits a
trade only after the trades settled before it that paid its buyer. -/
def SettlesInTurn (state : Journaled) (move : Nat × WorkerAction) : Prop :=
  state.Permits move ∧ Workers.Submits Canonical move.2

instance (state : Journaled) (move : Nat × WorkerAction) :
    Decidable (SettlesInTurn state move) :=
  inferInstanceAs (Decidable (_ ∧ _))

/-- Every buyer has the price of a trade by the time its debit comes. -/
def CanSettle (start : Database) (trades : List Trade) : Prop :=
  ∀ before trade after, trades = before ++ trade :: after →
    ∀ id balance, start.users.lookup id = some balance →
      id.text = trade.buyerID → 10000 * trade.cost.toInt ≤
        balance + 10000 * Leg.cash.net before trade.buyerID

private theorem canSettle_of_covered {start : Database} {cash : String → Int}
    (shows : start.ShowsCash cash) {trades : List Trade}
    (covered : Transfer.Covered cash (trades.map Leg.cash.transfer)) :
    start.CanSettle trades := by
  intro before trade after split id balance found isBuyer
  have enough := covered (before.map Leg.cash.transfer)
    (Leg.cash.transfer trade) (after.map Leg.cash.transfer)
    (by rw [split, List.map_append, List.map_cons])
  change trade.cost.toInt ≤
    cash trade.buyerID + Leg.cash.net before trade.buyerID at enough
  rw [shows id balance found, isBuyer]
  omega

private theorem traders_canonical {balances positions : Accounts String}
    {moves : List (Nat × WorkerAction)}
    (inTurn : Along Journaled.step SettlesInTurn
      (Journaled.start (Engine.seeded balances positions)) moves) :
    ∀ trade ∈ tradesOf ((Workers.start
      (Engine.seeded balances positions)).run moves).stream,
        trade.Between Canonical := by
  have kept : ∀ state move,
      state.workers.Announcing ∧ state.workers.OwnedBy Canonical →
      SettlesInTurn state move →
        (state.step move).workers.Announcing ∧
          (state.step move).workers.OwnedBy Canonical := by
    rintro state move ⟨announcing, owned⟩ settles
    exact ⟨Workers.announcing_step announcing move,
      Workers.ownedBy_step owned announcing settles.2⟩
  have owned := (invariant_runFrom
    (fun state : Journaled =>
      state.workers.Announcing ∧ state.workers.OwnedBy Canonical) kept
    ⟨Workers.announcing_start balances positions,
      Workers.ownedBy_start Canonical balances positions⟩ inTurn).2.stream
  change ∀ trade ∈ tradesOf (Journaled.run _ moves).workers.stream, _ at owned
  rw [Journaled.run_workers] at owned
  exact owned

/-- In whatever order the partitions take turns, no debit of the stream finds
its buyer short as long as a trade waits for those that paid its buyer. -/
theorem interleaved_neverShort [UUID.Parser] {balances : Accounts String}
    (unreserved : balances.Unreserved) {positions : Accounts String}
    {start : Database}
    (equal : start.ShowsCash (Engine.seeded balances positions).worth)
    {moves : List (Nat × WorkerAction)}
    (inTurn : Along Journaled.step SettlesInTurn
      (Journaled.start (Engine.seeded balances positions)) moves)
    {handlings : List Handling}
    (delivered : List.Forall₂ Delivers
      ((Workers.start (Engine.seeded balances positions)).run moves).stream
      handlings)
    (distinct : (handledIDs handlings).Nodup)
    (new : ∀ id : UUID, id.text ∈ handledIDs handlings →
      start.trades.lookup id = none) :
    start.drainAll handlings ≠ .error "insufficient buyer balance" ∧
      start.CanSettle (tradesOf ((Workers.start
        (Engine.seeded balances positions)).run moves).stream) := by
  have permits := along_imp (fun _ _ settles => settles.1) inTurn
  have covered := Journaled.payable_run unreserved permits
  exact ⟨drainAll_ne delivered (traders_canonical inTurn) distinct new equal
    covered, canSettle_of_covered equal covered⟩

/-! A sale on one partition pays for a purchase on another. -/

def handledFrom (next : Nat) : List Event → List Handling
  | [] => []
  | event :: events =>
      ⟨some 1, event.stamped 1 (shortID (Fin.ofNat 16 next))⟩ ::
        handledFrom (next + 1) events

theorem delivers_handledFrom (next : Nat) (events : List Event) :
    List.Forall₂ Delivers events (handledFrom next events) := by
  induction events generalizing next with
  | nil => exact .nil
  | cons event events induction =>
      refine .cons ⟨?_, shortID (Fin.ofNat 16 next), rfl⟩ (induction (next + 1))
      rintro ⟨_, current, isCurrent, older⟩
      cases isCurrent
      exact Nat.lt_irrefl 1 older

def crossTables : Database where
  users := Finmap.insert (shortID 1) 0
    (Finmap.insert (shortID 2) 10000000000 (Finmap.insert (shortID 8) 0 ∅))
  events := Finmap.insert (shortID 3) 0 (Finmap.insert (shortID 7) 0 ∅)
  orders := ∅
  trades := ∅
  positions := ∅
  transactions := []

def crossBalances : Accounts String :=
  Finmap.insert (shortID 1).text ⟨0, 0⟩
    (Finmap.insert (shortID 2).text ⟨1000000, 0⟩
      (Finmap.insert (shortID 8).text ⟨0, 0⟩ ∅))

def crossPositions : Accounts String :=
  Finmap.insert (PositionID.key ⟨shortID 1, shortID 3, .outcomeYes⟩) ⟨2, 0⟩
    (Finmap.insert (PositionID.key ⟨shortID 8, shortID 7, .outcomeYes⟩) ⟨2, 0⟩
      ∅)

/-- The first user sells on the first partition, and buys on the second one for
the proceeds. Both trades are settled and wait to be emitted. -/
def crossMoves : List (Nat × WorkerAction) :=
  [(0, .take (.createEvent (shortID 3).text)),
    (1, .take (.createEvent (shortID 7).text)),
    (0, .take (.submit (shortID 10).text (shortID 3).text (shortID 2).text
      "LIMIT" "YES" "BUY" 2 5000)),
    (0, .proceed .confirmed), (0, .proceed .confirmed),
    (1, .take (.submit (shortID 11).text (shortID 7).text (shortID 8).text
      "LIMIT" "YES" "SELL" 2 5000)),
    (1, .proceed .confirmed), (1, .proceed .confirmed),
    (0, .take (.submit (shortID 12).text (shortID 3).text (shortID 1).text
      "LIMIT" "YES" "SELL" 2 5000)),
    (0, .proceed .confirmed), (0, .proceed .confirmed),
    (1, .take (.submit (shortID 13).text (shortID 7).text (shortID 1).text
      "LIMIT" "YES" "BUY" 2 5000)),
    (1, .proceed .confirmed), (1, .proceed .confirmed)]

def crossHandlings (emissions : List Nat) : List Handling :=
  handledFrom 0
    ((Workers.start (Engine.seeded crossBalances crossPositions)).run
      (crossMoves ++ emissions.map fun partitionID =>
        (partitionID, .proceed .confirmed))).stream

theorem crossTables_shows :
    crossTables.ShowsCash
      (Engine.seeded crossBalances crossPositions).worth := by
  intro id balance found
  simp only [crossTables, FiniteMap.lookup_insert_eq] at found
  split at found
  · rename_i same
    cases found
    rw [same]
    decide +kernel
  · split at found
    · rename_i same
      cases found
      rw [same]
      decide +kernel
    · split at found
      · rename_i same
        cases found
        rw [same]
        decide +kernel
      · cases found

theorem crossBalances_unreserved : crossBalances.Unreserved :=
  ((Accounts.unreserved_empty.insert _ (by decide)).insert _
    (by decide)).insert _ (by decide)

/-- The sale is emitted first. -/
theorem neverShort_crossMoves :
    crossTables.drainAll (crossHandlings [0, 1]) ≠
        .error "insufficient buyer balance" ∧
      crossTables.CanSettle (tradesOf ((Workers.start
        (Engine.seeded crossBalances crossPositions)).run
          (crossMoves ++ [0, 1].map fun partitionID =>
            (partitionID, .proceed .confirmed))).stream) :=
  interleaved_neverShort crossBalances_unreserved crossTables_shows
    (by decide +kernel) (delivers_handledFrom 0 _) (by decide +kernel)
    (fun _ _ => rfl)

/-- The purchase is emitted first: the worker finds its buyer short. -/
theorem crossMoves_short :
    crossBalances.Unreserved ∧
      crossTables.ShowsCash
        (Engine.seeded crossBalances crossPositions).worth ∧
      Along Workers.step (fun workers move =>
          (workers.task move.1).TradesLimits workers.engine move.2 ∧
            Workers.Submits Canonical move.2)
        (Workers.start (Engine.seeded crossBalances crossPositions))
        (crossMoves ++ [1, 0].map fun partitionID =>
          (partitionID, .proceed .confirmed)) ∧
      List.Forall₂ Delivers
        ((Workers.start (Engine.seeded crossBalances crossPositions)).run
          (crossMoves ++ [1, 0].map fun partitionID =>
            (partitionID, .proceed .confirmed))).stream
        (crossHandlings [1, 0]) ∧
      (handledIDs (crossHandlings [1, 0])).Nodup ∧
      crossTables.drainAll (crossHandlings [1, 0]) =
        .error "insufficient buyer balance" := by
  have failed : (crossTables.drainAll (crossHandlings [1, 0])).map
      (fun _ => ()) = .error "insufficient buyer balance" := by
    decide +kernel
  refine ⟨crossBalances_unreserved, crossTables_shows, by decide +kernel,
    delivers_handledFrom 0 _, by decide +kernel, ?_⟩
  cases result : crossTables.drainAll (crossHandlings [1, 0]) with
  | ok later =>
      rw [result] at failed
      cases failed
  | error message =>
      rw [result] at failed
      cases failed
      rfl

end Database

end Predix
