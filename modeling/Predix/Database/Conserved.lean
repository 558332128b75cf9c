import Predix.Database.Settlement
import Predix.Database.Orders

namespace Predix

open Data Word

/-! What the worker keeps whatever it is handed: money, shares, and two ledger
rows for every trade. -/

structure Handling where
  counter : Option Nat
  envelope : EventEnvelope
  deriving DecidableEq, Repr

namespace Database

/-- A handler's transaction is committed, or after an error rolled back. -/
def process [UUID.Parser] (db : Database) (handling : Handling) : Database :=
  match db.handleEnvelope handling.counter handling.envelope with
  | .ok later => later
  | .error _ => db

def processAll [UUID.Parser]
    (db : Database) (handlings : List Handling) : Database :=
  runFrom process db handlings

def money (db : Database) : Int :=
  FiniteMap.total (fun _ balance => balance) db.users

def sharesOf (eventID : UUID) (outcome : Outcome) (id : PositionID)
    (row : PositionRow) : Int :=
  if id.eventID = eventID ∧ id.outcome = outcome then row.shares else 0

def totalShares (db : Database) (eventID : UUID) (outcome : Outcome) : Int :=
  FiniteMap.total (sharesOf eventID outcome) db.positions

def volume (db : Database) (eventID : UUID) : Int :=
  (db.events.lookup eventID).getD 0

/-- Every trade has two ledger rows, and every ledger row a trade. -/
structure Paired (db : Database) : Prop where
  two : ∀ {id}, db.trades.lookup id ≠ none →
    (db.transactions.filter (·.tradeID = id)).length = 2
  refers : ∀ {row}, row ∈ db.transactions → db.trades.lookup row.tradeID ≠ none

structure Conserves (before after : Database) : Prop where
  money : after.money = before.money
  shares : ∀ eventID outcome,
    after.totalShares eventID outcome = before.totalShares eventID outcome
  paired : after.Paired

def insertedFor (before : Database) (eventID id : UUID) (row : TradeRow) :
    Int :=
  if before.trades.lookup id = none ∧ row.eventID = eventID then
    row.quantity * row.price
  else
    0

/-- Quantity times price over the trades of an event inserted since. Both
columns have eight places. -/
def insertedValue (before after : Database) (eventID : UUID) : Int :=
  FiniteMap.total (before.insertedFor eventID) after.trades

def NonNegative (db : Database) : Prop :=
  ∀ id balance, db.users.lookup id = some balance → 0 ≤ balance

end Database

/-- An envelope has a token older than the counter. -/
def EventEnvelope.Stale (envelope : EventEnvelope) (counter : Option Nat) :
    Prop :=
  envelope.fencingToken ≠ 0 ∧
    ∃ current ∈ counter, envelope.fencingToken < current

/-- A trade's value has no overflow in `qty * price`. -/
def EventData.Payable : EventData → Prop
  | .tradeExecuted (some trade) =>
      Fits (trade.quantity.toInt * trade.price.toInt)
  | _ => True

instance : DecidablePred EventData.Payable
  | .tradeExecuted (some trade) =>
      inferInstanceAs (Decidable (Fits (trade.quantity.toInt * trade.price.toInt)))
  | .tradeExecuted none | .orderCreated _ | .orderCanceled _ | .unknown _ =>
      .isTrue trivial

namespace Database

/-! What one handler writes. -/

theorem handleEnvelope_stale [UUID.Parser]
    (db : Database) {counter : Option Nat}
    {envelope : EventEnvelope} (stale : envelope.Stale counter) :
    db.handleEnvelope counter envelope = .ok db := by
  obtain ⟨stamped, current, isCurrent, older⟩ := stale
  cases isCurrent
  unfold handleEnvelope fencingDecisionForToken
  simp only [if_neg stamped, if_pos older]

theorem handleEnvelope_accepted [UUID.Parser]
    (db : Database) {counter : Option Nat}
    {envelope : EventEnvelope} (accepted : ¬ envelope.Stale counter) :
    db.handleEnvelope counter envelope = db.handleEvent envelope.data := by
  cases counter with
  | none => rfl
  | some current =>
      unfold handleEnvelope fencingDecisionForToken
      by_cases stamped : envelope.fencingToken = 0
      · simp only [if_pos stamped]
      · have current : ¬ envelope.fencingToken < current :=
          fun older => accepted ⟨stamped, current, rfl, older⟩
        simp only [if_neg stamped, if_neg current]

inductive Writes (db : Database) : EventData → Database → Prop where
  | orders {data : EventData} (orders : FiniteMap UUID OrderRow) :
      Writes db data { db with orders := orders }
  | settled {trade : TradeData} {keys : TradeKeys} {later : Database}
      (quantity : 0 < trade.quantity.toInt) (price : 0 ≤ trade.price.toInt)
      (settles : db.Settles trade keys later) :
      Writes db (.tradeExecuted (some trade)) later

variable {db later : Database}

private theorem handleTradeExecuted_writes [UUID.Parser]
    {trade : Option TradeData}
    (done : db.handleTradeExecuted trade = .ok later) :
    db.Writes (.tradeExecuted trade) later := by
  obtain ⟨data, keys, rfl, valid, _, effect⟩ := handleTradeExecuted_effect done
  rcases effect with ⟨_, rfl⟩ | ⟨_, _, settles⟩
  · exact .orders later.orders
  · have isValid := validateTrade_ok.mp valid
    exact .settled (Int64.lt_iff_toInt_lt.mp isValid.quantity)
      (Int64.le_iff_toInt_le.mp isValid.price) settles

theorem handleOrderCreated_writes [UUID.Parser] {order : Option OrderData}
    (done : db.handleOrderCreated order = .ok later) :
    db.Writes (.orderCreated order) later := by
  obtain ⟨data, id, eventID, userID, rfl, _, _, _, effect⟩ :=
    handleOrderCreated_effect done
  rcases effect with ⟨_, rfl⟩ | insertion
  · exact .orders later.orders
  · obtain ⟨row, rfl, _⟩ := insertOrder_ok insertion
    exact .orders _

theorem handleOrderCanceled_writes [UUID.Parser] {orderID : Option String}
    (done : db.handleOrderCanceled orderID = .ok later) :
    db.Writes (.orderCanceled orderID) later := by
  obtain ⟨_, id, _, _, rfl⟩ := handleOrderCanceled_effect done
  unfold updateOrderStatus
  split
  · exact .orders db.orders
  · exact .orders _

theorem handleEvent_writes [UUID.Parser] {data : EventData}
    (done : db.handleEvent data = .ok later) : db.Writes data later := by
  cases data with
  | tradeExecuted trade => exact handleTradeExecuted_writes done
  | orderCreated order => exact handleOrderCreated_writes done
  | orderCanceled orderID => exact handleOrderCanceled_writes done
  | unknown type =>
      cases done
      exact .orders db.orders

private theorem process_writes [UUID.Parser] (db : Database)
    (handling : Handling) :
    db.Writes handling.envelope.data (db.process handling) := by
  unfold process
  split
  · rename_i later done
    by_cases stale : handling.envelope.Stale handling.counter
    · rw [handleEnvelope_stale db stale] at done
      cases done
      exact .orders db.orders
    · rw [handleEnvelope_accepted db stale] at done
      exact handleEvent_writes done
  · exact .orders db.orders

/-! The sums. -/

private theorem NonNegative.insert (nonNegative : db.NonNegative) {id : UUID}
    {balance : Int} (added : 0 ≤ balance) :
    NonNegative { db with users := db.users.insert id balance } := by
  intro other found isFound
  change (db.users.insert id balance).lookup other = some found at isFound
  rw [FiniteMap.lookup_insert_eq] at isFound
  split at isFound
  · cases isFound
    exact added
  · exact nonNegative other found isFound

section Settles

variable {trade : TradeData} {keys : TradeKeys}
  (settles : db.Settles trade keys later)

include settles

private theorem Settles.money : later.money = db.money := by
  obtain ⟨balance, credit, found, _, foundCredit, written⟩ := settles.users
  unfold Database.money
  rw [written, FiniteMap.total_insert_of_lookup _ _ foundCredit,
    FiniteMap.total_insert_of_lookup _ _ found]
  omega

private theorem Settles.totalShares (quantity : 0 < trade.quantity.toInt)
    (eventID : UUID) (outcome : Outcome) :
    later.totalShares eventID outcome = db.totalShares eventID outcome := by
  obtain ⟨traded, bought, sold, _, written, boughtShares, soldShares⟩ :=
    settles.positions
  have opposite : numericFromInt (-trade.quantity) =
      -numericFromInt trade.quantity := by
    unfold numericFromInt
    rw [toInt_neg quantity]
    exact Int.neg_mul _ _
  unfold Database.shares at boughtShares
  rw [opposite] at soldShares
  unfold Database.totalShares
  rw [written, FiniteMap.total_insert_elim, FiniteMap.total_insert_elim]
  by_cases counted : keys.eventID = eventID ∧ traded = outcome
  · have all : ∀ userID, sharesOf eventID outcome
        ⟨userID, keys.eventID, traded⟩ = (·.shares) := by
      intro userID
      funext row
      exact if_pos counted
    rw [all, all]
    dsimp only
    omega
  · have none : ∀ userID, sharesOf eventID outcome
        ⟨userID, keys.eventID, traded⟩ = fun _ => 0 := by
      intro userID
      funext row
      exact if_neg counted
    have zero : ∀ found : Option PositionRow, found.elim (0 : Int)
        (fun _ => 0) = 0 := by
      intro found
      cases found <;> rfl
    rw [none, none, zero, zero]
    dsimp only
    omega

private theorem Settles.volume
    (payable : Fits (trade.quantity.toInt * trade.price.toInt))
    {before : Database}
    (kept : ∀ id, before.trades.lookup id ≠ none → db.trades.lookup id ≠ none)
    (eventID : UUID) :
    (later.volume eventID - db.volume eventID) * 100000000 =
      before.insertedValue later eventID -
        before.insertedValue db eventID := by
  obtain ⟨new, row, isEvent, isQuantity, isPrice, trades⟩ := settles.trades
  obtain ⟨volume, isVolume, events⟩ := settles.events
  have fresh : before.trades.lookup keys.tradeID = none := by
    by_contra known
    exact kept keys.tradeID known new
  unfold insertedValue
  rw [trades, FiniteMap.total_insert_of_notMem _ row new]
  unfold Database.volume insertedFor
  rw [events, FiniteMap.lookup_insert_eq, isEvent, isQuantity, isPrice]
  by_cases own : eventID = keys.eventID
  · rw [if_pos own, if_pos ⟨fresh, own.symm⟩, own, isVolume]
    unfold TradeData.amount numericFromScaled numericFromInt
    rw [toInt_mul payable]
    simp only [Option.getD_some]
    ring
  · rw [if_neg own, if_neg fun both => own both.2.symm]
    omega

private theorem Settles.nonNegative
    (payable : Fits (trade.quantity.toInt * trade.price.toInt))
    (quantity : 0 < trade.quantity.toInt) (price : 0 ≤ trade.price.toInt)
    (nonNegative : db.NonNegative) : later.NonNegative := by
  obtain ⟨balance, credit, found, enough, foundCredit, written⟩ := settles.users
  have amount : 0 ≤ trade.amount := by
    unfold TradeData.amount numericFromScaled
    rw [toInt_mul payable]
    have value := Int.mul_nonneg (Int.le_of_lt quantity) price
    omega
  have left : (NonNegative { db with
      users := db.users.insert keys.buyerID (balance - trade.amount) }) :=
    nonNegative.insert (by omega)
  intro id now isNow
  rw [written] at isNow
  exact left.insert (Int.add_nonneg (left keys.sellerID credit foundCredit) amount)
    id now isNow

private theorem Settles.paired (paired : db.Paired) : later.Paired := by
  obtain ⟨new, row, _, _, _, trades⟩ := settles.trades
  have ids : ∀ added ∈ transactionRows trade keys,
      added.tradeID = keys.tradeID := by
    intro added member
    simp only [transactionRows, List.mem_cons, List.not_mem_nil, or_false]
      at member
    rcases member with rfl | rfl <;> rfl
  constructor
  · intro id known
    rw [settles.transactions, List.filter_append, List.length_append]
    by_cases own : id = keys.tradeID
    · have earlier : db.transactions.filter (·.tradeID = id) = [] := by
        apply List.filter_eq_nil_iff.mpr
        intro old member isOwn
        have there := paired.refers member
        rw [of_decide_eq_true isOwn, own] at there
        exact there new
      rw [earlier, List.filter_eq_self.mpr fun added member =>
        decide_eq_true ((ids added member).trans own.symm)]
      rfl
    · have none : (transactionRows trade keys).filter (·.tradeID = id) = [] := by
        apply List.filter_eq_nil_iff.mpr
        intro added member isOwn
        exact own ((of_decide_eq_true isOwn).symm.trans (ids added member))
      rw [trades, FiniteMap.lookup_insert_eq, if_neg own] at known
      rw [none]
      exact paired.two known
  · intro found member
    rw [trades, FiniteMap.lookup_insert_eq]
    rw [settles.transactions] at member
    split
    · simp
    · rename_i foreign
      rcases List.mem_append.mp member with old | added
      · exact paired.refers old
      · exact absurd (ids found added) foreign

end Settles

/-! Any sequence of envelopes. -/

private theorem Conserves.writes {before : Database} {data : EventData}
    (conserves : before.Conserves db) (writes : db.Writes data later) :
    before.Conserves later := by
  cases writes with
  | orders orders =>
      exact ⟨conserves.money, conserves.shares,
        ⟨conserves.paired.two, conserves.paired.refers⟩⟩
  | settled quantity price settles =>
      refine ⟨settles.money.trans conserves.money, ?_,
        settles.paired conserves.paired⟩
      intro eventID outcome
      exact (settles.totalShares quantity eventID outcome).trans
        (conserves.shares eventID outcome)

structure AccountsFor (before after : Database) : Prop where
  kept : ∀ id, before.trades.lookup id ≠ none → after.trades.lookup id ≠ none
  volume : ∀ eventID,
    (after.volume eventID - before.volume eventID) * 100000000 =
      before.insertedValue after eventID

private theorem AccountsFor.refl (db : Database) : db.AccountsFor db where
  kept _ known := known
  volume eventID := by
    have nothing : db.insertedValue db eventID = 0 := by
      apply FiniteMap.total_eq_zero
      intro id row found
      apply if_neg
      rintro ⟨absent, _⟩
      cases absent.symm.trans found
    rw [nothing]
    omega

private theorem AccountsFor.writes {before : Database} {data : EventData}
    (accounts : before.AccountsFor db) (payable : data.Payable)
    (writes : db.Writes data later) : before.AccountsFor later := by
  cases writes with
  | orders orders => exact ⟨accounts.kept, accounts.volume⟩
  | settled quantity price settles =>
      obtain ⟨_, row, _, _, _, trades⟩ := settles.trades
      constructor
      · intro id known
        rw [trades, FiniteMap.lookup_insert_eq]
        split
        · simp
        · exact accounts.kept id known
      · intro eventID
        have grown := settles.volume payable accounts.kept eventID
        have old := accounts.volume eventID
        omega

private theorem NonNegative.writes {data : EventData}
    (nonNegative : db.NonNegative)
    (payable : data.Payable) (writes : db.Writes data later) :
    later.NonNegative := by
  cases writes with
  | orders orders => exact nonNegative
  | settled quantity price settles =>
      exact settles.nonNegative payable quantity price nonNegative

/-- Whatever is handed to the worker, money and shares are conserved and every
trade has its two ledger rows. If no trade's value overflows, volumes grow by
the value of the inserted trades and balances stay above zero. -/
theorem processAll_conserves [UUID.Parser] (db : Database) (paired : db.Paired)
    (handlings : List Handling) :
    db.Conserves (db.processAll handlings) ∧
      ((∀ handling ∈ handlings, handling.envelope.data.Payable) →
        (∀ eventID, ((db.processAll handlings).volume eventID -
            db.volume eventID) * 100000000 =
          db.insertedValue (db.processAll handlings) eventID) ∧
        (db.NonNegative → (db.processAll handlings).NonNegative)) := by
  refine ⟨?_, fun payable => ⟨?_, fun nonNegative => ?_⟩⟩
  · apply always_runFrom db.Conserves _ ⟨rfl, fun _ _ => rfl, paired⟩
    exact fun middle handling conserves =>
      conserves.writes (process_writes middle handling)
  · have along := along_of_forall process db payable
    have accounts := invariant_runFrom db.AccountsFor
      (fun middle handling accounts payable =>
        accounts.writes payable (process_writes middle handling))
      (.refl db) along
    exact accounts.volume
  · have along := along_of_forall process db payable
    exact invariant_runFrom NonNegative
      (fun middle handling nonNegative payable =>
        nonNegative.writes payable (process_writes middle handling))
      nonNegative along

def saleTwice : List Handling :=
  (oneSale.events ++ oneSale.events).map fun event =>
    ⟨some 1, event.stamped 1 (shortID 6)⟩

theorem conserves_saleTwice :
    emptyTables.Paired ∧
      emptyTables.Conserves (emptyTables.processAll saleTwice) ∧
      (emptyTables.processAll saleTwice).NonNegative := by
  have paired : emptyTables.Paired :=
    ⟨fun known => absurd rfl known, fun member => nomatch member⟩
  have nonNegative : emptyTables.NonNegative := by
    intro id balance found
    simp only [emptyTables, FiniteMap.lookup_insert_eq] at found
    split at found
    · cases found
      decide
    · split at found
      · cases found
        decide
      · cases found
  obtain ⟨conserves, values⟩ := processAll_conserves emptyTables paired saleTwice
  exact ⟨paired, conserves, (values (by decide +kernel)).2 nonNegative⟩

end Database

end Predix
