import Predix.Concurrency.Announce
import Predix.Concurrency.Backing

namespace Predix

open Data Word

/-! Trades are settled under one lock and emitted under another: the order in
which they are settled, beside the order in which they enter the stream. -/

def Event.trade? : Event → Option Trade
  | .tradeExecuted trade => some trade
  | .orderCreated _ => none
  | .orderCanceled _ => none

def tradesOf (events : List Event) : List Trade :=
  events.filterMap Event.trade?

theorem tradesOf_append (first second : List Event) :
    tradesOf (first ++ second) = tradesOf first ++ tradesOf second :=
  List.filterMap_append

theorem tradesOf_executed (trades : List Trade) :
    tradesOf (trades.map .tradeExecuted) = trades := by
  unfold tradesOf
  rw [List.filterMap_map]
  exact List.filterMap_some

theorem tradesOf_eq_nil {events : List Event}
    (noTrade : ∀ trade, Event.tradeExecuted trade ∉ events) :
    tradesOf events = [] := by
  unfold tradesOf
  rw [List.filterMap_eq_nil_iff]
  intro event member
  cases event with
  | tradeExecuted trade => exact absurd member (noTrade trade)
  | orderCreated order => rfl
  | orderCanceled orderID => rfl

def Task.trades : Task → List Trade
  | .emit events => tradesOf events
  | .announce _ => []
  | .complete _ => []
  | .withdraw _ => []

def Emitted.progress : Emitted → Fate
  | .lost => .lost
  | .unconfirmed => .posted
  | .confirmed => .posted

/-- The command submits no market order, and no cash amount of a section
leaves the range of int64. -/
def Task.TradesLimits (engine : Engine) : Task → WorkerAction → Prop
  | .emit [], .take input => engine.BeginsBacked input
  | .complete orderID, .proceed _ => engine.FinishesExactly orderID
  | _, _ => True

instance (engine : Engine) :
    ∀ task action, Decidable (Task.TradesLimits engine task action)
  | .emit [], .take input =>
      inferInstanceAs (Decidable (engine.BeginsBacked input))
  | .complete orderID, .proceed _ =>
      inferInstanceAs (Decidable (engine.FinishesExactly orderID))
  | .emit [], .proceed _ => .isTrue trivial
  | .emit (_ :: _), _ => .isTrue trivial
  | .complete _, .take _ => .isTrue trivial
  | .announce _, _ => .isTrue trivial
  | .withdraw _, _ => .isTrue trivial

/-- A trade enters the stream after all the trades settled before it that paid
its buyer. -/
def Task.EmitsGrounded (journal : List (Record Nat Trade)) (partitionID : Nat) :
    Task → WorkerAction → Prop
  | .emit (.tradeExecuted trade :: _), .proceed emitted =>
      emitted.progress = .posted → ∀ entry ∈ Record.ahead partitionID journal,
        entry.item.sellerID = trade.buyerID → entry.isPosted = true
  | _, _ => True

instance (journal : List (Record Nat Trade)) (partitionID : Nat) :
    ∀ task action,
      Decidable (Task.EmitsGrounded journal partitionID task action)
  | .emit (.tradeExecuted trade :: _), .proceed emitted =>
      inferInstanceAs (Decidable (emitted.progress = .posted →
        ∀ entry ∈ Record.ahead partitionID journal,
          entry.item.sellerID = trade.buyerID → entry.isPosted = true))
  | .emit (.tradeExecuted _ :: _), .take _ => .isTrue trivial
  | .emit (.orderCreated _ :: _), _ => .isTrue trivial
  | .emit (.orderCanceled _ :: _), _ => .isTrue trivial
  | .emit [], _ => .isTrue trivial
  | .complete _, _ => .isTrue trivial
  | .announce _, _ => .isTrue trivial
  | .withdraw _, _ => .isTrue trivial

/-- The workers, and the trades in the order of their settlement. -/
structure Journaled where
  workers : Workers
  journal : List (Record Nat Trade)

namespace Journaled

def start (engine : Engine) : Journaled := ⟨.start engine, []⟩

def step (state : Journaled) (move : Nat × WorkerAction) : Journaled where
  workers := state.workers.step move
  journal :=
    match state.workers.task move.1, move.2 with
    | .complete orderID, .proceed _ =>
        state.journal ++
          Record.enqueue move.1 (matchOrder state.workers.engine orderID).2
    | .emit (.tradeExecuted _ :: _), .proceed emitted =>
        Record.dequeue move.1 emitted.progress state.journal
    | _, _ => state.journal

def run (state : Journaled) (moves : List (Nat × WorkerAction)) : Journaled :=
  runFrom step state moves

theorem run_workers (state : Journaled) (moves : List (Nat × WorkerAction)) :
    (state.run moves).workers = state.workers.run moves := by
  induction moves generalizing state with
  | nil => rfl
  | cons move moves induction => exact induction (state.step move)

def trades (state : Journaled) : List Trade := state.journal.map Record.item

/-- What is settled is paid for in the order of the journal, and what is in the
stream in the order of the stream. -/
structure Booked (start : String → Int) (state : Journaled) : Prop where
  announcing : state.workers.Announcing
  backed : state.workers.engine.Backed
  queued : ∀ partitionID, Record.queued partitionID state.journal =
    (state.workers.task partitionID).trades
  amounts : Leg.cash.AmountsNonneg state.trades
  apart : ∀ trade ∈ state.trades, trade.sellerID ≠ trade.buyerID
  covered : Transfer.Covered start (state.trades.map Leg.cash.transfer)
  worth : ∀ userID, state.workers.engine.worth userID ≤
    start userID + Leg.cash.net state.trades userID
  grounded : Grounded (fun entry => Leg.cash.transfer entry.item)
    Record.isPosted state.journal
  posted : ((tradesOf state.workers.stream).map Leg.cash.transfer).Perm
    (postings (fun entry => Leg.cash.transfer entry.item) Record.isPosted
      state.journal)
  payable : Transfer.Covered start
    ((tradesOf state.workers.stream).map Leg.cash.transfer)

end Journaled

theorem matchOrder_traders {engine : Engine} {waiting : String → Prop}
    (tidy : Tidy engine waiting) {orderID : String} {trade : Trade}
    (member : trade ∈ (matchOrder engine orderID).2) :
    ∃ taker maker : Order, engine.orders.lookup taker.id = some taker ∧
      engine.orders.lookup maker.id = some maker ∧
      maker.userID ≠ taker.userID ∧
      (trade.buyerID = taker.userID ∧ trade.sellerID = maker.userID ∨
        trade.buyerID = maker.userID ∧ trade.sellerID = taker.userID) := by
  have finishing := matchOrder_finishing tidy.keyed orderID
  generalize matchOrder engine orderID = result at finishing member
  cases finishing with
  | absent absent => contradiction
  | canceled order present canceled => contradiction
  | rejected order present notCanceled noMarket => contradiction
  | matched order market present notCanceled hasMarket =>
      have ownID := tidy.keyed orderID order present
      subst ownID
      obtain ⟨maker, inSource, isTrade, _, users, _⟩ :=
        walk_walking.trades trade member
      refine ⟨order, maker, present, (mem_source tidy hasMarket inSource).1,
        users, ?_⟩
      rw [isTrade]
      unfold buildTrade
      cases order.side with
      | sideBuy => exact .inl ⟨rfl, rfl⟩
      | sideSell => exact .inr ⟨rfl, rfl⟩

namespace Journaled

variable {start : String → Int} {state : Journaled} {partitionID : Nat}

theorem Booked.quiet (booked : state.Booked start) {later : Workers}
    (announcing : later.Announcing)
    (pays : state.workers.engine.PaysFor later.engine [])
    (tasks : ∀ other,
      (later.task other).trades = (state.workers.task other).trades)
    (stream : tradesOf later.stream = tradesOf state.workers.stream) :
    Booked start ⟨later, state.journal⟩ :=
  { booked with
    announcing := announcing
    backed := pays.backed
    queued := fun other => (booked.queued other).trans (tasks other).symm
    worth := by
      intro userID
      have before := booked.worth userID
      have after := pays.worth userID
      rw [Leg.net_nil] at after
      change later.engine.worth userID ≤
        start userID + Leg.cash.net state.trades userID
      omega
    posted := by
      rw [stream]
      exact booked.posted
    payable := by
      rw [stream]
      exact booked.payable }

theorem trades_assign {workers : Workers} {task : Task}
    (same : task.trades = (workers.task partitionID).trades) (other : Nat) :
    (workers.assign partitionID task other).trades =
      (workers.task other).trades := by
  rcases workers.assign_cases partitionID task other with
    ⟨rfl, isTask⟩ | ⟨_, isOld⟩
  · rw [isTask, same]
  · rw [isOld]

private theorem trades_take {workers : Workers}
    (isIdle : workers.task partitionID = .emit []) (input : Input)
    (other : Nat) :
    ((workers.take partitionID input).task other).trades =
      (workers.task other).trades := by
  unfold Workers.take
  generalize beginCommand workers.engine input = result
  obtain ⟨engine, begun⟩ := result
  apply trades_assign
  rw [isIdle]
  cases begun with
  | answered response => exact tradesOf_eq_nil fun _ => sectionEvents_noTrade
  | registered order => rfl

/-- The trades of an order join the journal, and its worker's queue. -/
theorem booked_complete (booked : state.Booked start) {orderID : String}
    (isTask : state.workers.task partitionID = .complete orderID)
    (exact : state.workers.engine.FinishesExactly orderID) :
    Booked start
      { workers :=
          { state.workers with
            engine := (matchOrder state.workers.engine orderID).1
            task := state.workers.assign partitionID
              (.emit ((matchOrder state.workers.engine orderID).2.map
                .tradeExecuted)) }
        journal := state.journal ++
          Record.enqueue partitionID
            (matchOrder state.workers.engine orderID).2 } := by
  have tidy := booked.announcing.tidy
  have waits : state.workers.Waits orderID := by
    refine ⟨partitionID, ?_⟩
    rw [isTask]
    rfl
  have pays := paysFor_matchOrder tidy waits booked.backed exact
  have traders := @matchOrder_traders _ _ tidy orderID
  have announcing := Workers.announcing_complete booked.announcing isTask
  have idle : Record.queued partitionID state.journal = [] := by
    rw [booked.queued, isTask]
    rfl
  generalize matchOrder state.workers.engine orderID = result at *
  obtain ⟨engine, trades⟩ := result
  dsimp only at pays traders announcing ⊢
  have items : (state.journal ++ Record.enqueue partitionID trades).map
      Record.item = state.trades ++ trades := by
    rw [List.map_append, Record.items_enqueue]
    rfl
  constructor
  case announcing => exact announcing
  case backed => exact pays.backed
  case queued =>
    intro other
    rw [Record.queued_append]
    rcases state.workers.assign_cases partitionID
        (.emit (trades.map .tradeExecuted)) other with
      ⟨rfl, isNew⟩ | ⟨different, isOld⟩
    · dsimp only
      rw [isNew, idle, List.nil_append]
      change _ = tradesOf (trades.map .tradeExecuted)
      rw [tradesOf_executed]
      exact Record.queued_enqueue other trades
    · dsimp only
      rw [isOld, booked.queued, Record.queued_enqueue_other different,
        List.append_nil]
  case amounts =>
    unfold Journaled.trades
    rw [items]
    intro trade member
    rcases List.mem_append.mp member with old | new
    · exact booked.amounts trade old
    · exact pays.amounts trade new
  case apart =>
    unfold Journaled.trades
    rw [items]
    intro trade member
    rcases List.mem_append.mp member with old | new
    · exact booked.apart trade old
    · obtain ⟨taker, maker, _, _, users, who⟩ := traders new
      rcases who with ⟨buyer, seller⟩ | ⟨buyer, seller⟩
      · rw [buyer, seller]
        exact users
      · rw [buyer, seller]
        exact users.symm
  case covered =>
    unfold Journaled.trades
    rw [items, List.map_append]
    apply booked.covered.append pays.amounts.transfers
    intro userID
    exact (pays.paid userID).trans (booked.worth userID)
  case worth =>
    intro userID
    have before := booked.worth userID
    have after := pays.worth userID
    change engine.worth userID ≤
      start userID + Leg.cash.net (List.map Record.item _) userID
    rw [items, Leg.net_append]
    omega
  case grounded => exact Record.grounded_enqueue booked.grounded _ _
  case posted =>
    rw [postings_append, Record.postings_enqueue, List.append_nil]
    exact booked.posted
  case payable => exact booked.payable

section Emit

variable (booked : state.Booked start) {trade : Trade} {events : List Event}
  (isTask : state.workers.task partitionID =
    .emit (.tradeExecuted trade :: events))

include booked isTask

theorem Booked.isHead :
    Record.queued partitionID state.journal = trade :: tradesOf events := by
  rw [booked.queued, isTask]
  rfl

private theorem Booked.mem_trades : trade ∈ state.trades := by
  obtain ⟨after, split, _⟩ := Record.dequeue_split (booked.isHead isTask) .posted
  unfold Journaled.trades
  rw [split]
  simp

private theorem queued_emit {progress : Fate} (gone : progress ≠ .waiting)
    (other : Nat) :
    Record.queued other (Record.dequeue partitionID progress state.journal) =
      (state.workers.assign partitionID (.emit events) other).trades := by
  rcases state.workers.assign_cases partitionID (.emit events) other with
    ⟨rfl, isNew⟩ | ⟨different, isOld⟩
  · rw [isNew, Record.queued_dequeue (booked.isHead isTask) gone]
    rfl
  · rw [isOld, Record.queued_dequeue_other different, booked.queued]

/-- The buyer of a trade that may be emitted can pay for it by what is in the
stream. -/
theorem emitted_payable (funded : ∀ userID, 0 ≤ start userID)
    (grounded : Grounded (fun entry => Leg.cash.transfer entry.item)
      Record.isPosted (Record.dequeue partitionID .posted state.journal)) :
    trade.cost.toInt ≤ start trade.buyerID +
      Leg.cash.net (tradesOf state.workers.stream) trade.buyerID := by
  have items := Record.items_dequeue partitionID .posted state.journal
  have transfers : (Record.dequeue partitionID .posted state.journal).map
      (fun entry => Leg.cash.transfer entry.item) =
        state.trades.map Leg.cash.transfer := by
    unfold Journaled.trades
    rw [← items, List.map_map]
    rfl
  have solvent := grounded.solvent funded
    (by
      intro entry member
      apply booked.amounts
      unfold Journaled.trades
      rw [← items]
      exact List.mem_map_of_mem member)
    (by
      rw [transfers]
      exact booked.covered) trade.buyerID
  have apart := booked.apart trade (booked.mem_trades isTask)
  have perm : (postings (fun entry => Leg.cash.transfer entry.item)
      Record.isPosted (Record.dequeue partitionID .posted state.journal)).Perm
        ((tradesOf state.workers.stream).map Leg.cash.transfer ++
          [Leg.cash.transfer trade]) :=
    (Record.postings_dequeue (booked.isHead isTask)).trans
      (booked.posted.symm.append_right _)
  rw [Transfer.net_perm perm, Transfer.net_append, Transfer.net_cons,
    Transfer.net_nil] at solvent
  change 0 ≤ start trade.buyerID +
    (Leg.cash.net (tradesOf state.workers.stream) trade.buyerID +
      ((if trade.sellerID = trade.buyerID then trade.cost.toInt else 0) -
        (if trade.buyerID = trade.buyerID then trade.cost.toInt else 0) + 0))
    at solvent
  rw [if_neg apart, if_pos rfl] at solvent
  omega

theorem Booked.dequeue {progress : Fate} (gone : progress ≠ .waiting)
    {stream : List Event}
    (announcing : Workers.Announcing
      { state.workers with
        stream := stream
        task := state.workers.assign partitionID (.emit events) })
    (grounded : Grounded (fun entry => Leg.cash.transfer entry.item)
      Record.isPosted (Record.dequeue partitionID progress state.journal))
    (posted : ((tradesOf stream).map Leg.cash.transfer).Perm
      (postings (fun entry => Leg.cash.transfer entry.item) Record.isPosted
        (Record.dequeue partitionID progress state.journal)))
    (payable : Transfer.Covered start
      ((tradesOf stream).map Leg.cash.transfer)) :
    Booked start
      { workers :=
          { state.workers with
            stream := stream
            task := state.workers.assign partitionID (.emit events) }
        journal := Record.dequeue partitionID progress state.journal } := by
  have items : (Record.dequeue partitionID progress state.journal).map
      Record.item = state.trades :=
    Record.items_dequeue partitionID progress state.journal
  refine ⟨announcing, booked.backed, queued_emit booked isTask gone, ?_, ?_,
    ?_, ?_, grounded, posted, payable⟩
  all_goals
    unfold Journaled.trades
    rw [items]
  · exact booked.amounts
  · exact booked.apart
  · exact booked.covered
  · exact booked.worth

private theorem booked_posted (funded : ∀ userID, 0 ≤ start userID)
    (announcing : Workers.Announcing
      { state.workers with
        stream := state.workers.stream ++ [.tradeExecuted trade]
        task := state.workers.assign partitionID (.emit events) })
    (receipts : ∀ entry ∈ Record.ahead partitionID state.journal,
      entry.item.sellerID = trade.buyerID → entry.isPosted = true) :
    Booked start
      { workers :=
          { state.workers with
            stream := state.workers.stream ++ [.tradeExecuted trade]
            task := state.workers.assign partitionID (.emit events) }
        journal := Record.dequeue partitionID .posted state.journal } := by
  have isHead := booked.isHead isTask
  have grounded : Grounded (fun entry => Leg.cash.transfer entry.item)
      Record.isPosted (Record.dequeue partitionID .posted state.journal) :=
    Record.grounded_dequeue isHead booked.grounded fun _ => receipts
  have stream : (tradesOf (state.workers.stream ++
      [Event.tradeExecuted trade])).map Leg.cash.transfer =
        (tradesOf state.workers.stream).map Leg.cash.transfer ++
          [Leg.cash.transfer trade] := by
    rw [tradesOf_append, List.map_append]
    rfl
  apply booked.dequeue isTask (by decide) announcing grounded
  · rw [stream]
    exact (booked.posted.append_right _).trans
      (Record.postings_dequeue isHead).symm
  · rw [stream]
    exact splits_append booked.payable
      (emitted_payable booked isTask funded grounded)

private theorem booked_emit (funded : ∀ userID, 0 ≤ start userID)
    {emitted : Emitted}
    (emits : Task.EmitsGrounded state.journal partitionID
      (.emit (.tradeExecuted trade :: events)) (.proceed emitted)) :
    Booked start
      { workers :=
          { state.workers with
            stream := state.workers.stream ++
              emitted.added (.tradeExecuted trade)
            task := state.workers.assign partitionID (.emit events) }
        journal := Record.dequeue partitionID emitted.progress
          state.journal } := by
  have announcing := Workers.announcing_emit booked.announcing isTask emitted
  cases emitted with
  | lost =>
      have isHead := booked.isHead isTask
      apply booked.dequeue isTask (by decide) announcing
        (Record.grounded_dequeue isHead booked.grounded emits)
      · rw [Emitted.added, List.append_nil, Emitted.progress,
          Record.postings_dequeue_lost isHead]
        exact booked.posted
      · rw [Emitted.added, List.append_nil]
        exact booked.payable
  | unconfirmed =>
      exact booked_posted booked isTask funded announcing (emits rfl)
  | confirmed =>
      exact booked_posted booked isTask funded announcing (emits rfl)

end Emit

private theorem Booked.added (booked : state.Booked start) {event : Event}
    (noTrade : event.trade? = none) {task : Task}
    (same : task.trades = (state.workers.task partitionID).trades)
    (emitted : Emitted)
    (announcing : Workers.Announcing
      { state.workers with
        stream := state.workers.stream ++ emitted.added event
        task := state.workers.assign partitionID task }) :
    Booked start
      { workers :=
          { state.workers with
            stream := state.workers.stream ++ emitted.added event
            task := state.workers.assign partitionID task }
        journal := state.journal } := by
  apply booked.quiet announcing (paysFor_unchanged booked.backed)
    (trades_assign same)
  rw [tradesOf_append]
  cases emitted <;> simp [Emitted.added, tradesOf, noTrade]

def Permits (state : Journaled) (move : Nat × WorkerAction) : Prop :=
  (state.workers.task move.1).TradesLimits state.workers.engine move.2 ∧
    (state.workers.task move.1).EmitsGrounded state.journal move.1 move.2

instance (state : Journaled) (move : Nat × WorkerAction) :
    Decidable (state.Permits move) :=
  inferInstanceAs (Decidable (_ ∧ _))

theorem booked_step (funded : ∀ userID, 0 ≤ start userID)
    (booked : state.Booked start) {move : Nat × WorkerAction}
    (permits : state.Permits move) : (state.step move).Booked start := by
  obtain ⟨partitionID, action⟩ := move
  obtain ⟨limits, emits⟩ := permits
  have announcing := Workers.announcing_step booked.announcing
    (partitionID, action)
  unfold Journaled.step
  dsimp only at limits emits ⊢
  unfold Workers.step at announcing ⊢
  dsimp only at announcing ⊢
  generalize isTask : state.workers.task partitionID = task at *
  match task, action with
  | .announce order, .take _ => exact booked
  | .complete _, .take _ => exact booked
  | .withdraw _, .take _ => exact booked
  | .emit (event :: _), .take _ => cases event <;> exact booked
  | .emit [], .proceed _ => exact booked
  | .emit [], .take input =>
      exact booked.quiet announcing
        (paysFor_begin booked.announcing.tidy booked.backed limits)
        (trades_take isTask input) rfl
  | .announce order, .proceed emitted =>
      apply booked.added rfl _ emitted announcing
      rw [isTask]
      cases emitted <;> rfl
  | .complete orderID, .proceed _ => exact booked_complete booked isTask limits
  | .withdraw orderID, .proceed _ =>
      apply booked.quiet announcing (paysFor_erase booked.backed orderID)
      · apply trades_assign
        rw [isTask]
        rfl
      · rfl
  | .emit (.orderCreated order :: events), .proceed emitted =>
      apply booked.added rfl _ emitted announcing
      rw [isTask]
      rfl
  | .emit (.orderCanceled orderID :: events), .proceed emitted =>
      apply booked.added rfl _ emitted announcing
      rw [isTask]
      rfl
  | .emit (.tradeExecuted trade :: events), .proceed emitted =>
      exact booked_emit booked isTask funded emits

theorem booked_start {balances : Accounts String}
    (unreserved : balances.Unreserved) (positions : Accounts String) :
    (Journaled.start (Engine.seeded balances positions)).Booked
      (Engine.seeded balances positions).worth where
  announcing := Workers.announcing_start balances positions
  backed := backed_seeded unreserved positions
  queued := fun _ => rfl
  amounts := by
    intro trade member
    contradiction
  apart := by
    intro trade member
    contradiction
  covered := splits_nil
  worth := by
    intro userID
    exact le_of_eq (Int.add_zero _).symm
  grounded := List.Pairwise.nil
  posted := List.Perm.refl _
  payable := splits_nil

/-- Every trade of the stream can be paid for by what its buyer had at first
and the trades before it in the stream. -/
theorem payable_run {balances : Accounts String}
    (unreserved : balances.Unreserved) {positions : Accounts String}
    {moves : List (Nat × WorkerAction)}
    (permits : Along step Permits
      (Journaled.start (Engine.seeded balances positions)) moves) :
    Transfer.Covered (Engine.seeded balances positions).worth
      ((tradesOf ((Workers.start (Engine.seeded balances positions)).run
        moves).stream).map Leg.cash.transfer) := by
  have funded := (backed_seeded unreserved positions).worth_nonneg
  have booked := invariant_runFrom
    (Booked (Engine.seeded balances positions).worth)
    (fun _ _ booked permits => booked_step funded booked permits)
    (booked_start unreserved positions) permits
  have payable := booked.payable
  change Transfer.Covered _ ((tradesOf (Journaled.run _ moves).workers.stream).map
    _) at payable
  rw [run_workers] at payable
  exact payable

end Journaled

/-! The users of the trades. -/

def Trade.Between (known : String → Prop) (trade : Trade) : Prop :=
  known trade.buyerID ∧ known trade.sellerID

namespace Workers

structure OwnedBy (known : String → Prop) (workers : Workers) : Prop where
  orders : ∀ {id order}, workers.engine.orders.lookup id = some order →
    known order.userID
  tasks : ∀ partitionID, ∀ trade ∈ (workers.task partitionID).trades,
    trade.Between known
  stream : ∀ trade ∈ tradesOf workers.stream, trade.Between known

variable {known : String → Prop} {workers : Workers} {partitionID : Nat}

theorem OwnedBy.assign (owned : workers.OwnedBy known) {engine : Engine}
    {task : Task} {stream : List Event}
    (orders : ∀ {id order}, engine.orders.lookup id = some order →
      known order.userID)
    (own : ∀ trade ∈ task.trades, trade.Between known)
    (streamed : ∀ trade ∈ tradesOf stream, trade.Between known) :
    OwnedBy known ⟨engine, workers.assign partitionID task, stream⟩ where
  orders := orders
  tasks := by
    intro other
    dsimp only
    rcases workers.assign_cases partitionID task other with
      ⟨_, isTask⟩ | ⟨_, isOld⟩
    · rw [isTask]
      exact own
    · rw [isOld]
      exact owned.tasks other
  stream := streamed

private theorem OwnedBy.added (owned : workers.OwnedBy known) {event : Event}
    (isKnown : ∀ trade, event.trade? = some trade → trade.Between known)
    (emitted : Emitted) :
    ∀ trade ∈ tradesOf (workers.stream ++ emitted.added event),
      trade.Between known := by
  intro trade member
  rw [tradesOf_append] at member
  rcases List.mem_append.mp member with old | new
  · exact owned.stream trade old
  · obtain ⟨found, isFound, isTrade⟩ := List.mem_filterMap.mp new
    have isEvent : found = event := by
      cases emitted with
      | lost => contradiction
      | unconfirmed => exact List.mem_singleton.mp isFound
      | confirmed => exact List.mem_singleton.mp isFound
    rw [isEvent] at isTrade
    exact isKnown trade isTrade

def Submits (known : String → Prop) : WorkerAction → Prop
  | .take input => ∀ order ∈ input.order?, known order.userID
  | .proceed _ => True

instance [DecidablePred known] : DecidablePred (Submits known)
  | .take input =>
      inferInstanceAs (Decidable (∀ order ∈ input.order?, known order.userID))
  | .proceed _ => .isTrue trivial

private theorem ownedBy_take (owned : workers.OwnedBy known)
    (tidy : Tidy workers.engine workers.Waits) {input : Input}
    (submits : Submits known (.take input)) :
    (workers.take partitionID input).OwnedBy known := by
  have continues := @begin_continues _ _ tidy input
  unfold Workers.take
  generalize beginCommand workers.engine input = result at continues ⊢
  obtain ⟨engine, begun⟩ := result
  apply owned.assign
  · intro id order present
    rcases continues present with
      ⟨earlier, old, same⟩ | ⟨submitted, isSubmitted, same⟩
    · rw [same.userID]
      exact owned.orders old
    · rw [same.userID]
      exact submits submitted isSubmitted
  · cases begun with
    | answered response =>
        rw [Task.trades, tradesOf_eq_nil fun _ => sectionEvents_noTrade]
        simp
    | registered order => simp [Task.trades]
  · exact owned.stream

private theorem ownedBy_complete (owned : workers.OwnedBy known)
    (tidy : Tidy workers.engine workers.Waits) {orderID : String}
    (waits : workers.Waits orderID) :
    OwnedBy known
      { workers with
        engine := (matchOrder workers.engine orderID).1
        task := workers.assign partitionID
          (.emit ((matchOrder workers.engine orderID).2.map
            .tradeExecuted)) } := by
  apply owned.assign
  · intro id order present
    obtain ⟨earlier, old, same⟩ :=
      (matchOrder_continues tidy waits).of_left present
    rw [same.userID]
    exact owned.orders old
  · intro trade member
    rw [Task.trades, tradesOf_executed] at member
    obtain ⟨taker, maker, isTaker, isMaker, _, who⟩ :=
      matchOrder_traders tidy member
    unfold Trade.Between
    rcases who with ⟨buyer, seller⟩ | ⟨buyer, seller⟩
    · rw [buyer, seller]
      exact ⟨owned.orders isTaker, owned.orders isMaker⟩
    · rw [buyer, seller]
      exact ⟨owned.orders isMaker, owned.orders isTaker⟩
  · exact owned.stream

theorem ownedBy_step (owned : workers.OwnedBy known)
    (announcing : workers.Announcing) {move : Nat × WorkerAction}
    (submits : Submits known move.2) : (workers.step move).OwnedBy known := by
  obtain ⟨partitionID, action⟩ := move
  have own := owned.tasks partitionID
  unfold Workers.step
  dsimp only
  split
  · exact ownedBy_take owned announcing.tidy submits
  · rename_i order emitted isTask
    apply owned.assign owned.orders
    · cases emitted <;> simp [Emitted.succeeds, Task.trades]
    · apply owned.added
      intro trade isTrade
      contradiction
  · rename_i orderID _ isTask
    apply ownedBy_complete owned announcing.tidy
    refine ⟨partitionID, ?_⟩
    rw [isTask]
    rfl
  · rename_i orderID _ isTask
    apply owned.assign
    · intro id order present
      exact owned.orders (FiniteMap.lookup_of_erase present)
    · simp [Task.trades, tradesOf]
    · exact owned.stream
  · rename_i event events emitted isTask
    rw [isTask] at own
    apply owned.assign owned.orders
    · intro trade member
      exact own trade
        (((List.sublist_cons_self event events).filterMap _).subset member)
    · apply owned.added
      intro trade isTrade
      exact own trade (List.mem_filterMap.mpr ⟨event, by simp, isTrade⟩)
  · exact owned

theorem ownedBy_start (known : String → Prop)
    (balances positions : Accounts String) :
    (Workers.start (Engine.seeded balances positions)).OwnedBy known where
  orders := by
    intro id order present
    contradiction
  tasks := by
    intro partitionID trade member
    contradiction
  stream := by
    intro trade member
    contradiction

end Workers

end Predix
