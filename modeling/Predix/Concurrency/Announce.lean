import Predix.Concurrency.Tidy
import Predix.Delivery.Partition

namespace Predix

open Data

/-! Partition workers that run side by side on one engine and share its event
stream. -/

/-- How one call of `emitEventP` ends: the envelope is not in the stream, it is
there and an error is returned all the same, or it is there. -/
inductive Emitted where
  | lost
  | unconfirmed
  | confirmed
  deriving DecidableEq, Repr

def Emitted.succeeds : Emitted → Bool
  | .confirmed => true
  | _ => false

def Emitted.added {A : Type} (emitted : Emitted) (envelope : A) : List A :=
  match emitted with
  | .lost => []
  | _ => [envelope]

theorem emitEventP_emitted (outbox : Outbox) (envelope : Envelope)
    (broadcast : Bool) (outcome : EmitOutcome) :
    ∃ emitted : Emitted,
      (outbox.emitEventP envelope broadcast outcome).1.stream =
        outbox.stream ++ emitted.added envelope ∧
      (outbox.emitEventP envelope broadcast outcome).2 =
        emitted.succeeds := by
  obtain ⟨append, ⟨added, published⟩, truncated⟩ := outcome
  cases append with
  | failed => exact ⟨.lost, (List.append_nil _).symm, rfl⟩
  | unsynced => exact ⟨.lost, (List.append_nil _).symm, rfl⟩
  | synced =>
      cases added with
      | false => exact ⟨.lost, (List.append_nil _).symm, rfl⟩
      | true =>
          cases broadcast <;> cases published <;> cases truncated <;>
            first
              | exact ⟨.confirmed, rfl, rfl⟩
              | exact ⟨.unconfirmed, rfl, rfl⟩

/-- What a worker does next: announce the order it has registered, match it,
take it out of the table again, or emit what is left of the events of a
command. A worker with nothing left to emit takes the next command. -/
inductive Task where
  | announce (order : Order)
  | complete (orderID : String)
  | withdraw (orderID : String)
  | emit (events : List Event)
  deriving DecidableEq, Repr

def Task.orderID? : Task → Option String
  | .announce order => some order.id
  | .complete orderID => some orderID
  | .withdraw orderID => some orderID
  | .emit _ => none

/-- The engine, its workers by partition, and the `events:out` stream. -/
structure Workers where
  engine : Engine
  task : Nat → Task
  stream : List Event

inductive WorkerAction where
  | take (input : Input)
  | proceed (emitted : Emitted)
  deriving DecidableEq, Repr

def Engine.sectionEvents (engine : Engine) (input : Input) : List Event :=
  match input.command with
  | .createOrder _ => []
  | command => (handleMessage engine input.surroundings command).events

namespace Workers

def start (engine : Engine) : Workers := ⟨engine, fun _ => .emit [], []⟩

def assign (workers : Workers) (partitionID : Nat) (task : Task) :
    Nat → Task :=
  Function.update workers.task partitionID task

def take (workers : Workers) (partitionID : Nat) (input : Input) : Workers :=
  let (engine, begun) := beginCommand workers.engine input
  { workers with
    engine := engine
    task := workers.assign partitionID
      (match begun with
      | .answered _ => .emit (workers.engine.sectionEvents input)
      | .registered order => .announce order) }

/-- One move of one worker. A section takes the engine's lock, an emission the
emission lock. -/
def step (workers : Workers) (move : Nat × WorkerAction) : Workers :=
  match workers.task move.1, move.2 with
  | .emit [], .take input => workers.take move.1 input
  | .announce order, .proceed emitted =>
      { workers with
        stream := workers.stream ++ emitted.added (.orderCreated order)
        task := workers.assign move.1
          (if emitted.succeeds then .complete order.id
          else .withdraw order.id) }
  | .complete orderID, .proceed _ =>
      let (engine, trades) := matchOrder workers.engine orderID
      { workers with
        engine := engine
        task := workers.assign move.1 (.emit (trades.map .tradeExecuted)) }
  | .withdraw orderID, .proceed _ =>
      { workers with
        engine :=
          { workers.engine with
            orders := workers.engine.orders.erase orderID }
        task := workers.assign move.1 (.emit []) }
  | .emit (event :: events), .proceed emitted =>
      { workers with
        stream := workers.stream ++ emitted.added event
        task := workers.assign move.1 (.emit events) }
  | _, _ => workers

def run (workers : Workers) (moves : List (Nat × WorkerAction)) : Workers :=
  runFrom step workers moves

end Workers

/-! The stream. -/

def Announces (stream : List Event) (orderID : String) : Prop :=
  ∃ event ∈ stream, Event.Creates orderID event

def AnnouncesBoth (stream : List Event) (trade : Trade) : Prop :=
  Announces stream trade.orderID ∧ Announces stream trade.matchOrderID

/-- Every `trade_executed` comes after the `order_created` of both orders it
names. -/
def InOrder (stream : List Event) : Prop :=
  ∀ before after trade, stream = before ++ .tradeExecuted trade :: after →
    AnnouncesBoth before trade

theorem Announces.append {stream : List Event} {orderID : String}
    (announces : Announces stream orderID) (more : List Event) :
    Announces (stream ++ more) orderID := by
  obtain ⟨event, member, creates⟩ := announces
  exact ⟨event, List.mem_append_left more member, creates⟩

theorem AnnouncesBoth.append {stream : List Event} {trade : Trade}
    (announces : AnnouncesBoth stream trade) (more : List Event) :
    AnnouncesBoth (stream ++ more) trade :=
  ⟨announces.1.append more, announces.2.append more⟩

private theorem inOrder_emitted {stream : List Event} (inOrder : InOrder stream)
    (emitted : Emitted) {event : Event}
    (ready : ∀ trade, event = .tradeExecuted trade →
      AnnouncesBoth stream trade) :
    InOrder (stream ++ emitted.added event) := by
  have appended : InOrder (stream ++ [event]) := by
    have each : ∀ before found after, stream = before ++ found :: after →
        ∀ trade, found = .tradeExecuted trade → AnnouncesBoth before trade := by
      rintro before _ after split trade rfl
      exact inOrder before after trade split
    intro before after trade split
    exact splits_append each ready before _ after split trade rfl
  cases emitted with
  | lost =>
      rw [Emitted.added, List.append_nil]
      exact inOrder
  | unconfirmed => exact appended
  | confirmed => exact appended

/-! The invariant. -/

private theorem sectionEvents_cases (engine : Engine) (input : Input) :
    engine.sectionEvents input = [] ∨
      input.order? = none ∧
        engine.sectionEvents input = (engine.step input).events := by
  obtain ⟨command, surroundings⟩ := input
  cases command with
  | createOrder payload => exact .inl rfl
  | _ => exact .inr ⟨rfl, rfl⟩

theorem sectionEvents_noTrade {engine : Engine} {input : Input}
    {trade : Trade} :
    Event.tradeExecuted trade ∉ engine.sectionEvents input := by
  rcases sectionEvents_cases engine input with empty | ⟨noOrder, same⟩
  · rw [empty]
    exact List.not_mem_nil
  · rw [same]
    have effect := step_effect engine input
    generalize engine.step input = reply at effect ⊢
    cases effect with
    | unchanged response => exact List.not_mem_nil
    | opened order message submitted =>
        rw [noOrder] at submitted
        contradiction
    | dropped order market submitted =>
        rw [noOrder] at submitted
        contradiction
    | accepted order market submitted =>
        rw [noOrder] at submitted
        contradiction
    | canceled req order market => simp
    | marketCreated eventID => exact List.not_mem_nil
    | userFunded userID => exact List.not_mem_nil

/-- What a worker is about to do presupposes announcements. -/
def Task.Ready (stream : List Event) : Task → Prop
  | .announce _ => True
  | .complete orderID => Announces stream orderID
  | .withdraw _ => True
  | .emit events => ∀ trade, .tradeExecuted trade ∈ events →
      AnnouncesBoth stream trade

private theorem Task.Ready.append {stream : List Event} {task : Task}
    (ready : task.Ready stream) (more : List Event) :
    task.Ready (stream ++ more) := by
  cases task with
  | announce order => trivial
  | complete orderID => exact Announces.append ready more
  | withdraw orderID => trivial
  | emit events =>
      intro trade member
      exact (ready trade member).append more

namespace Workers

def Waits (workers : Workers) (orderID : String) : Prop :=
  ∃ partitionID, (workers.task partitionID).orderID? = some orderID

/-- The workers wait for different orders; whatever is listed, about to be
matched or about to be emitted as traded has been announced. -/
structure Announcing (workers : Workers) : Prop where
  tidy : Tidy workers.engine workers.Waits
  distinct : ∀ {first second orderID},
    (workers.task first).orderID? = some orderID →
      (workers.task second).orderID? = some orderID → first = second
  listed : ∀ {id eventID outcome side},
    id ∈ workers.engine.slice eventID outcome side →
      Announces workers.stream id
  ready : ∀ partitionID, (workers.task partitionID).Ready workers.stream
  inOrder : InOrder workers.stream

variable {workers : Workers} {partitionID : Nat}

def OthersWait (workers : Workers) (partitionID : Nat) (orderID : String) :
    Prop :=
  ∃ other, other ≠ partitionID ∧
    (workers.task other).orderID? = some orderID

theorem assign_cases (workers : Workers) (partitionID : Nat) (task : Task)
    (other : Nat) :
    other = partitionID ∧ workers.assign partitionID task other = task ∨
      other ≠ partitionID ∧
        workers.assign partitionID task other = workers.task other := by
  unfold Workers.assign
  cases Decidable.em (other = partitionID) with
  | inl same =>
      subst same
      exact .inl ⟨rfl, Function.update_self _ _ _⟩
  | inr different =>
      exact .inr ⟨different, Function.update_of_ne different _ _⟩

private theorem assign_waits {task : Task} {other : Nat} {orderID : String}
    (waits : (workers.assign partitionID task other).orderID? =
      some orderID) :
    other = partitionID ∧ task.orderID? = some orderID ∨
      other ≠ partitionID ∧
        (workers.task other).orderID? = some orderID := by
  rcases workers.assign_cases partitionID task other with
    ⟨same, isTask⟩ | ⟨different, isOld⟩
  · rw [isTask] at waits
    exact .inl ⟨same, waits⟩
  · rw [isOld] at waits
    exact .inr ⟨different, waits⟩

/-- One worker has moved: it keeps the order it waits for, drops it, or waits
for one that nobody waits for. -/
theorem Announcing.assign (announcing : workers.Announcing) {engine : Engine}
    {task : Task} {more : List Event}
    (own : ∀ {orderID}, task.orderID? = some orderID →
      ¬ workers.OthersWait partitionID orderID)
    (tidy : Tidy engine fun orderID =>
      workers.OthersWait partitionID orderID ∨ task.orderID? = some orderID)
    (listed : ∀ {id eventID outcome side},
      id ∈ engine.slice eventID outcome side →
        Announces (workers.stream ++ more) id)
    (ready : task.Ready (workers.stream ++ more))
    (inOrder : InOrder (workers.stream ++ more)) :
    Announcing
      { engine := engine
        task := workers.assign partitionID task
        stream := workers.stream ++ more } where
  tidy := by
    apply tidy.waitsFor
    rintro orderID ⟨other, waits⟩
    rcases assign_waits waits with ⟨_, isOwn⟩ | ⟨different, old⟩
    · exact .inr isOwn
    · exact .inl ⟨other, different, old⟩
  distinct := by
    intro first second orderID firstWaits secondWaits
    rcases assign_waits firstWaits with ⟨rfl, firstOwn⟩ | ⟨firstOther, firstOld⟩
    · rcases assign_waits secondWaits with ⟨rfl, _⟩ | ⟨secondOther, secondOld⟩
      · rfl
      · exact absurd ⟨second, secondOther, secondOld⟩ (own firstOwn)
    · rcases assign_waits secondWaits with ⟨rfl, secondOwn⟩ | ⟨_, secondOld⟩
      · exact absurd ⟨first, firstOther, firstOld⟩ (own secondOwn)
      · exact announcing.distinct firstOld secondOld
  listed := listed
  ready := by
    intro other
    change (workers.assign partitionID task other).Ready _
    rcases workers.assign_cases partitionID task other with
      ⟨_, isTask⟩ | ⟨_, isOld⟩
    · rw [isTask]
      exact ready
    · rw [isOld]
      exact (announcing.ready other).append more
  inOrder := inOrder

theorem Announcing.own (announcing : workers.Announcing) {orderID : String}
    (waits : (workers.task partitionID).orderID? = some orderID) :
    ¬ workers.OthersWait partitionID orderID := by
  rintro ⟨other, different, otherWaits⟩
  exact different (announcing.distinct otherWaits waits)

theorem OthersWait.waits {orderID : String}
    (others : workers.OthersWait partitionID orderID) :
    workers.Waits orderID := by
  obtain ⟨other, _, waits⟩ := others
  exact ⟨other, waits⟩

private theorem announcing_take (announcing : workers.Announcing)
    (input : Input) :
    (workers.take partitionID input).Announcing := by
  have tidy := tidy_begin announcing.tidy input
  have fresh := @begin_fresh workers.engine input
  have listed : ∀ {id eventID outcome side},
      id ∈ (beginCommand workers.engine input).1.slice eventID outcome side →
        Announces (workers.stream ++ []) id := by
    intro id eventID outcome side member
    rw [List.append_nil]
    exact announcing.listed (slice_begin announcing.tidy member)
  have inOrder : InOrder (workers.stream ++ []) := by
    rw [List.append_nil]
    exact announcing.inOrder
  unfold Workers.take
  generalize beginCommand workers.engine input = result
    at tidy fresh listed ⊢
  obtain ⟨engine, begun⟩ := result
  simp only
  rw [← List.append_nil workers.stream]
  cases begun with
  | answered response =>
      apply announcing.assign
      · intro orderID waits
        contradiction
      · apply tidy.waitsFor
        rintro orderID (others | own)
        · exact .inl others.waits
        · contradiction
      · exact listed
      · intro trade member
        exact absurd member sectionEvents_noTrade
      · exact inOrder
  | registered order =>
      apply announcing.assign
      · intro orderID waits others
        cases waits
        exact announcing.tidy.registered others.waits
          (fresh (List.mem_singleton.mpr rfl))
      · apply tidy.waitsFor
        rintro orderID (others | own)
        · exact .inl others.waits
        · cases own
          exact .inr (List.mem_singleton.mpr rfl)
      · exact listed
      · trivial
      · exact inOrder

private theorem announces_added (stream : List Event) (order : Order) :
    Announces (stream ++ [.orderCreated order]) order.id :=
  ⟨.orderCreated order, by simp, order, rfl, rfl⟩

theorem announcing_emitted (announcing : workers.Announcing)
    (emitted : Emitted) {event : Event} {task : Task}
    (waits : ∀ {orderID}, task.orderID? = some orderID →
      (workers.task partitionID).orderID? = some orderID)
    (now : ∀ trade, event = .tradeExecuted trade →
      AnnouncesBoth workers.stream trade)
    (next : task.Ready (workers.stream ++ emitted.added event)) :
    Announcing
      { engine := workers.engine
        task := workers.assign partitionID task
        stream := workers.stream ++ emitted.added event } := by
  apply announcing.assign
  · intro orderID own
    exact announcing.own (waits own)
  · apply announcing.tidy.waitsFor
    rintro orderID (others | own)
    · exact others.waits
    · exact ⟨partitionID, waits own⟩
  · intro id eventID outcome side member
    exact (announcing.listed member).append _
  · exact next
  · exact inOrder_emitted announcing.inOrder emitted now

private theorem announcing_announce (announcing : workers.Announcing)
    {order : Order}
    (isTask : workers.task partitionID = .announce order)
    (emitted : Emitted) :
    Announcing
      { engine := workers.engine
        task := workers.assign partitionID
          (if emitted.succeeds then .complete order.id
          else .withdraw order.id)
        stream := workers.stream ++ emitted.added (.orderCreated order) } := by
  have waits : (workers.task partitionID).orderID? = some order.id := by
    rw [isTask]
    rfl
  apply announcing_emitted announcing emitted
  · intro orderID own
    cases emitted <;> exact waits.trans own
  · intro trade impossible
    contradiction
  · cases emitted with
    | lost => trivial
    | unconfirmed => trivial
    | confirmed => exact announces_added workers.stream order

theorem announcing_complete (announcing : workers.Announcing)
    {orderID : String}
    (isTask : workers.task partitionID = .complete orderID) :
    Announcing
      { engine := (matchOrder workers.engine orderID).1
        task := workers.assign partitionID
          (.emit ((matchOrder workers.engine orderID).2.map .tradeExecuted))
        stream := workers.stream } := by
  have waits : (workers.task partitionID).orderID? = some orderID := by
    rw [isTask]
    rfl
  have announced : Announces workers.stream orderID := by
    have ready := announcing.ready partitionID
    rw [isTask] at ready
    exact ready
  rw [← List.append_nil workers.stream]
  apply announcing.assign
  · intro other own
    contradiction
  · apply tidy_matchOrder announcing.tidy ⟨partitionID, waits⟩
    · rintro other (others | own)
      · exact others.waits
      · contradiction
    · rintro (others | own)
      · exact announcing.own waits others
      · contradiction
  · intro id eventID outcome side member
    rw [List.append_nil]
    rcases mem_slice_matchOrder announcing.tidy member with old | rfl
    · exact announcing.listed old
    · exact announced
  · intro trade member
    rw [List.append_nil]
    obtain ⟨made, isMade, same⟩ := List.mem_map.mp member
    cases same
    obtain ⟨taker, _, _, _, maker⟩ :=
      matchOrder_trade announcing.tidy isMade
    rw [AnnouncesBoth, taker]
    exact ⟨announced, announcing.listed maker⟩
  · rw [List.append_nil]
    exact announcing.inOrder

private theorem announcing_withdraw (announcing : workers.Announcing)
    {orderID : String}
    (isTask : workers.task partitionID = .withdraw orderID) :
    Announcing
      { engine :=
          { workers.engine with
            orders := workers.engine.orders.erase orderID }
        task := workers.assign partitionID (.emit [])
        stream := workers.stream } := by
  have waits : (workers.task partitionID).orderID? = some orderID := by
    rw [isTask]
    rfl
  rw [← List.append_nil workers.stream]
  apply announcing.assign
  · intro other own
    contradiction
  · apply tidy_erase announcing.tidy ⟨partitionID, waits⟩
    · rintro other (others | own)
      · exact others.waits
      · contradiction
    · rintro (others | own)
      · exact announcing.own waits others
      · contradiction
  · intro id eventID outcome side member
    rw [List.append_nil]
    exact announcing.listed member
  · intro trade member
    contradiction
  · rw [List.append_nil]
    exact announcing.inOrder

theorem announcing_emit (announcing : workers.Announcing) {event : Event}
    {events : List Event}
    (isTask : workers.task partitionID = .emit (event :: events))
    (emitted : Emitted) :
    Announcing
      { engine := workers.engine
        task := workers.assign partitionID (.emit events)
        stream := workers.stream ++ emitted.added event } := by
  have ready := announcing.ready partitionID
  rw [isTask] at ready
  apply announcing_emitted announcing emitted
  · intro orderID own
    contradiction
  · rintro trade rfl
    exact ready trade (by simp)
  · intro trade member
    exact (ready trade (by simp [member])).append _

theorem announcing_step (announcing : workers.Announcing)
    (move : Nat × WorkerAction) : (workers.step move).Announcing := by
  obtain ⟨partitionID, action⟩ := move
  unfold Workers.step
  simp only
  split
  · exact announcing_take announcing _
  · rename_i order emitted isTask
    exact announcing_announce announcing isTask emitted
  · rename_i orderID _ isTask
    exact announcing_complete announcing isTask
  · rename_i orderID _ isTask
    exact announcing_withdraw announcing isTask
  · rename_i event events emitted isTask
    exact announcing_emit announcing isTask emitted
  · exact announcing

theorem announcing_start (balances positions : Accounts String) :
    (Workers.start (Engine.seeded balances positions)).Announcing where
  tidy := (tidy_seeded balances positions).waitsFor (by
    rintro orderID ⟨partitionID, waits⟩
    contradiction)
  distinct := by
    intro first second orderID waits
    contradiction
  listed := by
    intro id eventID outcome side member
    obtain ⟨order, present, _⟩ :=
      (tidy_seeded balances positions).listed member
    simp [Engine.seeded] at present
  ready := by
    intro partitionID trade member
    contradiction
  inOrder := by
    intro before after trade split
    simp [Workers.start] at split

end Workers

/-- Whatever the workers do and however their emissions end, no trade enters
the stream before both its orders. -/
theorem workers_announceFirst (balances positions : Accounts String)
    (moves : List (Nat × WorkerAction)) :
    InOrder
      ((Workers.start (Engine.seeded balances positions)).run moves).stream :=
  (always_runFrom Workers.Announcing
    (fun _ move announcing => Workers.announcing_step announcing move)
    (Workers.announcing_start balances positions) moves).inOrder

/-- Two workers, with the first announcement of an order lost. -/
example :
    ((Workers.start (Engine.seeded ∅
        (Finmap.singleton "v:e:YES" ⟨5, 0⟩))).run
      [(0, .take (.createEvent "e")),
        (1, .take ⟨.userCreated (some "u"), "", true⟩),
        (0, .take (.submit "ask" "e" "v" "LIMIT" "YES" "SELL" 2 3)),
        (1, .take (.submit "bid" "e" "u" "LIMIT" "YES" "BUY" 2 3)),
        (1, .proceed .lost), (0, .proceed .confirmed), (1, .proceed .lost),
        (0, .proceed .lost),
        (1, .take (.submit "bid" "e" "u" "LIMIT" "YES" "BUY" 2 3)),
        (1, .proceed .confirmed), (1, .proceed .lost),
        (1, .proceed .unconfirmed)]).stream.map (match · with
          | .orderCreated order => order.id
          | .tradeExecuted trade => trade.orderID ++ "/" ++ trade.matchOrderID
          | .orderCanceled orderID => orderID) =
      ["ask", "bid", "bid/ask"] := by
  decide

end Predix
