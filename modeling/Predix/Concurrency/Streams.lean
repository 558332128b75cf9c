import Predix.Concurrency.Footprint
import Predix.Replay.Growth

namespace Predix

open Data Word

/-! Several partitions on one engine. Each has its own stream of commands; the
books of different events lie apart, the ledger is shared. -/

structure Router where
  partitions : Nat
  positive : 0 < partitions

namespace Router

/-- FNV-1a. -/
def hash64 (text : String) : UInt64 :=
  text.toUTF8.data.foldl
    (fun hash byte => (hash ^^^ byte.toUInt64) * 1099511628211)
    14695981039346656037

def partition (router : Router) (eventID : String) : Nat :=
  (hash64 eventID).toNat % router.partitions

/-- The partition a command is sent to. -/
def partitionFor (router : Router) (eventID : String) : Nat :=
  if eventID = "" then 0 else router.partition eventID

end Router

def newRouter (partitions : Int) : Router :=
  if sizable : 1 ≤ partitions then
    ⟨partitions.toNat, by omega⟩
  else
    ⟨1, Nat.one_pos⟩

/-! The streams. -/

def Command.eventID? : Command → Option String
  | .createOrder payload => payload.map (·.eventID)
  | .cancelOrder payload => payload.map (·.eventID)
  | .getDepth eventID => eventID
  | .getOpenOrders payload => payload.map (·.eventID)
  | .createEvent eventID => eventID
  | .userCreated _ => none
  | .unknown _ => none

/-- A cancel without an event would accept the order of any event. -/
def Command.namesEvent : Command → Bool
  | .cancelOrder (some req) => req.eventID ≠ ""
  | _ => true

/-- The user a USER_CREATED grants the starting balance. -/
def Input.funds? (input : Input) : Option String :=
  match input.command with
  | .userCreated (some userID) => if userID = "" then none else some userID
  | _ => none

def Input.orderIDs (input : Input) : List String :=
  match input.command with
  | .cancelOrder (some req) => [req.orderID]
  | _ => input.order?.toList.map (·.id)

def ordersIn (stream : List Input) : List Order :=
  stream.filterMap Input.order?

def orderIDsIn (stream : List Input) : List String :=
  stream.flatMap Input.orderIDs

def fundedIn (stream : List Input) : List String :=
  stream.filterMap Input.funds?

def streamOf (streams : List (List Input)) (partitionID : Nat) : List Input :=
  streams.getD partitionID []

/-- Every command is in the stream of the event it names, and USER_CREATED in
every stream. -/
structure Routed (router : Router) (streams : List (List Input)) : Prop where
  byEvent : ∀ partitionID < streams.length,
    ∀ input ∈ streamOf streams partitionID,
      input.command.namesEvent = true ∧
      ∀ eventID ∈ input.command.eventID?,
        router.partitionFor eventID = partitionID
  fannedOut : ∀ stream ∈ streams, ∀ other ∈ streams,
    ∀ userID ∈ fundedIn stream, userID ∈ fundedIn other

instance (router : Router) (streams : List (List Input)) :
    Decidable (Routed router streams) :=
  decidable_of_iff
    ((∀ partitionID < streams.length,
      ∀ input ∈ streamOf streams partitionID,
        input.command.namesEvent = true ∧
        ∀ eventID ∈ input.command.eventID?,
          router.partitionFor eventID = partitionID) ∧
      ∀ stream ∈ streams, ∀ other ∈ streams,
        ∀ userID ∈ fundedIn stream, userID ∈ fundedIn other)
    ⟨fun both => ⟨both.1, both.2⟩, fun routed => ⟨routed.1, routed.2⟩⟩

/-! The engine under any interleaving of its streams. -/

/-- The commands of a partition that are still to come, and the one that is
between its two sections. -/
structure Lane where
  rest : List Input
  waiting : Option (Input × Order)
  deriving DecidableEq

def Begun.command? (input : Input) : Begun → Option (Input × Order)
  | .answered _ => none
  | .registered order => some (input, order)

def Lane.advance (lane : Lane) (engine : Engine) : Engine × Lane :=
  match lane.waiting with
  | some (input, order) =>
      ((announceAndMatch engine order
        input.surroundings.orderCreatedEmitted).engine,
        { lane with waiting := none })
  | none =>
      match lane.rest with
      | [] => (engine, lane)
      | input :: rest =>
          ((beginCommand engine input).1,
            ⟨rest, (beginCommand engine input).2.command? input⟩)

structure Shared where
  engine : Engine
  lanes : Nat → Lane

def Shared.move (shared : Shared) (partitionID : Nat)
    (advanced : Engine × Lane) : Shared :=
  { engine := advanced.1
    lanes := Function.update shared.lanes partitionID advanced.2 }

def Shared.step (shared : Shared) (partitionID : Nat) : Shared :=
  shared.move partitionID ((shared.lanes partitionID).advance shared.engine)

/-- The streams under a schedule: the partitions in the order in which their
sections run. -/
def runShared (balances positions : Accounts String)
    (streams : List (List Input)) (schedule : List Nat) : Shared :=
  runFrom Shared.step
    ⟨Engine.seeded balances positions,
      fun partitionID => ⟨streamOf streams partitionID, none⟩⟩ schedule

def Router.Agree (router : Router) (partitionID : Nat)
    (left right : Engine) : Prop :=
  (∀ eventID, router.partitionFor eventID = partitionID →
    left.markets.lookup eventID = right.markets.lookup eventID) ∧
  ∀ id order, router.partitionFor order.eventID = partitionID →
    (left.orders.lookup id = some order ↔ right.orders.lookup id = some order)

/-- Two streams share no order, and no account that an order draws on or is
paid to. -/
def Unrelated (stream other : List Input) : Prop :=
  (∀ id ∈ orderIDsIn stream, id ∉ orderIDsIn other) ∧
  ∀ order ∈ ordersIn stream, ∀ rival ∈ ordersIn other,
    order.userID ≠ rival.userID ∧ order.positionKey ≠ rival.positionKey

instance (stream other : List Input) : Decidable (Unrelated stream other) :=
  inferInstanceAs (Decidable (_ ∧ _))

/-- A user who is granted the starting balance orders only after it is granted
in the same stream. -/
def FundsFirst (granted : List String) (stream : List Input) : Prop :=
  Along (fun funded (input : Input) => funded ++ input.funds?.toList)
    (fun funded input => ∀ order ∈ input.order?,
      order.userID ∈ granted → order.userID ∈ funded)
    [] stream

instance (granted : List String) (stream : List Input) :
    Decidable (FundsFirst granted stream) :=
  Along.decidable _ _ [] stream

structure Separate (streams : List (List Input)) : Prop where
  unrelated : ∀ first < streams.length, ∀ second < streams.length,
    first ≠ second →
      Unrelated (streamOf streams first) (streamOf streams second)
  fundsFirst : ∀ stream ∈ streams,
    FundsFirst (fundedIn streams.flatten) stream

instance (streams : List (List Input)) : Decidable (Separate streams) :=
  decidable_of_iff
    ((∀ first < streams.length, ∀ second < streams.length, first ≠ second →
      Unrelated (streamOf streams first) (streamOf streams second)) ∧
      ∀ stream ∈ streams, FundsFirst (fundedIn streams.flatten) stream)
    ⟨fun both => ⟨both.1, both.2⟩,
      fun separate => ⟨separate.1, separate.2⟩⟩

/-! What the orders of a stream have to themselves. -/

structure Order.Within (order : Order) (region : Region) : Prop where
  id : region.orders order.id
  event : region.events order.eventID
  user : region.users order.userID
  key : region.keys order.positionKey

private theorem Order.Continues.positionKey {later earlier : Order}
    (continues : later.Continues earlier) :
    later.positionKey = earlier.positionKey := by
  simp only [Order.positionKey, continues.userID, continues.eventID,
    continues.outcome]

theorem Order.Continues.within {later earlier : Order} {region : Region}
    (continues : later.Continues earlier) (within : earlier.Within region) :
    later.Within region := by
  refine ⟨?_, ?_, ?_, ?_⟩
  · rw [continues.id]
    exact within.id
  · rw [continues.eventID]
    exact within.event
  · rw [continues.userID]
    exact within.user
  · rw [continues.positionKey]
    exact within.key

theorem Order.Within.footprint {order : Order} {region : Region}
    (within : order.Within region) : order.footprint.Inside region := by
  refine ⟨?_, ?_, ?_, ?_⟩
  · intro id member
    rw [List.mem_singleton.mp member]
    exact within.id
  · intro eventID member
    rw [List.mem_singleton.mp member]
    exact within.event
  · intro userID member
    simp only [Order.footprint] at member
    split at member
    · rw [List.mem_singleton.mp member]
      exact within.user
    · contradiction
  · intro key member
    simp only [Order.footprint] at member
    split at member
    · contradiction
    · rw [List.mem_singleton.mp member]
      exact within.key

private theorem buildTrade_within {taker maker : Order} {region : Region}
    (takes : taker.Within region) (makes : maker.Within region)
    (sameEvent : maker.eventID = taker.eventID)
    (sameOutcome : maker.outcome = taker.outcome) (quantity : Int64) :
    (∀ userID ∈ (buildTrade taker maker quantity).users,
      region.users userID) ∧
    ∀ key ∈ (buildTrade taker maker quantity).keys, region.keys key := by
  have takerKey := takes.key
  have makerKey := makes.key
  unfold Order.positionKey at takerKey makerKey
  rw [sameEvent, sameOutcome] at makerKey
  unfold Trade.users Trade.keys buildTrade
  cases taker.side with
  | sideBuy =>
      simp only [List.forall_mem_cons, List.not_mem_nil, false_implies,
        implies_true, and_true]
      exact ⟨⟨takes.user, makes.user⟩, takerKey, makerKey⟩
  | sideSell =>
      simp only [List.forall_mem_cons, List.not_mem_nil, false_implies,
        implies_true, and_true]
      exact ⟨⟨makes.user, takes.user⟩, makerKey, takerKey⟩

def Engine.ClosedIn (engine : Engine) (region : Region) : Prop :=
  ∀ {id order}, engine.orders.lookup id = some order →
    region.events order.eventID → order.Within region

section Inside

variable {engine : Engine} {region : Region} (closed : engine.ClosedIn region)

include closed

private theorem beginFootprint_inside {input : Input}
    (named : input.command.namesEvent = true)
    (events : ∀ eventID ∈ input.command.eventID?, region.events eventID)
    (ids : ∀ id ∈ input.orderIDs, region.orders id)
    (submits : ∀ order ∈ input.order?, order.Within region)
    (notFunding : ∀ userID, input.command ≠ .userCreated (some userID)) :
    (engine.beginFootprint input).Inside region := by
  have empty : Footprint.empty.Inside region :=
    ⟨by simp [Footprint.empty], by simp [Footprint.empty],
      by simp [Footprint.empty], by simp [Footprint.empty]⟩
  obtain ⟨command, surroundings⟩ := input
  cases command with
  | createOrder payload =>
      simp only [Engine.beginFootprint]
      cases submitted : Input.order? ⟨.createOrder payload, surroundings⟩ with
      | none => exact empty
      | some order => exact (submits order submitted).footprint
  | cancelOrder payload =>
      cases payload with
      | none => exact empty
      | some req =>
          simp only [Engine.beginFootprint]
          cases chosen : engine.canceled?
              ⟨.cancelOrder (some req), surroundings⟩ with
          | none =>
              refine { empty with orders := ?_ }
              intro id member
              rw [List.mem_singleton.mp member]
              exact ids req.orderID (by simp [Input.orderIDs])
          | some order =>
              simp only [Engine.canceled?] at chosen
              split at chosen
              · contradiction
              · rename_i found present
                split at chosen
                · rename_i accepted
                  cases chosen
                  simp only [Command.namesEvent, decide_eq_true_eq] at named
                  have event := accepted.2.1.resolve_left named
                  apply (closed present _).footprint
                  rw [event]
                  exact events req.eventID rfl
                · contradiction
  | getDepth eventID =>
      cases eventID with
      | none => exact empty
      | some eventID =>
          refine { empty with events := ?_ }
          intro other member
          rw [List.mem_singleton.mp member]
          exact events eventID rfl
  | createEvent eventID =>
      cases eventID with
      | none => exact empty
      | some eventID =>
          refine { empty with events := ?_ }
          intro other member
          rw [List.mem_singleton.mp member]
          exact events eventID rfl
  | userCreated userID =>
      cases userID with
      | none => exact empty
      | some userID => exact absurd rfl (notFunding userID)
  | getOpenOrders _ => exact empty
  | unknown _ => exact empty

theorem finishFootprint_inside {waiting : String → Prop}
    (tidy : Tidy engine waiting) {orderID : String}
    (isWaiting : waiting orderID) {order : Order}
    (present : engine.orders.lookup orderID = some order)
    (event : region.events order.eventID) :
    (engine.finishFootprint orderID).Inside region := by
  have within := closed present event
  have ownID := tidy.keyed orderID order present
  subst ownID
  simp only [Engine.finishFootprint, present]
  split
  · refine ⟨?_, by simp [Footprint.empty], by simp [Footprint.empty],
      by simp [Footprint.empty]⟩
    intro id member
    rw [List.mem_singleton.mp member]
    exact within.id
  · rename_i notCanceled
    obtain ⟨market, hasMarket⟩ := tidy.hasMarket present
    have listed : ∀ {side id},
        id ∈ engine.slice order.eventID order.outcome side →
        ∃ maker, engine.orders.lookup id = some maker ∧
          maker.eventID = order.eventID ∧ maker.outcome = order.outcome ∧
          maker.Within region := by
      intro side id member
      obtain ⟨maker, found, sameEvent, sameOutcome, _⟩ := tidy.listed member
      refine ⟨maker, found, sameEvent, sameOutcome, closed found ?_⟩
      rw [sameEvent]
      exact event
    have inBook : ∀ {side id},
        id ∈ engine.slice order.eventID order.outcome side →
          region.orders id := by
      intro side id member
      obtain ⟨maker, found, _, _, makes⟩ := listed member
      rw [← tidy.keyed id maker found]
      exact makes.id
    have trades : ∀ trade ∈ (matchOrder engine order.id).2,
        (∀ userID ∈ trade.users, region.users userID) ∧
          ∀ key ∈ trade.keys, region.keys key := by
      intro trade member
      rw [matchOrder_matched tidy.keyed present notCanceled hasMarket]
        at member
      obtain ⟨maker, registered, inSlice, isTrade, _⟩ :=
        walk_trade tidy hasMarket isWaiting member
      obtain ⟨found, isFound, sameEvent, sameOutcome, makes⟩ := listed inSlice
      rw [registered] at isFound
      cases isFound
      rw [isTrade]
      exact buildTrade_within within makes sameEvent sameOutcome _
    refine ⟨?_, ?_, ?_, ?_⟩
    · intro id member
      rcases List.mem_cons.mp member with rfl | inSlice
      · exact within.id
      · rcases List.mem_append.mp inSlice with buy | sell
        · exact inBook buy
        · exact inBook sell
    · intro eventID member
      rw [List.mem_singleton.mp member]
      exact event
    · intro userID member
      rcases List.mem_append.mp member with own | traded
      · exact within.footprint.users userID own
      · obtain ⟨trade, isTrade, isUser⟩ := List.mem_flatMap.mp traded
        exact (trades trade isTrade).1 userID isUser
    · intro key member
      rcases List.mem_append.mp member with own | traded
      · exact within.footprint.keys key own
      · obtain ⟨trade, isTrade, isKey⟩ := List.mem_flatMap.mp traded
        exact (trades trade isTrade).2 key isKey

end Inside

/-! The two sections of a command, whether or not its order is announced. -/

/-- Every registered order comes from an order of a given kind. -/
def Engine.Descends (engine : Engine) (origin : Order → Prop) : Prop :=
  ∀ {id order}, engine.orders.lookup id = some order →
    ∃ submitted, origin submitted ∧ order.Continues submitted

private theorem Engine.Descends.of_related {engine later : Engine}
    {origin : Order → Prop} (descends : engine.Descends origin)
    (related : FiniteMap.Related Order.Continues later.orders engine.orders) :
    later.Descends origin := by
  intro id order present
  obtain ⟨earlier, found, continues⟩ := related.of_left present
  obtain ⟨submitted, isOrigin, older⟩ := descends found
  exact ⟨submitted, isOrigin, continues.trans older⟩

theorem descends_begin {engine : Engine} {waiting : String → Prop}
    (tidy : Tidy engine waiting) {origin : Order → Prop}
    (descends : engine.Descends origin) {input : Input}
    (submits : ∀ order ∈ input.order?, origin order) :
    (beginCommand engine input).1.Descends origin := by
  intro id order present
  rcases begin_continues tidy present with
    ⟨earlier, found, continues⟩ | ⟨submitted, isSubmitted, continues⟩
  · obtain ⟨submitted, isOrigin, older⟩ := descends found
    exact ⟨submitted, isOrigin, continues.trans older⟩
  · exact ⟨submitted, submits submitted isSubmitted, continues⟩

theorem begin_orderID {engine : Engine} {input : Input} {order : Order}
    (begun : (beginCommand engine input).2 = .registered order) :
    order.id ∈ input.orderIDs := by
  have opening := beginCommand_opening engine input
  generalize beginCommand engine input = result at opening begun
  cases opening with
  | registered submitted market isSubmitted fresh hasMarket affords =>
      cases begun
      obtain ⟨command, surroundings⟩ := input
      cases command with
      | createOrder payload =>
          simp only [Input.orderIDs, isSubmitted]
          exact List.mem_singleton.mpr rfl
      | _ => contradiction
  | _ => contradiction

theorem keptIn_begin (engine : Engine) (input : Input) :
    engine.balances.KeptIn (beginCommand engine input).1.balances := by
  have opening := beginCommand_opening engine input
  generalize beginCommand engine input = result at opening ⊢
  cases opening with
  | unchanged response idle => exact .refl _
  | opened order message => exact Leg.cash.keptIn_opened engine order
  | canceled req order market requested found live hasMarket chosen =>
      exact (grows_cancel engine order market).balances
  | marketCreated created requested absent => exact .refl _
  | userFunded userID requested absent => exact Accounts.keptIn_insert _ _ _
  | registered submitted market isSubmitted fresh hasMarket affords =>
      exact Leg.cash.keptIn_frozen engine submitted

private theorem keptIn_finished (engine : Engine) (order : Order)
    (market : Market) :
    engine.balances.KeptIn (engine.finished order market).balances := by
  have settled : engine.balances.KeptIn
      (settleAll (engine.stored order market)
        (engine.walk order market).1.trades).balances := by
    rw [settleAll_balances]
    exact Transfer.keptIn_applyAll _ _
  unfold Engine.finished
  simp only
  split
  · unfold Engine.release
    split
    · exact settled
    · exact settled.trans (Leg.cash.keptIn_release _ _)
  · exact settled

section Finish

variable {engine : Engine} {waiting : String → Prop}
  (tidy : Tidy engine waiting) {order : Order} (isWaiting : waiting order.id)
  (emitted : Bool)

include tidy

theorem keptIn_announceAndMatch :
    engine.balances.KeptIn
      (announceAndMatch engine order emitted).engine.balances := by
  cases emitted with
  | false => exact .refl _
  | true =>
      change engine.balances.KeptIn (matchOrder engine order.id).1.balances
      have finishing := matchOrder_finishing tidy.keyed order.id
      generalize matchOrder engine order.id = result at finishing ⊢
      cases finishing with
      | absent absent => exact .refl _
      | canceled found present canceled => exact .refl _
      | rejected found present notCanceled noMarket => exact .refl _
      | matched found market present notCanceled hasMarket =>
          exact keptIn_finished engine found market

include isWaiting

theorem descends_announceAndMatch {origin : Order → Prop}
    (descends : engine.Descends origin) :
    (announceAndMatch engine order emitted).engine.Descends origin := by
  cases emitted with
  | false =>
      intro id found present
      exact descends (FiniteMap.lookup_of_erase present)
  | true => exact descends.of_related (matchOrder_continues tidy isWaiting)

theorem tidy_announceAndMatch {fewer : String → Prop}
    (fewerOf : ∀ {id}, fewer id → waiting id) (gone : ¬ fewer order.id) :
    Tidy (announceAndMatch engine order emitted).engine fewer := by
  cases emitted with
  | false => exact tidy_erase tidy isWaiting fewerOf gone
  | true => exact tidy_matchOrder tidy isWaiting fewerOf gone

theorem announceAndMatch_local {region : Region} {right : Engine}
    {rightWaiting : String → Prop} (same : engine.SameOn region right)
    (rightTidy : Tidy right rightWaiting)
    (rightWaits : rightWaiting order.id)
    (inside : (engine.finishFootprint order.id).Inside region) :
    ∃ change, LocalTo region change ∧
      (announceAndMatch engine order emitted).engine = change engine ∧
      (announceAndMatch right order emitted).engine = change right := by
  cases emitted with
  | false =>
      have own : region.orders order.id := by
        apply inside.orders
        unfold Engine.finishFootprint
        split
        · simp
        · split <;> simp
      exact ⟨_, .eraseOrder own, rfl, rfl⟩
  | true =>
      obtain ⟨change, isLocal, engineIs, rightIs, _⟩ :=
        matchOrder_local same tidy rightTidy isWaiting rightWaits inside
      exact ⟨change, isLocal, engineIs, rightIs⟩

end Finish

/-! The starting balance. -/

def Engine.fund (engine : Engine) (userID : String) : Engine :=
  if userID = "" ∨ engine.balances.lookup userID ≠ none then
    engine
  else
    { engine with
      balances := engine.balances.insert userID ⟨defaultStartingBalance, 0⟩ }

theorem beginCommand_fund (engine : Engine) {input : Input} {userID : String}
    (requested : input.command = .userCreated (some userID)) :
    ∃ response, beginCommand engine input =
      (engine.fund userID, .answered response) := by
  obtain ⟨command, surroundings⟩ := input
  cases requested
  simp only [beginCommand, handleMessage, handleUserCreated, Engine.fund]
  by_cases unnamed : userID = ""
  · rw [if_pos unnamed, if_pos (.inl unnamed)]
    exact ⟨_, rfl⟩
  · rw [if_neg unnamed]
    cases found : engine.balances.lookup userID with
    | none =>
        rw [if_neg (by simp [unnamed])]
        exact ⟨_, rfl⟩
    | some balance =>
        rw [if_pos (.inr (by simp))]
        exact ⟨_, rfl⟩

theorem fund_sameOn (engine : Engine) (userID : String) :
    engine.SameOn
      ⟨fun _ => True, fun _ => True, fun other => other ≠ userID,
        fun _ => True⟩ (engine.fund userID) := by
  unfold Engine.fund
  split
  · exact .refl _ engine
  · refine ⟨.refl _ _, .refl _ _, ?_, .refl _ _⟩
    exact .insert_outside (fun outside => outside rfl) _ _

@[simp] theorem fund_orders (engine : Engine) (userID : String) :
    (engine.fund userID).orders = engine.orders := by
  unfold Engine.fund
  split <;> rfl

@[simp] theorem fund_markets (engine : Engine) (userID : String) :
    (engine.fund userID).markets = engine.markets := by
  unfold Engine.fund
  split <;> rfl

theorem lookup_fund (engine : Engine) {userID : String}
    (named : userID ≠ "") :
    (engine.fund userID).balances.lookup userID =
      some ((engine.balances.lookup userID).getD
        ⟨defaultStartingBalance, 0⟩) := by
  unfold Engine.fund
  cases found : engine.balances.lookup userID with
  | none =>
      rw [if_neg (by simp [named])]
      exact Finmap.lookup_insert _
  | some balance =>
      rw [if_pos (.inr (by simp)), found]
      rfl

/-! The parts of the state that belong to the streams. -/

def Router.lane (router : Router) (streams : List (List Input))
    (partitionID : Nat) (users : String → Prop) : Region where
  orders := fun id => id ∈ orderIDsIn (streamOf streams partitionID)
  events := fun eventID => router.partitionFor eventID = partitionID
  users := fun userID => users userID ∧
    ∃ order ∈ ordersIn (streamOf streams partitionID), order.userID = userID
  keys := fun key =>
    ∃ order ∈ ordersIn (streamOf streams partitionID), order.positionKey = key

theorem lt_of_mem_streamOf {streams : List (List Input)} {partitionID : Nat}
    {input : Input} (member : input ∈ streamOf streams partitionID) :
    partitionID < streams.length := by
  by_contra outside
  unfold streamOf at member
  rw [List.getD_eq_getElem?_getD,
    List.getElem?_eq_none (Nat.le_of_not_lt outside)] at member
  contradiction

private theorem order?_event {input : Input} {order : Order}
    (submitted : input.order? = some order) :
    input.command.eventID? = some order.eventID := by
  obtain ⟨command, surroundings⟩ := input
  cases command with
  | createOrder payload =>
      cases payload with
      | none => contradiction
      | some req =>
          simp only [Input.order?] at submitted
          cases valid : validateOrder
              (if req.orderID = "" then surroundings.newUUID
                else req.orderID) req with
          | error message =>
              rw [valid] at submitted
              contradiction
          | ok accepted =>
              rw [valid] at submitted
              cases submitted
              rw [(validateOrder_submitted valid).2.2.1]
              rfl
  | _ => contradiction

private theorem order?_orderIDs {input : Input} {order : Order}
    (submitted : input.order? = some order) :
    input.orderIDs = [order.id] := by
  obtain ⟨command, surroundings⟩ := input
  cases command with
  | createOrder payload =>
      simp only [Input.orderIDs, submitted]
      rfl
  | _ => contradiction

section Streams

variable {router : Router} {streams : List (List Input)}
  (routed : Routed router streams) (separate : Separate streams)

section Separation

include separate

theorem orderID_unique {first second : Nat} {id : String}
    (inFirst : id ∈ orderIDsIn (streamOf streams first))
    (inSecond : id ∈ orderIDsIn (streamOf streams second)) :
    first = second := by
  by_contra different
  obtain ⟨_, firstInput, _⟩ := List.mem_flatMap.mp inFirst
  obtain ⟨_, secondInput, _⟩ := List.mem_flatMap.mp inSecond
  exact (separate.unrelated first (lt_of_mem_streamOf firstInput) second
    (lt_of_mem_streamOf secondInput) different).1 id inFirst inSecond

private theorem accounts_unique {first second : Nat} {order other : Order}
    (inFirst : order ∈ ordersIn (streamOf streams first))
    (inSecond : other ∈ ordersIn (streamOf streams second))
    (shared : order.userID = other.userID ∨
      order.positionKey = other.positionKey) : first = second := by
  by_contra different
  obtain ⟨_, firstInput, _⟩ := List.mem_filterMap.mp inFirst
  obtain ⟨_, secondInput, _⟩ := List.mem_filterMap.mp inSecond
  have apart := (separate.unrelated first (lt_of_mem_streamOf firstInput) second
    (lt_of_mem_streamOf secondInput) different).2 order inFirst other inSecond
  rcases shared with user | key
  · exact apart.1 user
  · exact apart.2 key

theorem lane_apart {first second : Nat} (different : first ≠ second)
    (users others : String → Prop) :
    (router.lane streams first users).Sub
      (router.lane streams second others).outside where
  orders := fun inFirst inSecond =>
    different (orderID_unique separate inFirst inSecond)
  events := fun inFirst inSecond => different (inFirst.symm.trans inSecond)
  users := by
    rintro userID ⟨_, order, isOrder, isUser⟩ ⟨_, other, isOther, otherUser⟩
    exact different (accounts_unique separate isOrder isOther
      (.inl (isUser.trans otherUser.symm)))
  keys := by
    rintro key ⟨order, isOrder, isKey⟩ ⟨other, isOther, otherKey⟩
    exact different (accounts_unique separate isOrder isOther
      (.inr (isKey.trans otherKey.symm)))

end Separation

section Routing

include routed

theorem sent {partitionID : Nat} {input : Input}
    (member : input ∈ streamOf streams partitionID) :
    input.command.namesEvent = true ∧
      ∀ eventID ∈ input.command.eventID?,
        router.partitionFor eventID = partitionID :=
  routed.byEvent partitionID (lt_of_mem_streamOf member) input member

theorem submitted_within {partitionID : Nat} {order : Order}
    (member : order ∈ ordersIn (streamOf streams partitionID))
    {users : String → Prop} (isUser : users order.userID) :
    order.Within (router.lane streams partitionID users) := by
  obtain ⟨input, isInput, submitted⟩ := List.mem_filterMap.mp member
  refine ⟨?_, ?_, ⟨isUser, order, member, rfl⟩, ⟨order, member, rfl⟩⟩
  · apply List.mem_flatMap.mpr
    refine ⟨input, isInput, ?_⟩
    rw [order?_orderIDs submitted]
    exact List.mem_singleton.mpr rfl
  · exact (sent routed isInput).2 _ (order?_event submitted)

theorem closed_of_descends {engine : Engine}
    (descends : engine.Descends fun order =>
      ∃ partitionID, order ∈ ordersIn (streamOf streams partitionID))
    (partitionID : Nat) :
    engine.ClosedIn (router.lane streams partitionID fun _ => True) := by
  intro id order present event
  obtain ⟨submitted, ⟨other, member⟩, continues⟩ := descends present
  have within : submitted.Within (router.lane streams other fun _ => True) :=
    submitted_within routed member trivial
  have sameEvent := within.event
  rw [← continues.eventID] at sameEvent
  have same : other = partitionID := sameEvent.symm.trans event
  subst same
  exact continues.within within

theorem begin_inside {partitionID : Nat} {users : String → Prop}
    {engine : Engine}
    (closed : engine.ClosedIn (router.lane streams partitionID users))
    {input : Input} (member : input ∈ streamOf streams partitionID)
    (isUser : ∀ order ∈ input.order?, users order.userID)
    (notFunding : ∀ userID, input.command ≠ .userCreated (some userID)) :
    (engine.beginFootprint input).Inside
      (router.lane streams partitionID users) := by
  obtain ⟨named, events⟩ := sent routed member
  apply beginFootprint_inside closed named events _ _ notFunding
  · intro id isID
    exact List.mem_flatMap.mpr ⟨input, member, isID⟩
  · intro order submitted
    exact submitted_within routed
      (List.mem_filterMap.mpr ⟨input, member, submitted⟩)
      (isUser order submitted)

end Routing
end Streams

end Predix
