import Predix.Api.Identity
import Predix.Data.Rpc
import Predix.Delivery.Commands

namespace Predix

open Data

/-! Requests to the engine of one partition: `SendAndAwait` in any number of API
processes, the partition's stream, and the replies of `processStreamEntry`. The
engine may take any entry of the stream at any time, also again; it does not
restart. -/

def processStreamEntry (history : History) (command : Command)
    (surroundings : Surroundings) : History × EngineResponse :=
  (history.step ⟨command, surroundings⟩,
    (history.engine.step ⟨command, surroundings⟩).response)

abbrev ManagerAction := Rpc.Action String String Command Surroundings

abbrev Manager :=
  Rpc.System History String String Command Surroundings EngineResponse

/-- The channel is subscribed to before the command is appended. -/
def sendAndAwait (clientID requestID : String) (command : Command) :
    ManagerAction :=
  .request clientID requestID command maxAppendRetries

def sendCommand (requestID : String) (command : Command) : ManagerAction :=
  .post requestID command

namespace Manager

def start (balances positions : Accounts String) : Manager :=
  Rpc.System.start (History.start (Engine.seeded balances positions))

def step (manager : Manager) (action : ManagerAction) : Manager :=
  Rpc.System.step processStreamEntry manager action

def run (balances positions : Accounts String)
    (actions : List ManagerAction) : Manager :=
  runFrom step (start balances positions) actions

def execution (serving : Rpc.Serving String String Command Surroundings
    EngineResponse) : String × Input :=
  (serving.message.id, ⟨serving.message.command, serving.environment⟩)

/-- The commands in the order in which the engine took them, with the ids of
their requests. -/
def executed (manager : Manager) : List (String × Input) :=
  manager.servings.map execution

/-- No two commands are sent with one id. -/
def FreshIDs (balances positions : Accounts String)
    (actions : List ManagerAction) : Prop :=
  Along step Rpc.System.Fresh (start balances positions) actions

/-- Every append is answered or has no effect, and no entry is taken twice. -/
def Undoubled (balances positions : Accounts String)
    (actions : List ManagerAction) : Prop :=
  Along step Rpc.System.Once (start balances positions) actions

/-! One sequential run of the engine. -/

theorem replay_eq (balances positions : Accounts String)
    (servings : List (Rpc.Serving String String Command Surroundings
      EngineResponse)) :
    Rpc.System.replay processStreamEntry
      (History.start (Engine.seeded balances positions)) servings =
      runSeeded balances positions (servings.map fun serving =>
        ⟨serving.message.command, serving.environment⟩) := by
  unfold Rpc.System.replay runSeeded History.run runFrom
  rw [List.foldl_map]
  rfl

theorem server_run (balances positions : Accounts String)
    (actions : List ManagerAction) :
    (run balances positions actions).server =
      runSeeded balances positions
        ((run balances positions actions).executed.map Prod.snd) := by
  have chained := @Rpc.System.chained_run _ _ _ _ _ _ _ _ processStreamEntry
    (History.start (Engine.seeded balances positions)) actions
  rw [executed, List.map_map]
  exact chained.state.trans (replay_eq balances positions _)

section Requests

variable {balances positions : Accounts String}

theorem sound_run {actions : List ManagerAction}
    (fresh : FreshIDs balances positions actions) :
    (run balances positions actions).Sound :=
  Rpc.System.sound_run fresh

theorem split_of_answered {actions : List ManagerAction}
    {request : Rpc.Request String String Command EngineResponse}
    {response : EngineResponse}
    (answered : request.Answered
      (run balances positions actions).servings response) :
    ∃ before surroundings after,
      (run balances positions actions).executed =
        before ++ (request.id, ⟨request.command, surroundings⟩) :: after ∧
      response = ((runSeeded balances positions
        (before.map Prod.snd)).engine.step
          ⟨request.command, surroundings⟩).response := by
  obtain ⟨serving, member, own, rfl⟩ := answered
  obtain ⟨before, after, split⟩ := List.append_of_mem member
  have chained := @Rpc.System.chained_run _ _ _ _ _ _ _ _ processStreamEntry
    (History.start (Engine.seeded balances positions)) actions
  have response := chained.responses before serving after split
  have command : serving.message.command = request.command :=
    congrArg Rpc.Message.command own
  have id : serving.message.id = request.id := congrArg Rpc.Message.id own
  rw [replay_eq, command] at response
  refine ⟨before.map execution, serving.environment, after.map execution,
    ?_, ?_⟩
  · rw [executed, split, List.map_append, List.map_cons]
    unfold execution
    rw [command, id]
  · rw [response, List.map_map]
    rfl

/-- Every response the API gets is the one the engine gives in one run of all
the commands it takes, and what is sent after a request has returned comes
later in that run. -/
theorem run_linearizable {first second : List ManagerAction}
    (fresh : FreshIDs balances positions (first ++ second))
    {request : Rpc.Request String String Command EngineResponse}
    (member : request ∈ (run balances positions first).requests)
    {response : EngineResponse}
    (returned : request.status = .returned (some response)) :
    ∃ before surroundings after,
      (run balances positions (first ++ second)).executed =
        before ++ (request.id, ⟨request.command, surroundings⟩) :: after ∧
      response = ((runSeeded balances positions
        (before.map Prod.snd)).engine.step
          ⟨request.command, surroundings⟩).response ∧
      (run balances positions (first ++ second)).server =
        runSeeded balances positions
          ((run balances positions (first ++ second)).executed.map Prod.snd) ∧
      ∀ action ∈ second, ∀ id, action.sentID? = some id →
        id ≠ request.id ∧ ∀ entry ∈ before, entry.1 ≠ id := by
  obtain ⟨freshFirst, freshSecond⟩ := along_append.mp fresh
  have sound := sound_run freshFirst
  have answered := (sound.faithful request member).returned returned
  obtain ⟨before, surroundings, after, split, responds⟩ :=
    split_of_answered answered
  have whole : run balances positions (first ++ second) =
      Rpc.System.run processStreamEntry (run balances positions first) second :=
    runFrom_append _ _ first second
  obtain ⟨more, grown⟩ := @Rpc.System.servings_run _ _ _ _ _ _ _ _
    processStreamEntry (run balances positions first) second
  have executions : (run balances positions (first ++ second)).executed =
      (run balances positions first).executed ++ more.map execution := by
    rw [executed, executed, whole, ← grown, List.map_append]
  refine ⟨before, surroundings, after ++ more.map execution, ?_, responds,
    server_run balances positions _, ?_⟩
  · rw [executions, split, List.append_assoc, List.cons_append]
  · intro action isAction id sent
    have unserved : ∀ entry ∈ (run balances positions first).executed,
        entry.1 ≠ id := by
      intro entry isEntry
      obtain ⟨serving, isServing, rfl⟩ := List.mem_map.mp isEntry
      exact Rpc.System.unlogged_of_sent freshSecond isAction sent
        serving.message (sound.served_mem isServing)
    rw [split] at unserved
    refine ⟨(unserved (request.id, ⟨request.command, surroundings⟩)
      (by simp)).symm, fun entry isEntry => ?_⟩
    exact unserved entry (List.mem_append_left _ isEntry)

def oneBuyer : Accounts String := Finmap.insert "u" ⟨1000000, 0⟩ ∅

def buyCommand (orderID : String) : Command :=
  .createOrder (some ⟨orderID, "e", "u", "LIMIT", "YES", "BUY", 2, 5000⟩)

/-- Two clients that have drawn one channel, and whose commands are appended in
the other order. -/
def twoOnOneChannel : List ManagerAction :=
  [sendCommand "q" (.createEvent (some "e")), .serve 0 ⟨"", true⟩ true,
    sendAndAwait "c" "q1" (buyCommand "o1"),
    sendAndAwait "c" "q2" (buyCommand "o2"), .move 1 (.append .confirmed),
    .move 0 (.append .confirmed), .serve 1 ⟨"", true⟩ true,
    .serve 2 ⟨"", true⟩ true]

/-- The first of them skips the answer to the other. -/
def firstAnswered : List ManagerAction :=
  twoOnOneChannel ++ [.move 0 .receive, .move 0 .receive]

def thenCanceled : List ManagerAction :=
  [sendAndAwait "c" "q3" (.cancelOrder (some ⟨"o1", ""⟩)),
    .move 2 (.append .confirmed), .serve 3 ⟨"", true⟩ true, .move 2 .receive]

theorem linearizable_firstAnswered :
    ∃ request ∈ (run oneBuyer ∅ firstAnswered).requests,
      request.status = .returned (some (.successJSON
        (.orderAccepted "o1" .statusPending 0 2))) ∧
      ∃ before surroundings after,
        (run oneBuyer ∅ (firstAnswered ++ thenCanceled)).executed =
          before ++ (request.id, ⟨request.command, surroundings⟩) :: after ∧
        ∀ entry ∈ before, entry.1 ≠ "q3" := by
  have facts : FreshIDs oneBuyer ∅ (firstAnswered ++ thenCanceled) ∧
      (run oneBuyer ∅ firstAnswered).requests[0]?.map (·.status) =
        some (.returned (some (.successJSON
          (.orderAccepted "o1" .statusPending 0 2)))) := by
    unfold FreshIDs
    decide +kernel
  obtain ⟨fresh, answered⟩ := facts
  obtain ⟨request, found, returned⟩ := Option.map_eq_some_iff.mp answered
  obtain ⟨before, surroundings, after, split, _, _, later⟩ :=
    run_linearizable fresh (List.mem_of_getElem? found) returned
  exact ⟨request, List.mem_of_getElem? found, returned, before, surroundings,
    after, split, (later _ List.mem_cons_self "q3" rfl).2⟩

/-- A reply that was published to a request that waits is not lost: a few
messages on, the request returns with the response to its command. -/
theorem published_returns {actions : List ManagerAction}
    (fresh : FreshIDs balances positions actions) {index : Nat}
    {request : Rpc.Request String String Command EngineResponse}
    (found : (run balances positions actions).requests[index]? = some request)
    (waiting : request.status = .waiting)
    (published : ∃ serving ∈ (run balances positions actions).servings,
      serving.published = true ∧ serving.message = request.message) :
    ∃ count ≤ request.inbox.length, ∃ later response,
      (run balances positions (actions ++
        List.replicate count (.move index .receive))).requests[index]? =
          some later ∧
      later.status = .returned (some response) ∧
      ∃ before surroundings after,
        (run balances positions actions).executed =
          before ++ (request.id, ⟨request.command, surroundings⟩) :: after ∧
        response = ((runSeeded balances positions
          (before.map Prod.snd)).engine.step
            ⟨request.command, surroundings⟩).response := by
  obtain ⟨serving, member, isPublished, own⟩ := published
  obtain ⟨count, bound, later, response, isLater, returned, answered⟩ :=
    @Rpc.System.returns_of_published _ _ _ _ _ _ _ _ processStreamEntry _
      (sound_run fresh) index request found waiting serving member isPublished
      own
  refine ⟨count, bound, later, response, ?_, returned,
    split_of_answered answered⟩
  rw [run, runFrom_append]
  exact isLater

theorem published_twoOnOneChannel :
    ∃ count later response,
      (run oneBuyer ∅ (twoOnOneChannel ++
        List.replicate count (.move 0 .receive))).requests[0]? = some later ∧
      later.status = .returned (some response) := by
  have facts : FreshIDs oneBuyer ∅ twoOnOneChannel ∧
      (run oneBuyer ∅ twoOnOneChannel).requests[0]?.map
        (fun request => (request.status, request.message)) =
          some (.waiting, ⟨some "c", "q1", buyCommand "o1"⟩) ∧
      ∃ serving ∈ (run oneBuyer ∅ twoOnOneChannel).servings,
        serving.published = true ∧
          serving.message = ⟨some "c", "q1", buyCommand "o1"⟩ := by
    unfold FreshIDs
    decide +kernel
  obtain ⟨fresh, waits, served⟩ := facts
  obtain ⟨request, found, same⟩ := Option.map_eq_some_iff.mp waits
  obtain ⟨waiting, message⟩ := Prod.mk.injEq _ _ _ _ ▸ same
  rw [← message] at served
  obtain ⟨count, _, later, response, isLater, returned, _⟩ :=
    published_returns fresh found waiting served
  exact ⟨count, later, response, isLater, returned⟩

end Requests

end Manager

/-! What a response says about the order of its request. -/

private theorem acceptedResponse_success (engine : Engine) (orderID : String) :
    (engine.acceptedResponse orderID).success = true ↔
      engine.orders.lookup orderID ≠ none := by
  unfold Engine.acceptedResponse
  cases engine.orders.lookup orderID with
  | none => simp [EngineResponse.success]
  | some order => simp [EngineResponse.success]

section Response

variable {engine : Engine} {payload : CreateOrderPayload}

theorem createOrder_registers_iff (named : payload.orderID ≠ "")
    (fresh : engine.orders.lookup payload.orderID = none)
    (surroundings : Surroundings) :
    (engine.step ⟨.createOrder (some payload), surroundings⟩).response.success =
        true ↔
      (engine.step
        ⟨.createOrder (some payload), surroundings⟩).engine.orders.lookup
          payload.orderID ≠ none := by
  simp only [Engine.step, handleMessage, handleCreateOrder, if_neg named]
  split
  · simp [Reply.unchanged, EngineResponse.success, fresh]
  cases valid : validateOrder payload.orderID payload with
  | error message => simp [Reply.unchanged, EngineResponse.success, fresh]
  | ok order =>
      have id := (validateOrder_submitted valid).2.1
      have registering := registerOrder_registering engine order
      simp only
      generalize registerOrder engine order = result at registering ⊢
      cases registering with
      | duplicate existing present =>
          rw [id, fresh] at present
          contradiction
      | noMarket => simp [Reply.unchanged, EngineResponse.success, fresh]
      | short =>
          simp [Reply.unchanged, EngineResponse.success, fresh]
      | registered market =>
          cases surroundings.orderCreatedEmitted with
          | true =>
              rw [← id]
              exact acceptedResponse_success _ order.id
          | false =>
              rw [← id]
              simp only [announceAndMatch, EngineResponse.success,
                Bool.false_eq_true, if_false, ne_eq, false_iff, not_not]
              exact Finmap.lookup_erase order.id _

private theorem canceled_of_success (wellFormed : WellFormed engine)
    {req : CancelOrderPayload} {surroundings : Surroundings}
    (success : (engine.step
      ⟨.cancelOrder (some req), surroundings⟩).response.success = true) :
    ∃ order, order.status = .statusCanceled ∧
      (engine.step ⟨.cancelOrder (some req), surroundings⟩).engine.orders.lookup
        req.orderID = some order ∧
      (engine.step ⟨.cancelOrder (some req), surroundings⟩).trades = [] := by
  simp only [Engine.step, handleMessage, handleCancelOrder] at success ⊢
  split at success
  · cases success
  rename_i hasID
  rw [if_neg hasID]
  cases present : engine.orders.lookup req.orderID with
  | none =>
      rw [present] at success
      cases success
  | some order =>
      rw [present] at success
      simp only at success ⊢
      split at success
      · cases success
      rename_i belongs
      rw [if_neg belongs]
      split at success
      · cases success
      rename_i live
      rw [if_neg live]
      cases hasMarket : engine.markets.lookup order.eventID with
      | none =>
          rw [hasMarket] at success
          cases success
      | some market =>
          obtain ⟨lock, closed⟩ := lookup_cancel engine order market req.orderID
          rw [if_pos (wellFormed.keyed _ _ present).symm] at closed
          exact ⟨_, rfl, closed, rfl⟩

end Response

def Engine.HoldsOrder (engine : Engine) (payload : CreateOrderPayload) : Prop :=
  ∃ order found, validateOrder payload.orderID payload = .ok order ∧
    engine.orders.lookup payload.orderID = some found ∧ found.SameTerms order

section Runs

variable {balances positions : Accounts String} {inputs : List Input}

theorem run_split (before after : List Input) (input : Input) :
    runSeeded balances positions (before ++ input :: after) =
      ((runSeeded balances positions before).step input).run after :=
  runFrom_append _ _ before (input :: after)

theorem registered_run {history : History}
    (wellFormed : WellFormed history.engine) {id : String}
    (present : history.engine.orders.lookup id ≠ none) (inputs : List Input) :
    (history.run inputs).engine.orders.lookup id ≠ none := by
  induction inputs generalizing history with
  | nil => exact present
  | cons input inputs induction =>
      obtain ⟨order, isOrder⟩ := Option.ne_none_iff_exists'.mp present
      obtain ⟨later, isLater, _⟩ := (grows_step wellFormed input).orders isOrder
      exact @induction (history.step input) (wellFormed_step wellFormed input)
        (Option.ne_none_iff_exists'.mpr ⟨later, isLater⟩)

theorem unregistered_run {history : History}
    (wellFormed : WellFormed history.engine) {id : String}
    (absent : history.engine.orders.lookup id = none)
    (others : ∀ input ∈ inputs, ∀ order ∈ input.order?, order.id ≠ id) :
    (history.run inputs).engine.orders.lookup id = none := by
  induction inputs generalizing history with
  | nil => exact absent
  | cons input inputs induction =>
      rw [List.forall_mem_cons] at others
      refine @induction (history.step input) (wellFormed_step wellFormed input)
        ?_ others.2
      by_contra present
      rcases registered_before wellFormed present with
        before | ⟨order, admitted, _, rfl⟩
      · exact before absent
      · exact others.1 order (admitted?_spec admitted).1 rfl

theorem terms_runSeeded {payload : CreateOrderPayload}
    (own : ∀ input ∈ inputs, ∀ order ∈ input.order?,
      order.id = payload.orderID →
        validateOrder payload.orderID payload = .ok order)
    {found : Order}
    (present : (runSeeded balances positions inputs).engine.orders.lookup
      payload.orderID = some found) :
    (runSeeded balances positions inputs).engine.HoldsOrder payload := by
  have both := @runSeeded_invariant
    (fun _ input => ∀ order ∈ input.order?, order.id = payload.orderID →
      validateOrder payload.orderID payload = .ok order)
    (fun history => WellFormed history.engine ∧
      ∀ {found}, history.engine.orders.lookup payload.orderID = some found →
        history.engine.HoldsOrder payload)
    ?_ balances positions inputs ⟨wellFormed_seeded balances positions, nofun⟩
    (along_of_forall _ _ own)
  · exact both.2 present
  · rintro history input ⟨wellFormed, holds⟩ owned
    refine ⟨wellFormed_step wellFormed input, fun {found} present => ?_⟩
    rcases step_terms wellFormed input present with
      ⟨old, isOld, same⟩ | ⟨order, admitted, id, same⟩
    · obtain ⟨order, registered, valid, isRegistered, terms⟩ := holds isOld
      rw [isOld] at isRegistered
      cases isRegistered
      exact ⟨order, found, valid, present, same.trans terms⟩
    · exact ⟨order, found, owned order (admitted?_spec admitted).1 id.symm,
        present, same⟩

private theorem registered_of_success {payload : CreateOrderPayload}
    (named : payload.orderID ≠ "") {before after : List Input}
    {surroundings : Surroundings}
    (success : ((runSeeded balances positions before).engine.step
      ⟨.createOrder (some payload), surroundings⟩).response.success = true) :
    (runSeeded balances positions (before ++
      ⟨.createOrder (some payload), surroundings⟩ :: after)).engine.orders.lookup
        payload.orderID ≠ none := by
  have wellFormed : WellFormed (runSeeded balances positions before).engine :=
    wellFormed_runSeeded _ _ _
  rw [run_split]
  apply registered_run (wellFormed_step wellFormed _)
  by_cases absent : (runSeeded balances positions before).engine.orders.lookup
      payload.orderID = none
  · exact (createOrder_registers_iff named absent surroundings).mp success
  · exact registered_run wellFormed absent
      [⟨.createOrder (some payload), surroundings⟩]

/-- If no other command names the order, it is registered only by a response
that says so. -/
theorem success_of_registered {payload : CreateOrderPayload}
    (named : payload.orderID ≠ "") {before after : List Input}
    {surroundings : Surroundings}
    (others : ∀ input ∈ before ++ after, ∀ order ∈ input.order?,
      order.id ≠ payload.orderID)
    (registered : (runSeeded balances positions (before ++
      ⟨.createOrder (some payload), surroundings⟩ :: after)).engine.orders.lookup
        payload.orderID ≠ none) :
    ((runSeeded balances positions before).engine.step
      ⟨.createOrder (some payload), surroundings⟩).response.success = true := by
  rw [List.forall_mem_append] at others
  have wellFormed : WellFormed (runSeeded balances positions before).engine :=
    wellFormed_runSeeded _ _ _
  have absent : (runSeeded balances positions before).engine.orders.lookup
      payload.orderID = none :=
    unregistered_run (wellFormed_seeded balances positions) rfl others.1
  rw [createOrder_registers_iff named absent]
  intro dropped
  rw [run_split] at registered
  exact registered (unregistered_run (wellFormed_step wellFormed _) dropped
    others.2)

end Runs

namespace Manager

variable {balances positions : Accounts String} {actions : List ManagerAction}
  {request : Rpc.Request String String Command EngineResponse}

private theorem command_of_executed
    (fresh : FreshIDs balances positions actions)
    (member : request ∈ (run balances positions actions).requests)
    {entry : String × Input}
    (executed : entry ∈ (run balances positions actions).executed)
    (same : entry.1 = request.id) : entry.2.command = request.command := by
  obtain ⟨serving, isServing, rfl⟩ := List.mem_map.mp executed
  have sound := sound_run fresh
  exact congrArg Rpc.Message.command (sound.logged request member _
    (sound.served_mem isServing) same)

private theorem other_executed (fresh : FreshIDs balances positions actions)
    (undoubled : Undoubled balances positions actions)
    {before after : List (String × Input)} {id : String} {input : Input}
    (split : (run balances positions actions).executed =
      before ++ (id, input) :: after) {entry : String × Input}
    (member : entry ∈ before ++ after) : entry.1 ≠ id := by
  have ids : ((run balances positions actions).executed.map Prod.fst).Nodup := by
    rw [executed, List.map_map]
    exact (Rpc.System.single_run fresh undoubled).servings
  rw [split, List.map_append, List.map_cons, List.nodup_middle,
    List.nodup_cons, ← List.map_append] at ids
  intro same
  exact ids.1 (List.mem_map.mpr ⟨entry, member, same⟩)

/-- As long as no other command submits an order under its id, a CREATE_ORDER
that is answered with success has its order registered from then on. One that
is answered with failure never has, if no command is written or taken twice. -/
theorem createOrder_answer_final (fresh : FreshIDs balances positions actions)
    (member : request ∈ (run balances positions actions).requests)
    {payload : CreateOrderPayload}
    (command : request.command = .createOrder (some payload))
    (named : payload.orderID ≠ "")
    (own : ∀ entry ∈ (run balances positions actions).executed,
      entry.1 ≠ request.id →
        ∀ order ∈ entry.2.order?, order.id ≠ payload.orderID)
    {response : EngineResponse}
    (returned : request.status = .returned (some response)) :
    (response.success = true →
      (run balances positions actions).server.engine.HoldsOrder payload) ∧
    (Undoubled balances positions actions →
      (run balances positions actions).server.engine.HoldsOrder payload →
        response.success = true) := by
  have sound := sound_run fresh
  obtain ⟨before, surroundings, after, split, responds⟩ :=
    split_of_answered ((sound.faithful request member).returned returned)
  have server := server_run balances positions actions
  have executions := congrArg (List.map Prod.snd) split
  rw [List.map_append, List.map_cons, command] at executions
  rw [command] at responds
  constructor
  · intro success
    have registered := @registered_of_success balances positions _ named
      (before.map Prod.snd) (after.map Prod.snd) surroundings
      (responds ▸ success)
    rw [← executions] at registered
    obtain ⟨found, present⟩ := Option.ne_none_iff_exists'.mp registered
    rw [server]
    apply terms_runSeeded _ present
    intro input isInput order submitted id
    obtain ⟨entry, executed, rfl⟩ := List.mem_map.mp isInput
    by_cases same : entry.1 = request.id
    · have isOwn := command_of_executed fresh member executed same
      rw [command] at isOwn
      obtain ⟨_, command, surroundings⟩ := entry
      cases isOwn
      have valid := order?_of_payload submitted
      rw [if_neg named] at valid
      exact valid
    · exact absurd id (own entry executed same order submitted)
  · intro undoubled holds
    obtain ⟨_, found, _, present, _⟩ := holds
    rw [responds]
    apply @success_of_registered balances positions _ named
      (before.map Prod.snd) (after.map Prod.snd)
    · intro input isInput
      rw [← List.map_append] at isInput
      obtain ⟨entry, isEntry, rfl⟩ := List.mem_map.mp isInput
      apply own entry _ (other_executed fresh undoubled split isEntry)
      rw [split]
      rcases List.mem_append.mp isEntry with earlier | later
      · exact List.mem_append_left _ earlier
      · exact List.mem_append_right _ (List.mem_cons_of_mem _ later)
    · rw [← executions, ← server, present]
      simp

theorem final_firstAnswered :
    ∃ response : EngineResponse,
      response.success = true ∧
      (response.success = true ↔ (run oneBuyer ∅
        (firstAnswered ++ thenCanceled)).server.engine.HoldsOrder
          ⟨"o1", "e", "u", "LIMIT", "YES", "BUY", 2, 5000⟩) := by
  have facts : FreshIDs oneBuyer ∅ (firstAnswered ++ thenCanceled) ∧
      Undoubled oneBuyer ∅ (firstAnswered ++ thenCanceled) ∧
      (run oneBuyer ∅ (firstAnswered ++ thenCanceled)).requests[0]?.map
        (fun request => (request.status, request.id, request.command)) =
          some (.returned (some (.successJSON
            (.orderAccepted "o1" .statusPending 0 2))), "q1",
              buyCommand "o1") ∧
      ∀ entry ∈ (run oneBuyer ∅ (firstAnswered ++ thenCanceled)).executed,
        entry.1 ≠ "q1" → ∀ order ∈ entry.2.order?, order.id ≠ "o1" := by
    unfold FreshIDs Undoubled
    decide +kernel
  obtain ⟨fresh, undoubled, answered, own⟩ := facts
  obtain ⟨request, found, same⟩ := Option.map_eq_some_iff.mp answered
  simp only [Prod.mk.injEq] at same
  obtain ⟨returned, id, command⟩ := same
  rw [← id] at own
  have final := createOrder_answer_final fresh (List.mem_of_getElem? found)
    command (by decide) own returned
  exact ⟨_, rfl, final.1, final.2 undoubled⟩

/-- Once a CANCEL_ORDER is answered with success the order stays CANCELED, and
no trade names it. -/
theorem cancel_answer_final (fresh : FreshIDs balances positions actions)
    (member : request ∈ (run balances positions actions).requests)
    {req : CancelOrderPayload}
    (command : request.command = .cancelOrder (some req))
    {response : EngineResponse}
    (returned : request.status = .returned (some response))
    (success : response.success = true) :
    ∃ before surroundings after later,
      (run balances positions actions).executed =
        before ++ (request.id, ⟨request.command, surroundings⟩) :: after ∧
      (run balances positions actions).server.trades =
        (runSeeded balances positions (before.map Prod.snd)).trades ++ later ∧
      (∀ trade ∈ later, ¬ trade.names req.orderID) ∧
      ∃ order, (run balances positions actions).server.engine.orders.lookup
        req.orderID = some order ∧ order.status = .statusCanceled := by
  obtain ⟨before, surroundings, after, split, responds⟩ := split_of_answered
    (((sound_run fresh).faithful request member).returned returned)
  have server := server_run balances positions actions
  rw [split, List.map_append, List.map_cons, run_split, command] at server
  have wellFormed : WellFormed
      (runSeeded balances positions (before.map Prod.snd)).engine :=
    wellFormed_runSeeded _ _ _
  rw [responds, command] at success
  obtain ⟨order, status, present, trades⟩ :=
    canceled_of_success wellFormed success
  obtain ⟨later, grown, final⟩ := @run_closed
    ((runSeeded balances positions (before.map Prod.snd)).step
      ⟨.cancelOrder (some req), surroundings⟩)
    (wellFormed_step wellFormed _) (after.map Prod.snd)
  obtain ⟨⟨lock, stays⟩, unnamed⟩ := final present (by rw [status]; rfl)
  refine ⟨before, surroundings, after, later, split, ?_, unnamed,
    order.withLock lock, ?_, status⟩
  · rw [server, grown]
    simp only [History.step, trades, List.append_nil]
  · rw [server]
    exact stays

theorem canceled_firstAnswered :
    ∃ order, (run oneBuyer ∅
        (firstAnswered ++ thenCanceled)).server.engine.orders.lookup "o1" =
          some order ∧ order.status = .statusCanceled := by
  have facts : FreshIDs oneBuyer ∅ (firstAnswered ++ thenCanceled) ∧
      (run oneBuyer ∅ (firstAnswered ++ thenCanceled)).requests[2]?.map
        (fun request => (request.status, request.command)) =
          some (.returned (some (.successJSON
            (.orderStatus "o1" .statusCanceled))),
              .cancelOrder (some ⟨"o1", ""⟩)) := by
    unfold FreshIDs
    decide +kernel
  obtain ⟨fresh, answered⟩ := facts
  obtain ⟨request, found, same⟩ := Option.map_eq_some_iff.mp answered
  obtain ⟨returned, command⟩ := Prod.mk.injEq _ _ _ _ ▸ same
  obtain ⟨_, _, _, _, _, _, _, final⟩ := cancel_answer_final fresh
    (List.mem_of_getElem? found) command returned rfl
  exact final

end Manager

end Predix
