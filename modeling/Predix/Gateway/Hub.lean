import Mathlib.Data.Finset.Image
import Mathlib.Data.Finset.Prod
import Predix.Data.FiniteMap
import Predix.Data.Run

namespace Predix

open Data

/-! The WebSocket gateway: its clients with their two pumps, the hub, and the
broadcasts that run. Connections, deadlines and the encoding of messages are
left out. -/

def sendBufferSize : Nat := 256

inductive Outgoing where
  | event (payload : String)
  | error (text : String)
  deriving DecidableEq, Repr

structure IncomingMessage where
  method : String
  params : List String
  deriving DecidableEq, Repr

def subscribeMethod : String := "SUBSCRIBE"

def unsubscribeMethod : String := "UNSUBSCRIBE"

inductive Request where
  | subscribe (eventID : String)
  | unsubscribe (eventID : String)
  | sendError (text : String)
  deriving DecidableEq, Repr

def handleParams (request : String → Request) (params : List String) :
    List Request :=
  if params = [] then [.sendError "subscription is required"]
  else (params.filter (· ≠ "")).map request

/-- A message is `none` when `unmarshalJSON` refuses it. -/
def handleIncoming : Option IncomingMessage → List Request
  | none => [.sendError "invalid message"]
  | some message =>
      if message.method = subscribeMethod then
        handleParams .subscribe message.params
      else if message.method = unsubscribeMethod then
        handleParams .unsubscribe message.params
      else
        [.sendError "unknown method"]

/-- Where a client's ReadPump is: it handles what is left of a message, or it
has unregistered the client on its way out, or it has returned. -/
inductive ReadPump where
  | reading (requests : List Request)
  | unregistered
  | returned
  deriving DecidableEq, Repr

structure Client where
  /-- The messages in the `send` channel. -/
  buffer : List Outgoing
  /-- Guards the channel against a second closing. -/
  closed : Bool
  /-- How often the channel has been closed. -/
  closings : Nat
  readPump : ReadPump
  /-- The WritePump has not returned. -/
  writing : Bool
  deriving DecidableEq, Repr

def newClient : Client := ⟨[], false, 0, .reading [], true⟩

def Client.close (client : Client) : Client :=
  if client.closed then client
  else { client with closed := true, closings := client.closings + 1 }

/-- The connected clients, and who is subscribed to what. An event without
subscribers has no entry. -/
structure Hub where
  clients : Finset Nat
  subscriptions : Finset (String × Nat)
  deriving DecidableEq

namespace Hub

def register (hub : Hub) (client : Nat) : Hub :=
  { hub with clients := insert client hub.clients }

def unregister (hub : Hub) (client : Nat) : Hub where
  clients := hub.clients.erase client
  subscriptions := hub.subscriptions.filter (·.2 ≠ client)

def subscribe (hub : Hub) (client : Nat) (eventID : String) : Hub :=
  { hub with subscriptions := insert (eventID, client) hub.subscriptions }

def unsubscribe (hub : Hub) (client : Nat) (eventID : String) : Hub :=
  { hub with subscriptions := hub.subscriptions.erase (eventID, client) }

/-- The clients `BroadcastEvent` copies. -/
def targets (hub : Hub) (eventID : String) : Finset Nat :=
  (hub.subscriptions.filter (·.1 = eventID)).image (·.2)

end Hub

/-- A `BroadcastEvent` after its snapshot. It goes through its targets in no
particular order. -/
structure Broadcast where
  payload : String
  targets : Finset Nat
  deriving DecidableEq

structure Gateway where
  clients : FiniteMap Nat Client
  hub : Hub
  broadcasts : List Broadcast
  /-- A send on a closed channel has ended the process. -/
  panicked : Bool

def Gateway.start : Gateway := ⟨∅, ⟨∅, ∅⟩, [], false⟩

inductive PumpAction where
  | receive (message : Option IncomingMessage)
  | handle
  | unregister
  | closeReader
  | dequeue
  | exitWriter
  deriving DecidableEq, Repr

inductive GatewayAction where
  | connect (client : Nat)
  | pump (client : Nat) (action : PumpAction)
  | broadcast (eventID payload : String)
  | send (broadcast client : Nat)
  deriving DecidableEq, Repr

namespace Gateway

def setClient (gateway : Gateway) (id : Nat) (client : Client) : Gateway :=
  { gateway with clients := gateway.clients.insert id client }

/-- `Client.Send`. The select does not look at `closed`. -/
def sendTo (gateway : Gateway) (id : Nat) (client : Client)
    (message : Outgoing) : Gateway :=
  if 0 < client.closings then
    { gateway with panicked := true }
  else if client.buffer.length < sendBufferSize then
    gateway.setClient id { client with buffer := client.buffer ++ [message] }
  else
    -- the client is too slow
    gateway.setClient id client.close

def handleRequest (gateway : Gateway) (id : Nat) (client : Client) :
    Request → Gateway
  | .subscribe eventID =>
      { gateway.setClient id client with
        hub := gateway.hub.subscribe id eventID }
  | .unsubscribe eventID =>
      { gateway.setClient id client with
        hub := gateway.hub.unsubscribe id eventID }
  | .sendError text => gateway.sendTo id client (.error text)

def pumpStep (gateway : Gateway) (id : Nat) (client : Client) :
    PumpAction → Gateway
  | .receive message =>
      match client.readPump with
      | .reading [] =>
          gateway.setClient id
            { client with readPump := .reading (handleIncoming message) }
      | _ => gateway
  | .handle =>
      match client.readPump with
      | .reading (request :: requests) =>
          gateway.handleRequest id
            { client with readPump := .reading requests } request
      | _ => gateway
  | .unregister =>
      match client.readPump with
      | .reading [] =>
          { gateway.setClient id { client with readPump := .unregistered } with
            hub := gateway.hub.unregister id }
      | _ => gateway
  | .closeReader =>
      match client.readPump with
      | .unregistered =>
          gateway.setClient id { client.close with readPump := .returned }
      | _ => gateway
  | .dequeue =>
      if client.writing then
        gateway.setClient id { client with buffer := client.buffer.tail }
      else
        gateway
  | .exitWriter =>
      if client.writing then
        gateway.setClient id { client.close with writing := false }
      else
        gateway

def sendStep (gateway : Gateway) (index id : Nat) : Gateway :=
  match gateway.broadcasts[index]? with
  | none => gateway
  | some broadcast =>
      if id ∈ broadcast.targets then
        let gateway :=
          { gateway with
            broadcasts :=
              { broadcast with targets := broadcast.targets.erase id } ::
                gateway.broadcasts.eraseIdx index }
        match gateway.clients.lookup id with
        | none => gateway
        | some client => gateway.sendTo id client (.event broadcast.payload)
      else
        gateway

def step (gateway : Gateway) (action : GatewayAction) : Gateway :=
  if gateway.panicked then
    gateway
  else
    match action with
    | .connect id =>
        match gateway.clients.lookup id with
        | some _ => gateway
        | none =>
            { gateway.setClient id newClient with
              hub := gateway.hub.register id }
    | .pump id action =>
        match gateway.clients.lookup id with
        | none => gateway
        | some client => gateway.pumpStep id client action
    | .broadcast eventID payload =>
        { gateway with
          broadcasts := ⟨payload, gateway.hub.targets eventID⟩ ::
            gateway.broadcasts }
    | .send index id => gateway.sendStep index id

def run (gateway : Gateway) (actions : List GatewayAction) : Gateway :=
  runFrom step gateway actions

end Gateway

/-! Closing with care. -/

def Client.full (client : Client) : Bool :=
  sendBufferSize ≤ client.buffer.length

def PumpAction.errs (action : PumpAction) (client : Client) : Bool :=
  match action, client.readPump with
  | .handle, .reading (.sendError _ :: _) => true
  | _, _ => false

def PumpAction.closes (action : PumpAction) (client : Client) : Bool :=
  match action with
  | .handle => action.errs client && client.full
  | .closeReader => client.readPump = .unregistered
  | .exitWriter => client.writing
  | _ => false

namespace Gateway

def isClosed (gateway : Gateway) (id : Nat) : Bool :=
  (gateway.clients.lookup id).any Client.closed

/-- Nobody is a target of a broadcast after its channel is closed: it is not
subscribed when a snapshot is taken, and not in a snapshot when it is closed.
And its ReadPump answers no message with an error. -/
def Careful (gateway : Gateway) : GatewayAction → Prop
  | .connect _ => True
  | .pump id action => ∀ client ∈ gateway.clients.lookup id,
      (action.errs client = true → client.closed = false) ∧
      (action.closes client = true →
        ∀ broadcast ∈ gateway.broadcasts, id ∉ broadcast.targets)
  | .broadcast eventID _ => ∀ id ∈ gateway.hub.targets eventID,
      gateway.isClosed id = false
  | .send index id => ∀ client ∈ gateway.clients.lookup id,
      client.full = true →
        ∀ broadcast ∈ gateway.broadcasts.eraseIdx index,
          id ∉ broadcast.targets

instance (gateway : Gateway) (action : GatewayAction) :
    Decidable (gateway.Careful action) :=
  match action with
  | .connect _ => .isTrue trivial
  | .pump id action =>
      inferInstanceAs (Decidable (∀ client ∈ gateway.clients.lookup id,
        (action.errs client = true → client.closed = false) ∧
        (action.closes client = true →
          ∀ broadcast ∈ gateway.broadcasts, id ∉ broadcast.targets)))
  | .broadcast eventID _ =>
      inferInstanceAs (Decidable (∀ id ∈ gateway.hub.targets eventID,
        gateway.isClosed id = false))
  | .send index id =>
      inferInstanceAs (Decidable (∀ client ∈ gateway.clients.lookup id,
        client.full = true →
          ∀ broadcast ∈ gateway.broadcasts.eraseIdx index,
            id ∉ broadcast.targets))

/-- No send has met a closed channel, and no channel was closed twice. -/
structure Safe (gateway : Gateway) : Prop where
  running : gateway.panicked = false
  closedOnce : ∀ {id client}, gateway.clients.lookup id = some client →
    client.closings ≤ 1

structure Sound (gateway : Gateway) : Prop where
  running : gateway.panicked = false
  counted : ∀ {id client}, gateway.clients.lookup id = some client →
    client.closings = client.closed.toNat
  targetsOpen : ∀ {broadcast}, broadcast ∈ gateway.broadcasts →
    ∀ {id client}, id ∈ broadcast.targets →
      gateway.clients.lookup id = some client → client.closed = false

private theorem Sound.safe {gateway : Gateway} (sound : gateway.Sound) :
    gateway.Safe := by
  refine ⟨sound.running, ?_⟩
  intro id client present
  rw [sound.counted present]
  exact Bool.toNat_le client.closed

end Gateway

theorem Client.close_counted {client : Client}
    (counted : client.closings = client.closed.toNat) :
    client.close.closings = client.close.closed.toNat := by
  unfold Client.close
  cases closed : client.closed with
  | true => simp [counted, closed]
  | false => simp [counted, closed]

namespace Gateway

section Sound

variable {gateway : Gateway} (sound : gateway.Sound)

include sound

theorem Sound.withHub (hub : Hub) : Sound { gateway with hub := hub } :=
  ⟨sound.running, sound.counted, sound.targetsOpen⟩

theorem Sound.setClient {id : Nat} {client : Client}
    (counted : client.closings = client.closed.toNat)
    (untargeted : client.closed = true →
      ∀ broadcast ∈ gateway.broadcasts, id ∉ broadcast.targets) :
    (gateway.setClient id client).Sound where
  running := sound.running
  counted := by
    intro other found present
    rw [Gateway.setClient, FiniteMap.lookup_insert_eq] at present
    split at present
    · cases present
      exact counted
    · exact sound.counted present
  targetsOpen := by
    intro broadcast running other found isTarget present
    rw [Gateway.setClient, FiniteMap.lookup_insert_eq] at present
    split at present
    · rename_i same
      cases present
      rw [same] at isTarget
      rw [← Bool.not_eq_true]
      exact fun closed => untargeted closed broadcast running isTarget
    · exact sound.targetsOpen running isTarget present

theorem Sound.sendTo {id : Nat} {client : Client} (message : Outgoing)
    (counted : client.closings = client.closed.toNat)
    (isOpen : client.closed = false)
    (untargeted : client.full = true →
      ∀ broadcast ∈ gateway.broadcasts, id ∉ broadcast.targets) :
    (gateway.sendTo id client message).Sound := by
  unfold Gateway.sendTo
  rw [isOpen] at counted
  rw [if_neg (by rw [counted]; decide)]
  split
  · apply sound.setClient
    · rw [isOpen]
      exact counted
    · intro closed
      rw [isOpen] at closed
      contradiction
  · rename_i notRoom
    apply sound.setClient (Client.close_counted (by rw [isOpen]; exact counted))
    intro _
    exact untargeted (decide_eq_true (Nat.not_lt.mp notRoom))

private theorem sound_pump {id : Nat} {client : Client}
    (present : gateway.clients.lookup id = some client) (action : PumpAction)
    (errs : action.errs client = true → client.closed = false)
    (closes : action.closes client = true →
      ∀ broadcast ∈ gateway.broadcasts, id ∉ broadcast.targets) :
    (gateway.pumpStep id client action).Sound := by
  have counted := sound.counted present
  have kept : ∀ next : Client, next.closings = client.closings →
      next.closed = client.closed → (gateway.setClient id next).Sound := by
    intro next sameClosings sameClosed
    apply sound.setClient
    · rw [sameClosings, sameClosed, counted]
    · -- a client that is closed already is no target
      intro closed broadcast running isTarget
      rw [sameClosed, sound.targetsOpen running isTarget present] at closed
      contradiction
  have shut : action.closes client = true → ∀ next : Client,
      next.closings = client.close.closings →
      next.closed = client.close.closed →
        (gateway.setClient id next).Sound := by
    intro isClosing next sameClosings sameClosed
    apply sound.setClient
    · rw [sameClosings, sameClosed, Client.close_counted counted]
    · intro _
      exact closes isClosing
  cases action with
  | receive message =>
      simp only [pumpStep]
      split
      · exact kept _ rfl rfl
      · exact sound
  | handle =>
      simp only [pumpStep]
      split
      · rename_i request requests reading
        have handled :=
          kept { client with readPump := .reading requests } rfl rfl
        cases request with
        | subscribe eventID => exact handled.withHub _
        | unsubscribe eventID => exact handled.withHub _
        | sendError text =>
            have answers : PumpAction.handle.errs client = true := by
              simp only [PumpAction.errs, reading]
            refine sound.sendTo _ ?_ ?_ ?_
            · exact counted
            · exact errs answers
            · intro full
              apply closes
              simp only [PumpAction.closes, answers, Bool.true_and]
              exact full
      · exact sound
  | unregister =>
      simp only [pumpStep]
      split
      · exact (kept { client with readPump := .unregistered } rfl rfl).withHub _
      · exact sound
  | closeReader =>
      simp only [pumpStep]
      split
      · rename_i unregistered
        exact shut (decide_eq_true unregistered) _ rfl rfl
      · exact sound
  | dequeue =>
      simp only [pumpStep]
      split
      · exact kept _ rfl rfl
      · exact sound
  | exitWriter =>
      simp only [pumpStep]
      split
      · rename_i writing
        exact shut writing _ rfl rfl
      · exact sound

private theorem sound_send {index id : Nat}
    (careful : ∀ client ∈ gateway.clients.lookup id, client.full = true →
      ∀ broadcast ∈ gateway.broadcasts.eraseIdx index,
        id ∉ broadcast.targets) :
    (gateway.sendStep index id).Sound := by
  unfold sendStep
  split
  · exact sound
  · rename_i broadcast found
    have running : broadcast ∈ gateway.broadcasts :=
      List.mem_of_getElem? found
    split
    · rename_i isTarget
      have sent : Gateway.Sound
          { gateway with
            broadcasts :=
              { broadcast with targets := broadcast.targets.erase id } ::
                gateway.broadcasts.eraseIdx index } := by
        refine ⟨sound.running, sound.counted, ?_⟩
        intro other isRunning target client isTarget present
        rcases List.mem_cons.mp isRunning with rfl | before
        · exact sound.targetsOpen running (Finset.mem_of_mem_erase isTarget)
            present
        · exact sound.targetsOpen (List.mem_of_mem_eraseIdx before) isTarget
            present
      dsimp only
      split
      · exact sent
      · rename_i client present
        apply sent.sendTo _ (sound.counted present)
          (sound.targetsOpen running isTarget present)
        intro full other isRunning
        rcases List.mem_cons.mp isRunning with rfl | before
        · exact Finset.notMem_erase id broadcast.targets
        · exact careful client present full other before
    · exact sound

theorem sound_step {action : GatewayAction} (careful : gateway.Careful action) :
    (gateway.step action).Sound := by
  unfold step
  rw [if_neg (by rw [sound.running]; decide)]
  cases action with
  | connect id =>
      dsimp only
      split
      · exact sound
      · apply Sound.withHub
        apply sound.setClient
        · rfl
        · intro closed
          contradiction
  | pump id action =>
      dsimp only
      split
      · exact sound
      · rename_i client present
        obtain ⟨errs, closes⟩ := careful client present
        exact sound_pump sound present action errs closes
  | broadcast eventID payload =>
      refine ⟨sound.running, sound.counted, ?_⟩
      intro broadcast running id client isTarget present
      rcases List.mem_cons.mp running with rfl | before
      · have isOpen := careful id isTarget
        rw [isClosed, present] at isOpen
        exact isOpen
      · exact sound.targetsOpen before isTarget present
  | send index id => exact sound_send sound careful

end Sound

theorem sound_start : Gateway.start.Sound := by
  refine ⟨rfl, ?_, ?_⟩
  · intro id client present
    contradiction
  · intro broadcast running
    contradiction

end Gateway

/-- If no client is closed while a broadcast is on its way to it, and none that
is closed is still subscribed or answered, the gateway never sends on a closed
channel and closes none twice. -/
theorem gateway_safe (actions : List GatewayAction)
    (careful : Along Gateway.step Gateway.Careful Gateway.start actions) :
    (Gateway.start.run actions).Safe :=
  (invariant_runFrom Gateway.Sound
    (fun _ _ sound careful => Gateway.sound_step sound careful)
    Gateway.sound_start careful).safe

def subscriber : List GatewayAction :=
  [.connect 0,
    .pump 0 (.receive (some ⟨subscribeMethod, ["e"]⟩)), .pump 0 .handle]

/-- The client goes away between two broadcasts, and the ReadPump sees it
first. -/
theorem safe_disconnect :
    (Gateway.start.run
      (subscriber ++
        [.broadcast "e" "x", .send 0 0, .pump 0 .dequeue, .pump 0 .unregister,
          .pump 0 .closeReader, .pump 0 .exitWriter,
          .broadcast "e" "y"])).Safe :=
  gateway_safe _ (by decide)

/-- The WritePump sees it first: it closes the channel, and the next broadcast
comes before the ReadPump has unregistered the client. -/
theorem brokenConnection_panics :
    ¬ (Gateway.start.run
      (subscriber ++
        [.pump 0 .exitWriter, .broadcast "e" "x", .send 0 0])).Safe := by
  intro safe
  have running := safe.running
  revert running
  decide

end Predix
