import Predix.Data.SetIndex
import Predix.Gateway.Hub

namespace Predix

open Data

/-! Who is subscribed to what is kept twice: the hub has the clients of every
event, and every client has its own events. -/

/-- The two fields of the hub and the `subscriptions` of each client. -/
structure Subscriptions (C : Type) where
  clients : Finset C
  subscriptions : SetIndex String C
  own : C → Finset String

namespace Subscriptions

variable {C : Type} [DecidableEq C]

def start : Subscriptions C := ⟨∅, ∅, fun _ => ∅⟩

def register (hub : Subscriptions C) (client : C) : Subscriptions C :=
  { hub with clients := insert client hub.clients }

/-- The client's own events are left as they are. -/
def unregister (hub : Subscriptions C) (client : C) : Subscriptions C :=
  { hub with
    clients := hub.clients.erase client
    subscriptions := hub.subscriptions.removeEverywhere client }

def clientSubscribe (events : Finset String) (eventID : String) :
    Finset String :=
  if eventID = "" then events else insert eventID events

def clientUnsubscribe (events : Finset String) (eventID : String) :
    Finset String :=
  events.erase eventID

def subscribe (hub : Subscriptions C) (client : C) (eventID : String) :
    Subscriptions C :=
  { hub with
    subscriptions := hub.subscriptions.add eventID client
    own := Function.update hub.own client
      (clientSubscribe (hub.own client) eventID) }

def unsubscribe (hub : Subscriptions C) (client : C) (eventID : String) :
    Subscriptions C :=
  match hub.subscriptions.lookup eventID with
  -- the client is not asked
  | none => hub
  | some _ =>
      { hub with
        subscriptions := hub.subscriptions.remove eventID client
        own := Function.update hub.own client
          (clientUnsubscribe (hub.own client) eventID) }

def targets (hub : Subscriptions C) (eventID : String) : Finset C :=
  hub.subscriptions.members eventID

end Subscriptions

/-! Sequences of calls. -/

inductive HubCall (C : Type) where
  | register (client : C)
  | unregister (client : C)
  | subscribe (client : C) (eventID : String)
  | unsubscribe (client : C) (eventID : String)
  deriving DecidableEq, Repr

variable {C : Type} [DecidableEq C]

def Subscriptions.apply (hub : Subscriptions C) : HubCall C → Subscriptions C
  | .register client => hub.register client
  | .unregister client => hub.unregister client
  | .subscribe client eventID => hub.subscribe client eventID
  | .unsubscribe client eventID => hub.unsubscribe client eventID

def HubCall.requests (client : C) (eventID : String) (call : HubCall C) :
    Bool :=
  call = .subscribe client eventID ∨ call = .unsubscribe client eventID

private theorem HubCall.requests_iff {call : HubCall C} {client other : C}
    {eventID otherEvent : String}
    (about : call = .subscribe client eventID ∨
      call = .unsubscribe client eventID) :
    call.requests other otherEvent = true ↔
      other = client ∧ otherEvent = eventID := by
  unfold requests
  rw [decide_eq_true_iff]
  rcases about with rfl | rfl <;> simp [eq_comm]

/-- The last of a client's Subscribe and Unsubscribe calls for an event. -/
def lastRequest (calls : List (HubCall C)) (client : C) (eventID : String) :
    Option (HubCall C) :=
  (calls.filter (HubCall.requests client eventID)).getLast?

structure HubHistory (C : Type) where
  hub : Subscriptions C
  calls : List (HubCall C)

namespace HubHistory

def start : HubHistory C := ⟨Subscriptions.start, []⟩

def step (history : HubHistory C) (call : HubCall C) : HubHistory C :=
  ⟨history.hub.apply call, history.calls ++ [call]⟩

def run (calls : List (HubCall C)) : HubHistory C :=
  runFrom step start calls

/-- A client's Register comes before its Unregister, and its subscriptions
change in between only; event ids are not empty. -/
def Orderly (history : HubHistory C) : HubCall C → Prop
  | .register client => .unregister client ∉ history.calls
  | .unregister _ => True
  | .subscribe client eventID =>
      eventID ≠ "" ∧ .register client ∈ history.calls ∧
        .unregister client ∉ history.calls
  | .unsubscribe client eventID =>
      eventID ≠ "" ∧ .register client ∈ history.calls ∧
        .unregister client ∉ history.calls

instance (history : HubHistory C) (call : HubCall C) :
    Decidable (history.Orderly call) :=
  match call with
  | .register client =>
      inferInstanceAs (Decidable (.unregister client ∉ history.calls))
  | .unregister _ => .isTrue trivial
  | .subscribe client eventID =>
      inferInstanceAs (Decidable (eventID ≠ "" ∧
        .register client ∈ history.calls ∧
          .unregister client ∉ history.calls))
  | .unsubscribe client eventID =>
      inferInstanceAs (Decidable (eventID ≠ "" ∧
        .register client ∈ history.calls ∧
          .unregister client ∉ history.calls))

structure Consistent (history : HubHistory C) : Prop where
  noEmpty : history.hub.subscriptions.NoEmpty
  agree : ∀ {client eventID}, client ∈ history.hub.clients →
    (client ∈ history.hub.subscriptions.members eventID ↔
      eventID ∈ history.hub.own client)
  requested : ∀ {client eventID}, client ∈ history.hub.clients →
    (eventID ∈ history.hub.own client ↔
      lastRequest history.calls client eventID =
        some (.subscribe client eventID))
  unregistered : ∀ {client eventID}, client ∉ history.hub.clients →
    client ∉ history.hub.subscriptions.members eventID
  snapshot : ∀ {client eventID}, client ∈ history.hub.targets eventID ↔
    client ∈ history.hub.clients ∧
      lastRequest history.calls client eventID =
        some (.subscribe client eventID)

structure Sound (history : HubHistory C) : Prop where
  noEmpty : history.hub.subscriptions.NoEmpty
  registered : ∀ client, client ∈ history.hub.clients ↔
    .register client ∈ history.calls ∧ .unregister client ∉ history.calls
  fresh : ∀ client, .register client ∉ history.calls →
    history.hub.own client = ∅
  agree : ∀ {client eventID}, client ∈ history.hub.clients →
    (client ∈ history.hub.subscriptions.members eventID ↔
      eventID ∈ history.hub.own client)
  requested : ∀ client eventID, eventID ∈ history.hub.own client ↔
    lastRequest history.calls client eventID =
      some (.subscribe client eventID)
  unregistered : ∀ {client eventID}, client ∉ history.hub.clients →
    client ∉ history.hub.subscriptions.members eventID

theorem Sound.consistent {history : HubHistory C} (sound : history.Sound) :
    history.Consistent where
  noEmpty := sound.noEmpty
  agree := sound.agree
  requested _ := sound.requested _ _
  unregistered := sound.unregistered
  snapshot := by
    intro client eventID
    by_cases registered : client ∈ history.hub.clients
    · rw [← sound.requested, ← sound.agree registered]
      exact (and_iff_right registered).symm
    · exact iff_of_false (sound.unregistered registered)
        fun both => registered both.1

theorem sound_start : (start : HubHistory C).Sound where
  noEmpty := by
    intro eventID
    simp [start, Subscriptions.start]
  registered := by simp [start, Subscriptions.start]
  fresh _ _ := rfl
  agree := by
    intro client eventID registered
    simp [start, Subscriptions.start] at registered
  requested := by simp [start, Subscriptions.start, lastRequest]
  unregistered := by
    intro client eventID _ member
    simp [start, Subscriptions.start, SetIndex.members] at member

end HubHistory

theorem lastRequest_append (calls : List (HubCall C)) (call : HubCall C)
    (client : C) (eventID : String) :
    lastRequest (calls ++ [call]) client eventID =
      if call.requests client eventID then some call
      else lastRequest calls client eventID := by
  unfold lastRequest
  rw [List.filter_append, List.filter_singleton]
  cases call.requests client eventID with
  | true => exact List.getLast?_concat
  | false => exact congrArg List.getLast? (List.append_nil _)

/-- If the event has no entry the client does not have it either, and nothing
is lost by the early return. -/
theorem Subscriptions.unsubscribe_eq {hub : Subscriptions C} {client : C}
    {eventID : String}
    (known : eventID ∈ hub.own client →
      client ∈ hub.subscriptions.members eventID) :
    hub.unsubscribe client eventID =
      { hub with
        subscriptions := hub.subscriptions.remove eventID client
        own := Function.update hub.own client
          (clientUnsubscribe (hub.own client) eventID) } := by
  unfold unsubscribe
  cases present : hub.subscriptions.lookup eventID with
  | some _ => rfl
  | none =>
      have absent : eventID ∉ hub.own client := by
        intro has
        have member := known has
        rw [SetIndex.members, present] at member
        exact Finset.notMem_empty client member
      simp only [SetIndex.remove, present, clientUnsubscribe,
        Finset.erase_eq_of_notMem absent, Function.update_eq_self]

namespace HubHistory

section Step

variable {history : HubHistory C} (sound : history.Sound) {client : C}

include sound

private theorem sound_register (orderly : history.Orderly (.register client)) :
    (history.step (.register client)).Sound where
  noEmpty := sound.noEmpty
  registered := by
    intro other
    have old := sound.registered other
    simp only [step, Subscriptions.apply, Subscriptions.register,
      Finset.mem_insert, List.mem_append, List.mem_singleton,
      HubCall.register.injEq, reduceCtorEq, or_false, old]
    constructor
    · rintro (rfl | ⟨called, staying⟩)
      · exact ⟨.inr rfl, orderly⟩
      · exact ⟨.inl called, staying⟩
    · rintro ⟨called | rfl, staying⟩
      · exact .inr ⟨called, staying⟩
      · exact .inl rfl
  fresh := by
    intro other absent
    exact sound.fresh other fun called =>
      absent (List.mem_append_left _ called)
  agree := by
    intro other eventID registered
    by_cases known : other ∈ history.hub.clients
    · exact sound.agree known
    · -- the newcomer: it has never been here, and has nothing yet
      have same : other = client :=
        (Finset.mem_insert.mp registered).resolve_right known
      rw [← same] at orderly
      have never : .register other ∉ history.calls := fun called =>
        known ((sound.registered other).mpr ⟨called, orderly⟩)
      refine iff_of_false (sound.unregistered known) ?_
      change eventID ∉ history.hub.own other
      rw [sound.fresh other never]
      exact Finset.notMem_empty eventID
  requested := by
    intro other eventID
    rw [step, lastRequest_append]
    exact sound.requested other eventID
  unregistered := by
    intro other eventID absent
    exact sound.unregistered fun known =>
      absent (Finset.mem_insert_of_mem known)

private theorem sound_unregister :
    (history.step (.unregister client)).Sound where
  noEmpty := SetIndex.noEmpty_removeEverywhere _ _
  registered := by
    intro other
    have old := sound.registered other
    simp only [step, Subscriptions.apply, Subscriptions.unregister,
      Finset.mem_erase, List.mem_append, List.mem_singleton,
      HubCall.unregister.injEq, reduceCtorEq, or_false, not_or, old]
    tauto
  fresh := by
    intro other absent
    exact sound.fresh other fun called =>
      absent (List.mem_append_left _ called)
  agree := by
    intro other eventID registered
    obtain ⟨different, known⟩ := Finset.mem_erase.mp registered
    simp only [step, Subscriptions.apply, Subscriptions.unregister,
      SetIndex.members_removeEverywhere, Finset.mem_erase,
      sound.agree known, different, ne_eq, not_false_eq_true, true_and]
  requested := by
    intro other eventID
    rw [step, lastRequest_append]
    exact sound.requested other eventID
  unregistered := by
    intro other eventID absent member
    simp only [step, Subscriptions.apply, Subscriptions.unregister,
      SetIndex.members_removeEverywhere, Finset.mem_erase] at absent member
    exact sound.unregistered (fun known => absent ⟨member.1, known⟩) member.2

theorem sound_request {call : HubCall C} {eventID : String}
    (about : call = .subscribe client eventID ∨
      call = .unsubscribe client eventID)
    (known : client ∈ history.hub.clients)
    (clients : (history.hub.apply call).clients = history.hub.clients)
    (noEmpty : (history.hub.apply call).subscriptions.NoEmpty)
    (members : ∀ other otherEvent,
      other ∈ (history.hub.apply call).subscriptions.members otherEvent ↔
        if other = client ∧ otherEvent = eventID then
          call = .subscribe client eventID
        else other ∈ history.hub.subscriptions.members otherEvent)
    (own : ∀ other otherEvent,
      otherEvent ∈ (history.hub.apply call).own other ↔
        if other = client ∧ otherEvent = eventID then
          call = .subscribe client eventID
        else otherEvent ∈ history.hub.own other) :
    (history.step call).Sound := by
  have called := ((sound.registered client).mp known).1
  have noRegister : ∀ other, HubCall.register other ≠ call := by
    rcases about with rfl | rfl <;> simp
  have noUnregister : ∀ other, HubCall.unregister other ≠ call := by
    rcases about with rfl | rfl <;> simp
  constructor
  case noEmpty => exact noEmpty
  case registered =>
    intro other
    simp only [step, clients, List.mem_append, List.mem_singleton,
      noRegister, noUnregister, or_false]
    exact sound.registered other
  case fresh =>
    intro other absent
    have never : .register other ∉ history.calls := fun earlier =>
      absent (List.mem_append_left _ earlier)
    have different : other ≠ client := by
      rintro rfl
      exact never called
    apply Finset.ext
    intro otherEvent
    rw [← sound.fresh other never]
    exact (own other otherEvent).trans
      (by rw [if_neg fun both => different both.1])
  case agree =>
    intro other otherEvent registered
    rw [step, clients] at registered
    change other ∈ (history.hub.apply call).subscriptions.members otherEvent ↔
      otherEvent ∈ (history.hub.apply call).own other
    rw [members, own]
    split
    · exact Iff.rfl
    · exact sound.agree registered
  case requested =>
    intro other otherEvent
    change otherEvent ∈ (history.hub.apply call).own other ↔ _
    rw [own, step, lastRequest_append]
    by_cases same : other = client ∧ otherEvent = eventID
    · rw [if_pos same, if_pos ((HubCall.requests_iff about).mpr same)]
      obtain ⟨rfl, rfl⟩ := same
      rw [Option.some_inj]
    · rw [if_neg same, if_neg (mt (HubCall.requests_iff about).mp same)]
      exact sound.requested other otherEvent
  case unregistered =>
    intro other otherEvent absent
    rw [step, clients] at absent
    change other ∉ (history.hub.apply call).subscriptions.members otherEvent
    have different : other ≠ client := by
      rintro rfl
      exact absent known
    rw [members, if_neg fun both => different both.1]
    exact sound.unregistered absent

private theorem sound_subscribe {eventID : String}
    (orderly : history.Orderly (.subscribe client eventID)) :
    (history.step (.subscribe client eventID)).Sound := by
  obtain ⟨named, called, staying⟩ := orderly
  have known := (sound.registered client).mpr ⟨called, staying⟩
  apply sound_request sound (.inl rfl) known rfl
  · exact sound.noEmpty.add eventID client
  · intro other otherEvent
    simp only [Subscriptions.apply, Subscriptions.subscribe,
      SetIndex.members_add]
    by_cases sameEvent : otherEvent = eventID <;>
      by_cases sameClient : other = client <;> simp [sameEvent, sameClient]
  · intro other otherEvent
    simp only [Subscriptions.apply, Subscriptions.subscribe,
      Subscriptions.clientSubscribe, if_neg named, Function.update_apply]
    by_cases sameClient : other = client <;>
      by_cases sameEvent : otherEvent = eventID <;>
      simp [sameEvent, sameClient]

private theorem sound_unsubscribe {eventID : String}
    (orderly : history.Orderly (.unsubscribe client eventID)) :
    (history.step (.unsubscribe client eventID)).Sound := by
  obtain ⟨_, called, staying⟩ := orderly
  have known := (sound.registered client).mpr ⟨called, staying⟩
  have both : history.hub.apply (.unsubscribe client eventID) = _ :=
    Subscriptions.unsubscribe_eq (sound.agree known).mpr
  apply sound_request sound (.inr rfl) known <;> rw [both]
  · exact sound.noEmpty.remove eventID client
  · intro other otherEvent
    simp only [SetIndex.members_remove]
    by_cases sameEvent : otherEvent = eventID <;>
      by_cases sameClient : other = client <;> simp [sameEvent, sameClient]
  · intro other otherEvent
    simp only [Subscriptions.clientUnsubscribe, Function.update_apply]
    by_cases sameClient : other = client <;>
      by_cases sameEvent : otherEvent = eventID <;>
      simp [sameEvent, sameClient]

theorem sound_step {call : HubCall C} (orderly : history.Orderly call) :
    (history.step call).Sound := by
  cases call with
  | register client => exact sound_register sound orderly
  | unregister client => exact sound_unregister sound
  | subscribe client eventID => exact sound_subscribe sound orderly
  | unsubscribe client eventID => exact sound_unsubscribe sound orderly

end Step

theorem run_sound {calls : List (HubCall C)}
    (orderly : Along step Orderly start calls) : (run calls).Sound :=
  invariant_runFrom Sound (fun _ _ sound => sound_step sound) sound_start
    orderly

/-- The two indexes agree after every orderly sequence of calls. -/
theorem run_consistent {calls : List (HubCall C)}
    (orderly : Along step Orderly start calls) : (run calls).Consistent :=
  (run_sound orderly).consistent

/-- Three clients share two events; one of them leaves, another one
unsubscribes twice. -/
theorem consistent_threeClients :
    (run [.register 1, .register 2, .register 3, .subscribe 1 "e",
      .subscribe 2 "e", .subscribe 2 "f", .unsubscribe 1 "f",
      .subscribe 3 "e", .unregister 2, .unsubscribe 1 "e",
      .unsubscribe 1 "e"] : HubHistory Nat).Consistent :=
  run_consistent (by decide)

end HubHistory

/-! The gateway keeps the pairs of event and client instead. -/

structure Hub.Represents (hub : Hub) (index : Subscriptions Nat) : Prop where
  clients : hub.clients = index.clients
  pairs : ∀ client eventID, (eventID, client) ∈ hub.subscriptions ↔
    client ∈ index.subscriptions.members eventID

def Hub.apply (hub : Hub) : HubCall Nat → Hub
  | .register client => hub.register client
  | .unregister client => hub.unregister client
  | .subscribe client eventID => hub.subscribe client eventID
  | .unsubscribe client eventID => hub.unsubscribe client eventID

private theorem Subscriptions.members_unsubscribe {C : Type} [DecidableEq C]
    (hub : Subscriptions C) (client : C) (eventID otherEvent : String) :
    (hub.unsubscribe client eventID).subscriptions.members otherEvent =
      (hub.subscriptions.remove eventID client).members otherEvent := by
  unfold unsubscribe
  split
  · rename_i absent
    simp only [SetIndex.remove, absent]
  · rfl

/-- What is proved of the gateway's hub holds of the hub with its maps. -/
theorem Hub.represents_apply {hub : Hub} {index : Subscriptions Nat}
    (represents : hub.Represents index) (call : HubCall Nat) :
    (hub.apply call).Represents (index.apply call) := by
  obtain ⟨clients, pairs⟩ := represents
  cases call with
  | register client =>
      exact ⟨congrArg (insert client) clients, pairs⟩
  | unregister client =>
      refine ⟨congrArg (·.erase client) clients, fun other eventID => ?_⟩
      simp only [Hub.apply, Hub.unregister, Subscriptions.apply,
        Subscriptions.unregister, Finset.mem_filter, pairs,
        SetIndex.members_removeEverywhere, Finset.mem_erase, and_comm]
  | subscribe client eventID =>
      refine ⟨clients, fun other otherEvent => ?_⟩
      simp only [Hub.apply, Hub.subscribe, Subscriptions.apply,
        Subscriptions.subscribe, Finset.mem_insert, Prod.mk.injEq, pairs,
        SetIndex.members_add]
      by_cases sameEvent : otherEvent = eventID <;> simp [sameEvent]
  | unsubscribe client eventID =>
      constructor
      · simp only [Hub.apply, Hub.unsubscribe, Subscriptions.apply,
          Subscriptions.unsubscribe, clients]
        split <;> rfl
      · intro other otherEvent
        simp only [Hub.apply, Hub.unsubscribe, Subscriptions.apply,
          Subscriptions.members_unsubscribe, SetIndex.members_remove,
          Finset.mem_erase, ne_eq, Prod.mk.injEq, pairs]
        by_cases sameEvent : otherEvent = eventID <;> simp [sameEvent]

private theorem Hub.Represents.targets {hub : Hub} {index : Subscriptions Nat}
    (represents : hub.Represents index) (eventID : String) :
    hub.targets eventID = index.targets eventID := by
  apply Finset.ext
  intro client
  simp only [Hub.targets, Subscriptions.targets, Finset.mem_image,
    Finset.mem_filter, Prod.exists, ← represents.pairs]
  constructor
  · rintro ⟨_, _, ⟨member, rfl⟩, rfl⟩
    exact member
  · intro member
    exact ⟨eventID, client, ⟨member, rfl⟩, rfl⟩

/-! The pumps of the gateway make orderly calls. -/

def Request.named : Request → Prop
  | .subscribe eventID => eventID ≠ ""
  | .unsubscribe eventID => eventID ≠ ""
  | .sendError _ => True

private theorem handleIncoming_named (message : Option IncomingMessage) :
    ∀ request ∈ handleIncoming message, request.named := by
  have params : ∀ (make : String → Request) (ids : List String),
      (∀ eventID, eventID ≠ "" → (make eventID).named) →
        ∀ request ∈ handleParams make ids, request.named := by
    intro make ids named request member
    unfold handleParams at member
    split at member
    · rw [List.mem_singleton.mp member]
      trivial
    · obtain ⟨eventID, isParam, rfl⟩ := List.mem_map.mp member
      exact named eventID (of_decide_eq_true (List.mem_filter.mp isParam).2)
  intro request member
  unfold handleIncoming at member
  split at member
  · rw [List.mem_singleton.mp member]
    trivial
  · split at member
    · exact params .subscribe _ (fun _ named => named) request member
    · split at member
      · exact params .unsubscribe _ (fun _ named => named) request member
      · rw [List.mem_singleton.mp member]
        trivial

structure ReadPump.Between (pump : ReadPump) (calls : List (HubCall Nat))
    (id : Nat) : Prop where
  connected : .register id ∈ calls
  reading : ∀ {requests}, pump = .reading requests →
    .unregister id ∉ calls ∧ ∀ request ∈ requests, request.named

structure Gateway.Serves (gateway : Gateway) (history : HubHistory Nat) :
    Prop where
  represents : gateway.hub.Represents history.hub
  made : history = HubHistory.run history.calls
  orderly : Along HubHistory.step HubHistory.Orderly HubHistory.start
    history.calls
  clients : ∀ {id client}, gateway.clients.lookup id = some client →
    client.readPump.Between history.calls id
  strangers : ∀ {id}, gateway.clients.lookup id = none →
    .register id ∉ history.calls ∧ .unregister id ∉ history.calls

theorem Client.close_readPump (client : Client) :
    client.close.readPump = client.readPump := by
  unfold Client.close
  split <;> rfl

private theorem ReadPump.Between.leave {pump later : ReadPump}
    {calls : List (HubCall Nat)} {id : Nat} (between : pump.Between calls id)
    (left : ∀ requests, later ≠ .reading requests) (more : List (HubCall Nat)) :
    later.Between (calls ++ more) id :=
  ⟨List.mem_append_left _ between.connected,
    fun isReading => absurd isReading (left _)⟩

namespace Gateway

theorem serves_start : Gateway.start.Serves HubHistory.start where
  represents := ⟨rfl, fun client eventID => by
    simp [Gateway.start, HubHistory.start, Subscriptions.start,
      SetIndex.members]⟩
  made := rfl
  orderly := trivial
  clients := by
    intro id client present
    contradiction
  strangers := by
    intro id _
    simp [HubHistory.start]

variable {gateway : Gateway} {history : HubHistory Nat}

theorem Serves.setClient (serves : gateway.Serves history) {id : Nat}
    {client : Client} (between : client.readPump.Between history.calls id) :
    (gateway.setClient id client).Serves history where
  represents := serves.represents
  made := serves.made
  orderly := serves.orderly
  clients := by
    intro other found present
    rw [Gateway.setClient, FiniteMap.lookup_insert_eq] at present
    split at present
    · rename_i same
      cases present
      rw [same]
      exact between
    · exact serves.clients present
  strangers := by
    intro other absent
    rw [Gateway.setClient, FiniteMap.lookup_insert_eq] at absent
    split at absent
    · contradiction
    · exact serves.strangers absent

theorem Serves.sendTo (serves : gateway.Serves history) {id : Nat}
    {client : Client} (between : client.readPump.Between history.calls id)
    (message : Outgoing) :
    (gateway.sendTo id client message).Serves history := by
  unfold Gateway.sendTo
  split
  · exact ⟨serves.represents, serves.made, serves.orderly, serves.clients,
      serves.strangers⟩
  · split
    · exact serves.setClient between
    · apply serves.setClient
      rw [Client.close_readPump]
      exact between

theorem Serves.called (serves : gateway.Serves history) {id : Nat}
    {client : Client} {call : HubCall Nat} (orderly : history.Orderly call)
    (between : client.readPump.Between (history.calls ++ [call]) id)
    (others : ∀ {other}, other ≠ id →
      call ≠ .register other ∧ call ≠ .unregister other) :
    Serves { gateway.setClient id client with hub := gateway.hub.apply call }
      (history.step call) where
  represents := Hub.represents_apply serves.represents call
  made := by
    have made := serves.made
    unfold HubHistory.run at made ⊢
    change _ = runFrom HubHistory.step HubHistory.start
      (history.calls ++ [call])
    rw [runFrom_append, ← made]
    rfl
  orderly := by
    refine along_append.mpr ⟨serves.orderly, ?_, trivial⟩
    have made := serves.made
    unfold HubHistory.run at made
    rw [← made]
    exact orderly
  clients := by
    intro other found present
    rw [Gateway.setClient, FiniteMap.lookup_insert_eq] at present
    split at present
    · rename_i same
      cases present
      rw [same]
      exact between
    · rename_i different
      obtain ⟨connected, reading⟩ := serves.clients present
      refine ⟨List.mem_append_left _ connected, fun isReading => ?_⟩
      obtain ⟨staying, named⟩ := reading isReading
      refine ⟨?_, named⟩
      rw [HubHistory.step, List.mem_append, List.mem_singleton, not_or]
      exact ⟨staying, Ne.symm (others different).2⟩
  strangers := by
    intro other absent
    rw [Gateway.setClient, FiniteMap.lookup_insert_eq] at absent
    split at absent
    · contradiction
    · rename_i different
      obtain ⟨register, unregister⟩ := serves.strangers absent
      obtain ⟨noRegister, noUnregister⟩ := others different
      simp only [HubHistory.step, List.mem_append, List.mem_singleton, not_or]
      exact ⟨⟨register, Ne.symm noRegister⟩, unregister, Ne.symm noUnregister⟩

private theorem serves_request (serves : gateway.Serves history) {id : Nat}
    {client : Client} {request : Request} {requests : List Request}
    (between : (ReadPump.reading (request :: requests)).Between history.calls
      id) :
    ∃ later, (gateway.handleRequest id
      { client with readPump := .reading requests } request).Serves later := by
  obtain ⟨staying, named⟩ := between.reading rfl
  rw [List.forall_mem_cons] at named
  have rest : ∀ call : HubCall Nat, call ≠ .unregister id →
      (ReadPump.reading requests).Between (history.calls ++ [call]) id := by
    intro call goesOn
    refine ⟨List.mem_append_left _ between.connected, fun isReading => ?_⟩
    cases isReading
    rw [List.mem_append, List.mem_singleton, not_or]
    exact ⟨⟨staying, Ne.symm goesOn⟩, named.2⟩
  cases request with
  | subscribe eventID =>
      exact ⟨_, @Serves.called _ _ serves _ _ (.subscribe id eventID)
        ⟨named.1, between.connected, staying⟩ (rest _ (by simp)) (by simp)⟩
  | unsubscribe eventID =>
      exact ⟨_, @Serves.called _ _ serves _ _ (.unsubscribe id eventID)
        ⟨named.1, between.connected, staying⟩ (rest _ (by simp)) (by simp)⟩
  | sendError text =>
      refine ⟨history, serves.sendTo ⟨between.connected, fun isReading => ?_⟩ _⟩
      cases isReading
      exact ⟨staying, named.2⟩

private theorem serves_pump (serves : gateway.Serves history) {id : Nat}
    {client : Client} (present : gateway.clients.lookup id = some client)
    (action : PumpAction) :
    ∃ later, (gateway.pumpStep id client action).Serves later := by
  have between := serves.clients present
  cases action with
  | receive message =>
      simp only [pumpStep]
      split
      · rename_i reading
        refine ⟨history, serves.setClient ⟨between.connected, ?_⟩⟩
        intro requests isReading
        cases isReading
        exact ⟨(between.reading reading).1, handleIncoming_named message⟩
      · exact ⟨history, serves⟩
  | handle =>
      simp only [pumpStep]
      split
      · rename_i request requests reading
        rw [reading] at between
        exact serves_request serves between
      · exact ⟨history, serves⟩
  | unregister =>
      simp only [pumpStep]
      split
      · refine ⟨_, @Serves.called _ _ serves _ _ (.unregister id) trivial
          (between.leave (by simp) _) ?_⟩
        intro other different
        simp [Ne.symm different]
      · exact ⟨history, serves⟩
  | closeReader =>
      simp only [pumpStep]
      split
      · have left := between.leave
          (show ∀ requests, ReadPump.returned ≠ .reading requests by simp) []
        rw [List.append_nil] at left
        exact ⟨history, serves.setClient left⟩
      · exact ⟨history, serves⟩
  | dequeue =>
      simp only [pumpStep]
      split
      · exact ⟨history, serves.setClient between⟩
      · exact ⟨history, serves⟩
  | exitWriter =>
      simp only [pumpStep]
      split
      · refine ⟨history, serves.setClient ?_⟩
        change client.close.readPump.Between history.calls id
        rw [Client.close_readPump]
        exact between
      · exact ⟨history, serves⟩

theorem serves_step (serves : gateway.Serves history)
    (action : GatewayAction) :
    ∃ later, (gateway.step action).Serves later := by
  have same : ∀ other : Gateway, other.hub = gateway.hub →
      other.clients = gateway.clients → other.Serves history := by
    intro other hub clients
    refine ⟨?_, serves.made, serves.orderly, ?_, ?_⟩
    · rw [hub]
      exact serves.represents
    · rw [clients]
      exact serves.clients
    · rw [clients]
      exact serves.strangers
  unfold step
  split
  · exact ⟨history, serves⟩
  cases action with
  | connect id =>
      dsimp only
      cases absent : gateway.clients.lookup id with
      | some client => exact ⟨history, serves⟩
      | none =>
          have stranger := serves.strangers absent
          refine ⟨_, @Serves.called _ _ serves _ _ (.register id) stranger.2 ?_ ?_⟩
          · refine ⟨List.mem_append_right _ (List.mem_singleton_self _), ?_⟩
            intro requests isReading
            cases isReading
            simp [stranger.2]
          · intro other different
            simp [Ne.symm different]
  | pump id action =>
      dsimp only
      cases present : gateway.clients.lookup id with
      | none => exact ⟨history, serves⟩
      | some client => exact serves_pump serves present action
  | broadcast eventID payload => exact ⟨history, same _ rfl rfl⟩
  | send index id =>
      dsimp only [sendStep]
      split
      · exact ⟨history, serves⟩
      · split
        · split
          · exact ⟨history, same _ rfl rfl⟩
          · rename_i client present
            refine ⟨history, Serves.sendTo ?_ (serves.clients present) _⟩
            exact same _ rfl rfl
        · exact ⟨history, serves⟩

/-- Whatever the pumps and the broadcasts do, the hub they share is one that
has been called in order: its indexes agree, and every broadcast goes to the
clients that are subscribed when it starts. -/
theorem run_serves (actions : List GatewayAction) :
    ∃ history, (Gateway.start.run actions).Serves history ∧
      history.Consistent ∧ ∀ eventID,
        (Gateway.start.run actions).hub.targets eventID =
          history.hub.targets eventID := by
  have served : ∃ history, (Gateway.start.run actions).Serves history :=
    always_runFrom (fun gateway : Gateway => ∃ history, gateway.Serves history)
      (fun _ action ⟨_, serves⟩ => serves_step serves action)
      ⟨_, serves_start⟩ actions
  obtain ⟨history, serves⟩ := served
  have sound := HubHistory.run_sound serves.orderly
  rw [← serves.made] at sound
  exact ⟨history, serves, sound.consistent, serves.represents.targets⟩

end Gateway

end Predix
