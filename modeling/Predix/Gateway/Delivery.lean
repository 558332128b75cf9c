import Predix.Gateway.Hub

namespace Predix

open Data

/-! What the clients of the gateway get to see. The RedisSubscriber handles one
message at a time: a broadcast has gone through its targets before the next one
takes its snapshot. -/

def Outgoing.payload? : Outgoing → Option String
  | .event payload => some payload
  | .error _ => none

def payloads (messages : List Outgoing) : List String :=
  messages.filterMap Outgoing.payload?

@[simp] theorem payloads_append (first second : List Outgoing) :
    payloads (first ++ second) = payloads first ++ payloads second :=
  List.filterMap_append

namespace Gateway

def OneAtATime (gateway : Gateway) : GatewayAction → Prop
  | .broadcast _ _ => ∀ broadcast ∈ gateway.broadcasts, broadcast.targets = ∅
  | _ => True

instance (gateway : Gateway) : DecidablePred gateway.OneAtATime
  | .broadcast _ _ => inferInstanceAs (Decidable (∀ _ ∈ _, _))
  | .connect _ | .pump _ _ | .send _ _ => .isTrue trivial

def pending (gateway : Gateway) (id : Nat) : List String :=
  match gateway.broadcasts with
  | [] => []
  | broadcast :: _ => if id ∈ broadcast.targets then [broadcast.payload] else []

/-- An action makes a payload due to a client: its snapshot has the client. -/
def dueBy (gateway : Gateway) (id : Nat) : GatewayAction → List String
  | .broadcast eventID payload =>
      if id ∈ gateway.hub.targets eventID then [payload] else []
  | _ => []

def writtenBy (gateway : Gateway) (id : Nat) : GatewayAction → List Outgoing
  | .pump writer .dequeue =>
      if writer = id then
        match gateway.clients.lookup id with
        | some client => if client.writing then client.buffer.take 1 else []
        | none => []
      else
        []
  | _ => []

end Gateway

structure Feed where
  gateway : Gateway
  due : Nat → List String
  written : Nat → List Outgoing

namespace Feed

def start : Feed := ⟨Gateway.start, fun _ => [], fun _ => []⟩

def step (feed : Feed) (action : GatewayAction) : Feed :=
  if feed.gateway.panicked then
    feed
  else
    { gateway := feed.gateway.step action
      due := fun id => feed.due id ++ feed.gateway.dueBy id action
      written := fun id =>
        feed.written id ++ feed.gateway.writtenBy id action }

def run (feed : Feed) (actions : List GatewayAction) : Feed :=
  runFrom step feed actions

private theorem step_gateway (feed : Feed) (action : GatewayAction) :
    (feed.step action).gateway = feed.gateway.step action := by
  unfold step Gateway.step
  split <;> rfl

private theorem run_gateway (feed : Feed) (actions : List GatewayAction) :
    (feed.run actions).gateway = feed.gateway.run actions := by
  induction actions generalizing feed with
  | nil => rfl
  | cons action actions induction =>
      change ((feed.step action).run actions).gateway = _
      rw [induction, step_gateway]
      rfl

end Feed

/-- A client has got, or has in its channel, a first part of what is due to it,
and while its channel is open all but what the running broadcast still has. -/
structure Client.Served (client : Client) (due pending : List String)
    (written : List Outgoing) : Prop where
  counted : client.closed = true → client.closings ≠ 0
  starts : payloads (written ++ client.buffer) <+: due
  exact : client.closings = 0 →
    payloads (written ++ client.buffer) ++ pending = due

theorem Client.closed_close (client : Client) :
    client.close.buffer = client.buffer ∧
      (client.close.closings = 0 → client.closed = true ∧
        client.closings = 0) ∧
      (client.closed = true → client.close.closings = client.closings) := by
  unfold Client.close
  split
  · rename_i closed
    exact ⟨rfl, fun isOpen => ⟨closed, isOpen⟩, fun _ => rfl⟩
  · rename_i notClosed
    exact ⟨rfl, nofun, fun closed => absurd closed notClosed⟩

namespace Client.Served

variable {client later : Client} {due pending : List String}
  {written : List Outgoing}

private theorem new : newClient.Served [] [] [] :=
  ⟨nofun, List.nil_prefix, fun _ => rfl⟩

theorem congr (served : client.Served due pending written)
    (buffer : payloads later.buffer = payloads client.buffer)
    (closed : later.closed = client.closed)
    (closings : later.closings = client.closings) :
    later.Served due pending written := by
  have same : payloads (written ++ later.buffer) =
      payloads (written ++ client.buffer) := by
    rw [payloads_append, payloads_append, buffer]
  constructor
  · rw [closed, closings]
    exact served.counted
  · rw [same]
    exact served.starts
  · rw [same, closings]
    exact served.exact

theorem close (served : client.Served due pending written)
    (buffer : later.buffer = client.buffer)
    (closings : later.closings = client.close.closings) {rest : List String} :
    later.Served due rest written := by
  obtain ⟨_, stillOpen, _⟩ := client.closed_close
  constructor
  · intro _ zero
    rw [closings] at zero
    obtain ⟨wasClosed, wasOpen⟩ := stillOpen zero
    exact served.counted wasClosed wasOpen
  · rw [buffer]
    exact served.starts
  · intro zero
    rw [closings] at zero
    obtain ⟨wasClosed, wasOpen⟩ := stillOpen zero
    exact absurd wasOpen (served.counted wasClosed)

private theorem dequeue (served : client.Served due pending written)
    (buffer : later.buffer = client.buffer.tail)
    (closed : later.closed = client.closed)
    (closings : later.closings = client.closings) :
    later.Served due pending (written ++ client.buffer.take 1) := by
  have same : written ++ client.buffer.take 1 ++ later.buffer =
      written ++ client.buffer := by
    rw [buffer, ← List.drop_one, List.append_assoc, List.take_append_drop]
  constructor
  · rw [closed, closings]
    exact served.counted
  · rw [same]
    exact served.starts
  · rw [same, closings]
    exact served.exact

private theorem snapshot (served : client.Served due [] written)
    (more : List String) : client.Served (due ++ more) more written where
  counted := served.counted
  starts := served.starts.trans (List.prefix_append due more)
  exact := by
    intro isOpen
    rw [← served.exact isOpen, List.append_nil]

private theorem enqueue {payload : String}
    (served : client.Served due [payload] written)
    (isOpen : client.closings = 0)
    (buffer : later.buffer = client.buffer ++ [.event payload])
    (closed : later.closed = client.closed)
    (closings : later.closings = client.closings) :
    later.Served due [] written := by
  have same : payloads (written ++ later.buffer) = due := by
    rw [buffer, ← List.append_assoc, payloads_append]
    exact served.exact isOpen
  constructor
  · rw [closed, closings]
    exact served.counted
  · rw [same]
  · intro _
    rw [same, List.append_nil]

private theorem ofClosed (served : client.Served due pending written)
    (isClosed : client.closings ≠ 0) {rest : List String} :
    client.Served due rest written :=
  ⟨served.counted, served.starts, fun isOpen => absurd isOpen isClosed⟩

end Client.Served

namespace Feed

structure Ordered (feed : Feed) : Prop where
  alone : ∀ broadcast ∈ feed.gateway.broadcasts.tail,
    broadcast.targets = ∅
  known : ∀ pair ∈ feed.gateway.hub.subscriptions,
    feed.gateway.clients.lookup pair.2 ≠ none
  aimed : ∀ broadcast ∈ feed.gateway.broadcasts,
    ∀ id ∈ broadcast.targets, feed.gateway.clients.lookup id ≠ none
  fresh : ∀ id, feed.gateway.clients.lookup id = none →
    feed.due id = [] ∧ feed.written id = []
  served : ∀ id client, feed.gateway.clients.lookup id = some client →
    client.Served (feed.due id) (feed.gateway.pending id)
      (feed.written id)

theorem ordered_start : start.Ordered where
  alone := nofun
  known := nofun
  aimed := nofun
  fresh := fun _ _ => ⟨rfl, rfl⟩
  served := nofun

section Steps

variable {gateway : Gateway} {due : Nat → List String}
  {written : Nat → List Outgoing}

theorem Ordered.setClient (ordered : Ordered ⟨gateway, due, written⟩)
    {id : Nat} {client later : Client} {hub : Hub} {more : List Outgoing}
    (found : gateway.clients.lookup id = some client)
    (subscribed : ∀ pair ∈ hub.subscriptions,
      pair ∈ gateway.hub.subscriptions ∨ pair.2 = id)
    (served : client.Served (due id) (gateway.pending id) (written id) →
      later.Served (due id) (gateway.pending id) (written id ++ more)) :
    Ordered
      ⟨{ gateway.setClient id later with hub := hub }, due,
        fun other => written other ++ if id = other then more else []⟩ where
  alone := ordered.alone
  known := by
    intro pair member
    change Finmap.lookup pair.2 (gateway.clients.insert id later) ≠ none
    rcases subscribed pair member with old | rfl
    · exact FiniteMap.lookup_insert_ne_none later (ordered.known pair old)
    · simp
  aimed := by
    intro broadcast member target isTarget
    exact FiniteMap.lookup_insert_ne_none later
      (ordered.aimed broadcast member target isTarget)
  fresh := by
    intro other missing
    change Finmap.lookup other (gateway.clients.insert id later) = none
      at missing
    rw [FiniteMap.lookup_insert_eq] at missing
    split at missing
    · cases missing
    · rename_i different
      obtain ⟨noneDue, noneWritten⟩ := ordered.fresh other missing
      refine ⟨noneDue, ?_⟩
      change written other ++ _ = []
      rw [if_neg (Ne.symm different), List.append_nil]
      exact noneWritten
  served := by
    intro other now isNow
    change Finmap.lookup other (gateway.clients.insert id later) = some now
      at isNow
    rw [FiniteMap.lookup_insert_eq] at isNow
    split at isNow
    · rename_i same
      subst same
      cases isNow
      change later.Served (due other) (gateway.pending other)
        (written other ++ _)
      rw [if_pos rfl]
      exact served (ordered.served other client found)
    · rename_i different
      change now.Served (due other) (gateway.pending other)
        (written other ++ _)
      rw [if_neg (Ne.symm different), List.append_nil]
      exact ordered.served other now isNow

theorem Ordered.moveClient (ordered : Ordered ⟨gateway, due, written⟩)
    {id : Nat} {client later : Client} {hub : Hub}
    (found : gateway.clients.lookup id = some client)
    (subscribed : ∀ pair ∈ hub.subscriptions,
      pair ∈ gateway.hub.subscriptions ∨ pair.2 = id)
    (served : client.Served (due id) (gateway.pending id) (written id) →
      later.Served (due id) (gateway.pending id) (written id)) :
    Ordered ⟨{ gateway.setClient id later with hub := hub }, due, written⟩ := by
  have moved := @Ordered.setClient _ _ _ ordered id client later hub [] found
    subscribed (by rw [List.append_nil]; exact served)
  simpa only [ite_self, List.append_nil] using moved

private theorem Ordered.panic (ordered : Ordered ⟨gateway, due, written⟩) :
    Ordered ⟨{ gateway with panicked := true }, due, written⟩ :=
  ⟨ordered.alone, ordered.known, ordered.aimed, ordered.fresh, ordered.served⟩

private theorem Ordered.sendError (ordered : Ordered ⟨gateway, due, written⟩)
    {id : Nat} {client moved : Client} (text : String)
    (found : gateway.clients.lookup id = some client)
    (buffer : moved.buffer = client.buffer)
    (closed : moved.closed = client.closed)
    (closings : moved.closings = client.closings) :
    Ordered ⟨gateway.sendTo id moved (.error text), due, written⟩ := by
  unfold Gateway.sendTo
  split
  · exact ordered.panic
  split
  · exact ordered.moveClient found (fun _ old => .inl old) fun served =>
      served.congr (by simp [payloads, buffer, Outgoing.payload?]) closed closings
  · refine ordered.moveClient found (fun _ old => .inl old) fun served => ?_
    have moving : moved.Served _ _ _ :=
      served.congr (congrArg payloads buffer) closed closings
    exact moving.close moved.closed_close.1 rfl

private theorem Ordered.handleRequest
    (ordered : Ordered ⟨gateway, due, written⟩)
    {id : Nat} {client moved : Client} (request : Request)
    (found : gateway.clients.lookup id = some client)
    (buffer : moved.buffer = client.buffer)
    (closed : moved.closed = client.closed)
    (closings : moved.closings = client.closings) :
    Ordered ⟨gateway.handleRequest id moved request, due, written⟩ := by
  have keeps : client.Served (due id) (gateway.pending id) (written id) →
      moved.Served (due id) (gateway.pending id) (written id) := fun served =>
    served.congr (congrArg payloads buffer) closed closings
  cases request with
  | subscribe eventID =>
      refine ordered.moveClient found ?_ keeps
      intro pair member
      rcases Finset.mem_insert.mp member with rfl | old
      · exact .inr rfl
      · exact .inl old
  | unsubscribe eventID =>
      exact ordered.moveClient found
        (fun _ member => .inl (Finset.mem_of_mem_erase member)) keeps
  | sendError text =>
      exact ordered.sendError text found buffer closed closings

private theorem Ordered.pump (ordered : Ordered ⟨gateway, due, written⟩)
    {id : Nat} {client : Client} (action : PumpAction)
    (found : gateway.clients.lookup id = some client) :
    Ordered ⟨gateway.pumpStep id client action, due,
      fun other => written other ++
        gateway.writtenBy other (.pump id action)⟩ := by
  cases action with
  | dequeue =>
      unfold Gateway.pumpStep
      have taken : ∀ other, gateway.writtenBy other (.pump id .dequeue) =
          if id = other then
            if client.writing then client.buffer.take 1 else []
          else [] := by
        intro other
        by_cases same : id = other
        · subst same
          simp [Gateway.writtenBy, found]
        · simp [Gateway.writtenBy, same]
      simp only [taken]
      split
      · exact ordered.setClient found (fun _ old => .inl old)
          fun served => served.dequeue rfl rfl rfl
      · simpa using ordered
  | receive message =>
      simp only [Gateway.writtenBy, List.append_nil, Gateway.pumpStep]
      split
      · exact ordered.moveClient found (fun _ old => .inl old)
          fun served => served.congr rfl rfl rfl
      · exact ordered
  | handle =>
      simp only [Gateway.writtenBy, List.append_nil, Gateway.pumpStep]
      split
      · exact ordered.handleRequest _ found rfl rfl rfl
      · exact ordered
  | unregister =>
      simp only [Gateway.writtenBy, List.append_nil, Gateway.pumpStep]
      split
      · exact ordered.moveClient found
          (fun _ member => .inl (Finset.mem_of_mem_filter _ member))
          fun served => served.congr rfl rfl rfl
      · exact ordered
  | closeReader =>
      simp only [Gateway.writtenBy, List.append_nil, Gateway.pumpStep]
      split
      · refine ordered.moveClient found (fun _ old => .inl old) fun served => ?_
        have closed : client.close.Served (due id) (gateway.pending id)
            (written id) :=
          served.close client.closed_close.1 rfl
        exact closed.congr rfl rfl rfl
      · exact ordered
  | exitWriter =>
      simp only [Gateway.writtenBy, List.append_nil, Gateway.pumpStep]
      split
      · refine ordered.moveClient found (fun _ old => .inl old) fun served => ?_
        have closed : client.close.Served (due id) (gateway.pending id)
            (written id) :=
          served.close client.closed_close.1 rfl
        exact closed.congr rfl rfl rfl
      · exact ordered

private theorem Ordered.connect (ordered : Ordered ⟨gateway, due, written⟩)
    {id : Nat}
    (missing : gateway.clients.lookup id = none) :
    Ordered ⟨{ gateway.setClient id newClient with
      hub := gateway.hub.register id }, due, written⟩ where
  alone := ordered.alone
  known := fun pair member =>
    FiniteMap.lookup_insert_ne_none _ (ordered.known pair member)
  aimed := fun broadcast member target isTarget =>
    FiniteMap.lookup_insert_ne_none _
      (ordered.aimed broadcast member target isTarget)
  fresh := by
    intro other none
    change Finmap.lookup other (gateway.clients.insert id newClient) = _ at none
    rw [FiniteMap.lookup_insert_eq] at none
    split at none
    · cases none
    · exact ordered.fresh other none
  served := by
    intro other client isClient
    change Finmap.lookup other (gateway.clients.insert id newClient) = _
      at isClient
    rw [FiniteMap.lookup_insert_eq] at isClient
    split at isClient
    · rename_i same
      subst same
      cases isClient
      obtain ⟨noneDue, noneWritten⟩ := ordered.fresh other missing
      dsimp only at noneDue noneWritten
      -- no running broadcast aims at a client that is not there
      have nonePending : gateway.pending other = [] := by
        have aimed := ordered.aimed
        unfold Gateway.pending
        split
        · rfl
        · rename_i broadcast rest isRunning
          refine if_neg fun isTarget => ?_
          exact aimed broadcast (by simp [isRunning]) other isTarget missing
      change newClient.Served (due other) (gateway.pending other) (written other)
      rw [noneDue, noneWritten, nonePending]
      exact .new
    · exact ordered.served other client isClient

private theorem Ordered.broadcast (ordered : Ordered ⟨gateway, due, written⟩)
    {eventID payload : String}
    (finished : gateway.OneAtATime (.broadcast eventID payload)) :
    Ordered ⟨{ gateway with
        broadcasts := ⟨payload, gateway.hub.targets eventID⟩ ::
          gateway.broadcasts },
      fun id => due id ++ gateway.dueBy id (.broadcast eventID payload),
      written⟩ where
  alone := finished
  known := ordered.known
  aimed := by
    intro broadcast member id isTarget
    rcases List.mem_cons.mp member with rfl | old
    · obtain ⟨pair, isPair, rfl⟩ := Finset.mem_image.mp isTarget
      exact ordered.known pair (Finset.mem_of_mem_filter pair isPair)
    · exact ordered.aimed broadcast old id isTarget
  fresh := by
    intro id missing
    obtain ⟨noneDue, noneWritten⟩ := ordered.fresh id missing
    dsimp only at noneDue
    refine ⟨?_, noneWritten⟩
    change due id ++ _ = []
    rw [noneDue, List.nil_append]
    refine if_neg fun isTarget => ?_
    obtain ⟨pair, isPair, rfl⟩ := Finset.mem_image.mp isTarget
    exact ordered.known pair (Finset.mem_of_mem_filter pair isPair) missing
  served := by
    intro id client found
    have nonePending : gateway.pending id = [] := by
      unfold Gateway.pending
      split
      · rfl
      · rename_i running rest isRunning
        rw [finished running (by simp [isRunning]), if_neg (by simp)]
    have served := ordered.served id client found
    change client.Served (due id) (gateway.pending id) (written id) at served
    rw [nonePending] at served
    exact served.snapshot _

private theorem Ordered.index_eq_zero
    (ordered : Ordered ⟨gateway, due, written⟩)
    {index id : Nat} {broadcast : Broadcast}
    (found : gateway.broadcasts[index]? = some broadcast)
    (isTarget : id ∈ broadcast.targets) : index = 0 := by
  cases index with
  | zero => rfl
  | succ index =>
      have alone := ordered.alone broadcast (by
        rw [List.mem_iff_getElem?]
        exact ⟨index, by rw [List.getElem?_tail]; exact found⟩)
      rw [alone] at isTarget
      exact absurd isTarget (Finset.notMem_empty id)

/-- A target is done with: it is no longer pending there, and the channel is as
the send left it. -/
theorem Ordered.sent (ordered : Ordered ⟨gateway, due, written⟩)
    {id : Nat} {broadcast : Broadcast} {rest : List Broadcast}
    (running : gateway.broadcasts = broadcast :: rest)
    {later : Client} {clients : FiniteMap Nat Client} {panicked : Bool}
    (changed : ∀ other, clients.lookup other =
      if other = id then some later else gateway.clients.lookup other)
    (served : later.Served (due id) [] (written id)) :
    Ordered ⟨⟨clients, gateway.hub,
      { broadcast with targets := broadcast.targets.erase id } :: rest,
      panicked⟩, due, written⟩ := by
  have stays : ∀ other, gateway.clients.lookup other ≠ none →
      clients.lookup other ≠ none := by
    intro other known
    rw [changed]
    split
    · simp
    · exact known
  constructor
  · have alone := ordered.alone
    dsimp only at alone
    rw [running] at alone
    exact alone
  · exact fun pair member => stays _ (ordered.known pair member)
  · intro other member target isIn
    apply stays
    rcases List.mem_cons.mp member with rfl | old
    · exact ordered.aimed broadcast (by simp [running]) target
        (Finset.mem_of_mem_erase isIn)
    · exact ordered.aimed other (by simp [running, old]) target isIn
  · intro other missing
    dsimp only at missing
    rw [changed] at missing
    split at missing
    · cases missing
    · exact ordered.fresh other missing
  · intro other now isNow
    dsimp only at isNow ⊢
    rw [changed] at isNow
    split at isNow
    · rename_i same
      subst same
      cases isNow
      have done : Gateway.pending ⟨clients, gateway.hub,
          { broadcast with targets := broadcast.targets.erase other } :: rest,
          panicked⟩ other = [] :=
        if_neg (Finset.notMem_erase other broadcast.targets)
      rw [done]
      exact served
    · rename_i different
      have same : Gateway.pending ⟨clients, gateway.hub,
          { broadcast with targets := broadcast.targets.erase id } :: rest,
          panicked⟩ other = gateway.pending other := by
        simp only [Gateway.pending, running, Finset.mem_erase, ne_eq, different,
          not_false_eq_true, true_and]
      rw [same]
      exact ordered.served other now isNow

private theorem Ordered.send (ordered : Ordered ⟨gateway, due, written⟩)
    {id : Nat} {broadcast : Broadcast} {rest : List Broadcast}
    (running : gateway.broadcasts = broadcast :: rest)
    (isTarget : id ∈ broadcast.targets)
    {client : Client} (found : gateway.clients.lookup id = some client) :
    Ordered ⟨Gateway.sendTo { gateway with
        broadcasts := { broadcast with targets := broadcast.targets.erase id } ::
          rest } id client (.event broadcast.payload), due, written⟩ := by
  have served := ordered.served id client found
  have pending : gateway.pending id = [broadcast.payload] := by
    simp only [Gateway.pending, running, if_pos isTarget]
  dsimp only at served
  rw [pending] at served
  unfold Gateway.sendTo
  split
  · rename_i isClosed
    refine ordered.sent running ?_
      (served.ofClosed (Nat.ne_of_gt isClosed))
    intro other
    split
    · rename_i same
      rw [same, found]
    · rfl
  rename_i notClosed
  split
  · exact ordered.sent running
      (FiniteMap.lookup_insert_eq gateway.clients id · _)
      (served.enqueue (Nat.eq_zero_of_not_pos notClosed) rfl rfl rfl)
  · exact ordered.sent running
      (FiniteMap.lookup_insert_eq gateway.clients id · _)
      (served.close client.closed_close.1 rfl)

end Steps

theorem Ordered.step {feed : Feed} (ordered : feed.Ordered)
    {action : GatewayAction} (alone : feed.gateway.OneAtATime action) :
    (feed.step action).Ordered := by
  obtain ⟨gateway, due, written⟩ := feed
  unfold Feed.step
  split
  · exact ordered
  rename_i running
  unfold Gateway.step
  rw [if_neg running]
  cases action with
  | connect id =>
      simp only [Gateway.dueBy, Gateway.writtenBy, List.append_nil]
      split
      · exact ordered
      · rename_i missing
        exact ordered.connect missing
  | pump id action =>
      simp only [Gateway.dueBy, List.append_nil]
      split
      · rename_i missing
        have nothing : ∀ other, gateway.writtenBy other (.pump id action) = [] := by
          intro other
          cases action <;> simp only [Gateway.writtenBy]
          by_cases same : id = other
          · subst same
            simp [missing]
          · simp [same]
        simpa only [nothing, List.append_nil] using ordered
      · rename_i client found
        exact ordered.pump action found
  | broadcast eventID payload =>
      simp only [Gateway.writtenBy, List.append_nil]
      exact ordered.broadcast alone
  | send index id =>
      simp only [Gateway.dueBy, Gateway.writtenBy, List.append_nil,
        Gateway.sendStep]
      split
      · exact ordered
      rename_i broadcast found
      split
      · rename_i isTarget
        cases ordered.index_eq_zero found isTarget
        cases isRunning : gateway.broadcasts with
        | nil => simp [isRunning] at found
        | cons first rest =>
            have same : first = broadcast := by simpa [isRunning] using found
            subst same
            cases isThere : gateway.clients.lookup id with
            | none =>
                exact absurd isThere
                  (ordered.aimed first (by simp [isRunning]) id isTarget)
            | some client => exact ordered.send isRunning isTarget isThere
      · exact ordered

/-- Each client sees the broadcasts that were due to it in their order, none
twice and none left out before the end, and nothing that was not due. -/
theorem run_delivers {actions : List GatewayAction}
    (alone : Along step (fun feed => feed.gateway.OneAtATime) start
      actions) {id : Nat} {client : Client}
    (found : (Gateway.start.run actions).clients.lookup id = some client) :
    client.Served ((start.run actions).due id)
      ((start.run actions).gateway.pending id)
      ((start.run actions).written id) := by
  have ordered : (start.run actions).Ordered :=
    invariant_runFrom Ordered (fun _ _ ordered => ordered.step) ordered_start
      alone
  apply ordered.served
  rw [run_gateway]
  exact found

def twoBroadcasts : List GatewayAction :=
  subscriber ++
    [.broadcast "e" "x", .send 0 0, .broadcast "f" "y", .pump 0 .dequeue,
      .broadcast "e" "z", .send 0 0]

theorem delivers_twoBroadcasts :
    ∃ client, (Gateway.start.run twoBroadcasts).clients.lookup 0 =
        some client ∧
      client.Served ["x", "z"] [] [.event "x"] := by
  have there : ((Gateway.start.run twoBroadcasts).clients.lookup 0).isSome := by
    decide
  obtain ⟨client, found⟩ := Option.isSome_iff_exists.mp there
  exact ⟨client, found, run_delivers (by decide) found⟩

end Feed

end Predix
