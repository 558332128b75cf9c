import Predix.Delivery.Partition

namespace Predix

open Data

/-! Runs of a partition in which a restart finds nothing it would swallow. -/

/-- A command is carried through: an order is announced before it trades, every
journal append succeeds, and the journal is never cleared over an envelope that
still waits for the stream. -/
structure Partition.Carried (partition : Partition) (node : Node)
    (command : Command) (newUUID : String) (emissions : Nat → Emission) :
    Prop where
  announced : ∀ order ∈ node.engine.admitted?
    ⟨command, ⟨newUUID, (emissions 0).outcome.succeeds false⟩⟩,
      (emissions 0).outcome.succeeds false = true
  journaled : ∀ index < (node.handle newUUID emissions command).events.length,
    (emissions index).outcome.append = .synced
  published : Along Outbox.step Outbox.Published partition.outbox
    (emissionInputs (node.handle newUUID emissions command).events emissions)

instance (partition : Partition) (node : Node) (command : Command)
    (newUUID : String) (emissions : Nat → Emission) :
    Decidable (partition.Carried node command newUUID emissions) :=
  decidable_of_iff
    ((∀ order ∈ node.engine.admitted?
        ⟨command, ⟨newUUID, (emissions 0).outcome.succeeds false⟩⟩,
          (emissions 0).outcome.succeeds false = true) ∧
      (∀ index < (node.handle newUUID emissions command).events.length,
        (emissions index).outcome.append = .synced) ∧
      Along Outbox.step Outbox.Published partition.outbox
        (emissionInputs (node.handle newUUID emissions command).events
          emissions))
    ⟨fun ⟨announced, journaled, published⟩ =>
      ⟨announced, journaled, published⟩,
      fun ⟨announced, journaled, published⟩ =>
        ⟨announced, journaled, published⟩⟩

/-- Orders come with ids, commands are carried through, and at a restart the
commands carried through so far are those with an effect on the stream. -/
def Partition.Safe (partition : Partition) : PartitionInput → Prop
  | .append command => ∀ readable ∈ command, readable.HasOwnID
  | .deliver _ => True
  | .process newUUID emissions _ => ∀ node ∈ partition.node,
      ∀ command ∈ partition.command? node,
        partition.Carried node command newUUID emissions
  | .crash newUUID emissions made =>
      Along Outbox.step Outbox.Published partition.outbox
        (emissionInputs (partition.lastEvents newUUID emissions made)
          emissions)
  | .restart _ _ _ => partition.node.isNone = true →
      partition.handled = effective newEngine partition.commands

instance (partition : Partition) (input : PartitionInput) :
    Decidable (partition.Safe input) := by
  cases input <;> unfold Partition.Safe <;> infer_instance

/-! What emissions leave in the outbox. -/

theorem appended_step (outbox : Outbox) (input : OutboxInput)
    {envelope : Envelope} (member : envelope ∈ outbox.appended) :
    envelope ∈ (outbox.step input).appended := by
  cases input with
  | emit emitted broadcast outcome =>
      simp only [Outbox.step, Outbox.emitEventP]
      split
      · exact member
      · exact member
      · simp only [Outbox.reset]
        split
        · split <;> exact List.mem_append_left _ member
        · exact List.mem_append_left _ member
  | recover outcome =>
      simp only [Outbox.step, Outbox.recover]
      split
      · simp only [Outbox.reset]
        split
        · split <;> exact member
        · exact member
      · exact member

theorem appended_run (outbox : Outbox) (inputs : List OutboxInput)
    {envelope : Envelope} (member : envelope ∈ outbox.appended) :
    envelope ∈ (outbox.run inputs).appended :=
  always_runFrom (fun outbox => envelope ∈ outbox.appended)
    (fun outbox input member => appended_step outbox input member) member
    inputs

theorem keepsAll_run {outbox : Outbox} {inputs : List OutboxInput}
    (keeps : outbox.KeepsAll)
    (published : Along Outbox.step Outbox.Published outbox inputs) :
    (outbox.run inputs).KeepsAll :=
  invariant_runFrom Outbox.KeepsAll
    (fun _ input keeps published => (keepsAll_step_iff keeps input).mpr published)
    keeps published

private theorem emissionInputs_cons (event : Event) (events : List Event)
    (emissions : Nat → Emission) :
    emissionInputs (event :: events) emissions =
      .emit ⟨(emissions 0).id, event⟩ event.broadcast (emissions 0).outcome ::
        emissionInputs events fun index => emissions (index + 1) :=
  List.mapIdx_cons

private theorem appended_emit {outcome : EmitOutcome}
    (synced : outcome.append = .synced)
    (outbox : Outbox) (envelope : Envelope) (broadcast : Bool) :
    envelope ∈
      (outbox.step (.emit envelope broadcast outcome)).appended := by
  simp only [Outbox.step, Outbox.emitEventP, synced, Outbox.reset]
  split
  · split <;> simp
  · simp

private theorem appended_emitAll {events : List Event}
    {emissions : Nat → Emission}
    (journaled : ∀ index < events.length,
      (emissions index).outcome.append = .synced)
    (outbox : Outbox) {event : Event} (member : event ∈ events) :
    ∃ envelope ∈ (outbox.emitAll events emissions).appended,
      envelope.event = event := by
  induction events generalizing emissions outbox with
  | nil => simp at member
  | cons first events induction =>
      unfold Outbox.emitAll
      rw [emissionInputs_cons]
      rcases List.mem_cons.mp member with rfl | tailMember
      · have now := appended_emit (journaled 0 (by simp)) outbox
          ⟨(emissions 0).id, event⟩ event.broadcast
        exact ⟨_, appended_run _ (emissionInputs events fun index =>
          emissions (index + 1)) now, rfl⟩
      · exact induction
          (fun index less => journaled (index + 1) (by simpa using less))
          (outbox.step (.emit ⟨(emissions 0).id, first⟩ first.broadcast
            (emissions 0).outcome)) tailMember

/-! The memory of a running engine is what its handled commands produce. -/

def Partition.replayed (partition : Partition) : Engine :=
  replayCommandLog newEngine (partition.handled.map Execution.plain)

def Partition.replayedTrades (partition : Partition) : List Trade :=
  replayTrades newEngine (partition.handled.map Execution.plain)

structure Partition.Consistent (partition : Partition) : Prop where
  ownIDs : ∀ command, some command ∈ partition.commands → command.HasOwnID
  keeps : partition.outbox.KeepsAll
  orders : ∀ {id order}, partition.replayed.orders.lookup id = some order →
    ∃ envelope ∈ partition.outbox.appended, envelope.event.Creates id
  trades : ∀ trade ∈ partition.replayedTrades,
    ∃ envelope ∈ partition.outbox.appended,
      envelope.event = .tradeExecuted trade
  memory : ∀ node ∈ partition.node, node.engine = partition.replayed
  settled : ∀ node ∈ partition.node,
    node.settled = partition.replayedTrades

namespace Partition

theorem consistent_start : start.Consistent where
  ownIDs := by simp [start]
  keeps := keepsAll_empty
  orders := by
    intro id order present
    simp [replayed, start, replayCommandLog, runFrom, newEngine,
      Engine.seeded] at present
  trades := by simp [replayedTrades, start, replayTrades]
  memory := by simp [start]
  settled := by simp [start]

variable {partition : Partition} (consistent : partition.Consistent)

include consistent

private theorem Consistent.announced : partition.Announced where
  orders := by
    intro node running id order present
    rw [consistent.memory node running] at present
    obtain ⟨envelope, appended, creates⟩ := consistent.orders present
    exact ⟨envelope, consistent.keeps envelope appended, creates⟩
  trades := by
    intro node running trade settled
    rw [consistent.settled node running] at settled
    obtain ⟨envelope, appended, is⟩ := consistent.trades trade settled
    exact ⟨envelope, consistent.keeps envelope appended, is⟩

omit consistent in
private theorem wellFormed_replayed (partition : Partition) :
    WellFormed partition.replayed :=
  wellFormed_replay (wellFormed_seeded ∅ ∅) _

theorem Consistent.of_same {other : Partition}
    (commands : other.commands = partition.commands)
    (handled : other.handled = partition.handled)
    (keeps : other.outbox.KeepsAll)
    (appended : ∀ envelope ∈ partition.outbox.appended,
      envelope ∈ other.outbox.appended)
    (nodes : ∀ node ∈ other.node, node.engine = partition.replayed ∧
      node.settled = partition.replayedTrades) : other.Consistent := by
  have replayed : other.replayed = partition.replayed := by
    rw [Partition.replayed, handled]
    rfl
  have trades : other.replayedTrades = partition.replayedTrades := by
    rw [Partition.replayedTrades, handled]
    rfl
  constructor
  case ownIDs =>
    rw [commands]
    exact consistent.ownIDs
  case keeps => exact keeps
  case orders =>
    intro id order present
    rw [replayed] at present
    obtain ⟨envelope, member, creates⟩ := consistent.orders present
    exact ⟨envelope, appended envelope member, creates⟩
  case trades =>
    intro trade settled
    rw [trades] at settled
    obtain ⟨envelope, member, is⟩ := consistent.trades trade settled
    exact ⟨envelope, appended envelope member, is⟩
  case memory =>
    intro node running
    rw [replayed]
    exact (nodes node running).1
  case settled =>
    intro node running
    rw [trades]
    exact (nodes node running).2

theorem Consistent.nodes {node : Node} (running : node ∈ partition.node) :
    node.engine = partition.replayed ∧
      node.settled = partition.replayedTrades :=
  ⟨consistent.memory node running, consistent.settled node running⟩

private theorem Consistent.ownID {node : Node} {command : Command}
    (current : partition.command? node = some command) :
    command.HasOwnID := by
  apply consistent.ownIDs
  unfold Partition.command? at current
  split at current
  · contradiction
  · rename_i position _ _
    rw [List.getD_eq_getElem?_getD] at current
    cases entry : partition.commands[position]? with
    | none =>
        rw [entry] at current
        contradiction
    | some found =>
        rw [entry, Option.getD_some] at current
        rw [← current]
        exact List.mem_of_getElem? entry

omit consistent in
private theorem Carried.handle_eq {node : Node} {command : Command}
    {newUUID : String} {emissions : Nat → Emission}
    (carried : partition.Carried node command newUUID emissions)
    (ownID : command.HasOwnID) :
    node.handle newUUID emissions command =
      node.engine.step ⟨command, ⟨"", true⟩⟩ := by
  have emitted : node.handle newUUID emissions command =
      node.engine.step ⟨command, ⟨newUUID, true⟩⟩ := by
    unfold Node.handle
    cases admitted : node.engine.admitted?
        ⟨command, ⟨newUUID, (emissions 0).outcome.succeeds false⟩⟩ with
    | none => exact step_unadmitted admitted
    | some order => rw [carried.announced order admitted]
  rw [emitted]
  exact step_redrawn ownID node.engine newUUID "" true

/-- Carrying a command through announces what it adds. -/
theorem Consistent.carry {node : Node} {command : Command} {newUUID : String}
    {emissions : Nat → Emission} (running : node ∈ partition.node)
    (ownID : command.HasOwnID)
    (carried : partition.Carried node command newUUID emissions)
    {other : Partition} (commands : other.commands = partition.commands)
    (handled : other.handled = partition.handled ++ [command])
    (outbox : other.outbox = partition.outbox.emitAll
      (node.handle newUUID emissions command).events emissions)
    (nodes : ∀ later ∈ other.node,
      later.engine = (node.handle newUUID emissions command).engine ∧
      later.settled =
        node.settled ++ (node.handle newUUID emissions command).trades) :
    other.Consistent := by
  have reply := carried.handle_eq ownID
  have journaled := carried.journaled
  have published := carried.published
  have memory := consistent.memory node running
  rw [reply] at outbox nodes journaled published
  rw [memory] at outbox nodes journaled published
  rw [consistent.settled node running] at nodes
  have replayed : other.replayed =
      (partition.replayed.step ⟨command, ⟨"", true⟩⟩).engine := by
    rw [Partition.replayed, handled, List.map_append]
    exact (runFrom_append Execution.apply newEngine _ _).trans
      (applyCommand_eq _ _ _)
  have trades : other.replayedTrades = partition.replayedTrades ++
      (partition.replayed.step ⟨command, ⟨"", true⟩⟩).trades := by
    rw [Partition.replayedTrades, handled, List.map_append,
      replayTrades_append]
    exact congrArg _ (List.append_nil _)
  have kept : ∀ envelope ∈ partition.outbox.appended,
      envelope ∈ other.outbox.appended := by
    intro envelope member
    rw [outbox]
    exact appended_run _ _ member
  have emitted : ∀ event ∈
      (partition.replayed.step ⟨command, ⟨"", true⟩⟩).events,
      ∃ envelope ∈ other.outbox.appended, envelope.event = event := by
    intro event member
    rw [outbox]
    exact appended_emitAll journaled partition.outbox member
  constructor
  case ownIDs =>
    rw [commands]
    exact consistent.ownIDs
  case keeps =>
    rw [outbox]
    exact keepsAll_run consistent.keeps published
  case orders =>
    intro id order present
    rw [replayed] at present
    rcases events_cover_orders (wellFormed_replayed partition) _ present with
      ⟨old, oldPresent⟩ | ⟨created, event, own⟩
    · obtain ⟨envelope, member, creates⟩ := consistent.orders oldPresent
      exact ⟨envelope, kept envelope member, creates⟩
    · obtain ⟨envelope, member, is⟩ := emitted _ event
      exact ⟨envelope, member, created, is, own⟩
  case trades =>
    intro trade settled
    rw [trades] at settled
    rcases List.mem_append.mp settled with old | new
    · obtain ⟨envelope, member, is⟩ := consistent.trades trade old
      exact ⟨envelope, kept envelope member, is⟩
    · exact emitted _ (events_cover_trades _ _ new)
  case memory =>
    intro later isRunning
    rw [replayed]
    exact (nodes later isRunning).1
  case settled =>
    intro later isRunning
    rw [trades]
    exact (nodes later isRunning).2

omit consistent in
theorem command?_acknowledged (pending : List Nat) (running : Option Node)
    (node : Node) :
    Partition.command?
        { partition with pending := pending, node := running } node =
      partition.command? node := rfl

private theorem consistent_process {newUUID : String}
    {emissions : Nat → Emission}
    {acked : Bool} (safe : partition.Safe (.process newUUID emissions acked)) :
    (partition.process newUUID emissions acked).Consistent := by
  unfold Partition.process
  cases running : partition.node with
  | none => exact consistent
  | some node =>
      have nodes := consistent.nodes running
      cases inbox : node.inbox with
      | nil =>
          simp only [inbox]
          exact consistent
      | cons position rest =>
          simp only [inbox, command?_acknowledged]
          cases current : partition.command? node with
          | none =>
              apply consistent.of_same
              · rfl
              · rfl
              · exact consistent.keeps
              · exact fun _ member => member
              · rintro later ⟨⟩
                exact nodes
          | some command =>
              have carried := safe node running command current
              by_cases absorbs : node.engine.Absorbs command
              · -- nothing happens, and replay skips the command as well
                obtain ⟨response, same⟩ := step_of_ignored
                  ⟨newUUID, (emissions 0).outcome.succeeds false⟩ absorbs.1
                  absorbs.2
                have handle : node.handle newUUID emissions command =
                    .unchanged node.engine response := same
                simp only [handle, if_pos absorbs]
                apply consistent.of_same
                · rfl
                · rfl
                · exact consistent.keeps
                · exact fun _ member => member
                · rintro later ⟨⟩
                  refine ⟨nodes.1, ?_⟩
                  rw [← nodes.2]
                  exact List.append_nil _
              · simp only [if_neg absorbs]
                apply consistent.carry running (consistent.ownID current)
                  carried
                · rfl
                · rfl
                · rfl
                · rintro later ⟨⟩
                  exact ⟨rfl, rfl⟩

private theorem Consistent.restarted
    (caughtUp : partition.handled = effective newEngine partition.commands)
    (newUUIDs : Nat → String) :
    replayCommandLog newEngine (partition.executions newUUIDs) =
        partition.replayed ∧
      replayTrades newEngine (partition.executions newUUIDs) =
        partition.replayedTrades := by
  have commands : (partition.executions newUUIDs).map Execution.command =
      partition.commands := by
    apply List.ext_getElem?
    intro position
    simp [Partition.executions, Function.comp_def]
  have ownIDs : ∀ execution ∈ partition.executions newUUIDs,
      ∀ command ∈ execution.command, command.HasOwnID := by
    intro execution member command isCommand
    apply consistent.ownIDs
    rw [← commands, ← Option.mem_def.mp isCommand]
    exact List.mem_map_of_mem member
  have same := replay_effective ownIDs newEngine
  rw [commands, ← caughtUp] at same
  exact same

theorem consistent_step {input : PartitionInput}
    (safe : partition.Safe input) : (partition.step input).Consistent := by
  cases input with
  | append command =>
      refine ⟨?_, consistent.keeps, consistent.orders, consistent.trades,
        consistent.memory, consistent.settled⟩
      intro other member
      rcases List.mem_append.mp member with old | new
      · exact consistent.ownIDs other old
      · exact safe other (List.mem_singleton.mp new).symm
  | deliver count =>
      simp only [Partition.step]
      cases running : partition.node with
      | none => exact consistent
      | some node =>
          apply consistent.of_same
          · rfl
          · rfl
          · exact consistent.keeps
          · exact fun _ member => member
          · have nodes := consistent.nodes running
            rintro later ⟨⟩
            exact nodes
  | process newUUID emissions acked => exact consistent_process consistent safe
  | crash newUUID emissions made =>
      apply consistent.of_same
      · rfl
      · rfl
      · exact keepsAll_run consistent.keeps safe
      · exact fun _ member => appended_run _ _ member
      · rintro later ⟨⟩
  | restart recovery newUUIDs reclaimed =>
      simp only [Partition.step]
      cases running : partition.node with
      | some node => exact consistent
      | none =>
          have caughtUp := safe (by rw [running]; rfl)
          apply consistent.of_same
          · rfl
          · rfl
          · exact keepsAll_recover consistent.keeps recovery
          · exact fun _ member =>
              appended_step partition.outbox (.recover recovery) member
          · rintro later ⟨⟩
            exact consistent.restarted caughtUp newUUIDs

end Partition

/-- In every state of a run whose steps are all safe, whatever the running
engine holds has been announced. -/
theorem partition_announced {inputs : List PartitionInput}
    (safe : Along Partition.step Partition.Safe Partition.start inputs) :
    (Partition.start.run inputs).Announced :=
  (invariant_runFrom Partition.Consistent
    (fun _ _ consistent safe => Partition.consistent_step consistent safe)
    Partition.consistent_start safe).announced

def steady (_ : Nat) : Emission :=
  ⟨"x", ⟨.synced, ⟨true, true⟩, true⟩⟩

/-- The engine dies before it has acknowledged an order and processes it once
more after the restart. -/
def redeliveredRun : List PartitionInput :=
  [.restart ⟨true, [], true⟩ (fun _ => "") [],
    .append (some (.userCreated (some "b"))),
    .append (some (Input.createEvent "e").command),
    .append (some
      (Input.submit "o1" "e" "b" "LIMIT" "YES" "BUY" 10 5000).command),
    .deliver 3, .process "" steady true, .process "" steady true,
    .process "" steady false, .crash "" steady 0,
    .restart ⟨true, [], true⟩ (fun _ => "") [2], .process "" steady true]

theorem announced_redelivered :
    (Partition.start.run redeliveredRun).Quiescent ∧
      (Partition.start.run redeliveredRun).node.map
        (fun node => (node.engine.orders.lookup "o1").isSome) = some true ∧
      (Partition.start.run redeliveredRun).Announced :=
  ⟨by decide, by decide, partition_announced (by decide)⟩

/-- The same commands reach the stream while no engine runs. -/
def swallowedRun : List PartitionInput :=
  [.append (some (.userCreated (some "b"))),
    .append (some (Input.createEvent "e").command),
    .append (some
      (Input.submit "o1" "e" "b" "LIMIT" "YES" "BUY" 10 5000).command),
    .restart ⟨true, [], true⟩ (fun _ => "") [], .deliver 3,
    .process "" steady true, .process "" steady true,
    .process "" steady true]

/-- Replay registers the order in silence, and its delivery is taken for a
resubmission: it is never announced. -/
theorem swallowed_unannounced :
    (Partition.start.run swallowedRun).Quiescent ∧
      (Partition.start.run swallowedRun).node.map
        (fun node => (node.engine.orders.lookup "o1").isSome) = some true ∧
      (Partition.start.run swallowedRun).outbox.stream = [] ∧
      (Partition.start.run swallowedRun).outbox.journal = [] ∧
      ¬ (Partition.start.run swallowedRun).Announced := by
  have registered : (Partition.start.run swallowedRun).node.map
      (fun node => (node.engine.orders.lookup "o1").isSome) = some true := by
    decide
  have noStream : (Partition.start.run swallowedRun).outbox.stream = [] := by
    decide
  have noJournal : (Partition.start.run swallowedRun).outbox.journal = [] := by
    decide
  refine ⟨by decide, registered, noStream, noJournal, fun announced => ?_⟩
  obtain ⟨node, running, isRegistered⟩ := Option.map_eq_some_iff.mp registered
  obtain ⟨order, present⟩ := Option.isSome_iff_exists.mp isRegistered
  obtain ⟨envelope, either, _⟩ := announced.orders node running "o1" order
    present
  rw [noStream, noJournal] at either
  simp at either

end Predix
