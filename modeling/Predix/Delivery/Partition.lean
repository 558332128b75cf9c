import Predix.Delivery.Outbox
import Predix.Replay.Effective

namespace Predix

open Data

/-! One partition: a durable command stream, a consumer group over it, and an
engine that may die at any point and be started again. -/

structure Emission where
  id : String
  outcome : EmitOutcome
  deriving DecidableEq, Repr

def EmitOutcome.succeeds (outcome : EmitOutcome) (broadcast : Bool) : Bool :=
  decide (outcome.append = .synced) && outcome.publication.added &&
    (!broadcast || outcome.publication.published)

def emissionInputs (events : List Event) (emissions : Nat → Emission) :
    List OutboxInput :=
  events.mapIdx fun index event =>
    .emit ⟨(emissions index).id, event⟩ event.broadcast
      (emissions index).outcome

def Outbox.emitAll (outbox : Outbox) (events : List Event)
    (emissions : Nat → Emission) : Outbox :=
  outbox.run (emissionInputs events emissions)

structure Node where
  engine : Engine
  inbox : List Nat
  settled : List Trade

/-- An entry of the command stream is `none` when it holds no readable
envelope. `handled` remembers, in order, the commands that a running engine has
carried through and that were not without effect. -/
structure Partition where
  commands : List (Option Command)
  delivered : Nat
  pending : List Nat
  node : Option Node
  outbox : Outbox
  handled : List Command

def Partition.start : Partition := ⟨[], 0, [], none, .empty, []⟩

inductive PartitionInput where
  /-- A command is added to the stream. -/
  | append (command : Option Command)
  /-- XREADGROUP hands out the next entries. -/
  | deliver (count : Nat)
  /-- The next entry is processed and then acknowledged, if XACK succeeds. -/
  | process (newUUID : String) (emissions : Nat → Emission) (acked : Bool)
  /-- The engine dies, having made some of the emissions of the entry it was
  working on. -/
  | crash (newUUID : String) (emissions : Nat → Emission) (made : Nat)
  /-- The engine starts: the outbox is recovered, the stream replayed, and some
  pending entries are reclaimed. -/
  | restart (recovery : RecoverOutcome) (newUUIDs : Nat → String)
      (reclaimed : List Nat)

def Partition.command? (partition : Partition) (node : Node) :
    Option Command :=
  match node.inbox with
  | [] => none
  | position :: _ => (partition.commands.getD position none)

/-- Handle a command live. An order goes on only if its announcement, the first
emission, succeeds. -/
def Node.handle (node : Node) (newUUID : String)
    (emissions : Nat → Emission) (command : Command) : Reply :=
  node.engine.step
    ⟨command, ⟨newUUID, (emissions 0).outcome.succeeds false⟩⟩

def Partition.acknowledge (partition : Partition) (position : Nat)
    (acked : Bool) : List Nat :=
  if acked then partition.pending.erase position else partition.pending

/-- `processStreamEntry`. An unreadable entry is only acknowledged. -/
def Partition.process (partition : Partition) (newUUID : String)
    (emissions : Nat → Emission) (acked : Bool) : Partition :=
  match partition.node with
  | none => partition
  | some node =>
      match node.inbox with
      | [] => partition
      | position :: inbox =>
          let partition :=
            { partition with
              pending := partition.acknowledge position acked }
          match partition.command? node with
          | none => { partition with node := some { node with inbox := inbox } }
          | some command =>
              let reply := node.handle newUUID emissions command
              { partition with
                node := some
                  { engine := reply.engine
                    inbox := inbox
                    settled := node.settled ++ reply.trades }
                outbox := partition.outbox.emitAll reply.events emissions
                handled :=
                  if node.engine.Absorbs command then partition.handled
                  else partition.handled ++ [command] }

def Partition.lastEvents (partition : Partition) (newUUID : String)
    (emissions : Nat → Emission) (made : Nat) : List Event :=
  match partition.node with
  | none => []
  | some node =>
      match partition.command? node with
      | none => []
      | some command =>
          (node.handle newUUID emissions command).events.take made

def Partition.executions (partition : Partition) (newUUIDs : Nat → String) :
    List Execution :=
  partition.commands.mapIdx fun position command =>
    ⟨command, newUUIDs position⟩

def Partition.step (partition : Partition) : PartitionInput → Partition
  | .append command =>
      { partition with commands := partition.commands ++ [command] }
  | .deliver count =>
      match partition.node with
      | none => partition
      | some node =>
          let positions := (List.range' partition.delivered count).filter
            (· < partition.commands.length)
          { partition with
            delivered := partition.delivered + positions.length
            pending := partition.pending ++ positions
            node := some { node with inbox := node.inbox ++ positions } }
  | .process newUUID emissions acked =>
      partition.process newUUID emissions acked
  | .crash newUUID emissions made =>
      { partition with
        node := none
        outbox := partition.outbox.emitAll
          (partition.lastEvents newUUID emissions made) emissions }
  | .restart recovery newUUIDs reclaimed =>
      match partition.node with
      | some _ => partition
      | none =>
          let executions := partition.executions newUUIDs
          { partition with
            outbox := partition.outbox.recover recovery
            node := some
              { engine := replayCommandLog newEngine executions
                inbox := partition.pending.filter (· ∈ reclaimed)
                settled := replayTrades newEngine executions } }

def Partition.run (partition : Partition) (inputs : List PartitionInput) :
    Partition :=
  runFrom Partition.step partition inputs

def Partition.Quiescent (partition : Partition) : Prop :=
  partition.delivered = partition.commands.length ∧ partition.pending = []

instance (partition : Partition) : Decidable partition.Quiescent :=
  inferInstanceAs (Decidable (_ ∧ _))

/-- An envelope with such an event is in the stream or in the journal. -/
def Outbox.Holds (outbox : Outbox) (announces : Event → Prop) : Prop :=
  ∃ envelope, (envelope ∈ outbox.stream ∨ envelope ∈ outbox.journal) ∧
    announces envelope.event

def Event.Creates (id : String) (event : Event) : Prop :=
  ∃ order, event = .orderCreated order ∧ order.id = id

/-- Every order and every settled trade of the running engine has been
announced. -/
structure Partition.Announced (partition : Partition) : Prop where
  orders : ∀ node ∈ partition.node, ∀ id order,
    node.engine.orders.lookup id = some order →
      partition.outbox.Holds (Event.Creates id)
  trades : ∀ node ∈ partition.node, ∀ trade ∈ node.settled,
    partition.outbox.Holds (· = .tradeExecuted trade)

end Predix
