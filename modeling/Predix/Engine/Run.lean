import Predix.Data.Run
import Predix.Engine.Handler

namespace Predix

open Data

/-! Whole runs of the engine, one command at a time. -/

structure Input where
  command : Command
  surroundings : Surroundings
  deriving DecidableEq, Repr

def Input.createEvent (eventID : String) : Input :=
  ⟨.createEvent (some eventID), ⟨"", true⟩⟩

/-- A CREATE_ORDER command with an id of its own, announced without failure. -/
def Input.submit (orderID eventID userID orderType outcome side : String)
    (quantity price : Int64) : Input :=
  ⟨.createOrder (some
    { orderID := orderID
      eventID := eventID
      userID := userID
      orderType := orderType
      outcome := outcome
      side := side
      quantity := quantity
      price := price }), ⟨"", true⟩⟩

def Input.cancel (orderID : String) : Input :=
  ⟨.cancelOrder (some ⟨orderID, ""⟩), ⟨"", true⟩⟩

/-- The engine together with what a run has produced so far: the ids of the
accepted orders and the trades, in order. -/
structure History where
  engine : Engine
  accepted : List String
  trades : List Trade

def History.start (engine : Engine) : History :=
  ⟨engine, [], []⟩

def Engine.step (engine : Engine) (input : Input) : Reply :=
  handleMessage engine input.surroundings input.command

def History.step (history : History) (input : Input) : History :=
  let reply := history.engine.step input
  { engine := reply.engine
    accepted := history.accepted ++ reply.response.accepted?.toList
    trades := history.trades ++ reply.trades }

def History.run (history : History) (inputs : List Input) : History :=
  runFrom History.step history inputs

/-- The run of a list of commands from an engine without orders. -/
def runSeeded (balances positions : Accounts String) (inputs : List Input) :
    History :=
  (History.start (Engine.seeded balances positions)).run inputs

def MeetsAlong (condition : History → Input → Prop)
    (balances positions : Accounts String) (inputs : List Input) : Prop :=
  Along History.step condition
    (History.start (Engine.seeded balances positions)) inputs

instance (condition : History → Input → Prop)
    [∀ history input, Decidable (condition history input)]
    (balances positions : Accounts String) (inputs : List Input) :
    Decidable (MeetsAlong condition balances positions inputs) :=
  Along.decidable _ _ _ _

theorem runSeeded_invariant {condition : History → Input → Prop}
    (invariant : History → Prop)
    (kept : ∀ history input, invariant history → condition history input →
      invariant (history.step input))
    {balances positions : Accounts String} {inputs : List Input}
    (initially : invariant
      (History.start (Engine.seeded balances positions)))
    (meets : MeetsAlong condition balances positions inputs) :
    invariant (runSeeded balances positions inputs) :=
  invariant_runFrom invariant kept initially meets

theorem runSeeded_always (invariant : History → Prop)
    (kept : ∀ history input, invariant history →
      invariant (history.step input))
    {balances positions : Accounts String}
    (initially : invariant
      (History.start (Engine.seeded balances positions)))
    (inputs : List Input) :
    invariant (runSeeded balances positions inputs) :=
  always_runFrom invariant kept initially inputs

end Predix
