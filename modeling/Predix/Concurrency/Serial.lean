import Mathlib.Data.List.Permutation
import Predix.Concurrency.Footprint

namespace Predix

open Data Word

/-! Interleaved commands compared with commands that run one after the
other. -/

def Input.announced (input : Input) : Input :=
  ⟨input.command, { input.surroundings with orderCreatedEmitted := true }⟩

structure Serial where
  engine : Engine
  answered : List (Input × Bool)

def Serial.step (serial : Serial) (input : Input) : Serial :=
  let reply := serial.engine.step input.announced
  { engine := reply.engine
    answered := serial.answered ++ [(input, reply.response.success)] }

def runSerial (balances positions : Accounts String) (inputs : List Input) :
    Serial :=
  runFrom Serial.step ⟨Engine.seeded balances positions, []⟩ inputs

/-- The commands an interleaving begins. -/
def commandsOf (events : List SectionEvent) : List Input :=
  events.filterMap fun
    | .begin input => some input
    | .finish _ => none

/-- The same commands one after the other, in some order, give the same answers
and leave the same state. -/
def Serializable (balances positions : Accounts String)
    (events : List SectionEvent) : Prop :=
  ∃ inputs, inputs.Perm (commandsOf events) ∧
    (runSerial balances positions inputs).engine =
      (runInterleaved balances positions events).engine ∧
    (runSerial balances positions inputs).answered.Perm
      (runInterleaved balances positions events).answered

/-- A section touches neither the table entry of an order nor the account it
reserves on. -/
def Footprint.Avoids (footprint : Footprint) (order : Order) : Prop :=
  order.id ∉ footprint.orders ∧
    (order.side = .sideBuy → order.userID ∉ footprint.users) ∧
    (order.side = .sideSell → order.positionKey ∉ footprint.keys)

instance (footprint : Footprint) (order : Order) :
    Decidable (footprint.Avoids order) :=
  inferInstanceAs (Decidable (_ ∧ _ ∧ _))

/-- A section avoids every order that waits between its two sections, but for
its own. -/
def Interleaved.Apart (state : Interleaved) : SectionEvent → Prop
  | .begin input => ∀ command ∈ state.pending,
      (state.engine.beginFootprint input).Avoids command.2
  | .finish orderID => orderID ∈ state.waiting →
      ∀ command ∈ state.pending, command.2.id ≠ orderID →
        (state.engine.finishFootprint orderID).Avoids command.2

instance (state : Interleaved) (event : SectionEvent) :
    Decidable (state.Apart event) :=
  match event with
  | .begin input => inferInstanceAs (Decidable (∀ command ∈ state.pending,
      (state.engine.beginFootprint input).Avoids command.2))
  | .finish orderID => inferInstanceAs (Decidable (orderID ∈ state.waiting →
      ∀ command ∈ state.pending, command.2.id ≠ orderID →
        (state.engine.finishFootprint orderID).Avoids command.2))

/-! What a waiting order has reserved. -/

def unreserved (pending : List (Input × Order)) : Region where
  orders := fun id => ∀ command ∈ pending, ¬ command.2.own.orders id
  events := fun eventID =>
    ∀ command ∈ pending, ¬ command.2.own.events eventID
  users := fun userID => ∀ command ∈ pending, ¬ command.2.own.users userID
  keys := fun key => ∀ command ∈ pending, ¬ command.2.own.keys key

theorem Footprint.Avoids.inside {footprint : Footprint}
    {pending : List (Input × Order)}
    (avoids : ∀ command ∈ pending, footprint.Avoids command.2) :
    footprint.Inside (unreserved pending) where
  orders := by
    rintro id member command isPending rfl
    exact (avoids command isPending).1 member
  events := fun _ _ _ _ impossible => impossible
  users := by
    rintro userID member command isPending ⟨side, rfl⟩
    exact (avoids command isPending).2.1 side member
  keys := by
    rintro key member command isPending ⟨side, rfl⟩
    exact (avoids command isPending).2.2 side member

private theorem own_sub_outside {pending : List (Input × Order)}
    {command : Input × Order} (member : command ∈ pending) :
    command.2.own.Sub (unreserved pending).outside where
  orders := fun own free => free command member own
  events := fun own free => free command member own
  users := fun own free => free command member own
  keys := fun own free => free command member own

private theorem Order.own_apart {order other : Order}
    (avoids : order.footprint.Avoids other) :
    other.own.Sub order.own.outside where
  orders := by
    rintro id rfl same
    exact avoids.1 (List.mem_singleton.mpr same)
  events := False.elim
  users := by
    rintro userID ⟨otherSide, rfl⟩ ⟨side, same⟩
    apply avoids.2.1 otherSide
    simp only [Order.footprint, side]
    exact List.mem_singleton.mpr same
  keys := by
    rintro key ⟨otherSide, rfl⟩ ⟨side, same⟩
    apply avoids.2.2 otherSide
    simp only [Order.footprint, side]
    exact List.mem_singleton.mpr same

/-- A command waits with an order that the serial state has not seen: the
interleaved state has what the serial one would have after registering it. -/
def Held (serial engine : Engine) (command : Input × Order) : Prop :=
  ∃ order, command.1.order? = some order ∧
    command.2 = serial.registered order ∧
    serial.orders.lookup order.id = none ∧ serial.Affords order ∧
    (serial.enrolled order).SameOn order.own engine

theorem Held.frame {serial engine laterSerial laterEngine : Engine}
    {command : Input × Order} (held : Held serial engine command)
    (serialKept : serial.SameOn command.2.own laterSerial)
    (engineKept : engine.SameOn command.2.own laterEngine) :
    Held laterSerial laterEngine command := by
  obtain ⟨order, submitted, registered, fresh, affords, enrolled⟩ := held
  have own : command.2.own = order.own := by
    rw [registered]
    rfl
  rw [own] at serialKept engineKept
  have reserves := order.reservesIn_own
  refine ⟨order, submitted, ?_, ?_, ?_, ?_⟩
  · rw [registered, Engine.registered, Engine.registered,
      serialKept.lockFor reserves]
  · rw [← serialKept.orders order.id rfl]
    exact fresh
  · exact (serialKept.affords reserves).mp affords
  · exact ((serialKept.symm.enrolled rfl reserves).trans enrolled).trans
      engineKept

/-- The interleaved state is the serial one with the waiting orders registered
on top of it. -/
structure Overlay (pending : List (Input × Order)) (serial engine : Engine) :
    Prop where
  elsewhere : serial.SameOn (unreserved pending) engine
  held : ∀ command ∈ pending, Held serial engine command
  apart : ∀ command ∈ pending, ∀ other ∈ pending,
    command.2.id ≠ other.2.id → command.2.own.Sub other.2.own.outside

namespace Overlay

variable {pending : List (Input × Order)} {serial engine : Engine}

theorem change (overlay : Overlay pending serial engine)
    {change : Engine → Engine}
    (isLocal : LocalTo (unreserved pending) change) :
    Overlay pending (change serial) (change engine) where
  elsewhere := isLocal.inside overlay.elsewhere
  held := by
    intro command member
    have own := own_sub_outside member
    exact (overlay.held command member).frame
      ((isLocal.frame serial).mono own) ((isLocal.frame engine).mono own)
  apart := overlay.apart

private theorem register (overlay : Overlay pending serial engine)
    {input : Input}
    {order : Order} (submitted : input.order? = some order)
    (fresh : engine.orders.lookup order.id = none)
    (affords : engine.Affords order)
    (avoids : ∀ command ∈ pending, order.footprint.Avoids command.2) :
    Overlay (pending ++ [(input, engine.registered order)]) serial
      (engine.enrolled order) where
  elsewhere := by
    have kept : engine.SameOn
        (unreserved (pending ++ [(input, engine.registered order)]))
        (engine.enrolled order) := by
      apply (enrolled_frame engine order).mono
      have new : (input, engine.registered order) ∈
          pending ++ [(input, engine.registered order)] := by simp
      exact ⟨fun free own => free _ new own, fun free own => free _ new own,
        fun free own => free _ new own, fun free own => free _ new own⟩
    apply (overlay.elsewhere.mono _).trans kept
    exact ⟨fun free command member => free command (by simp [member]),
      fun free command member => free command (by simp [member]),
      fun free command member => free command (by simp [member]),
      fun free command member => free command (by simp [member])⟩
  held := by
    intro command member
    rcases List.mem_append.mp member with old | new
    · apply (overlay.held command old).frame (.refl _ serial)
      exact (enrolled_frame engine order).mono
        (Order.own_apart (avoids command old))
    · rw [List.mem_singleton.mp new]
      have own : order.own.Sub (unreserved pending) :=
        ⟨fun own command member =>
            (Order.own_apart (avoids command member)).outside_comm.orders own,
          fun own command member =>
            (Order.own_apart (avoids command member)).outside_comm.events own,
          fun own command member =>
            (Order.own_apart (avoids command member)).outside_comm.users own,
          fun own command member =>
            (Order.own_apart (avoids command member)).outside_comm.keys own⟩
      have same := (overlay.elsewhere.mono own).symm
      have reserves := order.reservesIn_own
      refine ⟨order, submitted, ?_, ?_, ?_, ?_⟩
      · rw [Engine.registered, Engine.registered, same.lockFor reserves]
      · rw [← same.orders order.id rfl]
        exact fresh
      · exact (same.affords reserves).mp affords
      · exact same.symm.enrolled rfl reserves
  apart := by
    intro command member other otherMember different
    rcases List.mem_append.mp member with old | new
    · rcases List.mem_append.mp otherMember with otherOld | otherNew
      · exact overlay.apart command old other otherOld different
      · rw [List.mem_singleton.mp otherNew]
        exact Order.own_apart (avoids command old)
    · rcases List.mem_append.mp otherMember with otherOld | otherNew
      · rw [List.mem_singleton.mp new]
        exact (Order.own_apart (avoids other otherOld)).outside_comm
      · rw [List.mem_singleton.mp new, List.mem_singleton.mp otherNew]
          at different
        exact absurd rfl different

/-- The serial state catches up with one waiting order. -/
theorem catchUp (overlay : Overlay pending serial engine)
    {command : Input × Order} (member : command ∈ pending)
    (gone : command.2.id ∉ (pending.erase command).map (·.2.id))
    {order : Order} (registered : command.2 = serial.registered order)
    (enrolled : (serial.enrolled order).SameOn order.own engine) :
    Overlay (pending.erase command) (serial.enrolled order) engine := by
  have own : command.2.own = order.own := by
    rw [registered]
    rfl
  have others : ∀ other ∈ pending.erase command,
      other.2.own.Sub order.own.outside := by
    intro other isOther
    rw [← own]
    apply overlay.apart other (List.mem_of_mem_erase isOther) command member
    intro same
    exact gone (List.mem_map.mpr ⟨other, isOther, same⟩)
  refine ⟨enrolled.cover ?_, ?_, ?_⟩
  · apply ((enrolled_frame serial order).symm.mono ?_).trans
      (overlay.elsewhere.mono ?_)
    · exact ⟨And.right, And.right, And.right, And.right⟩
    · have free : ∀ {holds : Region → Prop},
          (∀ other ∈ pending.erase command, ¬ holds other.2.own) ∧
            ¬ holds order.own →
          ∀ other ∈ pending, ¬ holds other.2.own := by
        intro holds both other isOther
        by_cases same : other = command
        · rw [same, own]
          exact both.2
        · exact both.1 other ((List.mem_erase_of_ne same).mpr isOther)
      exact ⟨@fun id => @free (·.orders id),
        @fun eventID => @free (·.events eventID),
        @fun userID => @free (·.users userID), @fun key => @free (·.keys key)⟩
  · intro other isOther
    apply (overlay.held other (List.mem_of_mem_erase isOther)).frame _
      (.refl _ engine)
    exact (enrolled_frame serial order).mono (others other isOther)
  · intro first isFirst second isSecond
    exact overlay.apart first (List.mem_of_mem_erase isFirst) second
      (List.mem_of_mem_erase isSecond)

end Overlay

/-! The serial step. -/

private theorem beginCommand_announced (engine : Engine) (input : Input) :
    beginCommand engine input.announced = beginCommand engine input := by
  obtain ⟨command, surroundings⟩ := input
  cases command with
  | createOrder payload =>
      cases payload with
      | none => rfl
      | some req => rfl
  | _ => rfl

private theorem step_of_answered {engine : Engine} {input : Input}
    {response : EngineResponse}
    (answered : (beginCommand engine input).2 = .answered response) :
    (engine.step input.announced).engine = (beginCommand engine input).1 ∧
      (engine.step input.announced).response = response := by
  have beginning := beginCommand_beginning engine input.announced
  rw [beginCommand_announced] at beginning
  generalize beginCommand engine input = result at beginning answered ⊢
  cases beginning with
  | answered unadmitted =>
      cases answered
      exact ⟨rfl, rfl⟩
  | registered order => contradiction

private theorem step_of_registered {engine : Engine} {input : Input}
    {order : Order}
    {market : Market} (submitted : input.order? = some order)
    (fresh : engine.orders.lookup order.id = none)
    (hasMarket : engine.markets.lookup order.eventID = some market)
    (affords : engine.Affords order) :
    engine.step input.announced =
      announceAndMatch (engine.enrolled order) (engine.registered order)
        true := by
  have submittedToo : input.announced.order? = some order := submitted
  have beginning := beginCommand_beginning engine input.announced
  generalize beginCommand engine input.announced = result at beginning
  cases beginning with
  | answered unadmitted =>
      rw [admitted?_eq submittedToo fresh hasMarket affords] at unadmitted
      contradiction
  | registered other _ otherSubmitted _ _ _ completed =>
      rw [submittedToo] at otherSubmitted
      cases otherSubmitted
      exact completed

/-! Whole interleavings. -/

/-- A serial execution of the completed commands explains the state. -/
structure Interleaved.ExplainedBy (state : Interleaved) (serial : Serial) :
    Prop where
  orderly : state.Orderly
  tidy : Tidy serial.engine fun _ => False
  overlay : Overlay state.pending serial.engine state.engine
  answered : serial.answered = state.answered

namespace Interleaved

variable {state : Interleaved} {serial : Serial}

private theorem explained_answered (explained : state.ExplainedBy serial)
    {input : Input} (apart : state.Apart (.begin input))
    {response : EngineResponse}
    (begun : (beginCommand state.engine input).2 = .answered response) :
    (state.begin input).ExplainedBy (serial.step input) := by
  have orderly := orderly_begin explained.orderly input
  obtain ⟨change, isLocal, engineIs, serialIs, alike⟩ := beginCommand_local
    explained.overlay.elsewhere.symm explained.orderly.tidy.keyed
    (Footprint.Avoids.inside apart)
  rw [begun] at alike
  cases serialBegun : (beginCommand serial.engine input).2 with
  | registered order =>
      rw [serialBegun] at alike
      contradiction
  | answered serialResponse =>
      rw [serialBegun] at alike
      obtain ⟨stepEngine, stepResponse⟩ := step_of_answered serialBegun
      have tidy := tidy_begin explained.tidy input
      rw [begin_of_answered begun] at orderly ⊢
      refine ⟨orderly, ?_, ?_, ?_⟩
      · simp only [Serial.step, stepEngine]
        apply tidy.waitsFor
        intro id impossible
        exact .inl impossible
      · simp only [Serial.step, stepEngine, engineIs, serialIs]
        exact explained.overlay.change isLocal
      · simp only [Serial.step, stepResponse, explained.answered]
        rw [show serialResponse.success = response.success from alike.symm]

/-- A registered order is a command that the serial execution has not come to
yet. -/
theorem explained_registered (explained : state.ExplainedBy serial)
    {input : Input} (apart : state.Apart (.begin input)) {order : Order}
    (begun : (beginCommand state.engine input).2 = .registered order) :
    (state.begin input).ExplainedBy serial := by
  have orderly := orderly_begin explained.orderly input
  rw [begin_of_registered begun] at orderly ⊢
  refine ⟨orderly, explained.tidy, ?_, explained.answered⟩
  have beginning := beginCommand_beginning state.engine input
  generalize beginCommand state.engine input = result at begun beginning ⊢
  cases beginning with
  | answered unadmitted => contradiction
  | registered submitted market isSubmitted fresh hasMarket affords _ =>
      cases begun
      apply explained.overlay.register isSubmitted fresh affords
      intro command member
      have avoids := apart command member
      rw [beginFootprint_submitted isSubmitted] at avoids
      exact avoids

private theorem explained_market (explained : state.ExplainedBy serial)
    {order : Order}
    (enrolled : (serial.engine.enrolled order).SameOn order.own
      state.engine) :
    ∃ market, serial.engine.markets.lookup order.eventID = some market := by
  have present : state.engine.orders.lookup order.id =
      some (serial.engine.registered order) := by
    rw [← enrolled.orders order.id rfl, lookup_enrolled, if_pos rfl]
  have everywhere : (unreserved state.pending).events order.eventID :=
    fun _ _ impossible => impossible
  rw [explained.overlay.elsewhere.markets order.eventID everywhere]
  have hasMarket := explained.orderly.tidy.hasMarket present
  exact hasMarket

private theorem explained_finish (explained : state.ExplainedBy serial)
    {orderID : String} (apart : state.Apart (.finish orderID))
    {command : Input × Order} (found : state.waiting? orderID = some command) :
    (state.finish orderID).ExplainedBy (serial.step command.1) := by
  have orderly := orderly_finish explained.orderly orderID
  obtain ⟨member, ownID⟩ := waiting?_spec found
  have gone := (finish_waiting found explained.orderly.distinct).2
  rw [(finish_engine found).2.2, ← ownID] at gone
  have different : ∀ other ∈ state.pending.erase command,
      other.2.id ≠ command.2.id :=
    fun other isOther same => gone (List.mem_map.mpr ⟨other, isOther, same⟩)
  obtain ⟨order, submitted, registered, fresh, affords, enrolled⟩ :=
    explained.overlay.held command member
  have sameID : command.2.id = order.id := by
    rw [registered]
    rfl
  obtain ⟨market, hasMarket⟩ := explained_market explained enrolled
  have stepped := step_of_registered submitted fresh hasMarket affords
  have caught := explained.overlay.catchUp member gone registered enrolled
  have serialTidy := tidy_enrolled explained.tidy
    (Input.order?_submitted submitted) fresh hasMarket
  have inside : (state.engine.finishFootprint order.id).Inside
      (unreserved (state.pending.erase command)) := by
    apply Footprint.Avoids.inside
    intro other isOther
    rw [← sameID, ownID]
    apply apart (mem_waiting found) other (List.mem_of_mem_erase isOther)
    rw [← ownID]
    exact different other isOther
  have waits : order.id ∈ state.waiting := by
    rw [← sameID, ownID]
    exact mem_waiting found
  obtain ⟨change, isLocal, engineIs, serialIs, _⟩ := matchOrder_local
    caught.elsewhere.symm explained.orderly.tidy serialTidy waits (.inr rfl)
    inside
  have overlay := caught.change isLocal
  rw [← engineIs, ← serialIs] at overlay
  have answers :
      (matchOrder (serial.engine.enrolled order) order.id).1.acceptedResponse
        order.id =
      (matchOrder state.engine order.id).1.acceptedResponse order.id := by
    have free : (unreserved (state.pending.erase command)).orders order.id :=
      fun other isOther same =>
        different other isOther (same.symm.trans sameID.symm)
    simp only [Engine.acceptedResponse, overlay.elsewhere.orders order.id free]
  simp only [Interleaved.finish, found, announceAndMatch, if_true, sameID]
    at orderly ⊢
  refine ⟨orderly, ?_, ?_, ?_⟩
  · simp only [Serial.step, stepped]
    exact tidy_matchOrder serialTidy (.inr rfl) False.elim not_false
  · simp only [Serial.step, stepped]
    exact overlay
  · simp only [Serial.step, stepped, announceAndMatch, if_true,
      explained.answered]
    exact congrArg (fun response : EngineResponse =>
      state.answered ++ [(command.1, response.success)]) answers

private theorem finish_answered {orderID : String} {command : Input × Order}
    (found : state.waiting? orderID = some command) :
    ∃ success, (state.finish orderID).answered =
      state.answered ++ [(command.1, success)] := by
  simp only [Interleaved.finish, found]
  exact ⟨_, rfl⟩

end Interleaved

/-- The serial execution of the commands that an interleaving has answered, in
the order of the answers. -/
def Interleaved.inTurn (state : Interleaved)
    (balances positions : Accounts String) : Serial :=
  runSerial balances positions (state.answered.map Prod.fst)

private theorem runSerial_append (balances positions : Accounts String)
    (inputs : List Input) (input : Input) :
    runSerial balances positions (inputs ++ [input]) =
      (runSerial balances positions inputs).step input :=
  runFrom_append _ _ _ _

theorem explained_step {balances positions : Accounts String}
    {state : Interleaved} {event : SectionEvent}
    (explained : state.ExplainedBy (state.inTurn balances positions))
    (apart : state.Apart event) :
    (state.step event).ExplainedBy
      ((state.step event).inTurn balances positions) := by
  have next : ∀ {later : Interleaved} {input success},
      later.answered = state.answered ++ [(input, success)] →
        later.inTurn balances positions =
          (state.inTurn balances positions).step input := by
    intro later input success answered
    simp only [Interleaved.inTurn, answered, List.map_append]
    exact runSerial_append balances positions _ input
  cases event with
  | begin input =>
      change (state.begin input).ExplainedBy
        ((state.begin input).inTurn balances positions)
      cases begun : (beginCommand state.engine input).2 with
      | answered response =>
          rw [next (by rw [Interleaved.begin_of_answered begun])]
          exact Interleaved.explained_answered explained apart begun
      | registered order =>
          have still : (state.begin input).inTurn balances positions =
              state.inTurn balances positions := by
            rw [Interleaved.begin_of_registered begun]
            rfl
          rw [still]
          exact Interleaved.explained_registered explained apart begun
  | finish orderID =>
      change (state.finish orderID).ExplainedBy
        ((state.finish orderID).inTurn balances positions)
      cases found : state.waiting? orderID with
      | none =>
          simp only [Interleaved.finish, found]
          exact explained
      | some command =>
          obtain ⟨success, answered⟩ := Interleaved.finish_answered found
          rw [next answered]
          exact Interleaved.explained_finish explained apart found

theorem explained_start (balances positions : Accounts String) :
    (Interleaved.start (Engine.seeded balances positions)).ExplainedBy
      ((Interleaved.start (Engine.seeded balances positions)).inTurn balances
        positions) where
  orderly := orderly_seeded balances positions
  tidy := tidy_seeded balances positions
  overlay := ⟨.refl _ _, by simp [Interleaved.start],
    by simp [Interleaved.start]⟩
  answered := rfl

/-! No command is lost. -/

theorem commands_step (state : Interleaved) (event : SectionEvent) :
    ((state.step event).answered.map Prod.fst ++
        (state.step event).pending.map Prod.fst).Perm
      (state.answered.map Prod.fst ++ state.pending.map Prod.fst ++
        commandsOf [event]) := by
  cases event with
  | begin input =>
      change ((state.begin input).answered.map Prod.fst ++
        (state.begin input).pending.map Prod.fst).Perm _
      cases begun : (beginCommand state.engine input).2 with
      | answered response =>
          rw [Interleaved.begin_of_answered begun, List.map_append,
            List.append_assoc, List.append_assoc]
          exact List.perm_append_comm.append_left _
      | registered order =>
          rw [Interleaved.begin_of_registered begun]
          simp [commandsOf]
  | finish orderID =>
      change ((state.finish orderID).answered.map Prod.fst ++
        (state.finish orderID).pending.map Prod.fst).Perm _
      cases found : state.waiting? orderID with
      | none => simp [Interleaved.finish, found, commandsOf]
      | some command =>
          obtain ⟨member, _⟩ := Interleaved.waiting?_spec found
          have pending := ((List.perm_cons_erase member).map Prod.fst).symm
          simp only [Interleaved.finish, found, List.map_append, commandsOf,
            List.filterMap_cons, List.filterMap_nil, List.append_nil,
            List.append_assoc]
          exact pending.append_left _

theorem commands_run (state : Interleaved) (events : List SectionEvent) :
    ((state.run events).answered.map Prod.fst ++
        (state.run events).pending.map Prod.fst).Perm
      (state.answered.map Prod.fst ++ state.pending.map Prod.fst ++
        commandsOf events) := by
  induction events generalizing state with
  | nil => simp [Interleaved.run, runFrom, commandsOf]
  | cons event events induction =>
      have split : commandsOf (event :: events) =
          commandsOf [event] ++ commandsOf events :=
        List.filterMap_append (l := [event])
      rw [split, ← List.append_assoc]
      exact (induction (state.step event)).trans
        ((commands_step state event).append_right _)

private theorem Engine.eq_of_sameOn {left right : Engine}
    (same : left.SameOn (unreserved []) right) : left = right := by
  apply Engine.ext
  · exact Finmap.ext_lookup fun eventID => same.markets eventID (by
      intro _ impossible
      contradiction)
  · exact Finmap.ext_lookup fun id => same.orders id (by
      intro _ impossible
      contradiction)
  · exact Finmap.ext_lookup fun userID => same.balances userID (by
      intro _ impossible
      contradiction)
  · exact Finmap.ext_lookup fun key => same.positions key (by
      intro _ impossible
      contradiction)

/-- If no section touches what an order has reserved while it waits, the
commands are serializable: they could have run in the order in which they were
answered. -/
theorem serializable_of_apart (balances positions : Accounts String)
    {events : List SectionEvent}
    (apart : Along Interleaved.step Interleaved.Apart
      (Interleaved.start (Engine.seeded balances positions)) events)
    (complete : (runInterleaved balances positions events).pending = []) :
    Serializable balances positions events := by
  have explained := invariant_runFrom
    (fun state : Interleaved =>
      state.ExplainedBy (state.inTurn balances positions))
    (fun _ _ explained apart => explained_step explained apart)
    (explained_start balances positions) apart
  have commands := commands_run
    (Interleaved.start (Engine.seeded balances positions)) events
  change (runInterleaved balances positions events).ExplainedBy
    ((runInterleaved balances positions events).inTurn balances positions)
    at explained
  change ((runInterleaved balances positions events).answered.map Prod.fst ++
    (runInterleaved balances positions events).pending.map Prod.fst).Perm
      (commandsOf events) at commands
  have overlay := explained.overlay
  rw [complete] at commands overlay
  rw [List.map_nil, List.append_nil] at commands
  exact ⟨_, commands, Engine.eq_of_sameOn overlay.elsewhere,
    .of_eq explained.answered⟩

/-- The two sections of an order enclose those of another user's. -/
theorem serializable_enclosed :
    Serializable ∅ ∅
      [.begin (.createEvent "e"), .begin ⟨.userCreated (some "u"), "", true⟩,
        .begin ⟨.userCreated (some "v"), "", true⟩,
        .begin (.submit "o" "e" "u" "MARKET" "YES" "BUY" 2 3),
        .begin (.submit "p" "e" "v" "LIMIT" "YES" "BUY" 2 3), .finish "p",
        .finish "o"] :=
  serializable_of_apart ∅ ∅ (by decide) (by decide)

/-- A MARKET order is canceled between its two sections. One after the other,
the cancel would come before the order is known or after it is closed. -/
theorem canceled_notSerializable :
    ¬ Serializable ∅ ∅
      [.begin (.createEvent "e"),
        .begin (.submit "o" "e" "u" "MARKET" "YES" "BUY" 2 3),
        .begin (.cancel "o"), .finish "o"] := by
  rintro ⟨inputs, commands, _, answered⟩
  have inOneOf : ∀ inputs ∈ (commandsOf
      [.begin (.createEvent "e"),
        .begin (.submit "o" "e" "u" "MARKET" "YES" "BUY" 2 3),
        .begin (.cancel "o"), .finish "o"]).permutations',
      ¬ (runSerial ∅ ∅ inputs).answered.Perm (runInterleaved ∅ ∅
        [.begin (.createEvent "e"),
          .begin (.submit "o" "e" "u" "MARKET" "YES" "BUY" 2 3),
          .begin (.cancel "o"), .finish "o"]).answered := by
    decide
  exact inOneOf inputs (List.mem_permutations'.mpr commands) answered

end Predix
