import Predix.Replay.Growth

namespace Predix

open Data Word

/-! Rebuilding the engine from the command stream. -/

/-- Re-execute one command envelope. An envelope without a type is skipped.
Emission is suppressed, so announcing an order succeeds. -/
def applyCommand (engine : Engine) (newUUID : String) (command : Command) :
    Engine :=
  if command = .unknown "" then
    engine
  else
    (handleMessage engine ⟨newUUID, true⟩ command).engine

/-- One pass over a stream entry. The command is `none` when the entry holds
no readable envelope. The id is the one this pass draws for an order that
comes without any. -/
structure Execution where
  command : Option Command
  newUUID : String
  deriving DecidableEq, Repr

def Execution.apply (engine : Engine) (execution : Execution) : Engine :=
  match execution.command with
  | none => engine
  | some command => applyCommand engine execution.newUUID command

def replayCommandLog (engine : Engine) (entries : List Execution) : Engine :=
  runFrom Execution.apply engine entries

def Execution.of (input : Input) : Execution :=
  ⟨some input.command, ""⟩

theorem applyCommand_eq (engine : Engine) (newUUID : String)
    (command : Command) :
    applyCommand engine newUUID command =
      (engine.step ⟨command, ⟨newUUID, true⟩⟩).engine := by
  unfold applyCommand
  split
  · rename_i untyped
    subst untyped
    rfl
  · rfl

theorem wellFormed_apply {engine : Engine} (wellFormed : WellFormed engine)
    (execution : Execution) : WellFormed (execution.apply engine) := by
  unfold Execution.apply
  split
  · exact wellFormed
  · rw [applyCommand_eq]
    exact wellFormed_step wellFormed _

theorem grows_apply {engine : Engine} (wellFormed : WellFormed engine)
    (execution : Execution) : engine.Grows (execution.apply engine) := by
  unfold Execution.apply
  split
  · exact .refl engine
  · rw [applyCommand_eq]
    exact grows_step wellFormed _

private theorem apply_of_grows_back {engine : Engine}
    (wellFormed : WellFormed engine) {execution : Execution}
    (back : (execution.apply engine).Grows engine) :
    execution.apply engine = engine := by
  unfold Execution.apply at back ⊢
  split at back
  · rfl
  · rw [applyCommand_eq] at back ⊢
    exact step_of_grows_back wellFormed rfl back

theorem wellFormed_replay {engine : Engine} (wellFormed : WellFormed engine)
    (entries : List Execution) :
    WellFormed (replayCommandLog engine entries) :=
  always_runFrom WellFormed
    (fun _ execution wellFormed => wellFormed_apply wellFormed execution)
    wellFormed entries

private theorem grows_replay {engine : Engine} (wellFormed : WellFormed engine)
    (entries : List Execution) :
    engine.Grows (replayCommandLog engine entries) :=
  grows_runFrom WellFormed (fun _ => True) Engine.Grows.refl .trans
    (fun wellFormed _ => wellFormed_apply wellFormed _)
    (fun wellFormed _ => grows_apply wellFormed _) wellFormed
    fun _ _ => trivial

private theorem replay_eq_self_iff {engine : Engine}
    (wellFormed : WellFormed engine)
    (entries : List Execution) :
    replayCommandLog engine entries = engine ↔
      ∀ execution ∈ entries, execution.apply engine = engine :=
  runFrom_eq_self_iff WellFormed (fun _ => True) Engine.Grows.refl .trans
    (fun wellFormed _ => wellFormed_apply wellFormed _)
    (fun wellFormed _ => grows_apply wellFormed _)
    (fun wellFormed _ back => apply_of_grows_back wellFormed back) wellFormed
    fun _ _ => trivial

/-! Commands that are done once and for all. -/

/-- A re-execution of a command finds nothing to do. -/
def Engine.Ignores (engine : Engine) : Command → Prop
  | .createOrder (some req) =>
      match validateOrder req.orderID req with
      | .error _ => True
      | .ok order =>
          req.orderID ≠ "" ∧ engine.orders.lookup req.orderID ≠ none ∨
            engine.markets.lookup req.eventID = none ∨
            ¬ engine.Affords order ∧ engine.HasEntry order
  | .cancelOrder (some req) =>
      match engine.orders.lookup req.orderID with
      | none => True
      | some order =>
          req.orderID = "" ∨
            req.eventID ≠ "" ∧ order.eventID ≠ req.eventID ∨
            order.status.live = false
  | _ => True

private theorem validateOrder_id (orderID other : String)
    (req : CreateOrderPayload) :
    validateOrder other req =
      (validateOrder orderID req).map fun order =>
        { order with id := other } := by
  unfold validateOrder
  split
  · rfl
  split
  · rfl
  split
  · rfl
  cases Side.parse req.side with
  | none => rfl
  | some side =>
      cases Outcome.parse req.outcome with
      | none => rfl
      | some outcome =>
          cases OrderType.parse req.orderType with
          | none => rfl
          | some orderType =>
              simp only
              split <;> rfl

def CreateOrderPayload.idOr (req : CreateOrderPayload) (newUUID : String) :
    String :=
  if req.orderID = "" then newUUID else req.orderID

section Ignored

variable {engine : Engine} {surroundings : Surroundings}

theorem order?_eq_some_iff {req : CreateOrderPayload} {found : Order} :
    Input.order? ⟨.createOrder (some req), surroundings⟩ = some found ↔
      ∃ order, validateOrder req.orderID req = .ok order ∧
        { order with id := req.idOr surroundings.newUUID } = found := by
  have moved := validateOrder_id req.orderID
    (req.idOr surroundings.newUUID) req
  change (validateOrder (req.idOr surroundings.newUUID) req).toOption =
    some found ↔ _
  rw [moved]
  cases validateOrder req.orderID req with
  | error message => simp [Except.map, Except.toOption]
  | ok order => simp [Except.map, Except.toOption]

private theorem Engine.Ignores.order {req : CreateOrderPayload}
    (ignored : engine.Ignores (.createOrder (some req))) {found : Order}
    (submitted : Input.order? ⟨.createOrder (some req), surroundings⟩ =
      some found) :
    engine.orders.lookup found.id ≠ none ∨
      engine.markets.lookup found.eventID = none ∨
      ¬ engine.Affords found ∧ engine.HasEntry found := by
  obtain ⟨order, valid, rfl⟩ := order?_eq_some_iff.mp submitted
  simp only [Engine.Ignores, valid] at ignored
  rcases ignored with ⟨ownID, registered⟩ | noMarket | refused
  · left
    change engine.orders.lookup (req.idOr surroundings.newUUID) ≠ none
    rw [CreateOrderPayload.idOr, if_neg ownID]
    exact registered
  · right
    left
    change engine.markets.lookup order.eventID = none
    rw [(validateOrder_submitted valid).2.2.1]
    exact noMarket
  · exact .inr (.inr refused)

variable (surroundings) in
private theorem ignores_of_order {req : CreateOrderPayload}
    (fresh : engine.orders.lookup surroundings.newUUID = none)
    (each : ∀ found, Input.order?
        ⟨.createOrder (some req), surroundings⟩ = some found →
      engine.orders.lookup found.id ≠ none ∨
        engine.markets.lookup found.eventID = none ∨
        ¬ engine.Affords found ∧ engine.HasEntry found) :
    engine.Ignores (.createOrder (some req)) := by
  cases valid : validateOrder req.orderID req with
  | error message => simp only [Engine.Ignores, valid]
  | ok order =>
      simp only [Engine.Ignores, valid]
      rcases each _ (order?_eq_some_iff.mpr ⟨order, valid, rfl⟩) with
        registered | noMarket | refused
      · left
        change engine.orders.lookup (req.idOr surroundings.newUUID) ≠ none
          at registered
        by_cases noID : req.orderID = ""
        · rw [CreateOrderPayload.idOr, if_pos noID] at registered
          contradiction
        · rw [CreateOrderPayload.idOr, if_neg noID] at registered
          exact ⟨noID, registered⟩
      · right
        left
        change engine.markets.lookup order.eventID = none at noMarket
        rw [(validateOrder_submitted valid).2.2.1] at noMarket
        exact noMarket
      · exact .inr (.inr refused)

variable (surroundings) in
theorem ignores_cancel_iff {req : CancelOrderPayload} :
    engine.Ignores (.cancelOrder (some req)) ↔
      engine.canceled? ⟨.cancelOrder (some req), surroundings⟩ = none := by
  simp only [Engine.Ignores, Engine.canceled?]
  cases engine.orders.lookup req.orderID with
  | none => simp
  | some order =>
      simp only [ite_eq_right_iff]
      constructor
      · rintro (noID | foreign | closed) ⟨ownID, belongs, live⟩
        · exact absurd noID ownID
        · rcases belongs with anyEvent | sameEvent
          · exact absurd anyEvent foreign.1
          · exact absurd sameEvent foreign.2
        · rw [live] at closed
          contradiction
      · intro none
        by_contra refused
        simp only [not_or, not_and_or, not_not, Bool.not_eq_false] at refused
        exact absurd (none ⟨refused.1, refused.2.1, refused.2.2⟩) (by simp)

/-- Events and users that a command wants to exist do. -/
def Engine.Knows (engine : Engine) : Command → Prop
  | .createEvent (some eventID) =>
      eventID = "" ∨ engine.markets.lookup eventID ≠ none
  | .userCreated (some userID) =>
      userID = "" ∨ engine.balances.lookup userID ≠ none
  | _ => True

variable (surroundings) in
theorem step_of_ignored {command : Command}
    (ignored : engine.Ignores command) (known : engine.Knows command) :
    ∃ response,
      engine.step ⟨command, surroundings⟩ = .unchanged engine response := by
  have effect := step_effect engine ⟨command, surroundings⟩
  generalize engine.step ⟨command, surroundings⟩ = reply at effect ⊢
  have submits : ∀ order, Input.order? ⟨command, surroundings⟩ =
      some order → ∃ req, command = .createOrder (some req) := by
    intro order submitted
    unfold Input.order? at submitted
    split at submitted
    · rename_i req is
      exact ⟨req, is⟩
    · contradiction
  have notAdmitted : ∀ order market,
      Input.order? ⟨command, surroundings⟩ = some order →
        engine.orders.lookup order.id = none →
          engine.markets.lookup order.eventID = some market →
            ¬ engine.Affords order := by
    intro order market submitted fresh hasMarket
    obtain ⟨req, rfl⟩ := submits order submitted
    rcases ignored.order submitted with registered | noMarket | refused
    · exact absurd fresh registered
    · rw [noMarket] at hasMarket
      contradiction
    · exact refused.1
  cases effect with
  | unchanged response _ _ => exact ⟨response, rfl⟩
  | opened order message submitted fresh hasMarket short =>
      obtain ⟨req, rfl⟩ := submits order submitted
      rcases ignored.order submitted with registered | noMarket | refused
      · exact absurd fresh registered
      · rw [noMarket] at hasMarket
        contradiction
      · rw [opened_of_entry refused.2]
        exact ⟨_, rfl⟩
  | dropped order market submitted fresh hasMarket affords _ =>
      exact absurd affords (notAdmitted order market submitted fresh hasMarket)
  | accepted order market submitted fresh hasMarket affords _ =>
      exact absurd affords (notAdmitted order market submitted fresh hasMarket)
  | canceled req order market requested _ _ _ chosen =>
      change command = _ at requested
      subst requested
      rw [(ignores_cancel_iff _).mp ignored] at chosen
      contradiction
  | marketCreated eventID requested absent named =>
      change command = _ at requested
      subst requested
      rcases known with noID | present
      · exact absurd noID named
      · exact absurd absent present
  | userFunded userID requested absent named =>
      change command = _ at requested
      subst requested
      rcases known with noID | present
      · exact absurd noID named
      · exact absurd absent present

theorem applyCommand_of_ignored {command : Command}
    (ignored : engine.Ignores command) (known : engine.Knows command)
    (newUUID : String) : applyCommand engine newUUID command = engine := by
  obtain ⟨response, same⟩ := step_of_ignored ⟨newUUID, true⟩ ignored known
  rw [applyCommand_eq, same]
  rfl

section Unmoved

variable (wellFormed : WellFormed engine) {newUUID : String}
  (fresh : engine.orders.lookup newUUID = none)

include wellFormed

include fresh in
private theorem ignored_of_createOrder {req : CreateOrderPayload}
    (same : (engine.step
      ⟨.createOrder (some req), ⟨newUUID, true⟩⟩).engine = engine) :
    engine.Ignores (.createOrder (some req)) := by
  apply ignores_of_order ⟨newUUID, true⟩ fresh
  intro found submitted
  have effect := step_effect engine ⟨.createOrder (some req), ⟨newUUID, true⟩⟩
  generalize engine.step _ = reply at effect same
  cases effect with
  | unchanged response _ idle =>
      rcases idle found submitted with registered | noMarket
      · exact .inl registered
      · exact .inr (.inl noMarket)
  | opened order message orderSubmitted _ _ short =>
      rw [submitted] at orderSubmitted
      cases orderSubmitted
      change engine.opened found = engine at same
      refine .inr (.inr ⟨short, entry_of_keptIn ?_ ?_⟩) <;> rw [same]
      · exact .refl _
      · exact .refl _
  | dropped order market _ _ _ _ lost => contradiction
  | accepted order market orderSubmitted orderFresh hasMarket _ _ =>
      have valid := Input.order?_submitted orderSubmitted
      rw [announceAndMatch_enrolled wellFormed valid orderFresh hasMarket]
        at same
      obtain ⟨lock, registered⟩ :=
        lookup_matched_taker wellFormed valid orderFresh hasMarket
      change engine.matched order market = engine at same
      rw [same, orderFresh] at registered
      contradiction
  | canceled _ _ _ requested _ _ _ _ => cases requested
  | marketCreated _ requested _ _ => cases requested
  | userFunded _ requested _ _ => cases requested

private theorem ignored_of_cancelOrder {req : CancelOrderPayload}
    (same : (engine.step
      ⟨.cancelOrder (some req), ⟨newUUID, true⟩⟩).engine = engine) :
    engine.Ignores (.cancelOrder (some req)) := by
  rw [ignores_cancel_iff ⟨newUUID, true⟩]
  have effect := step_effect engine ⟨.cancelOrder (some req), ⟨newUUID, true⟩⟩
  generalize engine.step _ = reply at effect same
  cases effect with
  | unchanged response _ idle =>
      cases chosen : engine.canceled?
          ⟨.cancelOrder (some req), ⟨newUUID, true⟩⟩ with
      | none => rfl
      | some order =>
          obtain ⟨present, _⟩ := canceled?_spec wellFormed chosen
          obtain ⟨market, hasMarket⟩ := wellFormed.hasMarket present
          rw [idle order chosen] at hasMarket
          contradiction
  | canceled _ order market _ present live _ _ =>
      have ownID := wellFormed.keyed _ _ present
      rw [← ownID] at present
      change engine.cancel market order = engine at same
      obtain ⟨lock, lookedUp⟩ := lookup_cancel engine order market order.id
      rw [same, present, if_pos rfl] at lookedUp
      have closed : order.status = .statusCanceled :=
        congrArg Order.status (Option.some.inj lookedUp)
      rw [closed] at live
      contradiction
  | opened _ _ submitted _ _ _ => contradiction
  | dropped _ _ _ _ _ _ lost => contradiction
  | accepted _ _ submitted _ _ _ _ => contradiction
  | marketCreated _ requested _ _ => cases requested
  | userFunded _ requested _ _ => cases requested

include fresh in
private theorem ignored_of_applyCommand {command : Command}
    (same : applyCommand engine newUUID command = engine) :
    engine.Ignores command := by
  rw [applyCommand_eq] at same
  match command, same with
  | .createOrder none, _ => trivial
  | .createOrder (some req), same =>
      exact ignored_of_createOrder wellFormed fresh same
  | .cancelOrder none, _ => trivial
  | .cancelOrder (some req), same =>
      exact ignored_of_cancelOrder wellFormed same
  | .getDepth _, _ => trivial
  | .getOpenOrders _, _ => trivial
  | .createEvent _, _ => trivial
  | .userCreated _, _ => trivial
  | .unknown _, _ => trivial

end Unmoved

end Ignored

/-! Replaying a log over a state it has produced. -/

theorem Engine.Grows.knows {old new : Engine} (grows : old.Grows new)
    {command : Command} (known : old.Knows command) : new.Knows command := by
  match command, known with
  | .createEvent (some eventID), known =>
      rcases known with noID | present
      · exact .inl noID
      · exact .inr fun absent => present (grows.markets absent)
  | .userCreated (some userID), known =>
      rcases known with noID | present
      · exact .inl noID
      · exact .inr fun absent => present (grows.balances userID absent)
  | .createEvent none, _ => trivial
  | .userCreated none, _ => trivial
  | .createOrder _, _ => trivial
  | .cancelOrder _, _ => trivial
  | .getDepth _, _ => trivial
  | .getOpenOrders _, _ => trivial
  | .unknown _, _ => trivial

theorem knows_applyCommand (engine : Engine) (newUUID : String)
    (command : Command) :
    (applyCommand engine newUUID command).Knows command := by
  rw [applyCommand_eq]
  match command with
  | .createEvent (some eventID) =>
      simp only [Engine.step, handleMessage, handleCreateEvent]
      by_cases noID : eventID = ""
      · exact .inl noID
      · right
        rw [if_neg noID]
        cases present : engine.markets.lookup eventID with
        | none => simp [Reply.unchanged]
        | some market => simp [Reply.unchanged, present]
  | .userCreated (some userID) =>
      simp only [Engine.step, handleMessage, handleUserCreated]
      by_cases noID : userID = ""
      · exact .inl noID
      · right
        rw [if_neg noID]
        cases present : engine.balances.lookup userID with
        | none => simp [Reply.unchanged]
        | some balance => simp [Reply.unchanged, present]
  | .createEvent none => trivial
  | .userCreated none => trivial
  | .createOrder _ => trivial
  | .cancelOrder _ => trivial
  | .getDepth _ => trivial
  | .getOpenOrders _ => trivial
  | .unknown _ => trivial

private theorem knows_replay {entries : List Execution} {command : Command}
    {newUUID : String} (member : ⟨some command, newUUID⟩ ∈ entries)
    {engine : Engine} (wellFormed : WellFormed engine) :
    (replayCommandLog engine entries).Knows command := by
  obtain ⟨before, after, rfl⟩ := List.append_of_mem member
  have split : replayCommandLog engine
      (before ++ ⟨some command, newUUID⟩ :: after) =
        replayCommandLog (applyCommand (replayCommandLog engine before)
          newUUID command) after :=
    runFrom_append Execution.apply engine before _
  have executed : WellFormed
      (applyCommand (replayCommandLog engine before) newUUID command) :=
    wellFormed_apply (wellFormed_replay wellFormed before)
      ⟨some command, newUUID⟩
  rw [split]
  exact (grows_replay executed after).knows (knows_applyCommand _ _ _)

/-- Another pass over the same stream entries, with ids nobody has drawn. -/
structure Repeats (engine : Engine) (first again : List Execution) :
    Prop where
  commands : again.map Execution.command = first.map Execution.command
  fresh : ∀ execution ∈ again,
    engine.orders.lookup execution.newUUID = none

/-- Every log that starts with given entries can be replayed over the state
they have produced exactly when that state ignores each of their commands. -/
theorem replay_onto_prefix_iff (first : List Execution) :
    (∀ again, Repeats (replayCommandLog newEngine first) first again →
      ∀ rest,
        replayCommandLog (replayCommandLog newEngine first) (again ++ rest) =
          replayCommandLog newEngine (first ++ rest)) ↔
      ∀ execution ∈ first, ∀ command ∈ execution.command,
        (replayCommandLog newEngine first).Ignores command := by
  have wellFormed : WellFormed (replayCommandLog newEngine first) :=
    wellFormed_replay (wellFormed_seeded ∅ ∅) first
  have once : ∀ rest, replayCommandLog newEngine (first ++ rest) =
      replayCommandLog (replayCommandLog newEngine first) rest :=
    runFrom_append Execution.apply newEngine first
  constructor
  · -- repeat the entries with a generated id that no order has
    intro same execution member command isCommand
    obtain ⟨newUUID, fresh⟩ := Infinite.exists_notMem_finset
      (replayCommandLog newEngine first).orders.keys
    rw [Finmap.mem_keys, ← Finmap.lookup_eq_none] at fresh
    have repeats : Repeats (replayCommandLog newEngine first) first
        (first.map fun execution => ⟨execution.command, newUUID⟩) := by
      constructor
      case commands => rw [List.map_map]; rfl
      case fresh =>
        intro other otherMember
        obtain ⟨old, _, rfl⟩ := List.mem_map.mp otherMember
        exact fresh
    have back := same _ repeats []
    rw [List.append_nil, List.append_nil, replay_eq_self_iff wellFormed] at back
    have unchanged := back _ (List.mem_map_of_mem member)
    rw [Option.mem_def.mp isCommand] at unchanged
    exact ignored_of_applyCommand wellFormed fresh unchanged
  · intro ignored again repeats rest
    have back : replayCommandLog (replayCommandLog newEngine first) again =
        replayCommandLog newEngine first := by
      rw [replay_eq_self_iff wellFormed]
      intro execution member
      have entry : execution.command ∈ first.map Execution.command := by
        rw [← repeats.commands]
        exact List.mem_map_of_mem member
      obtain ⟨old, oldMember, sameCommand⟩ := List.mem_map.mp entry
      unfold Execution.apply
      cases isCommand : execution.command with
      | none => rfl
      | some command =>
          rw [isCommand] at sameCommand
          have oldEntry : ⟨some command, old.newUUID⟩ ∈ first := by
            rw [← sameCommand]
            exact oldMember
          exact applyCommand_of_ignored
            (ignored old oldMember command sameCommand)
            (knows_replay oldEntry (wellFormed_seeded ∅ ∅)) _
    have split : replayCommandLog (replayCommandLog newEngine first)
        (again ++ rest) =
          replayCommandLog (replayCommandLog (replayCommandLog newEngine
            first) again) rest :=
      runFrom_append Execution.apply _ again rest
    rw [split, back, once]

/-- A BUY is refused while another one holds all the cash of its user, who then
cancels the other. -/
def refusedLog : List Execution :=
  [⟨some (.userCreated (some "b")), ""⟩, .of (.createEvent "e"),
    .of (.submit "o1" "e" "b" "LIMIT" "YES" "BUY" 200 5000),
    .of (.submit "o2" "e" "b" "LIMIT" "YES" "BUY" 100 5000),
    .of (.cancel "o1")]

/-- Replaying the log over its own result accepts the refused order. -/
theorem replay_acceptsRefused :
    (replayCommandLog newEngine refusedLog).orders.lookup "o2" = none ∧
      (replayCommandLog (replayCommandLog newEngine refusedLog)
        refusedLog).orders.lookup "o2" ≠ none ∧
      replayCommandLog (replayCommandLog newEngine refusedLog) refusedLog ≠
        replayCommandLog newEngine refusedLog := by
  have once : (replayCommandLog newEngine refusedLog).orders.lookup "o2" =
      none := by
    decide
  have twice : (replayCommandLog (replayCommandLog newEngine refusedLog)
      refusedLog).orders.lookup "o2" ≠ none := by
    decide
  refine ⟨once, twice, fun same => ?_⟩
  rw [same] at twice
  exact twice once

end Predix
