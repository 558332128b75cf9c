import Predix.Replay.Redelivered

namespace Predix

open Data Word

/-! Live processing of a command log, compared with a replay of it. -/

/-- A stream entry processed live. Its emissions are made in order, the
announcement of an order or of a cancellation first and then the trades; each
succeeds or fails. -/
structure LiveExecution where
  command : Option Command
  newUUID : String
  emitted : Nat → Bool

/-- The command with what it meets. Only the announcement of an order is waited
for: `handleCancelOrderP` and `matchOrder` log a failed emission and go on. -/
def LiveExecution.input (live : LiveExecution) (command : Command) : Input :=
  ⟨command, live.newUUID, live.emitted 0⟩

/-- `processStreamEntry`. An entry without an envelope, or with an envelope
without a type, is only acknowledged. -/
def History.process (history : History) (live : LiveExecution) : History :=
  match live.command with
  | none => history
  | some command =>
      if command = .unknown "" then history
      else history.step (live.input command)

def processLive (log : List LiveExecution) : History :=
  runFrom History.process (History.start newEngine) log

/-- A replay of the same entries, which draws ids of its own. -/
def replayOf (log : List LiveExecution) (newUUIDs : Nat → String) : Engine :=
  replayCommandLog newEngine
    (log.mapIdx fun position live => ⟨live.command, newUUIDs position⟩)

/-- Orders come with ids, and an order that gets past its reservation is
announced. -/
def History.Announces (history : History) (live : LiveExecution) : Prop :=
  ∀ command ∈ live.command, command.HasOwnID ∧
    ∀ order ∈ history.engine.admitted? (live.input command),
      live.emitted 0 = true

instance (history : History) (live : LiveExecution) :
    Decidable (history.Announces live) :=
  inferInstanceAs (Decidable (∀ command ∈ live.command, _ ∧ _))

private theorem process_eq_apply {history : History} {live : LiveExecution}
    (announces : history.Announces live) (newUUID : String) :
    (history.process live).engine =
      Execution.apply history.engine ⟨live.command, newUUID⟩ := by
  unfold History.process Execution.apply
  cases isCommand : live.command with
  | none => rfl
  | some command =>
      obtain ⟨ownID, announced⟩ := announces command isCommand
      simp only [applyCommand_eq]
      split
      · rename_i untyped
        rw [untyped]
        rfl
      · rw [step_redrawn ownID history.engine newUUID live.newUUID true]
        change (history.engine.step
          ⟨command, live.newUUID, live.emitted 0⟩).engine = _
        cases admitted : history.engine.admitted? (live.input command) with
        | none => rw [step_unadmitted admitted]
        | some order => rw [announced order admitted]

theorem live_eq_replay {log : List LiveExecution} {history : History}
    (announces : Along History.process History.Announces history log)
    (newUUIDs : Nat → String) :
    (runFrom History.process history log).engine =
      replayCommandLog history.engine
        (log.mapIdx fun position live =>
          ⟨live.command, newUUIDs position⟩) := by
  induction log generalizing history newUUIDs with
  | nil => rfl
  | cons live log induction =>
      rw [List.mapIdx_cons]
      change (runFrom History.process (history.process live) log).engine =
        replayCommandLog (Execution.apply history.engine
          ⟨live.command, newUUIDs 0⟩) _
      rw [← process_eq_apply announces.1 (newUUIDs 0)]
      exact induction announces.2 fun position => newUUIDs (position + 1)

/-! Every registered order has been answered with success. -/

structure History.Answered (history : History) : Prop where
  wellFormed : WellFormed history.engine
  accepted : ∀ {id order}, history.engine.orders.lookup id = some order →
    id ∈ history.accepted

private theorem accepted_of_new {engine : Engine}
    (wellFormed : WellFormed engine)
    {input : Input} {id : String} {found : Order}
    (fresh : engine.orders.lookup id = none)
    (present : (engine.step input).engine.orders.lookup id = some found) :
    (engine.step input).response.accepted? = some id := by
  have keyed := (wellFormed_step wellFormed input).keyed _ _ present
  have covered := events_cover_orders wellFormed input present
  have effect := step_effect engine input
  generalize engine.step input = reply at effect present covered ⊢
  rcases covered with ⟨old, oldPresent⟩ | ⟨created, announced, rfl⟩
  · rw [fresh] at oldPresent
    contradiction
  cases effect with
  | accepted order market _ _ _ _ _ =>
      have own : created = engine.registered order := by
        simpa [announceAndMatch] using announced
      subst own
      simp only [announceAndMatch, if_true] at present ⊢
      change (Engine.acceptedResponse _ order.id).accepted? = some order.id
      change Finmap.lookup order.id _ = _ at present
      simp only [Engine.acceptedResponse, present, EngineResponse.accepted?,
        keyed]
      rfl
  | dropped order market _ _ _ _ _ =>
      rw [frozen_orders, fresh] at present
      contradiction
  | unchanged _ _ _ => contradiction
  | opened _ _ _ _ _ _ => contradiction
  | canceled _ _ _ _ _ _ _ _ => simp at announced
  | marketCreated _ _ _ => contradiction
  | userFunded _ _ _ => contradiction

theorem answered_step {history : History} (answered : history.Answered)
    (input : Input) : (history.step input).Answered where
  wellFormed := wellFormed_step answered.wellFormed input
  accepted := by
    intro id found present
    change id ∈ history.accepted ++
      (history.engine.step input).response.accepted?.toList
    cases old : history.engine.orders.lookup id with
    | some before => exact List.mem_append_left _ (answered.accepted old)
    | none =>
        rw [accepted_of_new answered.wellFormed old present]
        exact List.mem_append_right _ (List.mem_singleton_self id)

private theorem answered_processLive (log : List LiveExecution) :
    (processLive log).Answered := by
  apply always_runFrom History.Answered
  · intro history live answered
    unfold History.process
    split
    · exact answered
    · split
      · exact answered
      · exact answered_step answered _
  · exact ⟨wellFormed_seeded ∅ ∅, fun present => by contradiction⟩

/-- If orders come with ids and every one that gets past its reservation is
announced, a replay ends where live processing did, whatever becomes of the
other emissions, and has no order that was not answered with success. -/
theorem live_agrees_replay (log : List LiveExecution)
    (newUUIDs : Nat → String)
    (announces : Along History.process History.Announces
      (History.start newEngine) log) :
    (processLive log).engine.Agrees (replayOf log newUUIDs) ∧
      ∀ id order, (replayOf log newUUIDs).orders.lookup id = some order →
        id ∈ (processLive log).accepted := by
  have same : (processLive log).engine = replayOf log newUUIDs :=
    live_eq_replay announces newUUIDs
  rw [← same]
  refine ⟨⟨rfl, rfl, fun _ => rfl, fun _ => rfl⟩, fun id order present => ?_⟩
  exact (answered_processLive log).accepted present

def orderLog (announced : Bool) : List LiveExecution :=
  [⟨some (.createEvent (some "e")), "", fun _ => true⟩,
    ⟨some (.userCreated (some "u")), "", fun _ => true⟩,
    ⟨some (Input.submit "o" "e" "u" "LIMIT" "YES" "BUY" 2 3).command, "",
      fun _ => announced⟩]

/-- The order is announced, and then canceled; that the emission of the
cancellation fails makes no difference. -/
def canceledLog : List LiveExecution :=
  orderLog true ++ [⟨some (Input.cancel "o").command, "", fun _ => false⟩]

theorem agrees_announced :
    (processLive canceledLog).engine.Agrees
        (replayOf canceledLog fun _ => "") ∧
      ∀ id order,
        (replayOf canceledLog fun _ => "").orders.lookup id = some order →
          id ∈ (processLive canceledLog).accepted :=
  live_agrees_replay _ _ (by decide)

/-- An order whose announcement failed is answered with failure, and is back
after a restart. -/
theorem replay_resurrectsFailed :
    ¬ (processLive (orderLog false)).engine.Agrees
      (replayOf (orderLog false) fun _ => "") := by
  intro agrees
  have orders := congrArg (Finmap.lookup "o") agrees.orders
  revert orders
  decide

end Predix
