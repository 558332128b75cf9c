import Predix.Replay.Log

namespace Predix

open Data Word

/-! Which commands of a log do something, and what they announce. -/

def Command.HasOwnID : Command → Prop
  | .createOrder (some req) => req.orderID ≠ ""
  | _ => True

instance (command : Command) : Decidable command.HasOwnID := by
  unfold Command.HasOwnID
  split <;> infer_instance

/-- Without a generated id every execution of a command does the same. -/
theorem step_redrawn {command : Command} (ownID : command.HasOwnID)
    (engine : Engine) (first second : String) (emitted : Bool) :
    engine.step ⟨command, ⟨first, emitted⟩⟩ =
      engine.step ⟨command, ⟨second, emitted⟩⟩ := by
  match command, ownID with
  | .createOrder (some req), ownID =>
      change req.orderID ≠ "" at ownID
      simp only [Engine.step, handleMessage, handleCreateOrder, if_neg ownID]
  | .createOrder none, _ => rfl
  | .cancelOrder _, _ => rfl
  | .getDepth _, _ => rfl
  | .getOpenOrders _, _ => rfl
  | .createEvent _, _ => rfl
  | .userCreated _, _ => rfl
  | .unknown _, _ => rfl

theorem step_unadmitted {engine : Engine} {command : Command}
    {newUUID : String} {emitted : Bool}
    (none : engine.admitted? ⟨command, ⟨newUUID, emitted⟩⟩ = none) :
    engine.step ⟨command, ⟨newUUID, emitted⟩⟩ =
      engine.step ⟨command, ⟨newUUID, true⟩⟩ := by
  match command, none with
  | .createOrder (some req), none =>
      simp only [Engine.step, handleMessage, handleCreateOrder]
      split
      · rfl
      cases valid : validateOrder
          (if req.orderID = "" then newUUID else req.orderID) req with
      | error message => rfl
      | ok order =>
          have submitted : Input.order?
              ⟨.createOrder (some req), ⟨newUUID, emitted⟩⟩ = some order := by
            simp only [Input.order?, valid]
            rfl
          have registering := registerOrder_registering engine order
          simp only
          generalize registerOrder engine order = result at registering ⊢
          cases registering with
          | duplicate existing present => rfl
          | noMarket fresh absent => rfl
          | short message market fresh hasMarket short => rfl
          | registered market fresh hasMarket affords =>
              rw [admitted?_eq submitted fresh hasMarket affords] at none
              contradiction
  | .createOrder .none, _ => rfl
  | .cancelOrder _, _ => rfl
  | .getDepth _, _ => rfl
  | .getOpenOrders _, _ => rfl
  | .createEvent _, _ => rfl
  | .userCreated _, _ => rfl
  | .unknown _, _ => rfl

/-! Leaving out what does nothing. -/

instance (engine : Engine) (order : Order) :
    Decidable (engine.HasEntry order) :=
  decidable_of_iff
    ((order.side = .sideBuy →
        (engine.balances.lookup order.userID).isSome = true) ∧
      (order.side = .sideSell →
        (engine.positions.lookup order.positionKey).isSome = true)) <| by
    unfold Engine.HasEntry
    cases order.side <;> simp [Option.isSome_iff_ne_none]

instance (engine : Engine) (command : Command) :
    Decidable (engine.Ignores command) := by
  unfold Engine.Ignores
  split
  · split <;> infer_instance
  · split <;> infer_instance
  · infer_instance

instance (engine : Engine) (command : Command) :
    Decidable (engine.Knows command) := by
  unfold Engine.Knows
  split <;> infer_instance

/-- The command has no effect in this state. -/
def Engine.Absorbs (engine : Engine) (command : Command) : Prop :=
  engine.Ignores command ∧ engine.Knows command

instance (engine : Engine) (command : Command) :
    Decidable (engine.Absorbs command) :=
  inferInstanceAs (Decidable (_ ∧ _))

/-- The commands of a log that have an effect when it is executed from a given
state. -/
def effective (engine : Engine) : List (Option Command) → List Command
  | [] => []
  | none :: entries => effective engine entries
  | some command :: entries =>
      if engine.Absorbs command then
        effective engine entries
      else
        command :: effective (applyCommand engine "" command) entries

def Execution.trades (engine : Engine) (execution : Execution) : List Trade :=
  match execution.command with
  | none => []
  | some command =>
      (engine.step ⟨command, ⟨execution.newUUID, true⟩⟩).trades

def replayTrades (engine : Engine) : List Execution → List Trade
  | [] => []
  | execution :: entries =>
      execution.trades engine ++ replayTrades (execution.apply engine) entries

theorem replayTrades_append (engine : Engine) (first second : List Execution) :
    replayTrades engine (first ++ second) =
      replayTrades engine first ++
        replayTrades (replayCommandLog engine first) second := by
  induction first generalizing engine with
  | nil => rfl
  | cons execution first induction =>
      change execution.trades engine ++
        replayTrades (execution.apply engine) (first ++ second) = _
      rw [induction, ← List.append_assoc]
      rfl

def Execution.plain (command : Command) : Execution :=
  ⟨some command, ""⟩

private theorem Execution.apply_plain {command : Command}
    (ownID : command.HasOwnID)
    (engine : Engine) (newUUID : String) :
    Execution.apply engine ⟨some command, newUUID⟩ =
      Execution.apply engine (.plain command) := by
  simp only [Execution.apply, Execution.plain, applyCommand_eq]
  rw [step_redrawn ownID engine newUUID "" true]

private theorem Execution.trades_plain {command : Command}
    (ownID : command.HasOwnID)
    (engine : Engine) (newUUID : String) :
    Execution.trades engine ⟨some command, newUUID⟩ =
      Execution.trades engine (.plain command) := by
  simp only [Execution.trades, Execution.plain]
  rw [step_redrawn ownID engine newUUID "" true]

private theorem Engine.Absorbs.trades {engine : Engine} {command : Command}
    (absorbs : engine.Absorbs command) (newUUID : String) :
    Execution.trades engine ⟨some command, newUUID⟩ = [] := by
  obtain ⟨response, same⟩ :=
    step_of_ignored ⟨newUUID, true⟩ absorbs.1 absorbs.2
  simp only [Execution.trades, same, Reply.unchanged]

theorem replay_effective {entries : List Execution}
    (ownIDs : ∀ execution ∈ entries, ∀ command ∈ execution.command,
      command.HasOwnID) (engine : Engine) :
    replayCommandLog engine entries =
        replayCommandLog engine ((effective engine
          (entries.map Execution.command)).map Execution.plain) ∧
      replayTrades engine entries =
        replayTrades engine ((effective engine
          (entries.map Execution.command)).map Execution.plain) := by
  induction entries generalizing engine with
  | nil => exact ⟨rfl, rfl⟩
  | cons execution entries induction =>
      have tail := induction fun later member =>
        ownIDs later (List.mem_cons_of_mem _ member)
      have own := ownIDs execution List.mem_cons_self
      obtain ⟨command, newUUID⟩ := execution
      cases command with
      | none => exact tail engine
      | some command =>
          have ownID := own command rfl
          change replayCommandLog (Execution.apply engine
              ⟨some command, newUUID⟩) entries = _ ∧
            Execution.trades engine ⟨some command, newUUID⟩ ++
              replayTrades (Execution.apply engine ⟨some command, newUUID⟩)
                entries = _
          rw [List.map_cons, effective]
          by_cases absorbs : engine.Absorbs command
          · have same : Execution.apply engine ⟨some command, newUUID⟩ =
                engine :=
              applyCommand_of_ignored absorbs.1 absorbs.2 newUUID
            rw [if_pos absorbs, same, absorbs.trades]
            exact tail engine
          · rw [if_neg absorbs, Execution.apply_plain ownID,
              Execution.trades_plain ownID, List.map_cons]
            obtain ⟨engines, trades⟩ := tail
              (Execution.apply engine (.plain command))
            refine ⟨engines, ?_⟩
            rw [trades]
            rfl

/-! What the events of a reply cover. -/

theorem events_cover_orders {engine : Engine} (wellFormed : WellFormed engine)
    (input : Input) {id : String} {found : Order}
    (present : (engine.step input).engine.orders.lookup id = some found) :
    (∃ old, engine.orders.lookup id = some old) ∨
      ∃ created, .orderCreated created ∈ (engine.step input).events ∧
        created.id = id := by
  have effect := step_effect engine input
  generalize engine.step input = reply at effect present ⊢
  cases effect with
  | unchanged response _ _ => exact .inl ⟨found, present⟩
  | opened order message _ _ _ _ =>
      simp only [Reply.unchanged, opened_orders] at present
      exact .inl ⟨found, present⟩
  | dropped order market _ _ _ _ _ =>
      simp only [frozen_orders] at present
      exact .inl ⟨found, present⟩
  | accepted order market submitted fresh hasMarket _ _ =>
      have valid := Input.order?_submitted submitted
      by_cases own : id = order.id
      · refine .inr ⟨engine.registered order, ?_, own.symm⟩
        simp [announceAndMatch]
      · rw [announceAndMatch_enrolled wellFormed valid fresh hasMarket]
          at present
        cases afterMatch wellFormed valid fresh hasMarket present with
        | resting _ => exact absurd rfl own
        | released _ => exact absurd rfl own
        | maker fill member =>
            exact .inl ⟨_, (fillsFor_maker wellFormed member).1⟩
        | other _ _ oldPresent => exact .inl ⟨_, oldPresent⟩
  | canceled req order market _ oldPresent _ _ _ =>
      have ownID := wellFormed.keyed _ _ oldPresent
      rw [← ownID] at oldPresent
      obtain ⟨lock, lookedUp⟩ := lookup_cancel engine order market id
      rw [lookedUp] at present
      split at present
      · rename_i same
        rw [same]
        exact .inl ⟨order, oldPresent⟩
      · exact .inl ⟨found, present⟩
  | marketCreated eventID _ _ => exact .inl ⟨found, present⟩
  | userFunded userID _ _ => exact .inl ⟨found, present⟩

theorem events_cover_trades (engine : Engine) (input : Input) {trade : Trade}
    (settled : trade ∈ (engine.step input).trades) :
    .tradeExecuted trade ∈ (engine.step input).events := by
  have effect := step_effect engine input
  generalize engine.step input = reply at effect settled ⊢
  cases effect with
  | accepted order market _ _ _ _ _ =>
      simp only [announceAndMatch, if_true] at settled ⊢
      exact List.mem_cons_of_mem _ (List.mem_map_of_mem settled)
  | unchanged _ _ _ => simp [Reply.unchanged] at settled
  | opened _ _ _ _ _ _ => simp [Reply.unchanged] at settled
  | dropped _ _ _ _ _ _ _ => simp at settled
  | canceled _ _ _ _ _ _ _ _ => simp at settled
  | marketCreated _ _ _ => simp [Reply.unchanged] at settled
  | userFunded _ _ _ => simp [Reply.unchanged] at settled

end Predix
