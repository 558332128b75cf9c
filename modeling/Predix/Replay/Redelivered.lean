import Predix.Replay.Effective

namespace Predix

open Data Word

/-! A command that was answered with success has nothing left to do. -/

/-- The order a command is about is registered, or closed. -/
def Engine.HasDone (engine : Engine) : Command → Prop
  | .createOrder (some req) => engine.orders.lookup req.orderID ≠ none
  | .cancelOrder (some req) => ∃ order,
      engine.orders.lookup req.orderID = some order ∧
        order.status.live = false
  | _ => True

private theorem Engine.Grows.hasDone {old new : Engine} (grows : old.Grows new)
    {command : Command} (done : old.HasDone command) :
    new.HasDone command := by
  match command, done with
  | .createOrder (some req), done =>
      obtain ⟨order, present⟩ := Option.ne_none_iff_exists'.mp done
      obtain ⟨later, laterPresent, _⟩ := grows.orders present
      change new.orders.lookup req.orderID ≠ none
      rw [laterPresent]
      simp
  | .cancelOrder (some req), done =>
      obtain ⟨order, present, closed⟩ := done
      obtain ⟨later, laterPresent, stays⟩ := grows.orders present
      exact ⟨later, laterPresent, stays closed⟩
  | .createOrder none, _ => trivial
  | .cancelOrder none, _ => trivial
  | .createEvent _, _ => trivial
  | .userCreated _, _ => trivial
  | .getDepth _, _ => trivial
  | .getOpenOrders _, _ => trivial
  | .unknown _, _ => trivial

private theorem Engine.HasDone.ignores {engine : Engine} {command : Command}
    (done : engine.HasDone command) (ownID : command.HasOwnID) :
    engine.Ignores command := by
  match command, done, ownID with
  | .createOrder (some req), done, ownID =>
      simp only [Engine.Ignores]
      split
      · trivial
      · exact .inl ⟨ownID, done⟩
  | .cancelOrder (some req), done, _ =>
      obtain ⟨order, present, closed⟩ := done
      simp only [Engine.Ignores, present]
      exact .inr (.inr closed)
  | .createOrder none, _, _ => trivial
  | .cancelOrder none, _, _ => trivial
  | .createEvent _, _, _ => trivial
  | .userCreated _, _, _ => trivial
  | .getDepth _, _, _ => trivial
  | .getOpenOrders _, _, _ => trivial
  | .unknown _, _, _ => trivial

/-! Success means that it has been done. -/

section Success

variable {engine : Engine} {surroundings : Surroundings}

private theorem present_of_success {orderID : String}
    (success : (engine.acceptedResponse orderID).success = true) :
    engine.orders.lookup orderID ≠ none := by
  intro absent
  rw [Engine.acceptedResponse, absent] at success
  contradiction

private theorem hasDone_createOrder {payload : Option CreateOrderPayload}
    (ownID : (Command.createOrder payload).HasOwnID)
    (success : (handleCreateOrder engine surroundings payload).response.success
      = true) :
    (handleCreateOrder engine surroundings payload).engine.HasDone
      (.createOrder payload) := by
  cases payload with
  | none => trivial
  | some req =>
      change req.orderID ≠ "" at ownID
      change (handleCreateOrder engine surroundings
        (some req)).engine.orders.lookup req.orderID ≠ none
      unfold handleCreateOrder at success ⊢
      simp only [if_neg ownID] at success ⊢
      split at success
      · contradiction
      · rename_i positive
        rw [if_neg positive]
        cases valid : validateOrder req.orderID req with
        | error message =>
            simp only [valid] at success
            contradiction
        | ok order =>
            have registering := registerOrder_registering engine order
            simp only [valid] at success ⊢
            rw [← (validateOrder_submitted valid).2.1]
            generalize registerOrder engine order = result
              at registering success ⊢
            cases registering with
            | duplicate existing present => simp [Reply.unchanged, present]
            | noMarket _ _ => contradiction
            | short _ _ _ _ _ => contradiction
            | registered market _ _ _ =>
                simp only [announceAndMatch] at success ⊢
                split at success
                · rename_i emitted
                  rw [if_pos emitted]
                  exact present_of_success success
                · contradiction

private theorem hasDone_cancelOrder (wellFormed : WellFormed engine)
    {payload : Option CancelOrderPayload}
    (success : (handleCancelOrder engine payload).response.success = true) :
    (handleCancelOrder engine payload).engine.HasDone
      (.cancelOrder payload) := by
  cases payload with
  | none => trivial
  | some req =>
      simp only [handleCancelOrder] at success ⊢
      split at success
      · contradiction
      rename_i named
      rw [if_neg named]
      cases present : engine.orders.lookup req.orderID with
      | none =>
          simp only [present] at success
          contradiction
      | some order =>
          simp only [present] at success ⊢
          split at success
          · contradiction
          rename_i belongs
          rw [if_neg belongs]
          split at success
          · contradiction
          rename_i live
          rw [if_neg live]
          split at success
          · contradiction
          rename_i market hasMarket
          have ownID := wellFormed.keyed _ _ present
          refine ⟨order.canceled.released, ?_, ?_⟩
          · rw [lookup_cancel_released, if_pos ownID.symm]
          · rw [Order.released_status]
            rfl

private theorem hasDone_of_success (wellFormed : WellFormed engine)
    {command : Command} (ownID : command.HasOwnID)
    (success : (engine.step ⟨command, surroundings⟩).response.success =
      true) :
    (engine.step ⟨command, surroundings⟩).engine.HasDone command := by
  cases command with
  | createOrder payload => exact hasDone_createOrder ownID success
  | cancelOrder payload => exact hasDone_cancelOrder wellFormed success
  | createEvent _ => trivial
  | userCreated _ => trivial
  | getDepth _ => trivial
  | getOpenOrders _ => trivial
  | unknown _ => trivial

end Success

/-! Logs with a command twice in them. -/

section Log

variable {history : History} {inputs : List Input}

theorem grows_run (wellFormed : WellFormed history.engine)
    (emitted : ∀ input ∈ inputs,
      input.surroundings.orderCreatedEmitted = true) :
    history.engine.Grows (history.run inputs).engine :=
  @grows_runFrom History Input History.step
    (fun history => WellFormed history.engine)
    (fun input => input.surroundings.orderCreatedEmitted = true)
    (fun old new => old.engine.Grows new.engine)
    (fun history => Engine.Grows.refl history.engine)
    (fun left right => Engine.Grows.trans left right)
    (fun wellFormed _ => wellFormed_step wellFormed _)
    (fun wellFormed _ => grows_step wellFormed _) history inputs
    wellFormed emitted

private theorem run_engine_congr {first second : History}
    (same : first.engine = second.engine) (inputs : List Input) :
    (first.run inputs).engine = (second.run inputs).engine := by
  induction inputs generalizing first second with
  | nil => exact same
  | cons input inputs induction =>
      apply induction
      simp only [History.step, same]

end Log

/-- A second copy of a command that was answered with success changes nothing,
wherever in the log it arrives. -/
theorem redelivered_harmless (balances positions : Accounts String)
    (before between after : List Input) (command : Command)
    (first second : Surroundings) (ownID : command.HasOwnID)
    (emitted : ∀ input ∈ before ++ [⟨command, first⟩] ++ between ++
        [⟨command, second⟩] ++ after,
      input.surroundings.orderCreatedEmitted = true)
    (success : ((runSeeded balances positions before).engine.step
      ⟨command, first⟩).response.success = true) :
    (runSeeded balances positions (before ++ [⟨command, first⟩] ++ between ++
        [⟨command, second⟩] ++ after)).engine =
      (runSeeded balances positions (before ++ [⟨command, first⟩] ++ between ++
        after)).engine := by
  have splits : ∀ inputs more : List Input,
      runSeeded balances positions (inputs ++ more) =
        (runSeeded balances positions inputs).run more :=
    fun inputs more => runFrom_append History.step _ inputs more
  have wellFormed : WellFormed (runSeeded balances positions before).engine :=
    wellFormed_runSeeded balances positions before
  rw [splits _ after, splits _ after, splits _ [⟨command, second⟩]]
  apply run_engine_congr
  rw [splits _ between, splits before]
  generalize runSeeded balances positions before = history
    at wellFormed success ⊢
  obtain ⟨newUUID, announced⟩ := first
  have isAnnounced : announced = true :=
    emitted ⟨command, newUUID, announced⟩ (by simp)
  subst isAnnounced
  have done := hasDone_of_success wellFormed ownID success
  have known := knows_applyCommand history.engine newUUID command
  rw [applyCommand_eq] at known
  have grows : (history.step ⟨command, newUUID, true⟩).engine.Grows
      ((history.step ⟨command, newUUID, true⟩).run between).engine := by
    apply grows_run (wellFormed_step wellFormed _)
    intro input member
    exact emitted input (by simp [member])
  obtain ⟨response, same⟩ := step_of_ignored second
    ((grows.hasDone done).ignores ownID) (grows.knows known)
  exact congrArg Reply.engine same

/-- The order has been canceled by the time its command arrives again. -/
theorem redelivered_canceled :
    (runSeeded ∅ ∅
      (([.createEvent "e", ⟨.userCreated (some "u"), "", true⟩] :
          List Input) ++
        [.submit "o" "e" "u" "LIMIT" "YES" "BUY" 2 3] ++ [.cancel "o"] ++
        [.submit "o" "e" "u" "LIMIT" "YES" "BUY" 2 3] ++
        [.submit "p" "e" "u" "LIMIT" "YES" "BUY" 1 3])).engine =
      (runSeeded ∅ ∅
        (([.createEvent "e", ⟨.userCreated (some "u"), "", true⟩] :
            List Input) ++
          [.submit "o" "e" "u" "LIMIT" "YES" "BUY" 2 3] ++ [.cancel "o"] ++
          [.submit "p" "e" "u" "LIMIT" "YES" "BUY" 1 3])).engine :=
  redelivered_harmless ∅ ∅
    [.createEvent "e", ⟨.userCreated (some "u"), "", true⟩] [.cancel "o"]
    [.submit "p" "e" "u" "LIMIT" "YES" "BUY" 1 3]
    (Input.submit "o" "e" "u" "LIMIT" "YES" "BUY" 2 3).command ⟨"", true⟩
    ⟨"", true⟩ (by decide) (by decide) (by decide)

end Predix
