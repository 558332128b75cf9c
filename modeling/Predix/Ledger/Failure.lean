import Predix.Book.Step

namespace Predix

open Data Word

/-! Commands that are answered with failure. -/

theorem agrees_refl (engine : Engine) : engine.Agrees engine :=
  ⟨rfl, rfl, fun _ => rfl, fun _ => rfl⟩

private theorem agrees_opened (engine : Engine) (order : Order) :
    (engine.opened order).Agrees engine := by
  refine ⟨opened_markets engine order, opened_orders engine order, ?_, ?_⟩
  · intro userID
    unfold Engine.opened
    cases order.side with
    | sideSell => rfl
    | sideBuy =>
        rw [Engine.updateBalance, Accounts.account_update]
        split
        · rename_i same
          rw [same]
          rfl
        · rfl
  · intro key
    unfold Engine.opened
    cases order.side with
    | sideBuy => rfl
    | sideSell =>
        rw [Engine.updatePosition, Accounts.account_update]
        split
        · rename_i same
          rw [same]
          rfl
        · rfl

private theorem freeze_eq_self_iff {account : Account} {amount : Int64} :
    account.freeze amount = account ↔ amount = 0 := by
  constructor
  · intro same
    have available : account.available - amount = account.available :=
      congrArg Account.available same
    have sum : account.available - amount + amount = account.available :=
      Int64.sub_add_cancel _ _
    rw [available] at sum
    simpa using sum
  · rintro rfl
    simp [Account.freeze]

/-- A reservation is not seen exactly when it is of nothing. -/
theorem agrees_frozen_iff (engine : Engine) (order : Order) :
    (engine.frozen order).Agrees engine ↔ engine.lockFor order = 0 := by
  unfold Engine.frozen Engine.lockFor
  cases order.side with
  | sideBuy =>
      rw [← @freeze_eq_self_iff (engine.balances.account order.userID)]
      constructor
      · intro agrees
        have same := agrees.balances order.userID
        rwa [Engine.updateBalance, Accounts.account_update_self] at same
      · intro same
        refine ⟨rfl, rfl, ?_, fun _ => rfl⟩
        intro userID
        rw [Engine.updateBalance, Accounts.account_update]
        split
        · rename_i isUser
          rw [isUser, same]
        · rfl
  | sideSell =>
      rw [← @freeze_eq_self_iff (engine.positions.account order.positionKey)]
      constructor
      · intro agrees
        have same := agrees.positions order.positionKey
        rwa [Engine.updatePosition, Accounts.account_update_self] at same
      · intro same
        refine ⟨rfl, rfl, fun _ => rfl, ?_⟩
        intro key
        rw [Engine.updatePosition, Accounts.account_update]
        split
        · rename_i isKey
          rw [isKey, same]
        · rfl

/-- A command that gets an order past a reservation of something also gets it
announced. -/
def Engine.KeepsWord (engine : Engine) (input : Input) : Prop :=
  ∀ order ∈ engine.admitted? input, engine.lockFor order ≠ 0 →
    input.surroundings.orderCreatedEmitted = true

instance (engine : Engine) (input : Input) :
    Decidable (engine.KeepsWord input) :=
  inferInstanceAs (Decidable (∀ order ∈ engine.admitted? input, _))

private theorem keepsWord_of_none {engine : Engine} {input : Input}
    (none : engine.admitted? input = none) : engine.KeepsWord input := by
  intro order admitted
  rw [none] at admitted
  contradiction

private theorem step_agrees_iff {engine : Engine}
    (wellFormed : WellFormed engine)
    {input : Input} (failed : (engine.step input).response.success = false) :
    (engine.step input).engine.Agrees engine ↔ engine.KeepsWord input := by
  have effect := step_effect engine input
  generalize engine.step input = reply at effect failed
  cases effect with
  | unchanged response _ idle =>
      exact iff_of_true (agrees_refl engine)
        (keepsWord_of_none idle.admitted?)
  | opened order message submitted _ _ short =>
      refine iff_of_true (agrees_opened engine order) (keepsWord_of_none ?_)
      simp only [Engine.admitted?, submitted]
      exact if_neg fun passes => short passes.2.2
  | dropped order market submitted fresh hasMarket affords lost =>
      have admitted := admitted?_eq submitted fresh hasMarket affords
      refine (agrees_frozen_iff engine order).trans ?_
      constructor
      · intro nothing other isOther something
        rw [admitted] at isOther
        cases isOther
        exact absurd nothing something
      · intro keepsWord
        by_contra something
        have emitted := keepsWord order admitted something
        rw [lost] at emitted
        contradiction
  | accepted order market submitted fresh hasMarket affords announced =>
      have valid := Input.order?_submitted submitted
      rw [announceAndMatch_enrolled wellFormed valid fresh hasMarket] at failed
      have accepted := matched_accepted wellFormed valid fresh hasMarket
      dsimp only at failed
      cases response : (engine.matched order market).acceptedResponse
          order.id with
      | failure message =>
          rw [response] at accepted
          contradiction
      | successJSON data =>
          rw [response] at failed
          contradiction
  | canceled req order market _ present live hasMarket _ => contradiction
  | marketCreated eventID _ _ _ => contradiction
  | userFunded userID _ _ _ => contradiction

/-- A command that is answered with failure changes nothing, except that an
order whose announcement fails leaves its reservation behind. -/
theorem failedCommand_agrees_iff (balances positions : Accounts String)
    (inputs : List Input) (input : Input)
    (failed : ((runSeeded balances positions inputs).engine.step
      input).response.success = false) :
    ((runSeeded balances positions inputs).engine.step input).engine.Agrees
        (runSeeded balances positions inputs).engine ↔
      (runSeeded balances positions inputs).engine.KeepsWord input := by
  have wellFormed : WellFormed (runSeeded balances positions inputs).engine :=
    wellFormed_runSeeded balances positions inputs
  exact step_agrees_iff wellFormed failed

/-- An order for more than its owner has. -/
theorem failedCommand_tooExpensive :
    ((runSeeded ∅ ∅ [.createEvent "e", ⟨.userCreated (some "u"), "", true⟩]
      ).engine.step (.submit "o" "e" "u" "LIMIT" "YES" "BUY" 200 9000)
        ).engine.Agrees
      (runSeeded ∅ ∅
        [.createEvent "e", ⟨.userCreated (some "u"), "", true⟩]).engine :=
  (failedCommand_agrees_iff ∅ ∅ _ _ (by decide)).mpr (by decide)

/-- The order is answered with failure, and what it has reserved stays
frozen. -/
theorem lostAnnouncement_keepsReservation :
    ∃ inputs input,
      ((runSeeded ∅ ∅ inputs).engine.step input).response.success = false ∧
      ¬ ((runSeeded ∅ ∅ inputs).engine.step input).engine.Agrees
        (runSeeded ∅ ∅ inputs).engine := by
  refine ⟨[.createEvent "e", ⟨.userCreated (some "u"), "", true⟩],
    ⟨(Input.submit "o" "e" "u" "LIMIT" "YES" "BUY" 2 3).command, "", false⟩,
    by decide, ?_⟩
  intro agrees
  have reserved := congrArg Account.reserved (agrees.balances "u")
  revert reserved
  decide

end Predix
