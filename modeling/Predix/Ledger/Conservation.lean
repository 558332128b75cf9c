import Predix.Ledger.Overflow

namespace Predix

open Data Word

/-! Orders move cash between users and between the two sides of an account,
as long as a market BUY costs no more than its user has. -/

def totalCash (engine : Engine) : Int :=
  engine.balances.totalHeld fun _ => true

/-- What it costs to take everything a list of trades takes. -/
def sweepCost (trades : List Trade) : Int :=
  (trades.map Trade.exactCost).sum

/-- A market BUY does not sweep more of the book than its user can pay. A
limit BUY never does: its reservation covers its limit value. -/
def WithinMeans (engine : Engine) (input : Input) : Prop :=
  ∀ order ∈ engine.admitted? input, order.side = .sideBuy →
    order.orderType = .orderTypeMarket →
    input.surroundings.orderCreatedEmitted = true →
      sweepCost (engine.tradesFor order) ≤
        (engine.balances.account order.userID).available.toInt

instance (engine : Engine) (input : Input) :
    Decidable (WithinMeans engine input) :=
  inferInstanceAs (Decidable (∀ order ∈ engine.admitted? input, _))

private theorem namedSum_sweepCost (engine : Engine) (order : Order) :
    namedSum Trade.exactCost (engine.tradesFor order) order.id =
      sweepCost (engine.tradesFor order) := by
  unfold sweepCost Engine.tradesFor
  rw [namedSum_taker, List.map_map]
  rfl

/-- A run that wraps nothing and in which the locks of BUY orders are covered
by what is reserved. -/
structure CashSolvent (history : History) : Prop where
  inRange : CashInRange history
  solvent : ∀ userID, 0 ≤ Leg.cash.gap history.engine userID

theorem gap_funded {engine : Engine} {userID : String}
    (absent : engine.balances.lookup userID = none) (key : String) :
    Leg.cash.gap
        { engine with
          balances := engine.balances.insert userID
            ⟨defaultStartingBalance, 0⟩ } key =
      Leg.cash.gap engine key := by
  apply Leg.gap_of_same
  · rfl
  · intro other
    rw [account_funded]
    split
    · rename_i same
      subst same
      have empty : Leg.cash.account engine other = Account.empty := by
        simp only [Leg.account, Leg.accounts, Accounts.account, absent,
          Option.getD_none]
      rw [empty]
      rfl
    · rfl

section Step

variable {history : History} {input : Input}
  (solvent : CashSolvent history)
  (fits : CashFits history.engine input)
  (means : WithinMeans history.engine input)

include solvent fits means in
theorem adequate_of_means {order : Order} {market : Market}
    (submitted : input.order? = some order)
    (fresh : history.engine.orders.lookup order.id = none)
    (admitted : history.engine.admitted? input = some order)
    (announced : input.surroundings.orderCreatedEmitted = true) :
    Leg.cash.Adequate (history.engine.walked order market)
      (history.engine.tradesFor order) := by
  refine adequate_walked solvent.inRange.wellFormed
    (Input.order?_submitted submitted) fresh solvent.inRange.cash.sound
    (fits.proceeds order admitted announced) solvent.inRange.cash
    (fits.product order admitted) ?_
  intro side type
  rw [namedSum_sweepCost]
  exact means order admitted side type announced

include solvent fits means in
theorem cashSolvent_step : CashSolvent (history.step input) where
  inRange := cashInRange_step solvent.inRange fits
  solvent := by
    have wellFormed := solvent.inRange.wellFormed
    have cash := solvent.inRange.cash
    have sound := cash.sound
    intro userID
    simp only [History.step]
    have effect := step_effect history.engine input
    generalize history.engine.step input = reply at effect ⊢
    cases effect with
    | unchanged response _ _ => exact solvent.solvent userID
    | opened order message _ _ _ _ =>
        have same := Leg.gap_of_same .cash
          (opened_orders history.engine order)
          (fun key => by rw [Leg.account_opened]) userID
        exact le_of_le_of_eq (solvent.solvent userID) same.symm
    | dropped order market submitted fresh hasMarket affords _ =>
        have admitted := admitted?_eq submitted fresh hasMarket affords
        have grows := Leg.gap_frozen
          (fits.reserves cash admitted submitted affords) userID
        exact (solvent.solvent userID).trans grows
    | accepted order market submitted fresh hasMarket affords announced =>
        have valid := Input.order?_submitted submitted
        have admitted := admitted?_eq submitted fresh hasMarket affords
        rw [announceAndMatch_enrolled wellFormed valid fresh hasMarket]
        have same := Leg.gap_matched wellFormed valid fresh hasMarket sound
          (fits.reserves cash admitted submitted affords)
          (settles_cash wellFormed valid sound
            (fits.proceeds order admitted announced))
          (adequate_of_means solvent fits means submitted fresh admitted
            announced)
          solvent.solvent userID
        exact le_of_le_of_eq (solvent.solvent userID) same.symm
    | canceled req order market _ present live hasMarket chosen =>
        have ownID := wellFormed.keyed _ _ present
        rw [← ownID] at present
        have same := Leg.gap_cancel market present sound
          solvent.solvent userID
        exact le_of_le_of_eq (solvent.solvent userID) same.symm
    | marketCreated eventID _ _ => exact solvent.solvent userID
    | userFunded funded _ absent =>
        have same := gap_funded absent userID
        exact le_of_le_of_eq (solvent.solvent userID) same.symm

def Command.isOrderCommand : Command → Bool
  | .createOrder _ => true
  | .cancelOrder _ => true
  | _ => false

include solvent fits means in
theorem totalCash_step (isOrder : input.command.isOrderCommand = true) :
    totalCash (history.step input).engine = totalCash history.engine := by
  have wellFormed := solvent.inRange.wellFormed
  have cash := solvent.inRange.cash
  have sound := cash.sound
  simp only [History.step]
  have effect := step_effect history.engine input
  generalize history.engine.step input = reply at effect ⊢
  cases effect with
  | unchanged response _ _ => rfl
  | opened order message _ _ _ _ =>
      exact Leg.totalHeld_opened .cash history.engine order _
  | dropped order market submitted fresh hasMarket affords _ =>
      have admitted := admitted?_eq submitted fresh hasMarket affords
      exact (fits.reserves cash admitted submitted affords).totalHeld_frozen _
  | accepted order market submitted fresh hasMarket affords announced =>
      have valid := Input.order?_submitted submitted
      have admitted := admitted?_eq submitted fresh hasMarket affords
      rw [announceAndMatch_enrolled wellFormed valid fresh hasMarket]
      exact Leg.totalHeld_matched wellFormed valid fresh hasMarket sound
        (fits.reserves cash admitted submitted affords)
        (settles_cash wellFormed valid sound
          (fits.proceeds order admitted announced))
        (adequate_of_means solvent fits means submitted fresh admitted
          announced)
        solvent.solvent _ fun _ _ => rfl
  | canceled req order market _ present live hasMarket chosen =>
      have ownID := wellFormed.keyed _ _ present
      rw [← ownID] at present
      exact Leg.totalHeld_cancel present sound (fits.refund order chosen)
        solvent.solvent _
  | marketCreated eventID requested _ =>
      rw [requested] at isOrder
      contradiction
  | userFunded userID requested _ =>
      rw [requested] at isOrder
      contradiction

end Step

def PaidAlong (balances positions : Accounts String)
    (inputs : List Input) : Prop :=
  MeetsAlong
    (fun history input => CashFits history.engine input ∧
      WithinMeans history.engine input)
    balances positions inputs

instance (balances positions : Accounts String) (inputs : List Input) :
    Decidable (PaidAlong balances positions inputs) :=
  inferInstanceAs (Decidable (MeetsAlong _ balances positions inputs))

theorem cashSolvent_run {balances positions : Accounts String}
    (unreserved : balances.Unreserved) {inputs : List Input}
    (paid : PaidAlong balances positions inputs) :
    CashSolvent (runSeeded balances positions inputs) :=
  runSeeded_invariant CashSolvent
    (fun _ _ solvent meets => cashSolvent_step solvent meets.1 meets.2)
    ⟨cashInRange_start unreserved positions, fun userID =>
      le_of_eq (Leg.gap_seeded .cash unreserved userID).symm⟩ paid

/-- In a run whose commands stay in range and within their users' means, no
CREATE_ORDER and no CANCEL_ORDER creates or destroys cash. -/
theorem runSeeded_conservesCash {balances positions : Accounts String}
    (unreserved : balances.Unreserved) {inputs : List Input} {input : Input}
    (paid : PaidAlong balances positions (inputs ++ [input]))
    (isOrder : input.command.isOrderCommand = true) :
    totalCash (runSeeded balances positions (inputs ++ [input])).engine =
      totalCash (runSeeded balances positions inputs).engine := by
  obtain ⟨before, ⟨fits, means⟩, _⟩ := along_append.mp paid
  have solvent := cashSolvent_run unreserved before
  have continued : runSeeded balances positions (inputs ++ [input]) =
      (runSeeded balances positions inputs).step input :=
    runFrom_append History.step _ inputs [input]
  rw [continued]
  exact totalCash_step solvent fits means isOrder

/-- A market BUY that its user can pay. -/
theorem conservesCash_marketBuy :
    totalCash (runSeeded (Finmap.insert "b" ⟨1000000, 0⟩ ∅)
        (Finmap.insert "s:e:YES" ⟨10, 0⟩ ∅)
        ([.createEvent "e",
          .submit "o1" "e" "s" "LIMIT" "YES" "SELL" 10 5000] ++
          [.submit "o2" "e" "b" "MARKET" "YES" "BUY" 10 0])).engine =
      totalCash (runSeeded (Finmap.insert "b" ⟨1000000, 0⟩ ∅)
        (Finmap.insert "s:e:YES" ⟨10, 0⟩ ∅)
        [.createEvent "e",
          .submit "o1" "e" "s" "LIMIT" "YES" "SELL" 10 5000]).engine :=
  runSeeded_conservesCash
    (Accounts.unreserved_empty.insert "b" (by decide)) (by decide) rfl

/-- A market BUY of a user without any cash: the seller is paid, nobody pays. -/
theorem marketBuy_createsCash :
    totalCash (runSeeded ∅ (Finmap.insert "s:e:YES" ⟨10, 0⟩ ∅)
        [.createEvent "e",
          .submit "o1" "e" "s" "LIMIT" "YES" "SELL" 10 5000]).engine = 0 ∧
      totalCash (runSeeded ∅ (Finmap.insert "s:e:YES" ⟨10, 0⟩ ∅)
        [.createEvent "e",
          .submit "o1" "e" "s" "LIMIT" "YES" "SELL" 10 5000,
          .submit "o2" "e" "b" "MARKET" "YES" "BUY" 10 0]).engine =
        50000 := by
  decide

end Predix
