import Predix.Ledger.Conservation
import Predix.Ledger.ShareTotals

namespace Predix

open Data Word

/-! The starting balance. USER_CREATED grants it when the ledger has no entry
for the user, and a BUY opens an entry before it is known to be accepted. -/

def Input.created? (input : Input) : Option String :=
  match input.command with
  | .userCreated userID => userID
  | _ => none

/-- The user of a BUY that gets as far as the reservation, if it then is
accepted or refused. -/
def Engine.bidder? (engine : Engine) (input : Input) : Option String :=
  match input.order? with
  | none => none
  | some order =>
      if order.side = .sideBuy ∧ engine.orders.lookup order.id = none ∧
          (engine.markets.lookup order.eventID).isSome = true then
        some order.userID
      else
        none

/-- A run together with the users named by USER_CREATED so far, those who have
bid, and the cash USER_CREATED has added to the ledger. -/
structure Funding where
  history : History
  created : Finset String
  bidders : Finset String
  granted : Int

namespace Funding

def start : Funding := ⟨History.start newEngine, ∅, ∅, 0⟩

def engine (funding : Funding) : Engine := funding.history.engine

def step (funding : Funding) (input : Input) : Funding where
  history := funding.history.step input
  created := funding.created ∪ input.created?.toFinset
  bidders := funding.bidders ∪ (funding.engine.bidder? input).toFinset
  granted := match input.created? with
    | none => funding.granted
    | some _ => funding.granted +
        (totalCash (funding.engine.step input).engine -
          totalCash funding.engine)

def run (inputs : List Input) : Funding :=
  runFrom step start inputs

theorem run_history (inputs : List Input) :
    (run inputs).history = runSeeded ∅ ∅ inputs := by
  refine related_runFrom (fun (funding : Funding) (history : History) =>
    funding.history = history) ?_ rfl (along_true step start inputs)
  intro funding history input same _
  simp only [step, same]

/-- A user is named for the second time, or has not bid before. -/
def FundsOnce (funding : Funding) (input : Input) : Prop :=
  ∀ userID ∈ input.created?, userID ∈ funding.created ∨
    userID ≠ "" ∧ userID ∉ funding.bidders

def Exact (funding : Funding) : Prop :=
  funding.granted = defaultStartingBalance.toInt * funding.created.card

/-- What holds of the ledger in every run from the empty engine. Nobody has
shares to sell, so all orders are BUYs and none of them trades. -/
structure Sound (funding : Funding) : Prop where
  nothing : NothingToSell funding.history
  bids : ∀ {id order}, funding.engine.orders.lookup id = some order →
    order.userID ∈ funding.bidders
  entries : ∀ userID, funding.engine.balances.lookup userID ≠ none ↔
    userID ∈ funding.created ∧ userID ≠ "" ∨ userID ∈ funding.bidders
  bounded : funding.granted ≤
    defaultStartingBalance.toInt * funding.created.card

theorem Sound.wellFormed {funding : Funding} (sound : funding.Sound) :
    WellFormed funding.engine :=
  sound.nothing.wellFormed

theorem sound_start : start.Sound where
  nothing := nothingToSell_start ∅
  bids := by
    intro id order present
    cases present
  entries userID := by simp [start, engine, History.start, newEngine, Engine.seeded]
  bounded := by decide

end Funding

theorem lookup_update_ne_none {accounts : Accounts String} {key other : String}
    (change : Account → Account) :
    (accounts.update key change).lookup other ≠ none ↔
      other = key ∨ accounts.lookup other ≠ none := by
  unfold Accounts.update
  rw [FiniteMap.lookup_insert_eq]
  split
  · rename_i same
    simp [same]
  · rename_i different
    simp [different]

private theorem Input.created?_of_order {input : Input} {order : Order}
    (submitted : input.order? = some order) : input.created? = none := by
  unfold Input.created?
  split
  · rename_i userID command
    simp [Input.order?, command] at submitted
  · rfl

theorem step_userCreated {engine : Engine} {input : Input} {userID : String}
    (named : input.created? = some userID) :
    (engine.step input).engine =
      if userID = "" ∨ engine.balances.lookup userID ≠ none then
        engine
      else
        { engine with
          balances := engine.balances.insert userID
            ⟨defaultStartingBalance, 0⟩ } := by
  obtain ⟨command, surroundings⟩ := input
  cases command with
  | userCreated created =>
      cases named
      simp only [Engine.step, handleMessage, handleUserCreated]
      by_cases empty : userID = ""
      · rw [if_pos empty, if_pos (.inl empty)]
        rfl
      · rw [if_neg empty]
        cases entry : engine.balances.lookup userID with
        | none => simp [empty, Reply.unchanged]
        | some balance => simp [Reply.unchanged]
  | _ => cases named

private theorem totalCash_funded {engine : Engine} {userID : String}
    (absent : engine.balances.lookup userID = none) :
    totalCash { engine with
        balances := engine.balances.insert userID
          ⟨defaultStartingBalance, 0⟩ } =
      totalCash engine + defaultStartingBalance.toInt := by
  unfold totalCash Accounts.totalHeld
  rw [FiniteMap.total_insert_of_notMem _ _ absent]
  rfl

namespace Funding

variable {funding : Funding} {input : Input}

private theorem entries_accepted (sound : funding.Sound) {order : Order}
    {market : Market} (submitted : order.Submitted)
    (fresh : funding.engine.orders.lookup order.id = none)
    (hasMarket : funding.engine.markets.lookup order.eventID = some market)
    (side : order.side = .sideBuy) (userID : String) :
    (funding.engine.matched order market).balances.lookup userID ≠ none ↔
      userID = order.userID ∨
        funding.engine.balances.lookup userID ≠ none := by
  have settled : Leg.cash.accounts (funding.engine.settled order market) =
      funding.engine.balances.update order.userID
        (·.freeze (funding.engine.lockFor order)) := by
    have untraded : funding.engine.tradesFor order = [] :=
      sound.nothing.tradesFor side
    unfold Engine.settled
    rw [Leg.accounts_settleAll, untraded, Leg.accounts_walked,
      Leg.accounts_frozen, if_pos (show order.side = Leg.cash.side from side)]
    rfl
  rw [matched_eq sound.wellFormed submitted fresh hasMarket]
  change (Leg.cash.accounts _).lookup userID ≠ none ↔ _
  split
  · rw [settled, lookup_update_ne_none]
  · rw [Leg.accounts_releaseOrderLocked, settled]
    split
    · have owner : Leg.cash.key (funding.engine.remnant order) =
          order.userID := (remnant_terms funding.engine order).userID
      rw [lookup_update_ne_none, lookup_update_ne_none, owner, ← or_assoc,
        or_self]
    · rw [lookup_update_ne_none]

theorem bidder?_eq {engine : Engine} {order : Order}
    (submitted : input.order? = some order) (side : order.side = .sideBuy)
    (fresh : engine.orders.lookup order.id = none)
    (hasMarket : (engine.markets.lookup order.eventID).isSome = true) :
    engine.bidder? input = some order.userID := by
  simp only [Engine.bidder?, submitted, side, fresh, hasMarket, and_self,
    if_true]

private theorem bidder?_of_sell {engine : Engine} {order : Order}
    (submitted : input.order? = some order) (side : order.side ≠ .sideBuy) :
    engine.bidder? input = none := by
  simp only [Engine.bidder?, submitted, side, false_and, if_false]

private theorem bidder?_of_idle {engine : Engine} (idle : engine.Idle input) :
    engine.bidder? input = none := by
  unfold Engine.bidder?
  cases submitted : input.order? with
  | none => rfl
  | some order =>
      apply if_neg
      rintro ⟨_, fresh, hasMarket⟩
      rcases idle.order submitted with registered | noMarket
      · exact registered fresh
      · simp [noMarket] at hasMarket

theorem bidder?_of_no_order {engine : Engine} (noOrder : input.order? = none) :
    engine.bidder? input = none := by
  simp only [Engine.bidder?, noOrder]

section Step

variable (sound : funding.Sound)

include sound

theorem bids_step {id : String} {found : Order}
    (present : (funding.step input).engine.orders.lookup id = some found) :
    found.userID ∈ (funding.step input).bidders := by
  rcases step_terms sound.wellFormed input present with
    ⟨old, oldPresent, same⟩ | ⟨order, admitted, _, same⟩
  · rw [same.userID]
    exact Finset.mem_union_left _ (sound.bids oldPresent)
  · obtain ⟨submitted, fresh, ⟨market, hasMarket⟩, _⟩ :=
      admitted?_spec admitted
    have bidder := bidder?_eq submitted (sound.nothing.admitted_buy admitted)
      fresh (by rw [hasMarket]; rfl)
    rw [same.userID]
    refine Finset.mem_union_right _ ?_
    rw [bidder]
    simp

private theorem entries_order (nobody : input.created? = none)
    (userID : String) :
    (funding.step input).engine.balances.lookup userID ≠ none ↔
      userID ∈ funding.engine.bidder? input ∨
        funding.engine.balances.lookup userID ≠ none := by
  change (funding.engine.step input).engine.balances.lookup userID ≠ none ↔ _
  have effect := step_effect funding.engine input
  generalize funding.engine.step input = reply at effect ⊢
  have same : funding.engine.bidder? input = none →
      (funding.engine.balances.lookup userID ≠ none ↔
        userID ∈ funding.engine.bidder? input ∨
          funding.engine.balances.lookup userID ≠ none) := by
    intro noBidder
    simp [noBidder]
  cases effect with
  | unchanged response _ idle => exact same (bidder?_of_idle idle)
  | opened order message submitted fresh hasMarket _ =>
      simp only [Reply.unchanged, Engine.opened]
      cases side : order.side with
      | sideBuy =>
          rw [bidder?_eq submitted side fresh hasMarket, Option.mem_some_iff,
            eq_comm]
          exact lookup_update_ne_none id
      | sideSell =>
          exact same (bidder?_of_sell submitted (by rw [side]; decide))
  | dropped order market submitted fresh hasMarket affords _ =>
      have side := sound.nothing.admitted_buy
        (admitted?_eq submitted fresh hasMarket affords)
      change (Leg.cash.accounts (funding.engine.frozen order)).lookup userID ≠
        none ↔ _
      rw [bidder?_eq submitted side fresh (by rw [hasMarket]; rfl),
        Option.mem_some_iff, eq_comm, Leg.accounts_frozen,
        if_pos (show order.side = Leg.cash.side from side)]
      exact lookup_update_ne_none _
  | accepted order market submitted fresh hasMarket affords _ =>
      have valid := Input.order?_submitted submitted
      have side := sound.nothing.admitted_buy
        (admitted?_eq submitted fresh hasMarket affords)
      rw [announceAndMatch_enrolled sound.wellFormed valid fresh hasMarket,
        bidder?_eq submitted side fresh (by rw [hasMarket]; rfl),
        Option.mem_some_iff, eq_comm]
      exact entries_accepted sound valid fresh hasMarket side userID
  | canceled req order market requested present _ _ _ =>
      refine Iff.trans ?_ (same (bidder?_of_no_order ?_))
      · change (Leg.cash.accounts (funding.engine.cancel market order)).lookup
          userID ≠ none ↔ _
        rw [Leg.accounts_cancel]
        split
        · -- a registered order is a bid, so its user has an entry
          have entry := (sound.entries order.userID).mpr
            (.inr (sound.bids present))
          rw [lookup_update_ne_none]
          exact or_iff_right_of_imp fun owner => by rw [owner]; exact entry
        · rfl
      · simp [Input.order?, requested]
  | marketCreated eventID requested _ _ =>
      refine same (bidder?_of_no_order ?_)
      simp [Input.order?, requested]
  | userFunded funded requested _ _ =>
      simp [Input.created?, requested] at nobody

omit sound in
theorem step_of_order (nobody : input.created? = none) :
    (funding.step input).created = funding.created ∧
      (funding.step input).granted = funding.granted := by
  simp [step, nobody]

omit sound in
theorem step_of_created {userID : String}
    (named : input.created? = some userID) :
    (funding.step input).created = insert userID funding.created ∧
      (funding.step input).bidders = funding.bidders ∧
      (funding.step input).granted = funding.granted +
        if userID = "" ∨ funding.engine.balances.lookup userID ≠ none then 0
        else defaultStartingBalance.toInt := by
  have noOrder : input.order? = none := by
    by_contra some
    obtain ⟨order, submitted⟩ := Option.ne_none_iff_exists'.mp some
    rw [Input.created?_of_order submitted] at named
    cases named
  refine ⟨?_, ?_, ?_⟩
  · simp [step, named, Finset.union_singleton]
  · simp [step, bidder?_of_no_order noOrder]
  · simp only [step, named]
    rw [step_userCreated named]
    split
    · omega
    · rename_i absent
      rw [not_or, not_not] at absent
      rw [totalCash_funded absent.2]
      omega

theorem entries_step (userID : String) :
    (funding.step input).engine.balances.lookup userID ≠ none ↔
      userID ∈ (funding.step input).created ∧ userID ≠ "" ∨
        userID ∈ (funding.step input).bidders := by
  have old := sound.entries userID
  cases named : input.created? with
  | none =>
      rw [entries_order sound named, (step_of_order named).1, old]
      simp only [step, Finset.mem_union, Option.mem_toFinset]
      tauto
  | some created =>
      obtain ⟨users, bidders, _⟩ := @step_of_created funding input created named
      have later : (funding.step input).engine = _ :=
        @step_userCreated funding.engine input created named
      rw [users, bidders, later, Finset.mem_insert]
      split
      · rename_i nothing
        rw [old]
        constructor
        · rintro (⟨before, hasID⟩ | bidder)
          · exact .inl ⟨.inr before, hasID⟩
          · exact .inr bidder
        · rintro (⟨rfl | before, hasID⟩ | bidder)
          · exact old.mp (nothing.resolve_left hasID)
          · exact .inl ⟨before, hasID⟩
          · exact .inr bidder
      · rename_i something
        rw [not_or] at something
        rw [FiniteMap.lookup_insert_eq]
        split
        · rename_i same
          subst same
          simp [something.1]
        · rename_i different
          rw [old]
          simp [different]

theorem nothing_of_created {userID : String}
    (before : userID ∈ funding.created) :
    userID = "" ∨ funding.engine.balances.lookup userID ≠ none := by
  by_cases empty : userID = ""
  · exact .inl empty
  · exact .inr ((sound.entries userID).mpr (.inl ⟨before, empty⟩))

theorem bounded_step : (funding.step input).granted ≤
    defaultStartingBalance.toInt * (funding.step input).created.card := by
  have bounded := sound.bounded
  cases named : input.created? with
  | none =>
      obtain ⟨users, granted⟩ := @step_of_order funding input named
      rw [users, granted]
      exact bounded
  | some userID =>
      obtain ⟨users, _, granted⟩ := @step_of_created funding input userID named
      have start : defaultStartingBalance.toInt = 1000000 := by decide
      rw [start] at bounded granted ⊢
      rw [users, granted]
      by_cases before : userID ∈ funding.created
      · rw [Finset.insert_eq_of_mem before,
          if_pos (nothing_of_created sound before)]
        omega
      · rw [Finset.card_insert_of_notMem before]
        push_cast
        split <;> omega

theorem sound_step : (funding.step input).Sound where
  nothing := nothingToSell_step sound.nothing
  bids present := bids_step sound present
  entries userID := entries_step sound userID
  bounded := bounded_step sound

/-- One command keeps the grants exact when it names nobody who has bid. -/
theorem exact_step_iff :
    (funding.step input).Exact ↔ funding.Exact ∧ funding.FundsOnce input := by
  unfold Exact FundsOnce
  have bounded := sound.bounded
  cases named : input.created? with
  | none =>
      obtain ⟨users, granted⟩ := @step_of_order funding input named
      rw [users, granted]
      simp
  | some userID =>
      obtain ⟨users, _, granted⟩ := @step_of_created funding input userID named
      have entry := sound.entries userID
      have start : defaultStartingBalance.toInt = 1000000 := by decide
      rw [start] at bounded granted ⊢
      rw [users, granted]
      simp only [Option.mem_some_iff, forall_eq']
      by_cases before : userID ∈ funding.created
      · rw [Finset.insert_eq_of_mem before,
          if_pos (nothing_of_created sound before)]
        simp [before]
      · rw [Finset.card_insert_of_notMem before]
        push_cast
        -- a new user without an entry is funded, any other never will be
        have decides : (userID = "" ∨
            funding.engine.balances.lookup userID ≠ none) ↔
              ¬ (userID ≠ "" ∧ userID ∉ funding.bidders) := by
          rw [entry]
          tauto
        by_cases once : userID ≠ "" ∧ userID ∉ funding.bidders
        · rw [if_neg (by rw [decides]; exact not_not.mpr once)]
          simp only [before, false_or, once, and_true, ne_eq, not_false_eq_true,
            and_self]
          omega
        · rw [if_pos (decides.mpr once)]
          simp only [before, false_or, once, and_false, iff_false]
          omega

end Step

/-- In a run from the empty engine USER_CREATED grants the starting balance
once for every user it names exactly when no new user has bid before. -/
theorem run_exact_iff (inputs : List Input) :
    (run inputs).Exact ↔ Along step FundsOnce start inputs := by
  have all : (run inputs).Exact ↔
      start.Exact ∧ Along step FundsOnce start inputs :=
    runFrom_iff_along Sound Exact (fun _ _ sound => sound_step sound)
      (fun _ _ sound => exact_step_iff sound) sound_start inputs
  have atStart : start.Exact := by simp [Exact, start]
  exact all.trans (and_iff_right atStart)

/-- A BUY that is refused for lack of funds costs its user the grant. -/
theorem refusedBuy_unfunded :
    (run [.createEvent "e", .submit "o" "e" "u" "LIMIT" "YES" "BUY" 1 5000,
      ⟨.userCreated (some "u"), "", true⟩]).granted = 0 ∧
    (run [.createEvent "e", .submit "o" "e" "u" "LIMIT" "YES" "BUY" 1 5000,
      ⟨.userCreated (some "u"), "", true⟩]).created = {"u"} := by
  decide +kernel

end Funding

end Predix
