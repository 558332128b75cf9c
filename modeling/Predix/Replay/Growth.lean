import Predix.Ledger.Accepted

namespace Predix

open Data Word

/-! What the engine has once entered stays: orders, markets and ledger entries
are never removed, and a closed order stays closed. -/

structure Engine.Grows (old new : Engine) : Prop where
  orders : ∀ {id order}, old.orders.lookup id = some order →
    ∃ later, new.orders.lookup id = some later ∧
      (order.status.live = false → later.status.live = false)
  markets : ∀ {eventID}, new.markets.lookup eventID = none →
    old.markets.lookup eventID = none
  balances : old.balances.KeptIn new.balances
  positions : old.positions.KeptIn new.positions

namespace Engine.Grows

theorem refl (engine : Engine) : engine.Grows engine where
  orders := fun {_ order} present => ⟨order, present, fun closed => closed⟩
  markets := fun absent => absent
  balances := .refl _
  positions := .refl _

theorem trans {first second third : Engine} (left : first.Grows second)
    (right : second.Grows third) : first.Grows third where
  orders := by
    intro id order present
    obtain ⟨later, laterPresent, stays⟩ := left.orders present
    obtain ⟨last, lastPresent, staysLast⟩ := right.orders laterPresent
    exact ⟨last, lastPresent, fun closed => staysLast (stays closed)⟩
  markets := fun absent => left.markets (right.markets absent)
  balances := left.balances.trans right.balances
  positions := left.positions.trans right.positions

private theorem of_ledger {old new : Engine} (orders : new.orders = old.orders)
    (markets : new.markets = old.markets)
    (ledger : ∀ leg : Leg, (leg.accounts old).KeptIn (leg.accounts new)) :
    old.Grows new where
  orders := by
    intro id order present
    rw [orders]
    exact ⟨order, present, fun closed => closed⟩
  markets := by
    intro eventID absent
    rw [markets] at absent
    exact absent
  balances := ledger .cash
  positions := ledger .shares

end Engine.Grows

namespace Leg

theorem keptIn_release (leg : Leg) (engine : Engine) (order : Order) :
    (leg.accounts engine).KeptIn
      (leg.accounts (releaseOrderLocked engine order)) := by
  rw [leg.accounts_releaseOrderLocked]
  split
  · exact Accounts.keptIn_update _ _ _
  · exact .refl _

theorem keptIn_frozen (leg : Leg) (engine : Engine) (order : Order) :
    (leg.accounts engine).KeptIn (leg.accounts (engine.frozen order)) := by
  rw [leg.accounts_frozen]
  split
  · exact Accounts.keptIn_update _ _ _
  · exact .refl _

theorem keptIn_opened (leg : Leg) (engine : Engine) (order : Order) :
    (leg.accounts engine).KeptIn (leg.accounts (engine.opened order)) := by
  unfold Engine.opened
  cases leg <;> cases order.side <;>
    first | exact Accounts.keptIn_update _ _ _ | exact .refl _

theorem keptIn_settled (leg : Leg) (engine : Engine) (order : Order)
    (market : Market) :
    (leg.accounts engine).KeptIn
      (leg.accounts (engine.settled order market)) := by
  unfold Engine.settled
  rw [leg.accounts_settleAll, accounts_walked]
  exact (leg.keptIn_frozen engine order).trans (Transfer.keptIn_applyAll _ _)

end Leg

/-! The ledger entry a refused reservation leaves behind. -/

def Engine.HasEntry (engine : Engine) (order : Order) : Prop :=
  match order.side with
  | .sideBuy => engine.balances.lookup order.userID ≠ none
  | .sideSell => engine.positions.lookup order.positionKey ≠ none

theorem opened_of_entry {engine : Engine} {order : Order}
    (entry : engine.HasEntry order) : engine.opened order = engine := by
  unfold Engine.HasEntry at entry
  unfold Engine.opened
  cases side : order.side with
  | sideBuy =>
      simp only [side] at entry
      simp only [Engine.updateBalance, Accounts.update_id entry]
  | sideSell =>
      simp only [side] at entry
      simp only [Engine.updatePosition, Accounts.update_id entry]

theorem entry_of_keptIn {engine : Engine} {order : Order}
    (balances : (engine.opened order).balances.KeptIn engine.balances)
    (positions : (engine.opened order).positions.KeptIn engine.positions) :
    engine.HasEntry order := by
  unfold Engine.opened at balances positions
  unfold Engine.HasEntry
  cases side : order.side with
  | sideBuy =>
      intro absent
      have still := balances order.userID absent
      simp only [side, Engine.updateBalance, Accounts.lookup_update_self]
        at still
      contradiction
  | sideSell =>
      intro absent
      have still := positions order.positionKey absent
      simp only [side, Engine.updatePosition, Accounts.lookup_update_self]
        at still
      contradiction

section Accepted

variable {engine : Engine} {order : Order} {market : Market}
  (wellFormed : WellFormed engine) (submitted : order.Submitted)
  (fresh : engine.orders.lookup order.id = none)
  (hasMarket : engine.markets.lookup order.eventID = some market)

include wellFormed submitted fresh hasMarket

private theorem keptIn_matched (leg : Leg) :
    (leg.accounts engine).KeptIn
      (leg.accounts (engine.matched order market)) := by
  rw [matched_eq wellFormed submitted fresh hasMarket]
  split
  · exact leg.keptIn_settled engine order market
  · exact (leg.keptIn_settled engine order market).trans
      (leg.keptIn_release _ _)

private theorem grows_matched : engine.Grows (engine.matched order market) where
  orders := by
    intro id found present
    obtain ⟨later, laterPresent⟩ :=
      matched_keeps wellFormed submitted fresh hasMarket present
    refine ⟨later, laterPresent, fun closed => ?_⟩
    cases afterMatch wellFormed submitted fresh hasMarket laterPresent with
    | resting _ =>
        rw [fresh] at present
        contradiction
    | released _ =>
        rw [fresh] at present
        contradiction
    | maker fill member =>
        -- a maker was open
        obtain ⟨makerPresent, live, _⟩ := fillsFor_maker wellFormed member
        rw [makerPresent] at present
        cases present
        rw [live] at closed
        contradiction
    | other _ _ oldPresent =>
        rw [oldPresent] at present
        cases present
        exact closed
  markets := by
    intro eventID absent
    rw [(matched_sameUpToLocks wellFormed submitted fresh hasMarket).markets]
      at absent
    cases present : engine.markets.lookup eventID with
    | none => rfl
    | some old =>
        obtain ⟨new, kept⟩ :=
          walked_hasMarket wellFormed fresh hasMarket present
        rw [kept] at absent
        contradiction
  balances := keptIn_matched wellFormed submitted fresh hasMarket .cash
  positions := keptIn_matched wellFormed submitted fresh hasMarket .shares

end Accepted

theorem grows_cancel (engine : Engine) (order : Order) (market : Market) :
    engine.Grows (engine.cancel market order) where
  orders := by
    intro id found oldPresent
    obtain ⟨lock, lookedUp⟩ := lookup_cancel engine order market id
    rw [lookedUp]
    split
    · exact ⟨_, rfl, fun _ => rfl⟩
    · exact ⟨found, oldPresent, fun closed => closed⟩
  markets := by
    intro eventID absent
    rw [cancel_sameUpToLocks.markets] at absent
    change Finmap.lookup eventID (engine.markets.insert order.eventID _) = none
      at absent
    rw [FiniteMap.lookup_insert_eq] at absent
    split at absent
    · contradiction
    · exact absent
  balances := Leg.cash.keptIn_release _ _
  positions := Leg.shares.keptIn_release _ _

theorem grows_step {engine : Engine} (wellFormed : WellFormed engine)
    (input : Input) : engine.Grows (engine.step input).engine := by
  have effect := step_effect engine input
  generalize engine.step input = reply at effect ⊢
  cases effect with
  | unchanged response _ _ => exact .refl engine
  | opened order message _ _ _ _ =>
      exact .of_ledger (opened_orders engine order)
        (opened_markets engine order) fun leg => leg.keptIn_opened engine order
  | dropped order market _ _ _ _ _ =>
      exact .of_ledger (frozen_orders engine order)
        (frozen_markets engine order) fun leg => leg.keptIn_frozen engine order
  | accepted order market submitted fresh hasMarket _ _ =>
      have valid := Input.order?_submitted submitted
      rw [announceAndMatch_enrolled wellFormed valid fresh hasMarket]
      exact grows_matched wellFormed valid fresh hasMarket
  | canceled req order market _ _ _ _ _ =>
      exact grows_cancel engine order market
  | marketCreated eventID _ _ =>
      refine ⟨(Engine.Grows.refl engine).orders, ?_, .refl _, .refl _⟩
      intro other absent
      simp only [Reply.unchanged, FiniteMap.lookup_insert_eq] at absent
      split at absent
      · contradiction
      · exact absent
  | userFunded userID _ _ =>
      exact ⟨(Engine.Grows.refl engine).orders, fun absent => absent,
        Accounts.keptIn_insert _ _ _, .refl _⟩

/-- A command that adds nothing changes nothing. -/
theorem step_of_grows_back {engine : Engine} {input : Input}
    (wellFormed : WellFormed engine)
    (emitted : input.surroundings.orderCreatedEmitted = true)
    (back : (engine.step input).engine.Grows engine) :
    (engine.step input).engine = engine := by
  have effect := step_effect engine input
  generalize engine.step input = reply at effect back ⊢
  cases effect with
  | unchanged response _ _ => rfl
  | opened order message _ _ _ _ =>
      exact opened_of_entry (entry_of_keptIn back.balances back.positions)
  | dropped order market _ _ _ _ lost =>
      rw [emitted] at lost
      contradiction
  | accepted order market submitted fresh hasMarket _ _ =>
      have valid := Input.order?_submitted submitted
      rw [announceAndMatch_enrolled wellFormed valid fresh hasMarket] at back
      obtain ⟨lock, registered⟩ :=
        lookup_matched_taker wellFormed valid fresh hasMarket
      obtain ⟨later, present, _⟩ := back.orders registered
      rw [fresh] at present
      contradiction
  | canceled req order market _ present live _ _ =>
      have ownID := wellFormed.keyed _ _ present
      rw [← ownID] at present
      obtain ⟨lock, lookedUp⟩ := lookup_cancel engine order market order.id
      rw [if_pos rfl] at lookedUp
      obtain ⟨later, laterPresent, stays⟩ := back.orders lookedUp
      have closed := stays rfl
      rw [present] at laterPresent
      cases laterPresent
      rw [live] at closed
      contradiction
  | marketCreated eventID _ absent =>
      have still := back.markets absent
      simp [Reply.unchanged] at still
  | userFunded userID _ absent =>
      have still := back.balances userID absent
      simp [Reply.unchanged] at still

end Predix
