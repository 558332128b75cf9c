import Predix.Book.LifeCycle

namespace Predix

open Data Word

/-! MARKET orders that end with a part unfilled: the engine cancels them, and
tells nobody. -/

/-- No MARKET order has been ended with a part unfilled. -/
def Engine.NoRemainder (engine : Engine) : Prop :=
  ∀ id order, engine.orders.lookup id = some order →
    order.orderType = .orderTypeMarket → order.status ≠ .statusCanceled

/-- A MARKET order that the command submits finds all it asks for. -/
def Engine.FillsMarket (engine : Engine) (input : Input) : Prop :=
  ∀ order ∈ engine.admitted? input, order.orderType = .orderTypeMarket →
    filledSum (engine.fillsFor order) = order.quantity.toInt

instance (engine : Engine) (input : Input) :
    Decidable (engine.FillsMarket input) :=
  inferInstanceAs (Decidable (∀ order ∈ engine.admitted? input,
    order.orderType = .orderTypeMarket →
      filledSum (engine.fillsFor order) = order.quantity.toInt))

private theorem noRemainder_of_orders {engine later : Engine}
    (orders : later.orders = engine.orders) :
    later.NoRemainder ↔ engine.NoRemainder := by
  unfold Engine.NoRemainder
  rw [orders]

private theorem fillsMarket_of_none {engine : Engine} {input : Input}
    (none : engine.admitted? input = none) : engine.FillsMarket input := by
  intro order admitted
  rw [none] at admitted
  contradiction

private theorem taker_canceled_iff {engine : Engine} {order : Order}
    (submitted : order.Submitted) (market : order.orderType = .orderTypeMarket) :
    (engine.taker order).status = .statusCanceled ↔
      filledSum (engine.fillsFor order) ≠ order.quantity.toInt := by
  have type := (taker_terms engine order).orderType
  rw [market] at type
  have remaining := taker_remaining engine submitted
  rw [taker_status, Order.statusAfterMatch, type]
  split
  · rename_i full
    rw [eq_zero_iff] at full
    simp only [reduceCtorEq, false_iff, ne_eq, not_not]
    omega
  · rename_i short
    rw [eq_zero_iff] at short
    simp only [ite_self, true_iff, ne_eq]
    omega

private theorem noRemainder_matched {engine : Engine} {order : Order}
    {market : Market}
    (wellFormed : WellFormed engine) (submitted : order.Submitted)
    (fresh : engine.orders.lookup order.id = none)
    (hasMarket : engine.markets.lookup order.eventID = some market) :
    (engine.matched order market).NoRemainder ↔ engine.NoRemainder ∧
      (order.orderType = .orderTypeMarket →
        filledSum (engine.fillsFor order) = order.quantity.toInt) := by
  have same := matched_sameUpToLocks wellFormed submitted fresh hasMarket
  constructor
  · intro after
    refine ⟨?_, ?_⟩
    · intro id found present isMarket canceled
      have notTaker : id ≠ order.id := by
        rintro rfl
        cases fresh.symm.trans present
      -- a maker is open
      have notMaker : ∀ fill ∈ engine.fillsFor order, fill.maker.id ≠ id := by
        rintro fill member rfl
        obtain ⟨isMaker, live, _⟩ := fillsFor_maker wellFormed member
        cases isMaker.symm.trans present
        rw [canceled] at live
        contradiction
      rw [← lookup_walked_other notTaker notMaker] at present
      obtain ⟨lock, kept⟩ := same.symm.lookup present
      exact after id _ kept isMarket canceled
    · intro isMarket
      obtain ⟨lock, present⟩ :=
        lookup_matched_taker wellFormed submitted fresh hasMarket
      by_contra short
      refine after order.id _ present ?_
        ((taker_canceled_iff submitted isMarket).mpr short)
      exact (taker_terms engine order).orderType.trans isMarket
  · rintro ⟨before, filled⟩ id found present isMarket canceled
    obtain ⟨lock, walkedPresent⟩ := same.lookup present
    have marketWalked : (found.withLock lock).orderType = .orderTypeMarket :=
      isMarket
    have canceledWalked : (found.withLock lock).status = .statusCanceled :=
      canceled
    generalize found.withLock lock = walked
      at walkedPresent marketWalked canceledWalked
    cases afterWalk wellFormed fresh walkedPresent with
    | taker =>
        rw [(taker_terms engine order).orderType] at marketWalked
        exact (taker_canceled_iff submitted marketWalked).mp canceledWalked
          (filled marketWalked)
    | maker fill member =>
        obtain ⟨isMaker, live, _⟩ := fillsFor_maker wellFormed member
        rw [fill.filled_terms.orderType,
          (wellFormed.resting (wellFormed.listed isMaker live)).1]
          at marketWalked
        contradiction
    | other notTaker notMaker oldPresent =>
        exact before id _ oldPresent marketWalked canceledWalked

private theorem noRemainder_cancel {engine : Engine} {order : Order}
    (market : Market)
    (wellFormed : WellFormed engine)
    (present : engine.orders.lookup order.id = some order)
    (live : order.status.live = true) :
    (engine.cancel market order).NoRemainder ↔ engine.NoRemainder := by
  have limit : order.orderType = .orderTypeLimit :=
    (wellFormed.resting (wellFormed.listed present live)).1
  unfold Engine.NoRemainder
  simp only [lookup_cancel_released]
  constructor
  · intro after id found isFound isMarket
    have other : id ≠ order.id := by
      rintro rfl
      cases present.symm.trans isFound
      rw [limit] at isMarket
      contradiction
    exact after id found ((if_neg other).trans isFound) isMarket
  · intro before id found isFound isMarket
    split at isFound
    · cases isFound
      rw [order.canceled.released_eq] at isMarket
      change order.orderType = _ at isMarket
      rw [limit] at isMarket
      contradiction
    · exact before id found isFound isMarket

theorem noRemainder_step {engine : Engine} (wellFormed : WellFormed engine)
    {input : Input}
    (announced : input.surroundings.orderCreatedEmitted = true) :
    (engine.step input).engine.NoRemainder ↔
      engine.NoRemainder ∧ engine.FillsMarket input := by
  have quiet : ∀ {later : Engine},
      (later.NoRemainder ↔ engine.NoRemainder) →
      engine.admitted? input = none →
        (later.NoRemainder ↔ engine.NoRemainder ∧ engine.FillsMarket input) :=
    fun same none => same.trans (and_iff_left (fillsMarket_of_none none)).symm
  have effect := step_effect engine input
  generalize engine.step input = reply at effect
  cases effect with
  | unchanged response _ idle => exact quiet Iff.rfl idle.admitted?
  | opened order message submitted _ _ short =>
      apply quiet (noRemainder_of_orders (opened_orders engine order))
      simp [Engine.admitted?, submitted, short]
  | dropped order market _ _ _ _ lost =>
      rw [announced] at lost
      contradiction
  | accepted order market submitted fresh hasMarket affords _ =>
      have valid := Input.order?_submitted submitted
      rw [announceAndMatch_enrolled wellFormed valid fresh hasMarket]
      refine (noRemainder_matched wellFormed valid fresh hasMarket).trans ?_
      unfold Engine.FillsMarket
      rw [admitted?_eq submitted fresh hasMarket affords]
      simp
  | canceled req order market requested present live _ _ =>
      have ownID := wellFormed.keyed _ _ present
      rw [← ownID] at present
      exact quiet (noRemainder_cancel market wellFormed present live)
        (admitted?_of_other (by simp [Input.order?, requested]))
  | marketCreated eventID requested _ _ =>
      exact quiet Iff.rfl
        (admitted?_of_other (by simp [Input.order?, requested]))
  | userFunded userID requested _ _ =>
      exact quiet Iff.rfl
        (admitted?_of_other (by simp [Input.order?, requested]))

end Predix
