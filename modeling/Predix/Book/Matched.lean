import Predix.Book.Queue
import Predix.Engine.Effect

namespace Predix

open Data Word

/-! The state an accepted order leaves, in terms of the state it meets. -/

section Walk

variable (engine : Engine) (order : Order)

def Engine.opposing : List Order :=
  engine.queue order.eventID order.outcome order.side.opposite

def Engine.fillsFor : List Fill :=
  fills order (engine.opposing order)

def Engine.tradesFor : List Trade :=
  (engine.fillsFor order).map (Fill.trade order)

/-- The order after the walk along the other side, before settlement. -/
def Engine.taker : Order :=
  let walked := (engine.registered order).fillAll (engine.fillsFor order)
  { walked with status := walked.statusAfterMatch }

/-- The state after the walk, before settlement. -/
def Engine.walked (market : Market) : Engine :=
  (engine.enrolled order).storeMatch market
    ⟨(engine.registered order).fillAll (engine.fillsFor order),
      (engine.fillsFor order).map Fill.filled, engine.tradesFor order⟩
    (slicePast order (engine.opposing order)) (engine.taker order)

/-- The state after settlement: what is still locked by an order that does not
rest is released. -/
def Engine.matched (market : Market) : Engine :=
  let settled :=
    settleAll (engine.walked order market) (engine.tradesFor order)
  if (engine.taker order).status.live then
    settled
  else
    settled.release order.id

end Walk

/-! The fills of one walk. -/

private theorem filledSum_filter {allocated : List Fill}
    (nonneg : ∀ fill ∈ allocated, 0 ≤ fill.quantity.toInt) :
    filledSum (allocated.filter fun fill => decide (0 < fill.quantity)) =
      filledSum allocated := by
  induction allocated with
  | nil => rfl
  | cons fill allocated induction =>
      have headNonneg := nonneg fill (by simp)
      have tail := induction fun other member => nonneg other (by simp [member])
      by_cases positive : 0 < fill.quantity
      · simp only [List.filter_cons, positive, decide_true, if_true,
          filledSum_cons, tail]
      · simp only [List.filter_cons, positive, decide_false,
          Bool.false_eq_true, if_false, filledSum_cons, tail]
        rw [zero_lt_iff] at positive
        omega

section Fills

variable {incoming : Order} {orders : List Order}
  (isOpen : 0 ≤ incoming.remainingQuantity.toInt)

theorem mem_fills {fill : Fill} :
    fill ∈ fills incoming orders ↔
      fill ∈ allocate incoming incoming.remainingQuantity orders ∧
        0 < fill.quantity.toInt := by
  rw [fills, List.mem_filter, decide_eq_true_eq, zero_lt_iff]

theorem fills_maker_mem {fill : Fill} (member : fill ∈ fills incoming orders) :
    fill.maker ∈ orders := by
  rw [← allocate_map_maker incoming incoming.remainingQuantity orders]
  exact List.mem_map_of_mem (mem_fills.mp member).1

include isOpen

private theorem fills_counterparty {fill : Fill}
    (member : fill ∈ fills incoming orders) :
    isCounterparty incoming fill.maker = true ∧ 0 < fill.quantity.toInt ∧
      fill.quantity.toInt ≤ fill.maker.remainingQuantity.toInt := by
  obtain ⟨allocated, positive⟩ := mem_fills.mp member
  obtain ⟨counterparty, le⟩ := (allocate_quantity isOpen allocated).2 positive
  exact ⟨counterparty, positive, le⟩

theorem filledSum_fills :
    filledSum (fills incoming orders) =
      filledSum (allocate incoming incoming.remainingQuantity orders) :=
  filledSum_filter fun _ member => (allocate_quantity isOpen member).1

private theorem filledSum_fills_nonneg :
    0 ≤ filledSum (fills incoming orders) := by
  rw [filledSum_fills isOpen]
  exact (allocate_sum _ _ isOpen).1

private theorem filledSum_fills_le :
    filledSum (fills incoming orders) ≤ incoming.remainingQuantity.toInt := by
  rw [filledSum_fills isOpen]
  exact (allocate_sum _ _ isOpen).2.1

/-- An order that is not filled has taken every counterparty whole. -/
theorem fills_exhausted
    (short : filledSum (fills incoming orders) <
      incoming.remainingQuantity.toInt)
    {fill : Fill}
    (allocated : fill ∈
      allocate incoming incoming.remainingQuantity orders)
    (counterparty : isCounterparty incoming fill.maker = true) :
    fill.quantity = fill.maker.remainingQuantity := by
  rw [filledSum_fills isOpen] at short
  exact (allocate_sum _ _ isOpen).2.2 short fill allocated counterparty

end Fills

private theorem fills_ids_nodup {incoming : Order} {orders : List Order}
    (distinct : (orders.map (·.id)).Nodup) :
    ((fills incoming orders).map (·.maker.id)).Nodup := by
  have sublist : ((fills incoming orders).map (·.maker.id)).Sublist
      (orders.map (·.id)) := by
    have whole := (List.filter_sublist (l := allocate incoming
      incoming.remainingQuantity orders)
        (p := fun fill => decide (0 < fill.quantity))).map
          (fun fill => fill.maker.id)
    have ids := congrArg (·.map (·.id)) (allocate_map_maker incoming
      incoming.remainingQuantity orders)
    simp only [List.map_map] at ids
    rw [← ids]
    exact whole
  exact sublist.nodup distinct

private theorem allocate_withLock (incoming : Order) (lock remaining : Int64)
    (orders : List Order) :
    allocate (incoming.withLock lock) remaining orders =
      allocate incoming remaining orders := by
  induction orders generalizing remaining with
  | nil => rfl
  | cons resting orders induction =>
      have same : isCounterparty (incoming.withLock lock) resting =
          isCounterparty incoming resting := rfl
      simp only [allocate, same, induction]

/-! An order after a list of fills. -/

private theorem fillAll_eq (order : Order) (fills : List Fill) :
    order.fillAll fills =
      { order with
        filledQuantity := (order.fillAll fills).filledQuantity
        remainingQuantity := (order.fillAll fills).remainingQuantity } := by
  induction fills generalizing order with
  | nil => rfl
  | cons fill fills induction =>
      change (order.fill fill.quantity).fillAll fills = _
      rw [induction]
      rfl

private theorem fillAll_remaining (order : Order) {fills : List Fill}
    (positive : ∀ fill ∈ fills, 0 < fill.quantity.toInt)
    (le : filledSum fills ≤ order.remainingQuantity.toInt) :
    (order.fillAll fills).remainingQuantity.toInt =
      order.remainingQuantity.toInt - filledSum fills := by
  induction fills generalizing order with
  | nil => simp [Order.fillAll]
  | cons fill fills induction =>
      have headPositive := positive fill (by simp)
      have tailPositive : ∀ other ∈ fills, 0 < other.quantity.toInt :=
        fun other member => positive other (by simp [member])
      have tailNonneg : 0 ≤ filledSum fills := by
        apply List.sum_nonneg
        intro amount member
        obtain ⟨other, otherMember, rfl⟩ := List.mem_map.mp member
        exact le_of_lt (tailPositive other otherMember)
      rw [filledSum_cons] at le ⊢
      have head : (order.fill fill.quantity).remainingQuantity.toInt =
          order.remainingQuantity.toInt - fill.quantity.toInt :=
        toInt_sub_of_le (le_of_lt headPositive) (by omega)
      change ((order.fill fill.quantity).fillAll fills).remainingQuantity.toInt
        = _
      rw [induction _ tailPositive (by omega), head]
      omega

private theorem fillAll_filled (order : Order) {fills : List Fill}
    (positive : ∀ fill ∈ fills, 0 < fill.quantity.toInt)
    (nonneg : 0 ≤ order.filledQuantity.toInt)
    (fits : Fits (order.filledQuantity.toInt + filledSum fills)) :
    (order.fillAll fills).filledQuantity.toInt =
      order.filledQuantity.toInt + filledSum fills := by
  induction fills generalizing order with
  | nil => simp [Order.fillAll]
  | cons fill fills induction =>
      have headPositive := positive fill (by simp)
      have tailPositive : ∀ other ∈ fills, 0 < other.quantity.toInt :=
        fun other member => positive other (by simp [member])
      have tailNonneg : 0 ≤ filledSum fills := by
        apply List.sum_nonneg
        intro amount member
        obtain ⟨other, otherMember, rfl⟩ := List.mem_map.mp member
        exact le_of_lt (tailPositive other otherMember)
      rw [filledSum_cons] at fits ⊢
      have head : (order.fill fill.quantity).filledQuantity.toInt =
          order.filledQuantity.toInt + fill.quantity.toInt := by
        apply toInt_add
        unfold Fits at fits ⊢
        omega
      change ((order.fill fill.quantity).fillAll fills).filledQuantity.toInt = _
      rw [induction _ tailPositive (by omega) (by rw [head, add_assoc]; exact fits),
        head]
      omega

theorem Fill.filled_remaining {fill : Fill}
    (nonneg : 0 ≤ fill.quantity.toInt)
    (le : fill.quantity.toInt ≤ fill.maker.remainingQuantity.toInt) :
    fill.filled.remainingQuantity.toInt =
      fill.maker.remainingQuantity.toInt - fill.quantity.toInt := by
  have remaining : (fill.maker.fill fill.quantity).remainingQuantity.toInt =
      fill.maker.remainingQuantity.toInt - fill.quantity.toInt :=
    toInt_sub_of_le nonneg le
  unfold Fill.filled Order.afterFill
  split
  · rename_i done
    rw [le_zero_iff] at done
    change 0 = _
    omega
  · exact remaining

theorem filled_accounted {fill : Fill} (accounted : fill.maker.Accounted)
    (positive : 0 < fill.quantity.toInt)
    (le : fill.quantity.toInt ≤ fill.maker.remainingQuantity.toInt) :
    fill.filled.Accounted ∧
      fill.filled.remainingQuantity.toInt =
        fill.maker.remainingQuantity.toInt - fill.quantity.toInt ∧
      fill.filled.filledQuantity.toInt =
        fill.maker.filledQuantity.toInt + fill.quantity.toInt := by
  obtain ⟨quantity, price, filledNonneg, remainingNonneg, balanced, _, _, _,
    _⟩ := accounted
  have remaining : (fill.maker.fill fill.quantity).remainingQuantity.toInt =
      fill.maker.remainingQuantity.toInt - fill.quantity.toInt :=
    toInt_sub_of_le (le_of_lt positive) le
  have filled : (fill.maker.fill fill.quantity).filledQuantity.toInt =
      fill.maker.filledQuantity.toInt + fill.quantity.toInt := by
    apply toInt_add
    have quantityFits := fits_toInt fill.maker.quantity
    unfold Fits at quantityFits ⊢
    omega
  unfold Fill.filled Order.afterFill
  by_cases done : (fill.maker.fill fill.quantity).remainingQuantity ≤ 0
  · rw [if_pos done]
    rw [le_zero_iff] at done
    refine ⟨⟨quantity, price, ?_, ?_, ?_, ?_, ?_, ?_, ?_⟩, ?_, ?_⟩
    all_goals simp only [Int64.toInt_zero, reduceCtorEq, IsEmpty.forall_iff,
      ne_eq, not_false_eq_true]
    all_goals first
      | exact filled
      | skip
    · rw [filled]
      omega
    · exact le_refl 0
    · change _ = fill.maker.quantity.toInt
      rw [filled]
      omega
    · omega
  · rw [if_neg done]
    rw [le_zero_iff] at done
    refine ⟨⟨quantity, price, ?_, ?_, ?_, ?_, ?_, ?_, ?_⟩, ?_, ?_⟩
    all_goals simp only [reduceCtorEq, IsEmpty.forall_iff, ne_eq,
      not_false_eq_true, forall_true_left, false_iff]
    all_goals first
      | exact filled
      | exact remaining
      | skip
    · rw [filled]
      omega
    · omega
    · change _ = fill.maker.quantity.toInt
      rw [filled, remaining]
      omega
    · change _ ∧ _ < fill.maker.quantity.toInt
      rw [filled]
      omega
    · omega

theorem Fill.filled_eq (fill : Fill) :
    fill.filled =
      { fill.maker with
        filledQuantity := fill.filled.filledQuantity
        remainingQuantity := fill.filled.remainingQuantity
        status := fill.filled.status } := by
  unfold Fill.filled Order.afterFill
  split <;> rfl

@[simp] theorem Fill.filled_id (fill : Fill) :
    fill.filled.id = fill.maker.id := by
  rw [Fill.filled_eq]

theorem Fill.filled_lockedFunds (fill : Fill) :
    fill.filled.lockedFunds = fill.maker.lockedFunds := by
  rw [Fill.filled_eq]

theorem Fill.filled_terms (fill : Fill) :
    fill.filled.SameTerms fill.maker := by
  rw [Fill.filled_eq]
  exact ⟨rfl, rfl, rfl, rfl, rfl, rfl, rfl⟩

private theorem Fill.filled_of_closed {fill : Fill}
    (closed : fill.filled.status.live = false) :
    fill.filled.status = .statusFilled := by
  unfold Fill.filled Order.afterFill at closed ⊢
  split
  · rfl
  · rename_i remains
    rw [if_neg remains] at closed
    contradiction

/-! The trades of one walk. -/

section WalkTrades

variable (amount : Trade → Int) (incoming : Order)

theorem trade_names {incoming : Order} {fill : Fill} {orderID : String} :
    (fill.trade incoming).names orderID ↔
      incoming.id = orderID ∨ fill.maker.id = orderID := Iff.rfl

theorem namedSum_taker (fills : List Fill) :
    namedSum amount (fills.map (Fill.trade incoming)) incoming.id =
      (fills.map fun fill => amount (fill.trade incoming)).sum := by
  unfold namedSum
  rw [List.map_map]
  apply congrArg List.sum
  apply List.map_congr_left
  intro fill _
  exact if_pos (trade_names.mpr (.inl rfl))

theorem namedSum_other {fills : List Fill} {orderID : String}
    (notTaker : orderID ≠ incoming.id)
    (notMaker : ∀ fill ∈ fills, fill.maker.id ≠ orderID) :
    namedSum amount (fills.map (Fill.trade incoming)) orderID = 0 := by
  apply namedSum_of_unnamed
  intro trade member
  obtain ⟨fill, fillMember, rfl⟩ := List.mem_map.mp member
  rw [trade_names]
  rintro (taker | maker)
  · exact notTaker taker.symm
  · exact notMaker fill fillMember maker

theorem namedSum_maker {fills : List Fill}
    (distinct : (fills.map (·.maker.id)).Nodup)
    (foreign : ∀ fill ∈ fills, fill.maker.id ≠ incoming.id)
    {fill : Fill} (member : fill ∈ fills) :
    namedSum amount (fills.map (Fill.trade incoming)) fill.maker.id =
      amount (fill.trade incoming) := by
  induction fills with
  | nil => simp at member
  | cons head fills induction =>
      rw [List.map_cons, List.nodup_cons] at distinct
      have tailForeign : ∀ other ∈ fills, other.maker.id ≠ incoming.id :=
        fun other otherMember => foreign other (by simp [otherMember])
      rw [List.map_cons, namedSum_cons]
      rcases List.mem_cons.mp member with rfl | tailMember
      · rw [if_pos (trade_names.mpr (.inr rfl)),
          namedSum_other amount incoming (foreign fill (by simp)), add_zero]
        intro other otherMember same
        exact distinct.1 (List.mem_map.mpr ⟨other, otherMember, same⟩)
      · have headUnnamed : ¬ (head.trade incoming).names fill.maker.id := by
          rw [trade_names]
          rintro (taker | maker)
          · exact tailForeign fill tailMember taker.symm
          · exact distinct.1
              (List.mem_map.mpr ⟨fill, tailMember, maker.symm⟩)
        rw [if_neg headUnnamed, zero_add,
          induction distinct.2 tailForeign tailMember]

end WalkTrades

/-! The registered order. -/

section Admit

variable (engine : Engine) (order : Order)

@[simp] theorem enrolled_markets :
    (engine.enrolled order).markets = engine.markets :=
  frozen_markets engine order

theorem enrolled_orders :
    (engine.enrolled order).orders =
      engine.orders.insert order.id (engine.registered order) := by
  rw [← frozen_orders engine order]
  rfl

theorem lookup_enrolled (id : String) :
    (engine.enrolled order).orders.lookup id =
      if id = order.id then some (engine.registered order)
      else engine.orders.lookup id := by
  rw [enrolled_orders, FiniteMap.lookup_insert_eq]

theorem taker_eq :
    engine.taker order =
      { order with
        filledQuantity := (engine.taker order).filledQuantity
        remainingQuantity := (engine.taker order).remainingQuantity
        status := (engine.taker order).status
        lockedFunds := engine.lockFor order } := by
  unfold Engine.taker
  rw [fillAll_eq]
  rfl

theorem taker_status :
    (engine.taker order).status = (engine.taker order).statusAfterMatch :=
  rfl

@[simp] theorem taker_id : (engine.taker order).id = order.id := by
  rw [taker_eq]

theorem taker_lockedFunds :
    (engine.taker order).lockedFunds = engine.lockFor order := by
  rw [taker_eq]

theorem taker_terms : (engine.taker order).SameTerms order := by
  rw [taker_eq]
  exact ⟨rfl, rfl, rfl, rfl, rfl, rfl, rfl⟩

end Admit

theorem statusAfterMatch_live {order : Order} :
    order.statusAfterMatch.live = true ↔
      order.orderType = .orderTypeLimit ∧
        order.remainingQuantity.toInt ≠ 0 := by
  unfold Order.statusAfterMatch
  rw [ne_eq, ← eq_zero_iff]
  by_cases done : order.remainingQuantity = 0
  · simp [done, Status.live]
  · by_cases filled : order.filledQuantity > 0
    · cases type : order.orderType <;> simp [done, filled, Status.live]
    · cases type : order.orderType <;> simp [done, filled, Status.live]

private theorem statusAfterMatch_closed {order : Order} :
    order.statusAfterMatch.live = false ↔
      order.statusAfterMatch = .statusFilled ∨
        order.statusAfterMatch = .statusCanceled := by
  unfold Order.statusAfterMatch
  by_cases done : order.remainingQuantity = 0
  · simp [done, Status.live]
  · by_cases filled : order.filledQuantity > 0
    · cases type : order.orderType <;> simp [done, filled, Status.live]
    · cases type : order.orderType <;> simp [done, filled, Status.live]

theorem statusAfterMatch_filled {order : Order}
    (filled : order.statusAfterMatch = .statusFilled) :
    order.remainingQuantity = 0 := by
  unfold Order.statusAfterMatch at filled
  split at filled
  · assumption
  · split at filled <;> split at filled <;> contradiction

private theorem accounted_of_statusAfterMatch {order : Order}
    (status : order.status = order.statusAfterMatch)
    (quantity : 0 < order.quantity.toInt)
    (price : order.orderType = .orderTypeLimit → 0 < order.price.toInt)
    (filledNonneg : 0 ≤ order.filledQuantity.toInt)
    (remainingNonneg : 0 ≤ order.remainingQuantity.toInt)
    (balanced : order.filledQuantity.toInt + order.remainingQuantity.toInt =
      order.quantity.toInt) :
    order.Accounted := by
  have cases :
      order.status = .statusFilled ∧ order.remainingQuantity.toInt = 0 ∨
        order.remainingQuantity.toInt ≠ 0 ∧
          (order.status = .statusPartial ∧ 0 < order.filledQuantity.toInt ∨
            order.status = .statusCanceled ∨
            order.status = .statusPending ∧
              ¬ 0 < order.filledQuantity.toInt) := by
    rw [status, ← zero_lt_iff, ne_eq, ← eq_zero_iff]
    unfold Order.statusAfterMatch
    by_cases done : order.remainingQuantity = 0
    · simp [done]
    · by_cases filled : order.filledQuantity > 0
      · cases order.orderType <;> simp [done, filled]
      · cases order.orderType <;> simp_all
  rcases cases with ⟨is, zero⟩ | ⟨notZero, ⟨is, some⟩ | is | ⟨is, none⟩⟩
  · exact ⟨quantity, price, filledNonneg, remainingNonneg, balanced,
      by simp [is], by simp [is], by simp [is, zero], by simp [is]⟩
  · exact ⟨quantity, price, filledNonneg, remainingNonneg, balanced,
      by simp [is], fun _ => by omega, by simp [is, notZero], by simp [is]⟩
  · exact ⟨quantity, price, filledNonneg, remainingNonneg, balanced,
      by simp [is], by simp [is], by simp [is, notZero], by simp [is]⟩
  · exact ⟨quantity, price, filledNonneg, remainingNonneg, balanced,
      fun _ => by omega, by simp [is], by simp [is, notZero], by simp [is]⟩

section Accepted

variable {engine : Engine} {order : Order} {market : Market}

theorem fillsFor_positive :
    ∀ fill ∈ engine.fillsFor order, 0 < fill.quantity.toInt :=
  fun _ member => (mem_fills.mp member).2

section Quantities

variable (submitted : order.Submitted)

include submitted

theorem submitted_open : 0 < order.remainingQuantity.toInt := by
  rw [submitted.remaining]
  exact submitted.quantity

theorem fillsFor_counterparty {fill : Fill}
    (member : fill ∈ engine.fillsFor order) :
    isCounterparty order fill.maker = true ∧ 0 < fill.quantity.toInt ∧
      fill.quantity.toInt ≤ fill.maker.remainingQuantity.toInt :=
  fills_counterparty (le_of_lt (submitted_open submitted)) member

variable (engine)

theorem fillsFor_sum_le :
    filledSum (engine.fillsFor order) ≤ order.quantity.toInt := by
  have le : filledSum (engine.fillsFor order) ≤
      order.remainingQuantity.toInt :=
    filledSum_fills_le (le_of_lt (submitted_open submitted))
  rw [submitted.remaining] at le
  exact le

theorem fillsFor_sum_nonneg : 0 ≤ filledSum (engine.fillsFor order) :=
  filledSum_fills_nonneg (le_of_lt (submitted_open submitted))

theorem taker_remaining :
    (engine.taker order).remainingQuantity.toInt =
      order.quantity.toInt - filledSum (engine.fillsFor order) := by
  have le := fillsFor_sum_le engine submitted
  have walked := fillAll_remaining (engine.registered order)
    fillsFor_positive
    (by change _ ≤ order.remainingQuantity.toInt
        rw [submitted.remaining]
        exact le)
  rw [← submitted.remaining]
  exact walked

theorem taker_filled :
    (engine.taker order).filledQuantity.toInt =
      filledSum (engine.fillsFor order) := by
  have le := fillsFor_sum_le engine submitted
  have nonneg := fillsFor_sum_nonneg engine submitted
  have zero : (engine.registered order).filledQuantity.toInt = 0 := by
    change order.filledQuantity.toInt = 0
    rw [submitted.filled, Int64.toInt_zero]
  have walked := fillAll_filled (engine.registered order)
    fillsFor_positive (le_of_eq zero.symm)
    (by rw [zero, zero_add]
        exact fits_of_nonneg_le nonneg le)
  rw [zero, zero_add] at walked
  exact walked

theorem taker_accounted : (engine.taker order).Accounted := by
  have le := fillsFor_sum_le engine submitted
  have nonneg := fillsFor_sum_nonneg engine submitted
  have remaining := taker_remaining engine submitted
  have filled := taker_filled engine submitted
  have terms := taker_terms engine order
  apply accounted_of_statusAfterMatch (taker_status engine order)
  · rw [terms.quantity]
    exact submitted.quantity
  · rw [terms.orderType, terms.price]
    exact submitted.price
  · omega
  · omega
  · rw [terms.quantity]
    omega

end Quantities

section Tables

variable (wellFormed : WellFormed engine)
  (fresh : engine.orders.lookup order.id = none)

include wellFormed

theorem opposing_mem {resting : Order}
    (member : resting ∈ engine.opposing order) :
    engine.orders.lookup resting.id = some resting ∧
      resting.status.live = true ∧ resting.eventID = order.eventID ∧
      resting.outcome = order.outcome ∧ resting.side = order.side.opposite := by
  obtain ⟨_, live, event, outcome, side⟩ := wellFormed.resting member
  exact ⟨wellFormed.lookup_of_mem member, live, event, outcome, side⟩

theorem fillsFor_maker {fill : Fill}
    (member : fill ∈ engine.fillsFor order) :
    engine.orders.lookup fill.maker.id = some fill.maker ∧
      fill.maker.status.live = true ∧ fill.maker.eventID = order.eventID ∧
      fill.maker.outcome = order.outcome ∧
      fill.maker.side = order.side.opposite :=
  opposing_mem wellFormed (fills_maker_mem member)

theorem fillsFor_ids_nodup :
    ((engine.fillsFor order).map (·.maker.id)).Nodup :=
  fills_ids_nodup (wellFormed.queue_ids_nodup _ _ _)

include fresh

theorem fillsFor_ne_fresh {fill : Fill}
    (member : fill ∈ engine.fillsFor order) : fill.maker.id ≠ order.id := by
  intro same
  have present := (fillsFor_maker wellFormed member).1
  rw [same, fresh] at present
  contradiction

theorem tradesFor_distinct {trade : Trade}
    (member : trade ∈ engine.tradesFor order) :
    trade.orderID ≠ trade.matchOrderID := by
  obtain ⟨fill, fillMember, rfl⟩ := List.mem_map.mp member
  exact Ne.symm (fillsFor_ne_fresh wellFormed fresh fillMember)

theorem load_enrolled (eventID : String) (outcome : Outcome) (side : Side) :
    (engine.enrolled order).load (engine.slice eventID outcome side) =
      engine.queue eventID outcome side := by
  apply load_congr
  intro id member
  rw [lookup_enrolled, if_neg]
  rintro rfl
  exact wellFormed.not_mem_slice_of_fresh fresh eventID outcome side member

theorem matchOrder_enrolled (submitted : order.Submitted)
    (hasMarket : engine.markets.lookup order.eventID = some market) :
    matchOrder (engine.enrolled order) order.id =
      (engine.matched order market, engine.tradesFor order) := by
  have lookedUp : (engine.enrolled order).orders.lookup order.id =
      some (engine.registered order) := by
    rw [lookup_enrolled, if_pos rfl]
  have notCanceled : (engine.registered order).status ≠ .statusCanceled := by
    change order.status ≠ _
    rw [submitted.status]
    decide
  have loaded : (engine.enrolled order).load
      ((market.book order.outcome).slice order.side.opposite) =
        engine.opposing order := by
    rw [← slice_of_market hasMarket, load_enrolled wellFormed fresh]
    rfl
  have walk : matchAgainstBook (engine.opposing order)
      (engine.registered order) =
        (⟨(engine.registered order).fillAll (engine.fillsFor order),
            (engine.fillsFor order).map Fill.filled,
            engine.tradesFor order⟩,
          slicePast order (engine.opposing order)) := by
    have same : ∀ remaining, allocate (engine.registered order) remaining
        (engine.opposing order) =
          allocate order remaining (engine.opposing order) := by
      intro remaining
      exact allocate_withLock order (engine.lockFor order) remaining _
    have resting : ∀ resting ∈ engine.opposing order, resting.resting :=
      fun _ member => wellFormed.remaining_of_mem member
    have isOpen : 0 ≤ (engine.registered order).remainingQuantity.toInt := by
      change 0 ≤ order.remainingQuantity.toInt
      exact le_of_lt (submitted_open submitted)
    rw [matchAgainstBook_eq resting isOpen]
    simp only [fills, slicePast, same]
    rfl
  have closed : ((engine.taker order).status = .statusFilled ∨
      (engine.taker order).status = .statusCanceled) ↔
        (engine.taker order).status.live = false := by
    rw [taker_status]
    exact statusAfterMatch_closed.symm
  unfold matchOrder
  rw [lookedUp]
  simp only [notCanceled, if_false, enrolled_markets]
  have event : (engine.registered order).eventID = order.eventID := rfl
  have outcome : (engine.registered order).outcome = order.outcome := rfl
  have side : (engine.registered order).side = order.side := rfl
  rw [event, hasMarket]
  simp only [outcome, side, loaded, walk]
  change (if (engine.taker order).status = .statusFilled ∨
      (engine.taker order).status = .statusCanceled then _ else _) = _
  unfold Engine.matched
  cases live : (engine.taker order).status.live with
  | true =>
      rw [if_neg (by rw [closed, live]; decide)]
      rfl
  | false =>
      rw [if_pos (closed.mpr live)]
      rfl

end Tables

section Walked

variable (wellFormed : WellFormed engine)
  (fresh : engine.orders.lookup order.id = none)
  (hasMarket : engine.markets.lookup order.eventID = some market)

def Engine.makerEntries (engine : Engine) (order : Order) :
    List (String × Order) :=
  ((engine.fillsFor order).map Fill.filled).map fun maker => (maker.id, maker)

theorem makerEntries_keys :
    (engine.makerEntries order).map Prod.fst =
      (engine.fillsFor order).map (·.maker.id) := by
  simp [Engine.makerEntries, Function.comp_def]

theorem walked_orders :
    (engine.walked order market).orders =
      (FiniteMap.insertAll (engine.makerEntries order)
        (engine.enrolled order).orders).insert order.id (engine.taker order) := by
  rw [← taker_id engine]
  rfl

theorem lookup_walked_taker :
    (engine.walked order market).orders.lookup order.id =
      some (engine.taker order) := by
  rw [walked_orders, FiniteMap.lookup_insert_eq, if_pos rfl]

include wellFormed fresh in
theorem lookup_walked_maker {fill : Fill}
    (member : fill ∈ engine.fillsFor order) :
    (engine.walked order market).orders.lookup fill.maker.id =
      some fill.filled := by
  rw [walked_orders, FiniteMap.lookup_insert_eq,
    if_neg (fillsFor_ne_fresh wellFormed fresh member)]
  apply FiniteMap.lookup_insertAll_of_mem
  · rw [makerEntries_keys]
    exact fillsFor_ids_nodup wellFormed
  · rw [← Fill.filled_id]
    exact List.mem_map_of_mem (List.mem_map_of_mem member)

theorem lookup_walked_other {id : String} (notTaker : id ≠ order.id)
    (notMaker : ∀ fill ∈ engine.fillsFor order, fill.maker.id ≠ id) :
    (engine.walked order market).orders.lookup id =
      engine.orders.lookup id := by
  rw [walked_orders, FiniteMap.lookup_insert_eq, if_neg notTaker,
    FiniteMap.lookup_insertAll_of_notMem, lookup_enrolled, if_neg notTaker]
  rw [makerEntries_keys]
  intro member
  obtain ⟨fill, fillMember, same⟩ := List.mem_map.mp member
  exact notMaker fill fillMember same

theorem walked_cases (engine : Engine) (order : Order) (id : String) :
    id = order.id ∨ (∃ fill ∈ engine.fillsFor order, fill.maker.id = id) ∨
      (id ≠ order.id ∧
        ∀ fill ∈ engine.fillsFor order, fill.maker.id ≠ id) := by
  by_cases taker : id = order.id
  · exact .inl taker
  · by_cases maker : ∃ fill ∈ engine.fillsFor order, fill.maker.id = id
    · exact .inr (.inl maker)
    · exact .inr (.inr ⟨taker, fun fill member same =>
        maker ⟨fill, member, same⟩⟩)

/-- What the walk makes of the orders it finds registered. -/
inductive AfterWalk (engine : Engine) (order : Order) :
    String → Order → Prop where
  | taker : AfterWalk engine order order.id (engine.taker order)
  | maker (fill : Fill) (member : fill ∈ engine.fillsFor order) :
      AfterWalk engine order fill.maker.id fill.filled
  | other {id : String} {found : Order} (notTaker : id ≠ order.id)
      (notMaker : ∀ fill ∈ engine.fillsFor order, fill.maker.id ≠ id)
      (present : engine.orders.lookup id = some found) :
      AfterWalk engine order id found

include wellFormed fresh in
theorem afterWalk {id : String} {found : Order}
    (present : (engine.walked order market).orders.lookup id = some found) :
    AfterWalk engine order id found := by
  rcases walked_cases engine order id with rfl | ⟨fill, member, rfl⟩ |
    ⟨notTaker, notMaker⟩
  · rw [lookup_walked_taker] at present
    cases present
    exact .taker
  · rw [lookup_walked_maker wellFormed fresh member] at present
    cases present
    exact .maker fill member
  · rw [lookup_walked_other notTaker notMaker] at present
    exact .other notTaker notMaker present

include wellFormed in
theorem filled_whole (submitted : order.Submitted) {fill : Fill}
    (member : fill ∈ engine.fillsFor order)
    (closed : fill.filled.status.live = false) :
    fill.quantity = fill.maker.remainingQuantity := by
  obtain ⟨_, positive, le⟩ := fillsFor_counterparty submitted member
  obtain ⟨accounted, remaining, _⟩ := filled_accounted
    (wellFormed.accounted (fillsFor_maker wellFormed member).1) positive le
  have zero := accounted.full.mp (Fill.filled_of_closed closed)
  rw [← Int64.toInt_inj]
  omega

include wellFormed fresh in
theorem walked_keeps {id : String} {found : Order}
    (present : engine.orders.lookup id = some found) :
    ∃ later, (engine.walked order market).orders.lookup id = some later := by
  rcases walked_cases engine order id with rfl | ⟨fill, member, rfl⟩ |
    ⟨notTaker, notMaker⟩
  · exact ⟨_, lookup_walked_taker⟩
  · exact ⟨_, lookup_walked_maker wellFormed fresh member⟩
  · rw [lookup_walked_other notTaker notMaker]
    exact ⟨found, present⟩

end Walked

end Accepted

end Predix
