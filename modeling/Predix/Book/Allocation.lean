import Predix.Data.Sweep
import Predix.Engine.Matching

namespace Predix

open Data Word

/-! What matching does, as one pass over the opposite slice: every resting
order is paired with the quantity it trades. -/

structure Fill where
  maker : Order
  quantity : Int64

/-- Hand the remaining quantity of an incoming order to the counterparties of
a slice, in slice order. Every other order gets nothing. -/
def allocate (incoming : Order) : Int64 → List Order → List Fill
  | _, [] => []
  | remaining, resting :: orders =>
      let quantity :=
        if isCounterparty incoming resting then
          minWord remaining resting.remainingQuantity
        else
          0
      ⟨resting, quantity⟩ :: allocate incoming (remaining - quantity) orders

def Fill.filled (fill : Fill) : Order :=
  (fill.maker.fill fill.quantity).afterFill

def Fill.left (fill : Fill) : Option Order :=
  if fill.quantity ≤ 0 then
    some fill.maker
  else if (fill.maker.fill fill.quantity).remainingQuantity ≤ 0 then
    none
  else
    some fill.filled

/-- The fills of an incoming order, in trading order. -/
def fills (incoming : Order) (orders : List Order) : List Fill :=
  (allocate incoming incoming.remainingQuantity orders).filter
    fun fill => decide (0 < fill.quantity)

def slicePast (incoming : Order) (orders : List Order) : List Order :=
  (allocate incoming incoming.remainingQuantity orders).filterMap Fill.left

def Fill.trade (incoming : Order) (fill : Fill) : Trade :=
  buildTrade incoming fill.maker fill.quantity

def Order.fillAll (order : Order) (fills : List Fill) : Order :=
  fills.foldl (fun current fill => current.fill fill.quantity) order

def Order.resting (order : Order) : Prop :=
  order.status.live = true ∧ 0 < order.remainingQuantity.toInt

theorem isCounterparty_remaining {incoming resting : Order}
    (counterparty : isCounterparty incoming resting = true) :
    0 < resting.remainingQuantity.toInt := by
  simp only [isCounterparty, Bool.and_eq_true, decide_eq_true_eq] at counterparty
  exact zero_lt_iff.mp counterparty.1.1.2

theorem isCounterparty_live {incoming resting : Order}
    (counterparty : isCounterparty incoming resting = true) :
    resting.status.live = true := by
  simp only [isCounterparty, Bool.and_eq_true] at counterparty
  exact counterparty.1.1.1

theorem isCounterparty_user {incoming resting : Order}
    (counterparty : isCounterparty incoming resting = true) :
    resting.userID ≠ incoming.userID := by
  simp only [isCounterparty, Bool.and_eq_true, decide_eq_true_eq] at counterparty
  exact counterparty.1.2

theorem isCounterparty_canMatch {incoming resting : Order}
    (counterparty : isCounterparty incoming resting = true) :
    canMatch incoming resting = true := by
  simp only [isCounterparty, Bool.and_eq_true] at counterparty
  exact counterparty.2

/-! The loop of the engine as a sweep. -/

def matchRule : SweepRule Matching Order where
  done matching := decide (matching.incoming.remainingQuantity ≤ 0)
  eligible matching := isCounterparty matching.incoming
  take matching resting :=
    let quantity := matchQuantity matching.incoming resting
    { incoming := matching.incoming.fill quantity
      makers := matching.makers ++ [(resting.fill quantity).afterFill]
      trades := matching.trades ++
        [buildTrade matching.incoming resting quantity] }
  leave matching resting :=
    let quantity := matchQuantity matching.incoming resting
    if (resting.fill quantity).remainingQuantity ≤ 0 then
      none
    else
      some (resting.fill quantity).afterFill

private theorem fill_remaining (incoming : Order) {resting : Order}
    (incomingOpen : 0 < incoming.remainingQuantity.toInt)
    (restingOpen : 0 < resting.remainingQuantity.toInt) :
    (resting.fill (matchQuantity incoming resting)).remainingQuantity.toInt =
      resting.remainingQuantity.toInt -
        min incoming.remainingQuantity.toInt
          resting.remainingQuantity.toInt := by
  simp only [Order.fill, matchQuantity]
  rw [toInt_sub_of_le, toInt_minWord]
  · rw [toInt_minWord]
    omega
  · rw [toInt_minWord]
    omega

theorem matchRule_lawful : matchRule.Lawful where
  eligible_take := fun _ _ _ _ => rfl
  done_of_leave := by
    intro matching resting rest notDone eligible left
    simp only [matchRule, decide_eq_false_iff_not, le_zero_iff] at notDone
    have restingOpen := isCounterparty_remaining eligible
    have remainder :=
      fill_remaining matching.incoming (by omega) restingOpen
    simp only [matchRule] at left ⊢
    split at left
    · contradiction
    · rename_i stays
      rw [le_zero_iff, remainder] at stays
      rw [decide_eq_true_eq, le_zero_iff]
      simp only [Order.fill, matchQuantity]
      rw [toInt_sub_of_le, toInt_minWord]
      · omega
      · rw [toInt_minWord]
        omega
      · rw [toInt_minWord]
        omega

private theorem resting_not_invalid {order : Order} (resting : order.resting) :
    isInvalid order = false := by
  obtain ⟨live, remaining⟩ := resting
  simp only [isInvalid, Bool.or_eq_false_iff, decide_eq_false_iff_not,
    le_zero_iff, beq_eq_false_iff_ne]
  refine ⟨⟨?_, ?_⟩, by omega⟩
  · intro filled
    rw [filled] at live
    contradiction
  · intro canceled
    rw [canceled] at live
    contradiction

private theorem removeInvalid_of_resting {orders : List Order}
    (resting : ∀ order ∈ orders, order.resting) :
    removeInvalid orders = orders := by
  cases orders with
  | nil => rfl
  | cons order orders =>
      have valid := resting_not_invalid (resting order (by simp))
      simp [removeInvalid, valid]

/-- On a slice of resting orders the engine's loop is the sweep's. -/
theorem matchLoop_eq_loop {fuel : Nat} {matching : Matching}
    {orders : List Order} (resting : ∀ order ∈ orders, order.resting) :
    matchLoop fuel matching orders = matchRule.loop fuel matching orders := by
  induction fuel generalizing matching orders with
  | zero => rfl
  | succ fuel induction =>
      simp only [matchLoop, SweepRule.loop,
        removeInvalid_of_resting resting]
      by_cases done : matching.incoming.remainingQuantity ≤ 0
      · rw [if_pos done, if_pos (by simpa [matchRule] using done)]
      · rw [if_neg done, if_neg (by simpa [matchRule] using done)]
        rw [le_zero_iff] at done
        -- the slice has no invalid front, so the search starts at its head
        cases found : orders.findIdx? (isCounterparty matching.incoming) with
        | none =>
            simp only [findCounterparty, matchRule, found]
        | some index =>
            have isFound := found
            rw [List.findIdx?_eq_some_iff_getElem] at found
            obtain ⟨inside, counterparty, _⟩ := found
            have atIndex : orders[index]? = some orders[index] :=
              List.getElem?_eq_getElem inside
            have itemResting := resting orders[index] (List.getElem_mem inside)
            have quantityPositive : ¬ matchQuantity matching.incoming
                orders[index] ≤ 0 := by
              rw [le_zero_iff, matchQuantity, toInt_minWord]
              have := itemResting.2
              omega
            simp only [findCounterparty, matchRule, isFound, atIndex,
              executePair,
              if_neg quantityPositive]
            split
            · rw [induction]
              · rfl
              · intro order member
                exact resting order (List.mem_of_mem_eraseIdx member)
            · rename_i stays
              rw [induction]
              · rfl
              · intro order member
                rcases List.mem_or_eq_of_mem_set member with old | rfl
                · exact resting order old
                · rw [Order.afterFill, if_neg stays]
                  rw [le_zero_iff] at stays
                  exact ⟨rfl, Int.not_le.mp stays⟩

/-! Facts about an allocation. -/

@[simp] theorem allocate_nil (incoming : Order) (remaining : Int64) :
    allocate incoming remaining [] = [] := rfl

theorem allocate_cons_of_counterparty {incoming resting : Order}
    (counterparty : isCounterparty incoming resting = true)
    (remaining : Int64) (orders : List Order) :
    allocate incoming remaining (resting :: orders) =
      ⟨resting, minWord remaining resting.remainingQuantity⟩ ::
        allocate incoming
          (remaining - minWord remaining resting.remainingQuantity) orders := by
  simp [allocate, counterparty]

theorem allocate_cons_of_not_counterparty {incoming resting : Order}
    (other : isCounterparty incoming resting = false)
    (remaining : Int64) (orders : List Order) :
    allocate incoming remaining (resting :: orders) =
      ⟨resting, 0⟩ :: allocate incoming remaining orders := by
  simp [allocate, other]

private theorem allocate_fill (incoming : Order) (quantity remaining : Int64)
    (orders : List Order) :
    allocate (incoming.fill quantity) remaining orders =
      allocate incoming remaining orders := by
  induction orders generalizing remaining with
  | nil => rfl
  | cons resting orders induction =>
      have same : isCounterparty (incoming.fill quantity) resting =
          isCounterparty incoming resting := rfl
      simp only [allocate, same, induction]

@[simp] theorem allocate_map_maker (incoming : Order) (remaining : Int64)
    (orders : List Order) :
    (allocate incoming remaining orders).map Fill.maker = orders := by
  induction orders generalizing remaining with
  | nil => rfl
  | cons resting orders induction =>
      simp only [allocate, List.map_cons, induction]

theorem remaining_after {remaining amount : Int64}
    (nonneg : 0 ≤ remaining.toInt) (positive : 0 < amount.toInt) :
    (remaining - minWord remaining amount).toInt =
      remaining.toInt - min remaining.toInt amount.toInt := by
  rw [toInt_sub_of_le, toInt_minWord]
  · rw [toInt_minWord]
    omega
  · rw [toInt_minWord]
    omega

/-- The quantity of a fill. It is positive only for a counterparty, and never
more than the counterparty has left. -/
theorem allocate_quantity {incoming : Order} {remaining : Int64}
    {orders : List Order} (nonneg : 0 ≤ remaining.toInt)
    {fill : Fill} (member : fill ∈ allocate incoming remaining orders) :
    0 ≤ fill.quantity.toInt ∧
      (0 < fill.quantity.toInt →
        isCounterparty incoming fill.maker = true ∧
          fill.quantity.toInt ≤ fill.maker.remainingQuantity.toInt) := by
  induction orders generalizing remaining with
  | nil => simp at member
  | cons resting orders induction =>
      cases counterparty : isCounterparty incoming resting with
      | false =>
          rw [allocate_cons_of_not_counterparty counterparty] at member
          rcases List.mem_cons.mp member with rfl | tailMember
          · simp
          · exact induction nonneg tailMember
      | true =>
          have positive := isCounterparty_remaining counterparty
          have after := remaining_after nonneg positive
          rw [allocate_cons_of_counterparty counterparty] at member
          rcases List.mem_cons.mp member with rfl | tailMember
          · simp only [toInt_minWord]
            exact ⟨by omega, fun _ => ⟨counterparty, by omega⟩⟩
          · exact induction (by omega) tailMember

def filledSum (fills : List Fill) : Int :=
  (fills.map fun fill => fill.quantity.toInt).sum

@[simp] theorem filledSum_nil : filledSum [] = 0 := rfl

@[simp] theorem filledSum_cons (fill : Fill) (fills : List Fill) :
    filledSum (fill :: fills) = fill.quantity.toInt + filledSum fills := rfl

/-- An allocation hands out at most what is there, and leaves something only
when every counterparty has been taken whole. -/
theorem allocate_sum (incoming : Order) {remaining : Int64}
    (orders : List Order) (nonneg : 0 ≤ remaining.toInt) :
    0 ≤ filledSum (allocate incoming remaining orders) ∧
      filledSum (allocate incoming remaining orders) ≤ remaining.toInt ∧
      (filledSum (allocate incoming remaining orders) < remaining.toInt →
        ∀ fill ∈ allocate incoming remaining orders,
          isCounterparty incoming fill.maker = true →
            fill.quantity = fill.maker.remainingQuantity) := by
  induction orders generalizing remaining with
  | nil => simpa using nonneg
  | cons resting orders induction =>
      cases counterparty : isCounterparty incoming resting with
      | false =>
          rw [allocate_cons_of_not_counterparty counterparty, filledSum_cons]
          obtain ⟨sumNonneg, sumLe, whole⟩ := induction nonneg
          refine ⟨by simpa using sumNonneg, by simpa using sumLe, ?_⟩
          intro less fill member eligible
          rcases List.mem_cons.mp member with rfl | tailMember
          · rw [counterparty] at eligible
            contradiction
          · exact whole (by simpa using less) fill tailMember eligible
      | true =>
          have positive := isCounterparty_remaining counterparty
          have after := remaining_after nonneg positive
          rw [allocate_cons_of_counterparty counterparty, filledSum_cons,
            toInt_minWord]
          obtain ⟨sumNonneg, sumLe, whole⟩ :=
            @induction (remaining - minWord remaining resting.remainingQuantity)
              (by omega)
          rw [after] at sumLe whole
          refine ⟨by omega, by omega, ?_⟩
          intro less fill member eligible
          rcases List.mem_cons.mp member with rfl | tailMember
          · change minWord remaining resting.remainingQuantity =
              resting.remainingQuantity
            rw [← Int64.toInt_inj, toInt_minWord]
            omega
          · exact whole (by omega) fill tailMember eligible

theorem allocate_of_zero {incoming : Order} {remaining : Int64}
    {orders : List Order} (zero : remaining.toInt = 0)
    {fill : Fill} (member : fill ∈ allocate incoming remaining orders) :
    fill.quantity = 0 := by
  obtain ⟨quantityNonneg, _⟩ := allocate_quantity (by omega) member
  have sumLe := (allocate_sum incoming orders (le_of_eq zero.symm)).2.1
  have quantityLe : fill.quantity.toInt ≤
      filledSum (allocate incoming remaining orders) := by
    apply List.single_le_sum
    · intro amount amountMember
      obtain ⟨other, otherMember, rfl⟩ := List.mem_map.mp amountMember
      exact (allocate_quantity (le_of_eq zero.symm) otherMember).1
    · exact List.mem_map_of_mem member
  rw [eq_zero_iff]
  omega

private theorem filterMap_left_of_zero {allocated : List Fill}
    (zero : ∀ fill ∈ allocated, fill.quantity = 0) :
    allocated.filterMap Fill.left = allocated.map Fill.maker := by
  induction allocated with
  | nil => rfl
  | cons fill allocated induction =>
      have headZero := zero fill (by simp)
      have headLeft : fill.left = some fill.maker := by
        simp [Fill.left, headZero]
      rw [List.filterMap_cons_some headLeft, List.map_cons,
        induction fun later member => zero later (by simp [member])]

theorem filter_of_zero {allocated : List Fill}
    (zero : ∀ fill ∈ allocated, fill.quantity = 0) :
    allocated.filter (fun fill => decide (0 < fill.quantity)) = [] := by
  rw [List.filter_eq_nil_iff]
  intro fill member
  rw [zero fill member]
  decide

private theorem fills_of_done {incoming : Order} (orders : List Order)
    (zero : incoming.remainingQuantity.toInt = 0) :
    fills incoming orders = [] ∧ slicePast incoming orders = orders := by
  have none : ∀ fill ∈ allocate incoming incoming.remainingQuantity orders,
      fill.quantity = 0 := fun fill member => allocate_of_zero zero member
  refine ⟨filter_of_zero none, ?_⟩
  rw [slicePast, filterMap_left_of_zero none, allocate_map_maker]

private theorem fills_cons_of_not_counterparty {incoming resting : Order}
    (orders : List Order)
    (other : isCounterparty incoming resting = false) :
    fills incoming (resting :: orders) = fills incoming orders ∧
      slicePast incoming (resting :: orders) =
        resting :: slicePast incoming orders := by
  unfold fills slicePast
  rw [allocate_cons_of_not_counterparty other]
  exact ⟨rfl, rfl⟩

theorem fills_of_ineligible {incoming : Order} {orders : List Order}
    (ineligible : ∀ resting ∈ orders, isCounterparty incoming resting = false) :
    fills incoming orders = [] ∧ slicePast incoming orders = orders := by
  induction orders with
  | nil => exact ⟨rfl, rfl⟩
  | cons resting orders induction =>
      obtain ⟨sameFills, past⟩ := fills_cons_of_not_counterparty orders
        (ineligible resting (by simp))
      obtain ⟨noFills, same⟩ := induction fun later member =>
        ineligible later (by simp [member])
      rw [sameFills, past, noFills, same]
      exact ⟨rfl, rfl⟩

private theorem fills_cons_of_counterparty {incoming resting : Order}
    (orders : List Order)
    (isOpen : 0 < incoming.remainingQuantity.toInt)
    (counterparty : isCounterparty incoming resting = true) :
    let quantity := matchQuantity incoming resting
    fills incoming (resting :: orders) =
        ⟨resting, quantity⟩ :: fills (incoming.fill quantity) orders ∧
      slicePast incoming (resting :: orders) =
        (if (resting.fill quantity).remainingQuantity ≤ 0 then []
          else [(resting.fill quantity).afterFill]) ++
            slicePast (incoming.fill quantity) orders := by
  have positive := isCounterparty_remaining counterparty
  have quantityPositive : 0 < matchQuantity incoming resting := by
    rw [zero_lt_iff, matchQuantity, toInt_minWord]
    omega
  have notZero : ¬ matchQuantity incoming resting ≤ 0 := by
    rw [le_zero_iff]
    rw [zero_lt_iff] at quantityPositive
    omega
  unfold fills slicePast
  rw [allocate_cons_of_counterparty counterparty]
  simp only [allocate_fill]
  refine ⟨?_, ?_⟩
  · rw [List.filter_cons_of_pos]
    · rfl
    · exact decide_eq_true quantityPositive
  · change List.filterMap Fill.left (⟨resting, matchQuantity incoming resting⟩ ::
      allocate incoming
        (incoming.remainingQuantity - matchQuantity incoming resting) orders) =
          _
    by_cases whole :
        (resting.fill (matchQuantity incoming resting)).remainingQuantity ≤ 0
    · rw [List.filterMap_cons_none, if_pos whole]
      · rfl
      · simp [Fill.left, notZero, whole]
    · have headLeft : (⟨resting, matchQuantity incoming resting⟩ : Fill).left =
          some (resting.fill (matchQuantity incoming resting)).afterFill := by
        simp [Fill.left, Fill.filled, notZero, whole]
      rw [List.filterMap_cons_some headLeft, if_neg whole]
      rfl

private theorem matchRule_pass {matching : Matching} {orders : List Order}
    (nonneg : 0 ≤ matching.incoming.remainingQuantity.toInt) :
    matchRule.pass matching orders =
      (⟨matching.incoming.fillAll (fills matching.incoming orders),
          matching.makers ++
            (fills matching.incoming orders).map Fill.filled,
          matching.trades ++
            (fills matching.incoming orders).map
              (Fill.trade matching.incoming)⟩,
        slicePast matching.incoming orders) := by
  induction orders generalizing matching with
  | nil => simp [SweepRule.pass, fills, slicePast, Order.fillAll]
  | cons resting orders induction =>
      by_cases zero : matching.incoming.remainingQuantity.toInt = 0
      · obtain ⟨noFills, samePast⟩ := fills_of_done (resting :: orders) zero
        rw [SweepRule.pass_of_done, noFills, samePast]
        · simp [Order.fillAll]
        · simp only [matchRule, decide_eq_true_eq, le_zero_iff]
          omega
      · have notDone : matchRule.done matching = false := by
          simp only [matchRule, decide_eq_false_iff_not, le_zero_iff]
          omega
        cases counterparty : isCounterparty matching.incoming resting with
        | false =>
            have notEligible : matchRule.eligible matching resting = false :=
              counterparty
            obtain ⟨sameFills, past⟩ :=
              fills_cons_of_not_counterparty orders counterparty
            simp only [SweepRule.pass, notDone, notEligible,
              Bool.false_eq_true, if_false]
            rw [induction nonneg, sameFills, past]
        | true =>
            have isEligible : matchRule.eligible matching resting = true :=
              counterparty
            obtain ⟨theFills, past⟩ := fills_cons_of_counterparty orders
              (by omega) counterparty
            simp only [SweepRule.pass, notDone, isEligible,
              Bool.false_eq_true, if_false, if_true]
            have remainder := remaining_after nonneg
              (isCounterparty_remaining counterparty)
            rw [theFills, past]
            by_cases whole :
                (resting.fill (matchQuantity matching.incoming
                  resting)).remainingQuantity ≤ 0
            · have left : matchRule.leave matching resting = none := by
                simp [matchRule, whole]
              rw [left, if_pos whole]
              simp only
              rw [induction]
              · simp only [matchRule, Order.fillAll, List.foldl_cons,
                  List.map_cons, List.append_assoc, List.cons_append,
                  List.nil_append]
                rfl
              · simp only [matchRule, Order.fill, matchQuantity]
                omega
            · -- the resting order outlasts the incoming one: the walk is over
              have left : matchRule.leave matching resting =
                  some (resting.fill (matchQuantity matching.incoming
                    resting)).afterFill := by
                simp [matchRule, whole]
              have exhausted : (matching.incoming.fill
                  (matchQuantity matching.incoming
                    resting)).remainingQuantity.toInt = 0 := by
                have done := matchRule_lawful.done_of_leave matching resting _
                  notDone isEligible left
                simp only [matchRule, decide_eq_true_eq, le_zero_iff] at done
                simp only [Order.fill, matchQuantity] at done ⊢
                omega
              obtain ⟨noFills, samePast⟩ := fills_of_done orders exhausted
              rw [left, if_neg whole, noFills, samePast]
              simp only [matchRule, Order.fillAll, List.foldl_cons,
                List.foldl_nil, List.map_cons, List.map_nil,
                List.cons_append, List.nil_append]
              rfl

/-- Matching a non-negative remainder against a slice of resting orders is the
allocation: the loop ends and trades as a single pass does. -/
theorem matchAgainstBook_eq {orders : List Order} {incoming : Order}
    (resting : ∀ order ∈ orders, order.resting)
    (nonneg : 0 ≤ incoming.remainingQuantity.toInt) :
    matchAgainstBook orders incoming =
      (⟨incoming.fillAll (fills incoming orders),
          (fills incoming orders).map Fill.filled,
          (fills incoming orders).map (Fill.trade incoming)⟩,
        slicePast incoming orders) := by
  have pass := @matchRule_pass ⟨incoming, [], []⟩ orders nonneg
  unfold matchAgainstBook
  rw [matchLoop_eq_loop resting,
    SweepRule.loop_eq_pass matchRule_lawful (Nat.lt_succ_self _), pass]
  rfl

end Predix
