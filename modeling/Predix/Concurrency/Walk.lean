import Predix.Book.Allocation
import Predix.Ledger.Settlement

namespace Predix

open Data Word

/-! What the walk along a slice does to the orders it meets, whatever state they
are in. -/

def Order.Progressed (later earlier : Order) : Prop :=
  later =
    { earlier with
      filledQuantity := later.filledQuantity
      remainingQuantity := later.remainingQuantity
      status := later.status }

namespace Order.Progressed

theorem refl (order : Order) : order.Progressed order := rfl

theorem trans {first second third : Order} (left : first.Progressed second)
    (right : second.Progressed third) : first.Progressed third := by
  rw [Order.Progressed] at left right ⊢
  rw [right] at left
  exact left

theorem terms {later earlier : Order} (progressed : later.Progressed earlier) :
    later.SameTerms earlier := by
  rw [progressed]
  exact ⟨rfl, rfl, rfl, rfl, rfl, rfl, rfl⟩

theorem id {later earlier : Order} (progressed : later.Progressed earlier) :
    later.id = earlier.id := by
  rw [progressed]

theorem lockedFunds {later earlier : Order}
    (progressed : later.Progressed earlier) :
    later.lockedFunds = earlier.lockedFunds := by
  rw [progressed]

end Order.Progressed

theorem progressed_fill (order : Order) (quantity : Int64) :
    (order.fill quantity).Progressed order := rfl

theorem progressed_afterFill (order : Order) :
    order.afterFill.Progressed order := by
  unfold Order.afterFill
  split <;> rfl

theorem buildTrade_progressed {taker maker laterTaker laterMaker : Order}
    (takerLater : laterTaker.Progressed taker)
    (makerLater : laterMaker.Progressed maker) (quantity : Int64) :
    buildTrade laterTaker laterMaker quantity =
      buildTrade taker maker quantity := by
  rw [takerLater, makerLater]
  rfl

/-- The state of the loop, in terms of the order and the slice it started
with. -/
structure Walking (source : List Order) (taker : Order) (matching : Matching)
    (slice : List Order) : Prop where
  incoming : matching.incoming.Progressed taker
  sameStatus : matching.incoming.status = taker.status
  makers : ∀ maker ∈ matching.makers,
    ∃ earlier ∈ source, maker.Progressed earlier
  resting : ∀ order ∈ slice, ∃ earlier ∈ source, order.Progressed earlier
  ids : (slice.map (·.id)).Sublist (source.map (·.id))
  trades : ∀ trade ∈ matching.trades, ∃ maker ∈ source,
    trade = buildTrade taker maker trade.quantity ∧
      maker.outcome = taker.outcome ∧ maker.userID ≠ taker.userID ∧
      0 < trade.quantity

private theorem canMatch_outcome {incoming resting : Order}
    (acceptable : canMatch incoming resting = true) :
    incoming.outcome = resting.outcome := by
  unfold canMatch at acceptable
  split at acceptable
  · contradiction
  · rename_i same
    exact not_not.mp same

theorem findCounterparty_spec {slice : List Order} {incoming resting : Order}
    {index : Nat} (isIndex : findCounterparty slice incoming = some index)
    (found : slice[index]? = some resting) :
    isCounterparty incoming resting = true := by
  obtain ⟨inside, counterparty, -⟩ :=
    List.findIdx?_eq_some_iff_getElem.mp isIndex
  obtain ⟨_, rfl⟩ := List.getElem?_eq_some_iff.mp found
  exact counterparty

section Walk

variable {source slice : List Order} {taker : Order} {matching : Matching}

theorem Walking.start (source : List Order) (taker : Order) :
    Walking source taker ⟨taker, [], []⟩ source where
  incoming := .refl taker
  sameStatus := rfl
  makers := by simp
  resting := fun order member => ⟨order, member, .refl order⟩
  ids := List.Sublist.refl _
  trades := by simp

theorem Walking.sublist (walking : Walking source taker matching slice)
    {fewer : List Order} (fewerOf : fewer.Sublist slice) :
    Walking source taker matching fewer :=
  { walking with
    resting := fun order member =>
      walking.resting order (fewerOf.subset member)
    ids := (fewerOf.map (·.id)).trans walking.ids }

private theorem map_id_set {index : Nat} {resting later : Order}
    (found : slice[index]? = some resting) (same : later.id = resting.id) :
    (slice.set index later).map (·.id) = slice.map (·.id) := by
  rw [List.map_set, same]
  apply List.ext_getElem?
  intro position
  rw [List.getElem?_set]
  split
  · rename_i here
    subst here
    obtain ⟨inside, isResting⟩ := List.getElem?_eq_some_iff.mp found
    simp [inside, isResting]
  · rfl

private theorem Walking.set (walking : Walking source taker matching slice)
    {index : Nat} {resting later : Order} (found : slice[index]? = some resting)
    (progressed : later.Progressed resting) :
    Walking source taker matching (slice.set index later) := by
  refine { walking with resting := ?_, ids := ?_ }
  · intro order member
    rcases List.mem_or_eq_of_mem_set member with old | rfl
    · exact walking.resting order old
    · obtain ⟨earlier, inSource, before⟩ :=
        walking.resting resting (List.mem_of_getElem? found)
      exact ⟨earlier, inSource, progressed.trans before⟩
  · rw [map_id_set found progressed.id]
    exact walking.ids

private theorem Walking.traded (walking : Walking source taker matching slice)
    {resting : Order} (member : resting ∈ slice)
    (counterparty : isCounterparty matching.incoming resting = true)
    (positive : 0 < matchQuantity matching.incoming resting) :
    let quantity := matchQuantity matching.incoming resting
    Walking source taker
      { incoming := matching.incoming.fill quantity
        makers := matching.makers ++ [(resting.fill quantity).afterFill]
        trades := matching.trades ++
          [buildTrade matching.incoming resting quantity] } slice := by
  intro quantity
  obtain ⟨earlier, inSource, before⟩ := walking.resting resting member
  have later : (resting.fill quantity).afterFill.Progressed earlier :=
    ((progressed_afterFill _).trans (progressed_fill _ _)).trans before
  refine ⟨(progressed_fill _ _).trans walking.incoming, walking.sameStatus,
    ?_, walking.resting, walking.ids, ?_⟩
  · intro maker isMaker
    rcases List.mem_append.mp isMaker with old | new
    · exact walking.makers maker old
    · rw [List.mem_singleton.mp new]
      exact ⟨earlier, inSource, later⟩
  · intro trade isTrade
    rcases List.mem_append.mp isTrade with old | new
    · exact walking.trades trade old
    · rw [List.mem_singleton.mp new]
      refine ⟨earlier, inSource,
        buildTrade_progressed walking.incoming before quantity, ?_, ?_,
        positive⟩
      · rw [← before.terms.outcome, ← walking.incoming.terms.outcome]
        exact (canMatch_outcome (isCounterparty_canMatch counterparty)).symm
      · rw [← before.terms.userID, ← walking.incoming.terms.userID]
        exact isCounterparty_user counterparty

theorem Walking.executePair (walking : Walking source taker matching slice)
    {index : Nat} {resting : Order} (found : slice[index]? = some resting)
    (counterparty : isCounterparty matching.incoming resting = true) :
    Walking source taker (executePair matching resting slice index).1
      (executePair matching resting slice index).2 := by
  unfold Predix.executePair
  simp only
  split
  · exact walking
  · rename_i positive
    have traded := walking.traded (List.mem_of_getElem? found) counterparty
      (by rw [le_zero_iff] at positive; rw [zero_lt_iff]; omega)
    split
    · exact traded.sublist (List.eraseIdx_sublist _ _)
    · exact traded.set found
        ((progressed_afterFill _).trans (progressed_fill _ _))

private theorem Walking.matchLoop (fuel : Nat)
    (walking : Walking source taker matching slice) :
    Walking source taker (matchLoop fuel matching slice).1
      (matchLoop fuel matching slice).2 := by
  induction fuel generalizing matching slice with
  | zero => exact walking
  | succ fuel induction =>
      unfold Predix.matchLoop
      split
      · exact walking
      · have valid := walking.sublist
          (List.dropWhile_sublist isInvalid : (removeInvalid slice).Sublist _)
        simp only
        split
        · exact valid
        · rename_i index isIndex
          split
          · exact valid
          · rename_i resting found
            exact induction (valid.executePair found
              (findCounterparty_spec isIndex found))

end Walk

theorem matchAgainstBook_walking (source : List Order) (taker : Order) :
    Walking source taker (matchAgainstBook source taker).1
      (matchAgainstBook source taker).2 :=
  (Walking.start source taker).matchLoop _

/-! How much a walk trades. -/

/-- The loop has given these fills to the incoming order, no two of them to one
maker. As long as something remains, the rest of the slice is untouched. -/
structure Filling (source : List Order) (taker : Order) (matching : Matching)
    (slice : List Order) (fills : List Fill) : Prop where
  trades : matching.trades = fills.map (Fill.trade taker)
  makers : matching.makers = fills.map Fill.filled
  distinct : (fills.map (·.maker.id)).Nodup
  fromSource : ∀ fill ∈ fills, fill.maker ∈ source
  eligible : ∀ fill ∈ fills, isCounterparty taker fill.maker = true
  quantity : ∀ fill ∈ fills, 0 < fill.quantity.toInt ∧
    fill.quantity.toInt ≤ fill.maker.remainingQuantity.toInt
  remaining : matching.incoming.remainingQuantity.toInt + filledSum fills =
    taker.remainingQuantity.toInt
  nonneg : 0 ≤ matching.incoming.remainingQuantity.toInt
  untouched : 0 < matching.incoming.remainingQuantity.toInt →
    ∀ order ∈ slice, order ∈ source ∧ ∀ fill ∈ fills, fill.maker.id ≠ order.id

private theorem isCounterparty_progressed {later earlier resting : Order}
    (progressed : later.Progressed earlier) :
    isCounterparty later resting = isCounterparty earlier resting := by
  rw [progressed]
  rfl

private theorem ne_of_mem_eraseIdx {slice : List Order} {index : Nat}
    {resting order : Order} (distinct : (slice.map (·.id)).Nodup)
    (found : slice[index]? = some resting)
    (member : order ∈ slice.eraseIdx index) : resting.id ≠ order.id := by
  intro same
  obtain ⟨position, other, isOrder⟩ := List.mem_eraseIdx_iff_getElem?.mp member
  have first : (slice.map (·.id))[index]? = some order.id := by
    rw [List.getElem?_map, found, Option.map_some, same]
  have second : (slice.map (·.id))[position]? = some order.id := by
    rw [List.getElem?_map, isOrder, Option.map_some]
  obtain ⟨inside, _⟩ := List.getElem?_eq_some_iff.mp first
  exact other ((List.getElem?_inj inside distinct).mp
    (first.trans second.symm)).symm

private theorem filledSum_append (first second : List Fill) :
    filledSum (first ++ second) = filledSum first + filledSum second := by
  unfold filledSum
  rw [List.map_append, List.sum_append]

section Filling

variable {source slice : List Order} {taker : Order} {matching : Matching}
  {fills : List Fill}

private theorem Filling.start (source : List Order) {taker : Order}
    (nonneg : 0 ≤ taker.remainingQuantity.toInt) :
    Filling source taker ⟨taker, [], []⟩ source [] where
  trades := rfl
  makers := rfl
  distinct := List.nodup_nil
  fromSource := by simp
  eligible := by simp
  quantity := by simp
  remaining := Int.add_zero _
  nonneg := nonneg
  untouched := fun _ order member => ⟨member, by simp⟩

private theorem Filling.sublist
    (filling : Filling source taker matching slice fills)
    {fewer : List Order} (fewerOf : fewer.Sublist slice) :
    Filling source taker matching fewer fills :=
  { filling with
    untouched := fun remains order member =>
      filling.untouched remains order (fewerOf.subset member) }

private theorem Filling.append
    (filling : Filling source taker matching slice fills)
    (walking : Walking source taker matching slice)
    (remains : 0 < matching.incoming.remainingQuantity.toInt)
    {resting : Order} (member : resting ∈ slice)
    (counterparty : isCounterparty matching.incoming resting = true)
    {quantity : Int64} (positive : 0 < quantity.toInt)
    (le : quantity.toInt ≤ matching.incoming.remainingQuantity.toInt)
    (restingLe : quantity.toInt ≤ resting.remainingQuantity.toInt)
    {rest : List Order}
    (restOf : quantity.toInt < matching.incoming.remainingQuantity.toInt →
      ∀ order ∈ rest, order ∈ slice ∧ resting.id ≠ order.id) :
    Filling source taker
      { incoming := matching.incoming.fill quantity
        makers := matching.makers ++ [(resting.fill quantity).afterFill]
        trades := matching.trades ++
          [buildTrade matching.incoming resting quantity] } rest
      (fills ++ [⟨resting, quantity⟩]) := by
  obtain ⟨inSource, unfilled⟩ := filling.untouched remains resting member
  have incoming := walking.incoming
  have left : (matching.incoming.remainingQuantity - quantity).toInt =
      matching.incoming.remainingQuantity.toInt - quantity.toInt := by
    apply toInt_sub_of_le <;> omega
  -- a fill is an old one or the new one
  have each : ∀ {property : Fill → Prop}, (∀ fill ∈ fills, property fill) →
      property ⟨resting, quantity⟩ →
        ∀ fill ∈ fills ++ [⟨resting, quantity⟩], property fill := by
    intro property old new fill isFill
    rcases List.mem_append.mp isFill with isOld | isNew
    · exact old fill isOld
    · rw [List.mem_singleton.mp isNew]
      exact new
  constructor
  case trades =>
    rw [List.map_append, filling.trades,
      buildTrade_progressed incoming (.refl resting)]
    rfl
  case makers =>
    rw [List.map_append, filling.makers]
    rfl
  case distinct =>
    rw [List.map_append, List.nodup_append]
    refine ⟨filling.distinct, by simp, ?_⟩
    intro id isMaker other isResting same
    obtain ⟨fill, isFill, rfl⟩ := List.mem_map.mp isMaker
    rw [List.map_singleton, List.mem_singleton] at isResting
    exact unfilled fill isFill (same.trans isResting)
  case fromSource => exact each filling.fromSource inSource
  case eligible =>
    apply each filling.eligible
    rw [← isCounterparty_progressed incoming]
    exact counterparty
  case quantity => exact each filling.quantity ⟨positive, restingLe⟩
  case remaining =>
    have before := filling.remaining
    rw [filledSum_append, filledSum_cons, filledSum_nil]
    change (matching.incoming.remainingQuantity - quantity).toInt +
      (filledSum fills + (quantity.toInt + 0)) = _
    rw [left]
    omega
  case nonneg =>
    change 0 ≤ (matching.incoming.remainingQuantity - quantity).toInt
    rw [left]
    omega
  case untouched =>
    intro stillRemains order isRest
    change 0 < (matching.incoming.remainingQuantity - quantity).toInt
      at stillRemains
    rw [left] at stillRemains
    obtain ⟨inSlice, other⟩ := restOf (by omega) order isRest
    obtain ⟨orderSource, others⟩ := filling.untouched remains order inSlice
    exact ⟨orderSource, each others other⟩

private theorem Filling.executePair
    (filling : Filling source taker matching slice fills)
    (walking : Walking source taker matching slice)
    (distinct : (slice.map (·.id)).Nodup)
    (remains : 0 < matching.incoming.remainingQuantity.toInt)
    {index : Nat} {resting : Order} (found : slice[index]? = some resting)
    (counterparty : isCounterparty matching.incoming resting = true) :
    ∃ more, Filling source taker (executePair matching resting slice index).1
      (executePair matching resting slice index).2 more := by
  have restingOpen := isCounterparty_remaining counterparty
  have amount : (matchQuantity matching.incoming resting).toInt = _ :=
    toInt_minWord matching.incoming.remainingQuantity resting.remainingQuantity
  have restLeft : (resting.remainingQuantity -
      matchQuantity matching.incoming resting).toInt =
        resting.remainingQuantity.toInt -
          (matchQuantity matching.incoming resting).toInt := by
    apply toInt_sub_of_le <;> rw [amount] <;> omega
  unfold Predix.executePair
  simp only
  rw [if_neg (by rw [le_zero_iff, amount]; omega)]
  refine ⟨fills ++ [⟨resting, matchQuantity matching.incoming resting⟩], ?_⟩
  have traded := @Filling.append _ _ _ _ _ filling walking remains resting
    (List.mem_of_getElem? found) counterparty
    (matchQuantity matching.incoming resting) (by omega) (by omega) (by omega)
  split
  · apply traded
    intro _ order isRest
    exact ⟨List.mem_of_mem_eraseIdx isRest,
      ne_of_mem_eraseIdx distinct found isRest⟩
  · rename_i stays
    apply traded
    -- a maker that is not filled has used up the incoming order
    intro stillRemains
    change ¬ resting.remainingQuantity - _ ≤ 0 at stays
    rw [Word.le_zero_iff, restLeft, amount] at stays
    omega

private theorem Filling.matchLoop (fuel : Nat)
    (filling : Filling source taker matching slice fills)
    (walking : Walking source taker matching slice)
    (distinct : (source.map (·.id)).Nodup) :
    ∃ more, Filling source taker (matchLoop fuel matching slice).1
      (matchLoop fuel matching slice).2 more := by
  induction fuel generalizing matching slice fills with
  | zero => exact ⟨fills, filling⟩
  | succ fuel induction =>
      unfold Predix.matchLoop
      split
      · exact ⟨fills, filling⟩
      · rename_i remains
        rw [le_zero_iff] at remains
        have fewer : (removeInvalid slice).Sublist slice :=
          List.dropWhile_sublist isInvalid
        have valid := walking.sublist fewer
        have validFilling := filling.sublist fewer
        simp only
        split
        · exact ⟨fills, validFilling⟩
        · rename_i index isIndex
          split
          · exact ⟨fills, validFilling⟩
          · rename_i resting found
            have counterparty := findCounterparty_spec isIndex found
            obtain ⟨more, next⟩ := validFilling.executePair valid
              (valid.ids.nodup distinct) (by omega) found counterparty
            exact induction next (valid.executePair found counterparty)

end Filling

/-- What matching an order against a slice trades: every maker at most once and
within what it has left, and no more than the order asks for. -/
theorem matchAgainstBook_filling {source : List Order} {taker : Order}
    (distinct : (source.map (·.id)).Nodup)
    (nonneg : 0 ≤ taker.remainingQuantity.toInt) :
    ∃ fills, Filling source taker (matchAgainstBook source taker).1
      (matchAgainstBook source taker).2 fills :=
  (Filling.start source nonneg).matchLoop _ (Walking.start source taker)
    distinct

end Predix
