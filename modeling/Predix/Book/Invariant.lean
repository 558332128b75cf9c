import Predix.Book.Matched

namespace Predix

open Data Word

/-! The books stay in order along every run. -/

theorem Fill.left_cases {fill : Fill} {order : Order}
    (left : fill.left = some order) :
    fill.quantity.toInt ≤ 0 ∧ order = fill.maker ∨
      0 < fill.quantity.toInt ∧
        0 < (fill.maker.fill fill.quantity).remainingQuantity.toInt ∧
        order = fill.filled := by
  unfold Fill.left at left
  simp only [le_zero_iff] at left
  split at left
  · rename_i untouched
    exact .inl ⟨untouched, (Option.some.inj left).symm⟩
  · rename_i touched
    split at left
    · contradiction
    · rename_i remains
      exact .inr ⟨by omega, by omega, (Option.some.inj left).symm⟩

theorem Fill.left_eq {fill : Fill} {order : Order}
    (left : fill.left = some order) :
    order =
      { fill.maker with
        filledQuantity := order.filledQuantity
        remainingQuantity := order.remainingQuantity
        status := order.status } := by
  rcases Fill.left_cases left with ⟨_, rfl⟩ | ⟨_, _, rfl⟩
  · rfl
  · exact fill.filled_eq

theorem Fill.left_terms {fill : Fill} {order : Order}
    (left : fill.left = some order) : order.SameTerms fill.maker := by
  rw [Fill.left_eq left]
  exact ⟨rfl, rfl, rfl, rfl, rfl, rfl, rfl⟩

private theorem Fill.left_live {fill : Fill} {order : Order}
    (left : fill.left = some order) (live : fill.maker.status.live = true) :
    order.status.live = true := by
  rcases Fill.left_cases left with ⟨_, rfl⟩ | ⟨_, remains, rfl⟩
  · exact live
  · have notDone :
        ¬ (fill.maker.fill fill.quantity).remainingQuantity ≤ 0 := by
      rw [le_zero_iff]
      omega
    simp only [Fill.filled, Order.afterFill, if_neg notDone]
    rfl

theorem mem_slicePast {incoming order : Order} {orders : List Order} :
    order ∈ slicePast incoming orders ↔
      ∃ fill ∈ allocate incoming incoming.remainingQuantity orders,
        fill.left = some order :=
  List.mem_filterMap

theorem allocate_maker_mem {incoming : Order} {remaining : Int64}
    {orders : List Order} {fill : Fill}
    (member : fill ∈ allocate incoming remaining orders) :
    fill.maker ∈ orders := by
  rw [← allocate_map_maker incoming remaining orders]
  exact List.mem_map_of_mem member

theorem addToBook_perm (orders : List Order) (added : Order) :
    (addToBook orders added).Perm (orders ++ [added]) :=
  List.perm_insertionSort _ _

theorem mem_addToBook {orders : List Order} {added resting : Order} :
    resting ∈ addToBook orders added ↔ resting ∈ orders ∨ resting = added := by
  unfold addToBook
  rw [List.mem_insertionSort, List.mem_append, List.mem_singleton]

section Accepted

variable {engine : Engine} {order : Order} {market : Market}

section Queues

variable (wellFormed : WellFormed engine)
  (fresh : engine.orders.lookup order.id = none)
  (hasMarket : engine.markets.lookup order.eventID = some market)

include wellFormed fresh

private theorem lookup_walked_queue {eventID : String} {outcome : Outcome}
    {side : Side} {resting : Order}
    (member : resting ∈ engine.queue eventID outcome side)
    (elsewhere : ¬ (eventID = order.eventID ∧ outcome = order.outcome ∧
      side = order.side.opposite)) :
    (engine.walked order market).orders.lookup resting.id =
      some resting := by
  have present := wellFormed.lookup_of_mem member
  rw [lookup_walked_other, present]
  · intro same
    rw [same, fresh] at present
    contradiction
  · intro fill fillMember same
    obtain ⟨makerPresent, _, event, outcomes, sides⟩ :=
      fillsFor_maker wellFormed fillMember
    rw [same, present] at makerPresent
    cases Option.some.inj makerPresent
    obtain ⟨_, _, ownEvent, ownOutcome, ownSide⟩ := wellFormed.resting member
    exact elsewhere ⟨ownEvent.symm.trans event,
      ownOutcome.symm.trans outcomes, ownSide.symm.trans sides⟩

private theorem lookup_walked_slicePast {resting : Order}
    (member : resting ∈ slicePast order (engine.opposing order)) :
    (engine.walked order market).orders.lookup resting.id =
      some resting := by
  obtain ⟨fill, allocated, left⟩ := mem_slicePast.mp member
  have makerMember := allocate_maker_mem allocated
  rcases Fill.left_cases left with ⟨untouched, rfl⟩ | ⟨touched, _, rfl⟩
  · have present := (opposing_mem wellFormed makerMember).1
    rw [lookup_walked_other, present]
    · intro same
      rw [same, fresh] at present
      contradiction
    · intro other otherMember same
      obtain ⟨otherAllocated, positive⟩ := mem_fills.mp otherMember
      have distinct : ((allocate order order.remainingQuantity
          (engine.opposing order)).map (·.maker.id)).Nodup := by
        have ids := wellFormed.queue_ids_nodup order.eventID order.outcome
          order.side.opposite
        change ((engine.opposing order).map (·.id)).Nodup at ids
        rw [← allocate_map_maker order order.remainingQuantity
          (engine.opposing order), List.map_map] at ids
        exact ids
      have equal := List.inj_on_of_nodup_map distinct otherAllocated allocated
        same
      rw [equal] at positive
      omega
  · rw [Fill.filled_id]
    exact lookup_walked_maker wellFormed fresh
      (mem_fills.mpr ⟨allocated, touched⟩)

def Engine.ownQueue (engine : Engine) (order : Order) : List Order :=
  if (engine.taker order).status.live then
    addToBook (engine.queue order.eventID order.outcome order.side)
      (engine.taker order)
  else
    engine.queue order.eventID order.outcome order.side

def Engine.bookAfter (engine : Engine) (order : Order) (market : Market) :
    OrderBook :=
  let past := (market.book order.outcome).setSlice order.side.opposite
    ((slicePast order (engine.opposing order)).map (·.id))
  if (engine.taker order).status.live then
    past.setSlice order.side
      ((addToBook (engine.queue order.eventID order.outcome order.side)
        (engine.taker order)).map (·.id))
  else
    past

include hasMarket

theorem walked_markets :
    (engine.walked order market).markets =
      engine.markets.insert order.eventID
        (market.setBook order.outcome (engine.bookAfter order market)) := by
  have terms := taker_terms engine order
  have own : (engine.enrolled order).load
      ((market.book order.outcome).slice order.side) =
        engine.queue order.eventID order.outcome order.side := by
    rw [← slice_of_market hasMarket, load_enrolled wellFormed fresh]
  simp only [Engine.walked, Engine.storeMatch, Engine.bookAfter,
    terms.eventID, terms.outcome, terms.side, enrolled_markets,
    OrderBook.slice_setSlice,
    if_neg (Ne.symm order.side.opposite_ne), own]

omit fresh in
theorem slice_bookAfter (side : Side) :
    (engine.bookAfter order market).slice side =
      if side = order.side then
        (engine.ownQueue order).map (·.id)
      else
        (slicePast order (engine.opposing order)).map (·.id) := by
  unfold Engine.bookAfter Engine.ownQueue
  by_cases same : side = order.side
  · subst same
    split
    · simp
    · simp only [OrderBook.slice_setSlice, if_true,
        if_neg (Ne.symm order.side.opposite_ne)]
      rw [wellFormed.registered, slice_of_market hasMarket]
  · have across := Side.eq_opposite_of_ne same
    split
    · simp [across]
    · simp [across]

theorem slice_walked (eventID : String) (outcome : Outcome) (side : Side) :
    (engine.walked order market).slice eventID outcome side =
      if eventID = order.eventID ∧ outcome = order.outcome then
        if side = order.side then
          (engine.ownQueue order).map (·.id)
        else
          (slicePast order (engine.opposing order)).map (·.id)
      else
        engine.slice eventID outcome side := by
  have lookedUp : (engine.walked order market).markets.lookup eventID =
      if eventID = order.eventID then
        some (market.setBook order.outcome (engine.bookAfter order market))
      else
        engine.markets.lookup eventID := by
    rw [walked_markets wellFormed fresh hasMarket,
      FiniteMap.lookup_insert_eq]
  by_cases event : eventID = order.eventID
  · rw [if_pos event] at lookedUp
    rw [slice_of_market lookedUp, Market.book_setBook]
    by_cases same : outcome = order.outcome
    · rw [if_pos same, if_pos ⟨event, same⟩,
        slice_bookAfter wellFormed hasMarket]
    · rw [if_neg same, if_neg fun both => same both.2, event,
        slice_of_market hasMarket]
  · rw [if_neg event] at lookedUp
    rw [if_neg fun both => event both.1]
    simp only [Engine.slice, lookedUp]

theorem queue_walked (eventID : String) (outcome : Outcome) (side : Side) :
    (engine.walked order market).queue eventID outcome side =
      if eventID = order.eventID ∧ outcome = order.outcome then
        if side = order.side then
          engine.ownQueue order
        else
          slicePast order (engine.opposing order)
      else
        engine.queue eventID outcome side := by
  unfold Engine.queue
  rw [slice_walked wellFormed fresh hasMarket]
  by_cases here : eventID = order.eventID ∧ outcome = order.outcome
  · rw [if_pos here, if_pos here]
    by_cases own : side = order.side
    · rw [if_pos own, if_pos own]
      apply load_map_id
      intro resting member
      have untouched : ∀ resting ∈
          engine.queue order.eventID order.outcome order.side,
          (engine.walked order market).orders.lookup resting.id =
            some resting := by
        intro resting member
        apply lookup_walked_queue wellFormed fresh member
        rintro ⟨_, _, across⟩
        exact order.side.opposite_ne across.symm
      unfold Engine.ownQueue at member
      split at member
      · rcases mem_addToBook.mp member with old | rfl
        · exact untouched resting old
        · rw [taker_id]
          exact lookup_walked_taker
      · exact untouched resting member
    · rw [if_neg own, if_neg own]
      exact load_map_id fun resting member =>
        lookup_walked_slicePast wellFormed fresh member
  · rw [if_neg here, if_neg here]
    apply List.filterMap_congr
    intro id member
    obtain ⟨resting, restingMember, rfl⟩ := wellFormed.id_mem_slice.mp member
    rw [wellFormed.lookup_of_mem restingMember]
    apply lookup_walked_queue wellFormed fresh restingMember
    rintro ⟨event, same, _⟩
    exact here ⟨event, same⟩

end Queues

def Order.apartFrom (side : Side) (own other : Order) : Prop :=
  match side with
  | .sideBuy => own.price.toInt < other.price.toInt
  | .sideSell => other.price.toInt < own.price.toInt

private theorem WellFormed.apart (wellFormed : WellFormed engine)
    {eventID : String} {outcome : Outcome} {side : Side} {own other : Order}
    (ownMember : own ∈ engine.queue eventID outcome side)
    (otherMember : other ∈ engine.queue eventID outcome side.opposite)
    (different : own.userID ≠ other.userID) : own.apartFrom side other := by
  cases side with
  | sideBuy => exact wellFormed.uncrossed ownMember otherMember different
  | sideSell =>
      exact wellFormed.uncrossed otherMember ownMember (Ne.symm different)

section WalkedQueues

variable (wellFormed : WellFormed engine) (submitted : order.Submitted)
  (fresh : engine.orders.lookup order.id = none)
  (hasMarket : engine.markets.lookup order.eventID = some market)

theorem taker_live :
    (engine.taker order).status.live = true ↔
      order.orderType = .orderTypeLimit ∧
        (engine.taker order).remainingQuantity.toInt ≠ 0 := by
  rw [taker_status, statusAfterMatch_live,
    (taker_terms engine order).orderType]

theorem mem_ownQueue {resting : Order} :
    resting ∈ engine.ownQueue order ↔
      resting ∈ engine.queue order.eventID order.outcome order.side ∨
        resting = engine.taker order ∧
          (engine.taker order).status.live = true := by
  unfold Engine.ownQueue
  split
  · rename_i live
    rw [mem_addToBook]
    simp [live]
  · rename_i closed
    simp [closed]

include wellFormed in
private theorem ownQueue_resting {resting : Order}
    (member : resting ∈ engine.ownQueue order) :
    resting.orderType = .orderTypeLimit ∧ resting.status.live = true ∧
      resting.eventID = order.eventID ∧ resting.outcome = order.outcome ∧
      resting.side = order.side := by
  rcases mem_ownQueue.mp member with old | ⟨rfl, live⟩
  · exact wellFormed.resting old
  · have terms := taker_terms engine order
    exact ⟨terms.orderType.trans (taker_live.mp live).1, live, terms.eventID,
      terms.outcome, terms.side⟩

include wellFormed in
private theorem slicePast_resting {resting : Order}
    (member : resting ∈ slicePast order (engine.opposing order)) :
    resting.orderType = .orderTypeLimit ∧ resting.status.live = true ∧
      resting.eventID = order.eventID ∧ resting.outcome = order.outcome ∧
      resting.side = order.side.opposite := by
  obtain ⟨fill, allocated, left⟩ := mem_slicePast.mp member
  obtain ⟨limit, live, event, outcome, side⟩ :=
    wellFormed.resting (allocate_maker_mem allocated)
  have terms := Fill.left_terms left
  exact ⟨terms.orderType.trans limit, Fill.left_live left live,
    terms.eventID.trans event, terms.outcome.trans outcome,
    terms.side.trans side⟩

private theorem mem_slicePast_of_untouched {resting : Order}
    (member : resting ∈ engine.opposing order)
    (untouched : ∀ fill ∈ engine.fillsFor order,
      fill.maker.id ≠ resting.id) :
    resting ∈ slicePast order (engine.opposing order) := by
  rw [← allocate_map_maker order order.remainingQuantity
    (engine.opposing order)] at member
  obtain ⟨fill, allocated, rfl⟩ := List.mem_map.mp member
  refine mem_slicePast.mpr ⟨fill, allocated, ?_⟩
  have nothing : fill.quantity ≤ 0 := by
    rw [le_zero_iff]
    by_contra positive
    exact untouched fill
      (mem_fills.mpr ⟨allocated, by omega⟩) rfl
  rw [Fill.left, if_pos nothing]

private theorem mem_slicePast_of_live {fill : Fill}
    (member : fill ∈ engine.fillsFor order)
    (live : fill.filled.status.live = true) :
    fill.filled ∈ slicePast order (engine.opposing order) := by
  obtain ⟨allocated, positive⟩ := mem_fills.mp member
  refine mem_slicePast.mpr ⟨fill, allocated, ?_⟩
  have remains : ¬ (fill.maker.fill fill.quantity).remainingQuantity ≤ 0 := by
    intro done
    simp only [Fill.filled, Order.afterFill, if_pos done] at live
    contradiction
  have some : ¬ fill.quantity ≤ 0 := by
    rw [le_zero_iff]
    omega
  rw [Fill.left, if_neg some, if_neg remains]

include wellFormed submitted in
private theorem ownQueue_apart {own other : Order}
    (ownMember : own ∈ engine.ownQueue order)
    (otherMember : other ∈ slicePast order (engine.opposing order))
    (different : own.userID ≠ other.userID) :
    own.apartFrom order.side other := by
  obtain ⟨fill, allocated, left⟩ := mem_slicePast.mp otherMember
  have makerMember := allocate_maker_mem allocated
  have terms := Fill.left_terms left
  have sameApart : own.apartFrom order.side other ↔
      own.apartFrom order.side fill.maker := by
    unfold Order.apartFrom
    rw [terms.price]
  rw [sameApart]
  rw [terms.userID] at different
  rcases mem_ownQueue.mp ownMember with old | ⟨rfl, live⟩
  · exact wellFormed.apart old makerMember different
  · -- the order itself rests, so it has taken every counterparty whole
    obtain ⟨limit, remains⟩ := taker_live.mp live
    rw [(taker_terms engine order).userID] at different
    have sumLe := fillsFor_sum_le engine submitted
    rw [taker_remaining _ submitted] at remains
    have short : filledSum (fills order (engine.opposing order)) <
        order.remainingQuantity.toInt := by
      rw [submitted.remaining]
      change filledSum (engine.fillsFor order) < _
      omega
    obtain ⟨makerLive, makerOpen⟩ := wellFormed.remaining_of_mem makerMember
    have notCounterparty : isCounterparty order fill.maker = false := by
      by_contra counterparty
      rw [Bool.not_eq_false] at counterparty
      have whole := fills_exhausted (le_of_lt (submitted_open submitted)) short
        allocated counterparty
      rcases Fill.left_cases left with ⟨untouched, _⟩ | ⟨_, rest, _⟩
      · rw [whole] at untouched
        omega
      · have zero : (fill.maker.fill fill.quantity).remainingQuantity.toInt =
            fill.maker.remainingQuantity.toInt - fill.quantity.toInt := by
          apply toInt_sub_of_le
          · rw [whole]
            omega
          · rw [whole]
        rw [zero, whole] at rest
        omega
    have noMatch : canMatch order fill.maker = false := by
      simpa [isCounterparty, makerLive, zero_lt_iff, makerOpen,
        Ne.symm different] using notCounterparty
    have outcome := (wellFormed.resting makerMember).2.2.2.1
    unfold canMatch at noMatch
    rw [if_neg (by rw [outcome]; simp), limit] at noMatch
    unfold Order.apartFrom
    rw [(taker_terms engine order).price]
    cases side : order.side with
    | sideBuy =>
        simpa [side, Int64.le_iff_toInt_le] using noMatch
    | sideSell =>
        simpa [side, Int64.le_iff_toInt_le] using noMatch

theorem sortsBefore_total (side : Side) :
    Std.Total (Order.sortsBefore side) where
  total := by
    intro left right
    cases side <;> simp only [Order.sortsBefore, Int64.le_iff_toInt_le] <;>
      omega

theorem sortsBefore_trans (side : Side) :
    IsTrans Order (Order.sortsBefore side) where
  trans := by
    intro first second third
    cases side <;> simp only [Order.sortsBefore, Int64.le_iff_toInt_le] <;>
      omega

private theorem addToBook_sorted (orders : List Order) (added : Order) :
    (addToBook orders added).Pairwise (Order.sortsBefore added.side) := by
  have total := sortsBefore_total added.side
  have trans := sortsBefore_trans added.side
  exact List.pairwise_insertionSort _ _

include wellFormed in
private theorem ownQueue_sorted :
    (engine.ownQueue order).Pairwise (Order.sortsBefore order.side) := by
  unfold Engine.ownQueue
  split
  · rw [← (taker_terms engine order).side]
    exact addToBook_sorted _ _
  · exact wellFormed.sorted _ _ _

include wellFormed in
private theorem slicePast_sorted :
    (slicePast order (engine.opposing order)).Pairwise
      (Order.sortsBefore order.side.opposite) := by
  have old := wellFormed.sorted order.eventID order.outcome
    order.side.opposite
  change (engine.opposing order).Pairwise _ at old
  rw [← allocate_map_maker order order.remainingQuantity
    (engine.opposing order), List.pairwise_map] at old
  refine List.Pairwise.filterMap _ ?_ old
  intro first second before left firstLeft right secondLeft
  unfold Order.sortsBefore at before ⊢
  rw [(Fill.left_terms firstLeft).price, (Fill.left_terms secondLeft).price]
  exact before

include wellFormed fresh in
private theorem ownQueue_ids_nodup :
    ((engine.ownQueue order).map (·.id)).Nodup := by
  have old := wellFormed.queue_ids_nodup order.eventID order.outcome order.side
  unfold Engine.ownQueue
  split
  · have perm := (addToBook_perm
      (engine.queue order.eventID order.outcome order.side)
      (engine.taker order)).map Order.id
    rw [perm.nodup_iff, List.map_append, List.nodup_append]
    refine ⟨old, by simp, ?_⟩
    intro id member other otherMember same
    rw [List.map_singleton, List.mem_singleton, taker_id] at otherMember
    subst otherMember
    subst same
    obtain ⟨resting, restingMember, restingID⟩ := List.mem_map.mp member
    have present := wellFormed.lookup_of_mem restingMember
    rw [restingID, fresh] at present
    contradiction
  · exact old

theorem slicePast_sublist {key : Type} (keyOf : Order → key)
    (kept : ∀ {fill : Fill} {order : Order}, fill.left = some order →
      keyOf order = keyOf fill.maker)
    (incoming : Order) (orders : List Order) :
    ((slicePast incoming orders).map keyOf).Sublist (orders.map keyOf) := by
  have whole := congrArg (·.map keyOf)
    (allocate_map_maker incoming incoming.remainingQuantity orders)
  simp only [List.map_map] at whole
  rw [← whole, slicePast]
  generalize allocate incoming incoming.remainingQuantity orders = allocated
  induction allocated with
  | nil => exact List.Sublist.slnil
  | cons fill allocated induction =>
      cases left : fill.left with
      | none =>
          rw [List.filterMap_cons_none left]
          exact induction.cons _
      | some resting =>
          rw [List.filterMap_cons_some left]
          simp only [List.map_cons, Function.comp_apply, kept left]
          exact induction.cons_cons _

private theorem slicePast_ids_sublist (incoming : Order) (orders : List Order) :
    ((slicePast incoming orders).map (·.id)).Sublist
      (orders.map (·.id)) :=
  slicePast_sublist (·.id) (fun left => by rw [Fill.left_eq left]) incoming
    orders

include wellFormed fresh hasMarket in
theorem walked_hasMarket {eventID : String} {old : Market}
    (present : engine.markets.lookup eventID = some old) :
    ∃ new, (engine.walked order market).markets.lookup eventID = some new := by
  rw [walked_markets wellFormed fresh hasMarket, FiniteMap.lookup_insert_eq]
  split
  · exact ⟨_, rfl⟩
  · exact ⟨old, present⟩

include wellFormed fresh hasMarket in
private theorem mem_queue_walked {eventID : String} {outcome : Outcome}
    {side : Side}
    {resting : Order}
    (member : resting ∈
      (engine.walked order market).queue eventID outcome side) :
    (eventID = order.eventID ∧ outcome = order.outcome ∧
        side = order.side ∧ resting ∈ engine.ownQueue order) ∨
      (eventID = order.eventID ∧ outcome = order.outcome ∧
        side = order.side.opposite ∧
        resting ∈ slicePast order (engine.opposing order)) ∨
      resting ∈ engine.queue eventID outcome side := by
  rw [queue_walked wellFormed fresh hasMarket] at member
  split at member
  · rename_i here
    split at member
    · rename_i own
      exact .inl ⟨here.1, here.2, own, member⟩
    · rename_i across
      exact .inr (.inl ⟨here.1, here.2, Side.eq_opposite_of_ne across, member⟩)
  · exact .inr (.inr member)

include wellFormed fresh hasMarket in
private theorem untouched_listed {id : String} {found : Order}
    (present : engine.orders.lookup id = some found)
    (live : found.status.live = true)
    (notMaker : ∀ fill ∈ engine.fillsFor order, fill.maker.id ≠ id) :
    found ∈ (engine.walked order market).queue found.eventID found.outcome
      found.side := by
  have old := wellFormed.listed present live
  have ownID := wellFormed.keyed id found present
  rw [queue_walked wellFormed fresh hasMarket]
  split
  · rename_i here
    obtain ⟨event, outcome⟩ := here
    rw [event, outcome] at old
    split
    · rename_i own
      rw [own] at old
      exact mem_ownQueue.mpr (.inl old)
    · rename_i across
      rw [Side.eq_opposite_of_ne across] at old
      apply mem_slicePast_of_untouched old
      rw [ownID]
      exact notMaker
  · exact old

include wellFormed submitted fresh hasMarket in
/-- The walk keeps the books in order. -/
theorem wellFormed_walked : WellFormed (engine.walked order market) where
  keyed := by
    intro id found present
    cases afterWalk wellFormed fresh present with
    | taker => exact taker_id _ _
    | maker fill member => exact fill.filled_id
    | other _ _ present => exact wellFormed.keyed id found present
  hasMarket := by
    intro id found present
    cases afterWalk wellFormed fresh present with
    | taker =>
        rw [(taker_terms engine order).eventID]
        exact walked_hasMarket wellFormed fresh hasMarket hasMarket
    | maker fill member =>
        rw [fill.filled_terms.eventID,
          (fillsFor_maker wellFormed member).2.2.1]
        exact walked_hasMarket wellFormed fresh hasMarket hasMarket
    | other _ _ present =>
        obtain ⟨old, oldPresent⟩ := wellFormed.hasMarket present
        exact walked_hasMarket wellFormed fresh hasMarket oldPresent
  accounted := by
    intro id found present
    cases afterWalk wellFormed fresh present with
    | taker => exact taker_accounted _ submitted
    | maker fill member =>
        obtain ⟨_, positive, le⟩ := fillsFor_counterparty submitted member
        exact (filled_accounted (wellFormed.accounted
          (fillsFor_maker wellFormed member).1) positive le).1
    | other _ _ present => exact wellFormed.accounted present
  registered := by
    intro eventID outcome side
    rw [queue_walked wellFormed fresh hasMarket,
      slice_walked wellFormed fresh hasMarket]
    split
    · split <;> rfl
    · exact wellFormed.registered eventID outcome side
  resting := by
    intro eventID outcome side resting member
    rcases mem_queue_walked wellFormed fresh hasMarket member with
      ⟨rfl, rfl, rfl, own⟩ | ⟨rfl, rfl, rfl, past⟩ | elsewhere
    · exact ownQueue_resting wellFormed own
    · exact slicePast_resting wellFormed past
    · exact wellFormed.resting elsewhere
  listed := by
    intro id found present live
    cases afterWalk wellFormed fresh present with
    | taker =>
        have terms := taker_terms engine order
        rw [queue_walked wellFormed fresh hasMarket,
          if_pos ⟨terms.eventID, terms.outcome⟩, if_pos terms.side]
        exact mem_ownQueue.mpr (.inr ⟨rfl, live⟩)
    | maker fill member =>
        obtain ⟨_, _, event, outcome, side⟩ := fillsFor_maker wellFormed member
        have terms := fill.filled_terms
        rw [queue_walked wellFormed fresh hasMarket,
          if_pos ⟨terms.eventID.trans event, terms.outcome.trans outcome⟩,
          if_neg (by rw [terms.side, side]; exact order.side.opposite_ne)]
        exact mem_slicePast_of_live member live
    | other _ notMaker present =>
        exact untouched_listed wellFormed fresh hasMarket present live notMaker
  nodup := by
    intro eventID outcome side
    rw [slice_walked wellFormed fresh hasMarket]
    split
    · split
      · exact ownQueue_ids_nodup wellFormed fresh
      · exact (slicePast_ids_sublist _ _).nodup
          (wellFormed.queue_ids_nodup _ _ _)
    · exact wellFormed.nodup eventID outcome side
  sorted := by
    intro eventID outcome side
    rw [queue_walked wellFormed fresh hasMarket]
    split
    · split
      · rename_i own
        subst own
        exact ownQueue_sorted wellFormed
      · rename_i own
        rw [Side.eq_opposite_of_ne own]
        exact slicePast_sorted wellFormed
    · exact wellFormed.sorted eventID outcome side
  uncrossed := by
    intro eventID outcome bid ask bidMember askMember different
    rw [queue_walked wellFormed fresh hasMarket] at bidMember askMember
    split at bidMember
    · rename_i here
      rw [if_pos here] at askMember
      have apart := fun (own other : Order) =>
        @ownQueue_apart engine _ wellFormed submitted own other
      cases side : order.side with
      | sideBuy =>
          rw [side, if_pos rfl] at bidMember
          rw [side, if_neg (by decide)] at askMember
          have prices := apart bid ask bidMember askMember different
          rw [side] at prices
          exact prices
      | sideSell =>
          rw [side, if_neg (by decide)] at bidMember
          rw [side, if_pos rfl] at askMember
          have prices := apart ask bid askMember bidMember (Ne.symm different)
          rw [side] at prices
          exact prices
    · rename_i elsewhere
      rw [if_neg elsewhere] at askMember
      exact wellFormed.uncrossed bidMember askMember different

end WalkedQueues

end Accepted

end Predix
