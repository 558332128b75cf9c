import Predix.Book.Invariant

namespace Predix

open Data Word

/-! One command keeps the books in order. -/

section Accepted

variable {engine : Engine} {order : Order} {market : Market}
  (wellFormed : WellFormed engine) (submitted : order.Submitted)
  (fresh : engine.orders.lookup order.id = none)
  (hasMarket : engine.markets.lookup order.eventID = some market)

include wellFormed submitted fresh hasMarket

theorem matched_sameUpToLocks :
    SameUpToLocks (engine.walked order market)
      (engine.matched order market) := by
  have walked := wellFormed_walked wellFormed submitted fresh hasMarket
  have settled := settleAll_sameUpToLocks (engine.tradesFor order) walked.keyed
    fun _ member => tradesFor_distinct wellFormed fresh member
  unfold Engine.matched
  split
  · exact settled
  · exact settled.trans
      (release_sameUpToLocks (settled.wellFormed walked).keyed order.id)

theorem wellFormed_matched : WellFormed (engine.matched order market) :=
  (matched_sameUpToLocks wellFormed submitted fresh hasMarket).wellFormed
    (wellFormed_walked wellFormed submitted fresh hasMarket)

theorem lookup_matched_taker :
    ∃ lock, (engine.matched order market).orders.lookup order.id =
      some ((engine.taker order).withLock lock) :=
  (matched_sameUpToLocks wellFormed submitted fresh hasMarket).symm.lookup
    lookup_walked_taker

theorem matched_keeps {id : String} {found : Order}
    (present : engine.orders.lookup id = some found) :
    ∃ later, (engine.matched order market).orders.lookup id = some later := by
  obtain ⟨walked, walkedPresent⟩ := walked_keeps wellFormed fresh present
  obtain ⟨lock, later⟩ := (matched_sameUpToLocks wellFormed submitted fresh
    hasMarket).symm.lookup walkedPresent
  exact ⟨_, later⟩

theorem matched_accepted :
    ((engine.matched order market).acceptedResponse order.id).accepted? =
      some order.id := by
  obtain ⟨lock, present⟩ :=
    lookup_matched_taker wellFormed submitted fresh hasMarket
  simp only [Engine.acceptedResponse, present, EngineResponse.accepted?]
  exact congrArg some (taker_id _ _)

theorem announceAndMatch_enrolled :
    announceAndMatch (engine.enrolled order) (engine.registered order) true =
      { engine := engine.matched order market
        response := (engine.matched order market).acceptedResponse order.id
        trades := engine.tradesFor order
        events := .orderCreated (engine.registered order) ::
          (engine.tradesFor order).map .tradeExecuted } := by
  have matched := matchOrder_enrolled wellFormed fresh submitted hasMarket
  have id : (engine.registered order).id = order.id := rfl
  simp only [announceAndMatch, if_true, id, matched]

end Accepted

theorem step_accepted {engine : Engine} (wellFormed : WellFormed engine)
    {input : Input} {order : Order} (submitted : input.order? = some order)
    (accepted : (engine.step input).response.accepted? ≠ none) :
    ∃ market, engine.orders.lookup order.id = none ∧
      engine.markets.lookup order.eventID = some market ∧
      engine.Affords order ∧
      (engine.step input).engine = engine.matched order market ∧
      (engine.step input).trades = engine.tradesFor order := by
  have effect := step_effect engine input
  generalize engine.step input = reply at effect accepted ⊢
  cases effect with
  | accepted found market isSubmitted fresh hasMarket affords _ =>
      rw [submitted] at isSubmitted
      cases isSubmitted
      rw [announceAndMatch_enrolled wellFormed (Input.order?_submitted submitted)
        fresh hasMarket]
      exact ⟨market, fresh, hasMarket, affords, rfl, rfl⟩
  | unchanged response notAccepted _ => exact absurd notAccepted accepted
  | opened _ _ _ _ _ _ => exact absurd rfl accepted
  | dropped _ _ _ _ _ _ _ => exact absurd rfl accepted
  | canceled _ _ _ _ _ _ _ _ => exact absurd rfl accepted
  | marketCreated _ _ _ _ => exact absurd rfl accepted
  | userFunded _ _ _ _ => exact absurd rfl accepted

/-! Canceling. -/

section Canceled

variable {engine : Engine} {order : Order} {market : Market}

/-- The order as `handleCancelOrder` closes it. -/
def Order.canceled (order : Order) : Order :=
  { order with status := .statusCanceled }

/-- A state with one order off its slice and closed, its lock not yet
released. -/
def Engine.closed (engine : Engine) (market : Market) (order : Order) :
    Engine :=
  let book := market.book order.outcome
  { engine with
    orders := engine.orders.insert order.id order.canceled
    markets := engine.markets.insert order.eventID
      (market.setBook order.outcome
        (book.setSlice order.side
          ((book.slice order.side).erase order.id))) }

theorem cancel_eq :
    engine.cancel market order =
      releaseOrderLocked (engine.closed market order) order.canceled := rfl

theorem lookup_closed (id : String) :
    (engine.closed market order).orders.lookup id =
      if id = order.id then some order.canceled
      else engine.orders.lookup id :=
  FiniteMap.lookup_insert_eq _ _ _ _

theorem cancel_sameUpToLocks :
    SameUpToLocks (engine.closed market order)
      (engine.cancel market order) := by
  apply releaseOrderLocked_sameUpToLocks
  rw [lookup_closed]
  exact if_pos rfl

variable (engine order market) in
theorem lookup_cancel_released (id : String) :
    (engine.cancel market order).orders.lookup id =
      if id = order.id then some order.canceled.released
      else engine.orders.lookup id := by
  have released := lookup_releaseOrderLocked (engine.closed market order)
    order.canceled (by rw [lookup_closed]; exact if_pos rfl) id
  rw [cancel_eq, released]
  change (if id = order.id then _ else _) = _
  by_cases same : id = order.id
  · rw [if_pos same, if_pos same]
  · rw [if_neg same, if_neg same, lookup_closed, if_neg same]

variable (engine order market) in
theorem lookup_cancel (id : String) :
    ∃ lock, (engine.cancel market order).orders.lookup id =
      if id = order.id then some (order.canceled.withLock lock)
      else engine.orders.lookup id := by
  refine ⟨order.canceled.released.lockedFunds, ?_⟩
  rw [lookup_cancel_released, ← Order.released_eq]

variable (wellFormed : WellFormed engine)
  (present : engine.orders.lookup order.id = some order)
  (hasMarket : engine.markets.lookup order.eventID = some market)

include hasMarket in
theorem slice_closed_of_placed
    (distinct : ∀ eventID outcome side,
      (engine.slice eventID outcome side).Nodup)
    (placed : ∀ {eventID outcome side},
      order.id ∈ engine.slice eventID outcome side →
        order.eventID = eventID ∧ order.outcome = outcome ∧
          order.side = side)
    (eventID : String) (outcome : Outcome) (side : Side) :
    (engine.closed market order).slice eventID outcome side =
      (engine.slice eventID outcome side).filter
        fun id => decide (id ≠ order.id) := by
  have elsewhere : ¬ (order.eventID = eventID ∧ order.outcome = outcome ∧
      order.side = side) →
        (engine.slice eventID outcome side).filter
          (fun id => decide (id ≠ order.id)) =
            engine.slice eventID outcome side := by
    intro different
    apply List.filter_eq_self.mpr
    intro id member
    rw [decide_eq_true_eq]
    rintro rfl
    exact different (placed member)
  have lookedUp := FiniteMap.lookup_insert_eq engine.markets order.eventID
    eventID (market.setBook order.outcome
      ((market.book order.outcome).setSlice order.side
        (((market.book order.outcome).slice order.side).erase order.id)))
  by_cases event : eventID = order.eventID
  · rw [if_pos event] at lookedUp
    have inserted : (engine.closed market order).markets.lookup eventID = _ :=
      lookedUp
    rw [slice_of_market inserted, Market.book_setBook]
    by_cases outcomes : outcome = order.outcome
    · rw [if_pos outcomes, OrderBook.slice_setSlice]
      by_cases sides : side = order.side
      · rw [if_pos sides, ← slice_of_market hasMarket, ← event, ← outcomes,
          ← sides, (distinct eventID outcome side).erase_eq_filter]
        apply List.filter_congr
        intro id _
        simp [bne, BEq.beq]
      · rw [if_neg sides, elsewhere fun all => sides all.2.2.symm, event,
          outcomes, slice_of_market hasMarket]
    · rw [if_neg outcomes, elsewhere fun all => outcomes all.2.1.symm, event,
        slice_of_market hasMarket]
  · rw [if_neg event] at lookedUp
    have kept : (engine.closed market order).markets.lookup eventID =
        engine.markets.lookup eventID := lookedUp
    rw [elsewhere fun all => event all.1.symm]
    simp only [Engine.slice, kept]

include wellFormed present

theorem mem_slice_place {eventID : String} {outcome : Outcome} {side : Side}
    (member : order.id ∈ engine.slice eventID outcome side) :
    order.eventID = eventID ∧ order.outcome = outcome ∧ order.side = side := by
  obtain ⟨found, foundMember, same⟩ := wellFormed.id_mem_slice.mp member
  have foundPresent := wellFormed.lookup_of_mem foundMember
  rw [same, present] at foundPresent
  cases foundPresent
  obtain ⟨_, _, event, outcomes, sides⟩ := wellFormed.resting foundMember
  exact ⟨event, outcomes, sides⟩

include hasMarket

theorem slice_closed (eventID : String) (outcome : Outcome) (side : Side) :
    (engine.closed market order).slice eventID outcome side =
      (engine.slice eventID outcome side).filter
        fun id => decide (id ≠ order.id) :=
  slice_closed_of_placed hasMarket wellFormed.nodup
    (mem_slice_place wellFormed present) eventID outcome side

theorem queue_closed (eventID : String) (outcome : Outcome) (side : Side) :
    (engine.closed market order).queue eventID outcome side =
      (engine.queue eventID outcome side).filter
        fun resting => decide (resting.id ≠ order.id) := by
  have ids : (engine.slice eventID outcome side).filter
      (fun id => decide (id ≠ order.id)) =
        ((engine.queue eventID outcome side).filter
          fun resting => decide (resting.id ≠ order.id)).map (·.id) := by
    rw [← wellFormed.registered, List.filter_map]
    rfl
  unfold Engine.queue
  rw [slice_closed wellFormed present hasMarket, ids]
  apply load_map_id
  intro resting member
  rw [List.mem_filter, decide_eq_true_eq] at member
  rw [lookup_closed, if_neg member.2]
  exact wellFormed.lookup_of_mem member.1

private theorem mem_queue_closed {eventID : String} {outcome : Outcome}
    {side : Side}
    {resting : Order} :
    resting ∈ (engine.closed market order).queue eventID outcome side ↔
      resting ∈ engine.queue eventID outcome side ∧
        resting.id ≠ order.id := by
  rw [queue_closed wellFormed present hasMarket, List.mem_filter,
    decide_eq_true_eq]

omit hasMarket in
private theorem canceled_accounted (live : order.status.live = true) :
    order.canceled.Accounted := by
  have accounted := wellFormed.accounted present
  have remains := accounted.remaining_of_live live
  refine ⟨accounted.quantity, accounted.price, accounted.filledNonneg,
    accounted.remainingNonneg, accounted.balanced, ?_, ?_, ?_, ?_⟩
  · intro impossible
    contradiction
  · intro impossible
    contradiction
  · constructor
    · intro impossible
      contradiction
    · intro done
      change order.remainingQuantity.toInt = 0 at done
      omega
  · intro impossible
    contradiction

private theorem wellFormed_closed (live : order.status.live = true) :
    WellFormed (engine.closed market order) where
  keyed := by
    intro id found lookedUp
    rw [lookup_closed] at lookedUp
    split at lookedUp
    · rename_i same
      cases lookedUp
      exact same.symm
    · exact wellFormed.keyed id found lookedUp
  hasMarket := by
    intro id found lookedUp
    have old : ∃ old, engine.markets.lookup found.eventID = some old := by
      rw [lookup_closed] at lookedUp
      split at lookedUp
      · cases lookedUp
        exact ⟨market, hasMarket⟩
      · exact wellFormed.hasMarket lookedUp
    obtain ⟨old, oldPresent⟩ := old
    change ∃ new, Finmap.lookup found.eventID
      (Finmap.insert order.eventID _ engine.markets) = some new
    rw [FiniteMap.lookup_insert_eq]
    split
    · exact ⟨_, rfl⟩
    · exact ⟨old, oldPresent⟩
  accounted := by
    intro id found lookedUp
    rw [lookup_closed] at lookedUp
    split at lookedUp
    · cases lookedUp
      exact canceled_accounted wellFormed present live
    · exact wellFormed.accounted lookedUp
  registered := by
    intro eventID outcome side
    rw [queue_closed wellFormed present hasMarket,
      slice_closed wellFormed present hasMarket, ← wellFormed.registered,
      List.filter_map]
    rfl
  resting := by
    intro eventID outcome side resting member
    rw [mem_queue_closed wellFormed present hasMarket] at member
    exact wellFormed.resting member.1
  listed := by
    intro id found lookedUp foundLive
    rw [mem_queue_closed wellFormed present hasMarket]
    rw [lookup_closed] at lookedUp
    split at lookedUp
    · cases lookedUp
      contradiction
    · rename_i different
      refine ⟨wellFormed.listed lookedUp foundLive, ?_⟩
      rw [wellFormed.keyed id found lookedUp]
      exact different
  nodup := by
    intro eventID outcome side
    rw [slice_closed wellFormed present hasMarket]
    exact (wellFormed.nodup eventID outcome side).filter _
  sorted := by
    intro eventID outcome side
    rw [queue_closed wellFormed present hasMarket]
    exact (wellFormed.sorted eventID outcome side).filter _
  uncrossed := by
    intro eventID outcome bid ask bidMember askMember
    rw [mem_queue_closed wellFormed present hasMarket] at bidMember askMember
    exact wellFormed.uncrossed bidMember.1 askMember.1

private theorem wellFormed_cancel (live : order.status.live = true) :
    WellFormed (engine.cancel market order) :=
  cancel_sameUpToLocks.wellFormed
    (wellFormed_closed wellFormed present hasMarket live)

end Canceled

theorem canceled?_spec {engine : Engine} {input : Input} {order : Order}
    (wellFormed : WellFormed engine)
    (chosen : engine.canceled? input = some order) :
    engine.orders.lookup order.id = some order ∧
      order.status.live = true := by
  unfold Engine.canceled? at chosen
  split at chosen
  · rename_i req _
    split at chosen
    · contradiction
    · rename_i found present
      split at chosen
      · rename_i passes
        cases chosen
        rw [wellFormed.keyed _ _ present]
        exact ⟨present, passes.2.2⟩
      · contradiction
  · contradiction

/-! The other commands leave orders and books alone. -/

theorem WellFormed.of_same {left right : Engine}
    (wellFormed : WellFormed left) (orders : right.orders = left.orders)
    (slices : ∀ eventID outcome side,
      right.slice eventID outcome side = left.slice eventID outcome side)
    (markets : ∀ eventID old, left.markets.lookup eventID = some old →
      ∃ new, right.markets.lookup eventID = some new) :
    WellFormed right := by
  have queues : ∀ eventID outcome side,
      right.queue eventID outcome side = left.queue eventID outcome side := by
    intro eventID outcome side
    unfold Engine.queue Engine.load
    rw [slices, orders]
  constructor
  case keyed =>
    intro id order present
    rw [orders] at present
    exact wellFormed.keyed id order present
  case hasMarket =>
    intro id order present
    rw [orders] at present
    obtain ⟨old, oldPresent⟩ := wellFormed.hasMarket present
    exact markets _ old oldPresent
  case accounted =>
    intro id order present
    rw [orders] at present
    exact wellFormed.accounted present
  case registered =>
    intro eventID outcome side
    rw [queues, slices]
    exact wellFormed.registered eventID outcome side
  case resting =>
    intro eventID outcome side order member
    rw [queues] at member
    exact wellFormed.resting member
  case listed =>
    intro id order present live
    rw [orders] at present
    rw [queues]
    exact wellFormed.listed present live
  case nodup =>
    intro eventID outcome side
    rw [slices]
    exact wellFormed.nodup eventID outcome side
  case sorted =>
    intro eventID outcome side
    rw [queues]
    exact wellFormed.sorted eventID outcome side
  case uncrossed =>
    intro eventID outcome bid ask bidMember askMember
    rw [queues] at bidMember askMember
    exact wellFormed.uncrossed bidMember askMember

private theorem WellFormed.of_ledger {left right : Engine}
    (wellFormed : WellFormed left) (orders : right.orders = left.orders)
    (markets : right.markets = left.markets) : WellFormed right := by
  apply wellFormed.of_same orders
  · intro eventID outcome side
    simp only [Engine.slice, markets]
  · intro eventID old present
    rw [markets]
    exact ⟨old, present⟩

theorem slice_newMarket {engine : Engine} {created : String}
    (absent : engine.markets.lookup created = none) (eventID : String)
    (outcome : Outcome) (side : Side) :
    Engine.slice
        { engine with markets := engine.markets.insert created newMarket }
        eventID outcome side =
      engine.slice eventID outcome side := by
  simp only [Engine.slice, FiniteMap.lookup_insert_eq]
  by_cases same : eventID = created
  · subst same
    rw [absent, if_pos rfl]
    cases outcome <;> cases side <;> rfl
  · rw [if_neg same]

private theorem wellFormed_newMarket {engine : Engine} {created : String}
    (wellFormed : WellFormed engine)
    (absent : engine.markets.lookup created = none) :
    WellFormed
      { engine with markets := engine.markets.insert created newMarket } := by
  refine WellFormed.of_same wellFormed ?_ (slice_newMarket absent) ?_
  · rfl
  intro eventID old present
  rw [FiniteMap.lookup_insert_eq]
  split
  · exact ⟨_, rfl⟩
  · exact ⟨old, present⟩

theorem wellFormed_step {engine : Engine} (wellFormed : WellFormed engine)
    (input : Input) : WellFormed (engine.step input).engine := by
  have effect := step_effect engine input
  generalize engine.step input = reply at effect ⊢
  cases effect with
  | unchanged response _ _ => exact wellFormed
  | opened order message _ _ _ _ =>
      exact wellFormed.of_ledger (opened_orders engine order)
        (opened_markets engine order)
  | dropped order market _ _ _ _ _ =>
      exact wellFormed.of_ledger (frozen_orders engine order)
        (frozen_markets engine order)
  | accepted order market submitted fresh hasMarket _ _ =>
      rw [announceAndMatch_enrolled wellFormed
        (Input.order?_submitted submitted) fresh hasMarket]
      exact wellFormed_matched wellFormed
        (Input.order?_submitted submitted) fresh hasMarket
  | canceled req order market _ present live hasMarket _ =>
      have ownID := wellFormed.keyed _ _ present
      rw [← ownID] at present
      exact wellFormed_cancel wellFormed present hasMarket live
  | marketCreated eventID _ absent =>
      exact wellFormed_newMarket wellFormed absent
  | userFunded userID _ _ =>
      exact wellFormed.of_ledger rfl rfl

theorem wellFormed_run {history : History}
    (wellFormed : WellFormed history.engine) (inputs : List Input) :
    WellFormed (history.run inputs).engine :=
  always_runFrom (fun history : History => WellFormed history.engine)
    (fun _ input wellFormed => wellFormed_step wellFormed input) wellFormed
    inputs

theorem wellFormed_runSeeded (balances positions : Accounts String)
    (inputs : List Input) :
    WellFormed (runSeeded balances positions inputs).engine :=
  wellFormed_run (wellFormed_seeded balances positions) inputs

/-! The terms of an order never change. -/

/-- After a command every registered order was registered before, or is the
one the command submitted. -/
theorem step_terms {engine : Engine} (wellFormed : WellFormed engine)
    (input : Input) {id : String} {found : Order}
    (present : (engine.step input).engine.orders.lookup id = some found) :
    (∃ old, engine.orders.lookup id = some old ∧ found.SameTerms old) ∨
      ∃ order, engine.admitted? input = some order ∧ id = order.id ∧
        found.SameTerms order := by
  have effect := step_effect engine input
  generalize engine.step input = reply at effect present
  cases effect with
  | unchanged response _ _ => exact .inl ⟨found, present, .refl found⟩
  | opened order message _ _ _ _ =>
      simp only [Reply.unchanged, opened_orders] at present
      exact .inl ⟨found, present, .refl found⟩
  | dropped order market _ _ _ _ _ =>
      simp only [frozen_orders] at present
      exact .inl ⟨found, present, .refl found⟩
  | accepted order market submitted fresh hasMarket affords _ =>
      have valid := Input.order?_submitted submitted
      rw [announceAndMatch_enrolled wellFormed valid fresh hasMarket] at present
      obtain ⟨lock, walkedPresent⟩ := (matched_sameUpToLocks wellFormed valid
        fresh hasMarket).lookup present
      have terms : found.SameTerms (found.withLock lock) :=
        .of_withLock lock (.refl _)
      generalize found.withLock lock = walked at walkedPresent terms
      cases afterWalk wellFormed fresh walkedPresent with
      | taker =>
          exact .inr ⟨order, admitted?_eq submitted fresh hasMarket affords,
            rfl, terms.trans (taker_terms engine order)⟩
      | maker fill member =>
          exact .inl ⟨fill.maker, (fillsFor_maker wellFormed member).1,
            terms.trans fill.filled_terms⟩
      | other _ _ oldPresent => exact .inl ⟨walked, oldPresent, terms⟩
  | canceled req order market _ oldPresent live hasMarket _ =>
      have ownID := wellFormed.keyed _ _ oldPresent
      rw [← ownID] at oldPresent
      obtain ⟨lock, lookedUp⟩ := lookup_cancel engine order market id
      rw [lookedUp] at present
      split at present
      · rename_i same
        cases present
        rw [same]
        exact .inl ⟨order, oldPresent, ⟨rfl, rfl, rfl, rfl, rfl, rfl, rfl⟩⟩
      · exact .inl ⟨found, present, .refl found⟩
  | marketCreated eventID _ _ => exact .inl ⟨found, present, .refl found⟩
  | userFunded userID _ _ => exact .inl ⟨found, present, .refl found⟩

end Predix
