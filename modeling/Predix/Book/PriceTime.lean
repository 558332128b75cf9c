import Predix.Book.Step

namespace Predix

open Data Word

/-! Price-time priority: orders of one price stand in the order in which they
were accepted. -/

/-- A stable sort keeps the order of elements it does not tell apart. -/
theorem filter_insertionSort {α : Type} (relation : α → α → Prop)
    [DecidableRel relation] {chosen : α → Bool}
    (tied : ∀ left right, chosen left = true → chosen right = true →
      relation left right)
    (list : List α) :
    (list.insertionSort relation).filter chosen = list.filter chosen := by
  have pairwise : (list.filter chosen).Pairwise relation := by
    apply List.pairwise_of_forall_mem_list
    intro left leftMember right rightMember
    exact tied left right (List.mem_filter.mp leftMember).2
      (List.mem_filter.mp rightMember).2
  have sorted := (List.sublist_insertionSort pairwise
    List.filter_sublist).filter chosen
  simp only [List.filter_filter, Bool.and_self] at sorted
  have sameLength :=
    ((List.perm_insertionSort relation list).filter chosen).length_eq
  exact (sorted.eq_of_length sameLength.symm).symm

def tiedIDs (price : Int64) (orders : List Order) : List String :=
  (orders.filter fun order => decide (order.price = price)).map (·.id)

def Order.ticket (order : Order) : Int64 × String :=
  (order.price, order.id)

theorem tiedIDs_eq (price : Int64) (orders : List Order) :
    tiedIDs price orders =
      ((orders.map Order.ticket).filter
        fun ticket => decide (ticket.1 = price)).map Prod.snd := by
  rw [List.filter_map, List.map_map]
  rfl

theorem tiedIDs_sublist {left right : List Order} (price : Int64)
    (sublist : (left.map Order.ticket).Sublist (right.map Order.ticket)) :
    (tiedIDs price left).Sublist (tiedIDs price right) := by
  rw [tiedIDs_eq, tiedIDs_eq]
  exact (sublist.filter _).map _

private theorem tiedIDs_addToBook (price : Int64) (orders : List Order)
    (added : Order) :
    tiedIDs price (addToBook orders added) =
      tiedIDs price orders ++ tiedIDs price [added] := by
  unfold tiedIDs addToBook
  rw [filter_insertionSort, List.filter_append, List.map_append]
  intro left right leftPrice rightPrice
  rw [decide_eq_true_eq] at leftPrice rightPrice
  cases added.side <;>
    simp only [Order.sortsBefore, leftPrice, rightPrice,
      Int64.le_iff_toInt_le] <;> exact le_refl _

private theorem tiedIDs_singleton_sublist (price : Int64) (order : Order) :
    (tiedIDs price [order]).Sublist [order.id] :=
  List.filter_sublist.map _

/-- The state of a run as far as time priority is concerned. -/
structure TimePriority (history : History) : Prop where
  wellFormed : WellFormed history.engine
  registered : ∀ id ∈ history.accepted, ∃ order,
    history.engine.orders.lookup id = some order
  nodup : history.accepted.Nodup
  fifo : ∀ eventID outcome side price,
    (tiedIDs price (history.engine.queue eventID outcome side)).Sublist
      history.accepted

namespace TimePriority

variable {history : History} {engine : Engine}

private theorem start (balances positions : Accounts String) :
    TimePriority (History.start (Engine.seeded balances positions)) where
  wellFormed := wellFormed_seeded balances positions
  registered := by
    intro id member
    simp [History.start] at member
  nodup := List.nodup_nil
  fifo := by
    intro eventID outcome side price
    simp [History.start, Engine.queue, Engine.slice, Engine.load,
      Engine.seeded, tiedIDs]

theorem of_sublist (priority : TimePriority history)
    (wellFormed : WellFormed engine)
    (registered : ∀ id order,
      history.engine.orders.lookup id = some order →
        ∃ later, engine.orders.lookup id = some later)
    (queues : ∀ eventID outcome side,
      ((engine.queue eventID outcome side).map Order.ticket).Sublist
        ((history.engine.queue eventID outcome side).map Order.ticket))
    (trades : List Trade) :
    TimePriority ⟨engine, history.accepted, trades⟩ where
  wellFormed := wellFormed
  registered := by
    intro id member
    obtain ⟨order, present⟩ := priority.registered id member
    exact registered id order present
  nodup := priority.nodup
  fifo := by
    intro eventID outcome side price
    exact (tiedIDs_sublist price (queues eventID outcome side)).trans
      (priority.fifo eventID outcome side price)

private theorem of_same (priority : TimePriority history)
    (wellFormed : WellFormed engine)
    (orders : engine.orders = history.engine.orders)
    (slices : ∀ eventID outcome side, engine.slice eventID outcome side =
      history.engine.slice eventID outcome side)
    (trades : List Trade) :
    TimePriority ⟨engine, history.accepted, trades⟩ := by
  refine priority.of_sublist wellFormed ?_ ?_ trades
  · intro id order present
    rw [orders]
    exact ⟨order, present⟩
  · intro eventID outcome side
    unfold Engine.queue Engine.load
    rw [orders, slices]

end TimePriority

private theorem slice_congr {left right : Engine}
    (markets : right.markets = left.markets)
    (eventID : String) (outcome : Outcome) (side : Side) :
    right.slice eventID outcome side = left.slice eventID outcome side := by
  simp only [Engine.slice, markets]

theorem SameUpToLocks.tickets {left right : Engine}
    (same : SameUpToLocks left right) (eventID : String) (outcome : Outcome)
    (side : Side) :
    (right.queue eventID outcome side).map Order.ticket =
      (left.queue eventID outcome side).map Order.ticket := by
  have unlocked := congrArg (·.map Order.ticket)
    (same.queue_unlocked eventID outcome side)
  simp only [List.map_map] at unlocked
  exact unlocked

private theorem TimePriority.accepted {history : History} {order : Order}
    {market : Market} (priority : TimePriority history)
    (submitted : order.Submitted)
    (fresh : history.engine.orders.lookup order.id = none)
    (hasMarket : history.engine.markets.lookup order.eventID = some market)
    (trades : List Trade) :
    TimePriority ⟨history.engine.matched order market,
      history.accepted ++ [order.id], trades⟩ := by
  have wellFormed := priority.wellFormed
  have same := matched_sameUpToLocks wellFormed submitted fresh hasMarket
  obtain ⟨lock, takerPresent⟩ :=
    lookup_matched_taker wellFormed submitted fresh hasMarket
  refine ⟨wellFormed_matched wellFormed submitted fresh hasMarket, ?_, ?_, ?_⟩
  · intro id member
    rw [List.mem_append, List.mem_singleton] at member
    rcases member with old | rfl
    · obtain ⟨found, present⟩ := priority.registered id old
      exact matched_keeps wellFormed submitted fresh hasMarket present
    · exact ⟨_, takerPresent⟩
  · rw [List.nodup_append]
    refine ⟨priority.nodup, by simp, ?_⟩
    intro id member other otherMember equal
    rw [List.mem_singleton] at otherMember
    obtain ⟨found, present⟩ := priority.registered id member
    rw [equal, otherMember, fresh] at present
    contradiction
  · intro eventID outcome side price
    have tickets := same.tickets eventID outcome side
    have old := priority.fifo eventID outcome side price
    have widened := old.trans
      (List.sublist_append_left history.accepted [order.id])
    rw [tiedIDs_eq, tickets, ← tiedIDs_eq,
      queue_walked wellFormed fresh hasMarket]
    split
    · rename_i here
      rw [here.1, here.2] at old widened
      split
      · rename_i own
        rw [own] at old widened
        unfold Engine.ownQueue
        split
        · rw [tiedIDs_addToBook]
          apply List.Sublist.append old
          have last := tiedIDs_singleton_sublist price
            (history.engine.taker order)
          rw [taker_id] at last
          exact last
        · exact widened
      · rename_i own
        rw [Side.eq_opposite_of_ne own] at widened
        refine List.Sublist.trans ?_ widened
        apply tiedIDs_sublist
        apply slicePast_sublist
        intro fill resting left
        rw [Fill.left_eq left]
        rfl
    · exact widened

theorem timePriority_step {history : History}
    (priority : TimePriority history) (input : Input) :
    TimePriority (history.step input) := by
  have wellFormed := priority.wellFormed
  have next := wellFormed_step wellFormed input
  simp only [History.step]
  have effect := step_effect history.engine input
  generalize history.engine.step input = reply at effect next ⊢
  cases effect with
  | unchanged response notAccepted _ =>
      simp only [Reply.unchanged, notAccepted, Option.toList_none,
        List.append_nil]
      exact priority
  | opened order message _ _ _ _ =>
      simp only [Reply.unchanged, EngineResponse.accepted?, Option.toList_none,
        List.append_nil] at next ⊢
      exact priority.of_same next (opened_orders _ order)
        (slice_congr (opened_markets _ order)) _
  | dropped order market _ _ _ _ _ =>
      simp only [EngineResponse.accepted?, Option.toList_none,
        List.append_nil] at next ⊢
      exact priority.of_same next (frozen_orders _ order)
        (slice_congr (frozen_markets _ order)) _
  | accepted order market submitted fresh hasMarket _ _ =>
      have valid := Input.order?_submitted submitted
      rw [announceAndMatch_enrolled wellFormed valid fresh hasMarket]
      simp only [matched_accepted wellFormed valid fresh hasMarket,
        Option.toList_some]
      exact priority.accepted valid fresh hasMarket _
  | canceled req order market _ present live hasMarket _ =>
      have ownID := wellFormed.keyed _ _ present
      rw [← ownID] at present
      simp only [EngineResponse.accepted?, Option.toList_none,
        List.append_nil] at next ⊢
      refine priority.of_sublist next ?_ ?_ _
      · intro id found foundPresent
        have closedPresent : ∃ later,
            (history.engine.closed market order).orders.lookup id =
              some later := by
          rw [lookup_closed]
          split
          · exact ⟨_, rfl⟩
          · exact ⟨found, foundPresent⟩
        obtain ⟨later, laterPresent⟩ := closedPresent
        obtain ⟨lock, canceledPresent⟩ :=
          cancel_sameUpToLocks.symm.lookup laterPresent
        exact ⟨_, canceledPresent⟩
      · intro eventID outcome side
        rw [cancel_sameUpToLocks.tickets,
          queue_closed wellFormed present hasMarket]
        exact List.filter_sublist.map _
  | marketCreated eventID _ absent =>
      simp only [Reply.unchanged, EngineResponse.accepted?, Option.toList_none,
        List.append_nil] at next ⊢
      exact priority.of_same next rfl (slice_newMarket absent) _
  | userFunded userID _ _ =>
      simp only [Reply.unchanged, EngineResponse.accepted?, Option.toList_none,
        List.append_nil] at next ⊢
      exact priority.of_same next rfl (slice_congr rfl) _

theorem timePriority_run (balances positions : Accounts String)
    (inputs : List Input) :
    TimePriority (runSeeded balances positions inputs) :=
  runSeeded_always TimePriority
    (fun _ input priority => timePriority_step priority input)
    (TimePriority.start balances positions) inputs

/-! The invariant of the books in the terms of a reader of the engine. -/

/-- The order may still trade or be canceled. -/
def Order.Unfinished (order : Order) : Prop :=
  order.status = .statusPending ∨ order.status = .statusPartial

instance (order : Order) : Decidable order.Unfinished :=
  inferInstanceAs (Decidable (_ ∨ _))

structure BookInvariant (history : History) : Prop where
  acceptedOnce : history.accepted.Nodup
  bidsSorted : ∀ eventID outcome,
    (history.engine.queue eventID outcome .sideBuy).Pairwise
      fun earlier later => later.price ≤ earlier.price
  asksSorted : ∀ eventID outcome,
    (history.engine.queue eventID outcome .sideSell).Pairwise
      fun earlier later => earlier.price ≤ later.price
  fifo : ∀ eventID outcome side,
    (history.engine.queue eventID outcome side).Pairwise
      fun earlier later => earlier.price = later.price →
        [earlier.id, later.id].Sublist history.accepted
  resting : ∀ eventID outcome side,
    ∀ id ∈ history.engine.slice eventID outcome side,
      ∃ order, history.engine.orders.lookup id = some order ∧
        order.orderType = .orderTypeLimit ∧ order.Unfinished ∧
        0 < order.remainingQuantity ∧ order.eventID = eventID ∧
        order.outcome = outcome ∧ order.side = side
  listed : ∀ id order, history.engine.orders.lookup id = some order →
    (order.Unfinished ↔
      ∃ eventID outcome side, id ∈ history.engine.slice eventID outcome side)
  once : ∀ id order, history.engine.orders.lookup id = some order →
    order.Unfinished → ∀ eventID outcome side,
      (history.engine.slice eventID outcome side).count id =
        if eventID = order.eventID ∧ outcome = order.outcome ∧
          side = order.side then 1 else 0
  uncrossed : ∀ eventID outcome,
    ∀ bid ∈ history.engine.queue eventID outcome .sideBuy,
    ∀ ask ∈ history.engine.queue eventID outcome .sideSell,
      bid.userID ≠ ask.userID → bid.price < ask.price

private theorem fifo_pairs {accepted : List String} {orders : List Order}
    (fifo : ∀ price, (tiedIDs price orders).Sublist accepted) :
    orders.Pairwise fun earlier later => earlier.price = later.price →
      [earlier.id, later.id].Sublist accepted := by
  rw [List.pairwise_iff_forall_sublist]
  intro earlier later pair samePrice
  have tied := (pair.filter
    fun order => decide (order.price = later.price)).map (·.id)
  rw [List.filter_cons_of_pos (by simp [samePrice]),
    List.filter_cons_of_pos (by simp)] at tied
  exact tied.trans (fifo later.price)

private theorem WellFormed.count_slice {engine : Engine}
    (wellFormed : WellFormed engine) {id : String} {order : Order}
    (present : engine.orders.lookup id = some order)
    (live : order.status.live = true) (eventID : String) (outcome : Outcome)
    (side : Side) :
    (engine.slice eventID outcome side).count id =
      if eventID = order.eventID ∧ outcome = order.outcome ∧
        side = order.side then 1 else 0 := by
  have ownID := wellFormed.keyed id order present
  split
  · rename_i place
    obtain ⟨rfl, rfl, rfl⟩ := place
    apply List.count_eq_one_of_mem (wellFormed.nodup _ _ _)
    exact wellFormed.id_mem_slice.mpr
      ⟨order, wellFormed.listed present live, ownID⟩
  · rename_i elsewhere
    apply List.count_eq_zero_of_not_mem
    intro member
    rw [← ownID] at present member
    obtain ⟨event, outcomes, sides⟩ :=
      mem_slice_place wellFormed present member
    exact elsewhere ⟨event.symm, outcomes.symm, sides.symm⟩

/-- In every state any sequence of commands reaches, the books are sorted by
price and time, hold exactly the unfinished orders, and are uncrossed between
different users. -/
theorem runSeeded_bookInvariant (balances positions : Accounts String)
    (inputs : List Input) :
    BookInvariant (runSeeded balances positions inputs) := by
  have priority := timePriority_run balances positions inputs
  generalize runSeeded balances positions inputs = history at priority
  have wellFormed := priority.wellFormed
  constructor
  case acceptedOnce => exact priority.nodup
  case bidsSorted =>
    intro eventID outcome
    exact wellFormed.sorted eventID outcome .sideBuy
  case asksSorted =>
    intro eventID outcome
    exact wellFormed.sorted eventID outcome .sideSell
  case fifo =>
    intro eventID outcome side
    exact fifo_pairs (priority.fifo eventID outcome side)
  case resting =>
    intro eventID outcome side id member
    obtain ⟨order, orderMember, rfl⟩ := wellFormed.id_mem_slice.mp member
    obtain ⟨limit, live, place⟩ := wellFormed.resting orderMember
    have remaining := (wellFormed.remaining_of_mem orderMember).2
    exact ⟨order, wellFormed.lookup_of_mem orderMember, limit,
      (Status.live_iff _).mp live, zero_lt_iff.mpr remaining, place⟩
  case listed =>
    intro id order present
    constructor
    · intro unfinished
      have listed := wellFormed.listed present
        ((Status.live_iff _).mpr unfinished)
      exact ⟨_, _, _, wellFormed.id_mem_slice.mpr
        ⟨order, listed, wellFormed.keyed id order present⟩⟩
    · rintro ⟨eventID, outcome, side, member⟩
      obtain ⟨found, foundMember, rfl⟩ := wellFormed.id_mem_slice.mp member
      rw [wellFormed.lookup_of_mem foundMember] at present
      cases present
      exact (Status.live_iff _).mp (wellFormed.resting foundMember).2.1
  case once =>
    intro id order present unfinished
    exact wellFormed.count_slice present ((Status.live_iff _).mpr unfinished)
  case uncrossed =>
    intro eventID outcome bid bidMember ask askMember different
    rw [Int64.lt_iff_toInt_lt]
    exact wellFormed.uncrossed bidMember askMember different

end Predix
