import Mathlib.Tactic.Abel
import Predix.Book.Depth
import Predix.Book.SinglePass
import Predix.Data.Tiers

namespace Predix

open Data Word

/-! The books by price level: how much is open at each price, and how that
changes, without the orders it is made of. -/

def Side.ahead (side : Side) (price other : Int64) : Prop :=
  match side with
  | .sideBuy => other < price
  | .sideSell => price < other

instance (side : Side) : DecidableRel side.ahead :=
  fun price other =>
    match side with
    | .sideBuy => inferInstanceAs (Decidable (other < price))
    | .sideSell => inferInstanceAs (Decidable (price < other))

instance (side : Side) : IsStrictTotalOrder Int64 side.ahead where
  trichotomous first second := by
    rw [← Int64.toInt_inj]
    cases side <;> simp only [Side.ahead, Int64.lt_iff_toInt_lt] <;> omega
  irrefl price := by
    cases side <;> simp only [Side.ahead, Int64.lt_iff_toInt_lt] <;> omega
  trans first second third := by
    cases side <;> simp only [Side.ahead, Int64.lt_iff_toInt_lt] <;> omega

/-- The open volume at each price of one side of a book. -/
abbrev Levels := Int64 →₀ ℤ

def Order.volume (order : Order) : Int64 × ℤ :=
  (order.price, order.remainingQuantity.toInt)

def Trade.volume (trade : Trade) : Int64 × ℤ :=
  (trade.price, trade.quantity.toInt)

noncomputable def levelsOf (orders : List Order) : Levels :=
  Tiers.tally (orders.map Order.volume)

theorem levelsOf_nil : levelsOf [] = 0 := rfl

theorem levelsOf_cons (order : Order) (orders : List Order) :
    levelsOf (order :: orders) =
      Finsupp.single order.price order.remainingQuantity.toInt +
        levelsOf orders := by
  unfold levelsOf
  rw [List.map_cons, Tiers.tally_cons]
  rfl

theorem levelsOf_append (first second : List Order) :
    levelsOf (first ++ second) = levelsOf first + levelsOf second := by
  unfold levelsOf
  rw [List.map_append, Tiers.tally_append]

private theorem levelsOf_perm {first second : List Order}
    (perm : first.Perm second) :
    levelsOf first = levelsOf second :=
  Tiers.tally_perm (perm.map Order.volume)

theorem levelsOf_apply (orders : List Order) (price : Int64) :
    levelsOf orders price = openVolume (atPrice orders price) := by
  induction orders with
  | nil => rfl
  | cons order orders induction =>
      rw [levelsOf_cons, Finsupp.add_apply, induction, ← Multiset.cons_coe]
      by_cases same : order.price = price
      · subst same
        rw [Finsupp.single_eq_same, atPrice_cons_self, openVolume_cons]
      · rw [Finsupp.single_eq_of_ne (Ne.symm same), atPrice_cons_of_ne same,
          zero_add]

abbrev LevelBook := String → Outcome → Side → Levels

noncomputable def Engine.levels (engine : Engine) : LevelBook :=
  fun eventID outcome side => levelsOf (engine.queue eventID outcome side)

noncomputable def Order.takes (order : Order) (levels : Levels) : Levels :=
  Tiers.taken order.side.opposite.ahead order.accepts
    order.remainingQuantity.toInt levels

/-- What is left of an incoming order, and rests if it is a limit order. -/
noncomputable def Order.rests (order : Order) (taken : Levels) : Levels :=
  match order.orderType with
  | .orderTypeMarket => 0
  | .orderTypeLimit => Finsupp.single order.price
      (order.remainingQuantity.toInt - Tiers.total taken)

inductive LevelChange where
  | nothing
  | arrival (order : Order)
  | departure (order : Order)

/-- A book of levels follows the changes by itself. -/
noncomputable def LevelBook.change (book : LevelBook) :
    LevelChange → LevelBook
  | .nothing => book
  | .arrival order => fun eventID outcome side =>
      let taken := order.takes
        (book order.eventID order.outcome order.side.opposite)
      if eventID = order.eventID ∧ outcome = order.outcome then
        if side = order.side then book eventID outcome side + order.rests taken
        else book eventID outcome side - taken
      else
        book eventID outcome side
  | .departure order => fun eventID outcome side =>
      if eventID = order.eventID ∧ outcome = order.outcome ∧
          side = order.side then
        book eventID outcome side -
          Finsupp.single order.price order.remainingQuantity.toInt
      else
        book eventID outcome side

/-- The change a command makes. -/
def Engine.change (engine : Engine) (input : Input) : LevelChange :=
  match engine.admitted? input, engine.canceled? input with
  | some order, _ =>
      if input.surroundings.orderCreatedEmitted then .arrival order
      else .nothing
  | none, some order => .departure order
  | none, none => .nothing

def changes (engine : Engine) : List Input → List LevelChange
  | [] => []
  | input :: inputs =>
      engine.change input :: changes (engine.step input).engine inputs

/-- An order meets no order of its own user on the other side. -/
def Engine.MeetsOthers (engine : Engine) (input : Input) : Prop :=
  ∀ order ∈ engine.admitted? input, ∀ resting ∈ engine.opposing order,
    resting.userID ≠ order.userID

instance (engine : Engine) (input : Input) :
    Decidable (engine.MeetsOthers input) :=
  inferInstanceAs (Decidable (∀ order ∈ engine.admitted? input,
    ∀ resting ∈ engine.opposing order, resting.userID ≠ order.userID))

/-! The trades of one order. -/

theorem accepts_closed (incoming : Order) {price other : Int64}
    (ahead : incoming.side.opposite.ahead price other)
    (accepted : incoming.accepts other = true) :
    incoming.accepts price = true := by
  unfold Order.accepts at accepted ⊢
  cases type : incoming.orderType <;> cases side : incoming.side <;>
    simp only [type, side, Side.opposite, Side.ahead, decide_eq_true_eq,
      Int64.le_iff_toInt_le, Int64.lt_iff_toInt_lt] at accepted ahead ⊢ <;>
    omega

private theorem not_ahead_of_sortsBefore {side : Side} {first second : Order}
    (sorted : Order.sortsBefore side first second) :
    ¬ side.ahead second.price first.price := by
  cases side <;>
    simp only [Order.sortsBefore, Side.ahead, Int64.le_iff_toInt_le,
      Int64.lt_iff_toInt_lt] at sorted ⊢ <;> omega

private theorem priorityTrades_volume {incoming : Order} {orders : List Order}
    (resting : ∀ order ∈ orders, order.resting)
    (others : ∀ order ∈ orders, order.userID ≠ incoming.userID)
    {remaining : Int64} (nonneg : 0 ≤ remaining.toInt) :
    (priorityTrades incoming remaining orders).map Trade.volume =
      Tiers.pour incoming.accepts remaining.toInt
        (orders.map Order.volume) := by
  induction orders generalizing remaining with
  | nil => rfl
  | cons order orders induction =>
      rw [List.forall_mem_cons] at resting others
      have after := remaining_after nonneg resting.1.2
      have rest := @induction resting.2 others.2
        (remaining - minWord remaining order.remainingQuantity)
        (by have := resting.1.2; omega)
      rw [after] at rest
      rw [priorityTrades, List.map_cons, Order.volume, Tiers.pour,
        if_neg others.1]
      simp only [le_zero_iff]
      split
      · rfl
      split
      · rw [List.map_cons, rest]
        change (order.price, (minWord _ _).toInt) :: _ = _
        rw [toInt_minWord]
      · rfl

private theorem Fill.left_volume {fill : Fill}
    (touched : 0 < fill.quantity.toInt)
    (enough : fill.quantity.toInt ≤ fill.maker.remainingQuantity.toInt) :
    levelsOf fill.left.toList +
        Finsupp.single fill.maker.price fill.quantity.toInt =
      Finsupp.single fill.maker.price fill.maker.remainingQuantity.toInt := by
  have remaining := Fill.filled_remaining (le_of_lt touched) enough
  have untouched : ¬ fill.quantity ≤ 0 := by
    rw [le_zero_iff]
    omega
  have filled : (fill.maker.fill fill.quantity).remainingQuantity.toInt =
      fill.maker.remainingQuantity.toInt - fill.quantity.toInt :=
    toInt_sub_of_le (le_of_lt touched) enough
  unfold Fill.left
  rw [if_neg untouched]
  split
  · rename_i done
    rw [le_zero_iff, filled] at done
    have whole : fill.quantity.toInt = fill.maker.remainingQuantity.toInt := by
      omega
    rw [Option.toList_none, levelsOf_nil, zero_add, whole]
  · rw [Option.toList_some, levelsOf_cons, levelsOf_nil, add_zero,
      fill.filled_terms.price, remaining, ← Finsupp.single_add,
      sub_add_cancel]

private theorem levelsOf_left {incoming : Order} {allocated : List Fill}
    (bounded : ∀ fill ∈ allocated, 0 < fill.quantity.toInt →
      fill.quantity.toInt ≤ fill.maker.remainingQuantity.toInt) :
    levelsOf (allocated.filterMap Fill.left) +
        Tiers.tally (((allocated.filter fun fill =>
          decide (0 < fill.quantity)).map (Fill.trade incoming)).map
            Trade.volume) =
      levelsOf (allocated.map Fill.maker) := by
  induction allocated with
  | nil => simp [levelsOf]
  | cons fill allocated induction =>
      rw [List.forall_mem_cons] at bounded
      have rest := induction bounded.2
      have first : (fill :: allocated).filterMap Fill.left =
          fill.left.toList ++ allocated.filterMap Fill.left := by
        cases left : fill.left <;> simp [left]
      rw [first, levelsOf_append, List.map_cons, levelsOf_cons, ← rest]
      by_cases touched : 0 < fill.quantity
      · have split := Fill.left_volume (zero_lt_iff.mp touched)
          (bounded.1 (zero_lt_iff.mp touched))
        rw [List.filter_cons_of_pos (by simpa using touched), List.map_cons,
          List.map_cons, Tiers.tally_cons]
        change _ + (Finsupp.single fill.maker.price fill.quantity.toInt + _) = _
        rw [← split]
        abel
      · have stays : fill.left = some fill.maker := by
          unfold Fill.left
          rw [if_pos]
          rw [le_zero_iff]
          rw [zero_lt_iff] at touched
          omega
        rw [List.filter_cons_of_neg (by simpa using touched), stays,
          Option.toList_some, levelsOf_cons, levelsOf_nil]
        abel

section Arrival

variable {engine : Engine} {order : Order} {market : Market}
  (wellFormed : WellFormed engine) (submitted : order.Submitted)

include submitted

private theorem levelsOf_slicePast :
    levelsOf (slicePast order (engine.opposing order)) =
      levelsOf (engine.opposing order) -
        Tiers.tally ((engine.tradesFor order).map Trade.volume) := by
  have isOpen := le_of_lt (submitted_open submitted)
  have moved := @levelsOf_left order
    (allocate order order.remainingQuantity (engine.opposing order))
    fun fill member positive => ((allocate_quantity isOpen member).2 positive).2
  rw [allocate_map_maker] at moved
  exact eq_sub_of_add_eq moved

include wellFormed

/-- The trades of an order add up to what it takes of the levels. -/
theorem tradesFor_volume
    (others : ∀ resting ∈ engine.opposing order,
      resting.userID ≠ order.userID) :
    Tiers.tally ((engine.tradesFor order).map Trade.volume) =
      order.takes (levelsOf (engine.opposing order)) := by
  have isOpen := le_of_lt (submitted_open submitted)
  have opposes := wellFormed.opposes order
  have trades : engine.tradesFor order =
      priorityTrades order order.remainingQuantity (engine.opposing order) :=
    matchTrades_eq opposes isOpen
  have sorted : ((engine.opposing order).map Order.volume).Pairwise
      fun first second =>
        ¬ order.side.opposite.ahead second.1 first.1 := by
    rw [List.pairwise_map]
    exact opposes.sorted.imp not_ahead_of_sortsBefore
  have nonneg : ∀ item ∈ (engine.opposing order).map Order.volume,
      0 ≤ item.2 := by
    intro item member
    obtain ⟨resting, isResting, rfl⟩ := List.mem_map.mp member
    exact le_of_lt (opposes.resting resting isResting).2
  rw [trades, priorityTrades_volume opposes.resting others isOpen]
  exact @Tiers.tally_pour _ order.side.opposite.ahead _ _ order.accepts
    (fun ahead accepted => accepts_closed order ahead accepted) _ sorted nonneg
    _ isOpen

omit wellFormed submitted in
private theorem total_tradesFor :
    Tiers.total (Tiers.tally ((engine.tradesFor order).map Trade.volume)) =
      filledSum (engine.fillsFor order) := by
  rw [Tiers.total_tally, List.map_map, Engine.tradesFor, List.map_map]
  rfl

private theorem levelsOf_ownQueue
    (others : ∀ resting ∈ engine.opposing order,
      resting.userID ≠ order.userID) :
    levelsOf (engine.ownQueue order) =
      levelsOf (engine.queue order.eventID order.outcome order.side) +
        order.rests (order.takes (levelsOf (engine.opposing order))) := by
  have remaining := taker_remaining engine submitted
  rw [← tradesFor_volume wellFormed submitted others, Order.rests,
    total_tradesFor, submitted.remaining]
  have terms := taker_terms engine order
  unfold Engine.ownQueue
  split
  · rename_i live
    rw [levelsOf_perm (addToBook_perm _ _), levelsOf_append, levelsOf_cons,
      levelsOf_nil, add_zero, terms.price, remaining, (taker_live.mp live).1]
  · rename_i closed
    cases type : order.orderType with
    | orderTypeMarket => simp
    | orderTypeLimit =>
        -- a limit order that does not rest is filled
        have filled : (engine.taker order).remainingQuantity.toInt = 0 := by
          by_contra open'
          exact closed (taker_live.mpr ⟨type, open'⟩)
        rw [remaining] at filled
        simp [filled]

end Arrival

/-! The levels of an engine. -/

section Engines

variable {engine : Engine} {order : Order} {market : Market}

theorem levels_of_sameUpToLocks {left right : Engine}
    (same : SameUpToLocks left right) : right.levels = left.levels := by
  have unlocked : ∀ orders : List Order,
      levelsOf orders = levelsOf (orders.map Order.unlocked) := by
    intro orders
    unfold levelsOf
    rw [List.map_map]
    rfl
  funext eventID outcome side
  unfold Engine.levels
  rw [unlocked, same.queue_unlocked, ← unlocked]

private theorem levels_of_same {left right : Engine}
    (orders : right.orders = left.orders)
    (slices : ∀ eventID outcome side,
      right.slice eventID outcome side = left.slice eventID outcome side) :
    right.levels = left.levels := by
  funext eventID outcome side
  unfold Engine.levels Engine.queue Engine.load
  rw [orders, slices]

private theorem levels_matched (wellFormed : WellFormed engine)
    (submitted : order.Submitted)
    (fresh : engine.orders.lookup order.id = none)
    (hasMarket : engine.markets.lookup order.eventID = some market)
    (others : ∀ resting ∈ engine.opposing order,
      resting.userID ≠ order.userID) :
    (engine.matched order market).levels =
      engine.levels.change (.arrival order) := by
  rw [levels_of_sameUpToLocks
    (matched_sameUpToLocks wellFormed submitted fresh hasMarket)]
  funext eventID outcome side
  simp only [LevelBook.change]
  rw [Engine.levels, queue_walked wellFormed fresh hasMarket]
  split
  · rename_i here
    obtain ⟨rfl, rfl⟩ := here
    split
    · rename_i own
      subst own
      exact levelsOf_ownQueue wellFormed submitted others
    · rename_i across
      rw [Side.eq_opposite_of_ne across, levelsOf_slicePast submitted,
        tradesFor_volume wellFormed submitted others]
      rfl
  · rfl

private theorem levelsOf_without {orders : List Order}
    (nodup : (orders.map (·.id)).Nodup) (member : order ∈ orders) :
    levelsOf (orders.filter fun resting => decide (resting.id ≠ order.id)) +
        Finsupp.single order.price order.remainingQuantity.toInt =
      levelsOf orders := by
  induction orders with
  | nil => cases member
  | cons head orders induction =>
      rw [List.map_cons, List.nodup_cons] at nodup
      rcases List.mem_cons.mp member with rfl | later
      · rw [List.filter_cons_of_neg (by simp), List.filter_eq_self.mpr,
          levelsOf_cons, add_comm]
        intro resting isResting
        rw [decide_eq_true_eq]
        intro same
        exact nodup.1 (same ▸ List.mem_map_of_mem isResting)
      · have different : head.id ≠ order.id := fun same =>
          nodup.1 (same ▸ List.mem_map_of_mem later)
        rw [List.filter_cons_of_pos (by simpa using different), levelsOf_cons,
          levelsOf_cons, ← induction nodup.2 later, add_assoc]

private theorem levels_cancel (wellFormed : WellFormed engine)
    (present : engine.orders.lookup order.id = some order)
    (hasMarket : engine.markets.lookup order.eventID = some market)
    (live : order.status.live = true) :
    (engine.cancel market order).levels =
      engine.levels.change (.departure order) := by
  rw [levels_of_sameUpToLocks cancel_sameUpToLocks]
  funext eventID outcome side
  simp only [LevelBook.change]
  rw [Engine.levels, queue_closed wellFormed present hasMarket]
  split
  · rename_i here
    obtain ⟨rfl, rfl, rfl⟩ := here
    exact eq_sub_of_add_eq (levelsOf_without
      (wellFormed.queue_ids_nodup _ _ _) (wellFormed.listed present live))
  · rename_i elsewhere
    rw [List.filter_eq_self.mpr]
    · rfl
    intro resting member
    rw [decide_eq_true_eq]
    intro same
    have found := wellFormed.lookup_of_mem member
    rw [same, present] at found
    cases found
    obtain ⟨_, _, rfl, rfl, rfl⟩ := wellFormed.resting member
    exact elsewhere ⟨rfl, rfl, rfl⟩

end Engines

/-! Commands and runs. -/

section Commands

variable {engine : Engine} {input : Input}

private theorem canceled?_command {order : Order}
    (chosen : engine.canceled? input = some order) :
    ∃ req, input.command = .cancelOrder (some req) := by
  unfold Engine.canceled? at chosen
  split at chosen
  · exact ⟨_, by assumption⟩
  · contradiction

theorem change_of_neither (notAdmitted : engine.admitted? input = none)
    (notCanceled : engine.canceled? input = none) :
    engine.change input = .nothing := by
  unfold Engine.change
  rw [notAdmitted, notCanceled]

private theorem change_of_idle (wellFormed : WellFormed engine)
    (idle : engine.Idle input) : engine.change input = .nothing := by
  apply change_of_neither idle.admitted?
  by_contra cancels
  obtain ⟨order, chosen⟩ := Option.ne_none_iff_exists'.mp cancels
  obtain ⟨req, requested⟩ := canceled?_command chosen
  obtain ⟨market, hasMarket⟩ := wellFormed.hasMarket
    (canceled?_spec wellFormed chosen).1
  simp only [Engine.Idle, requested] at idle
  rw [idle order chosen] at hasMarket
  contradiction

private theorem canceled?_of_submitted {order : Order}
    (submitted : input.order? = some order) :
    engine.canceled? input = none := by
  obtain ⟨payload, requested⟩ := Input.order?_command submitted
  simp only [Engine.canceled?, requested]

/-- The levels of the engine follow the changes. -/
theorem levels_step (wellFormed : WellFormed engine)
    (others : engine.MeetsOthers input) :
    (engine.step input).engine.levels =
      engine.levels.change (engine.change input) := by
  have effect := step_effect engine input
  generalize engine.step input = reply at effect ⊢
  cases effect with
  | unchanged response _ idle =>
      rw [change_of_idle wellFormed idle]
      rfl
  | opened order message submitted fresh hasMarket short =>
      have refused : engine.admitted? input = none := by
        simp [Engine.admitted?, submitted, short]
      rw [change_of_neither refused (canceled?_of_submitted submitted)]
      apply levels_of_same (opened_orders engine order)
      intro eventID outcome side
      simp only [Engine.slice, opened_markets]
  | dropped order market submitted fresh hasMarket affords lost =>
      have change : engine.change input = .nothing := by
        unfold Engine.change
        rw [admitted?_eq submitted fresh hasMarket affords, lost]
        rfl
      rw [change]
      apply levels_of_same (frozen_orders engine order)
      intro eventID outcome side
      simp only [Engine.slice, frozen_markets]
  | accepted order market submitted fresh hasMarket affords announced =>
      have admitted := admitted?_eq submitted fresh hasMarket affords
      have valid := Input.order?_submitted submitted
      have change : engine.change input = .arrival order := by
        unfold Engine.change
        rw [admitted, announced]
        rfl
      rw [announceAndMatch_enrolled wellFormed valid fresh hasMarket, change]
      exact levels_matched wellFormed valid fresh hasMarket
        (others order admitted)
  | canceled req order market requested present live hasMarket chosen =>
      have change : engine.change input = .departure order := by
        unfold Engine.change
        rw [admitted?_of_other (by simp [Input.order?, requested]), chosen]
      rw [change]
      exact levels_cancel wellFormed (canceled?_spec wellFormed chosen).1
        hasMarket live
  | marketCreated eventID requested absent =>
      rw [change_of_neither
        (admitted?_of_other (by simp [Input.order?, requested]))
        (by simp [Engine.canceled?, requested])]
      exact levels_of_same rfl (slice_newMarket absent)
  | userFunded userID requested =>
      rw [change_of_neither
        (admitted?_of_other (by simp [Input.order?, requested]))
        (by simp [Engine.canceled?, requested])]
      exact levels_of_same rfl fun _ _ _ => rfl

end Commands

private theorem trades_of_admitted {engine : Engine} {input : Input}
    {order : Order}
    (wellFormed : WellFormed engine)
    (admitted : engine.admitted? input = some order)
    (announced : input.surroundings.orderCreatedEmitted = true) :
    (engine.step input).trades = engine.tradesFor order := by
  obtain ⟨submitted, _, _, affords⟩ := admitted?_spec admitted
  obtain ⟨payload, requested⟩ := Input.order?_command submitted
  have effect := step_effect engine input
  generalize engine.step input = reply at effect ⊢
  cases effect with
  | unchanged _ _ idle =>
      rw [idle.admitted?] at admitted
      contradiction
  | opened other _ isOther _ _ short =>
      rw [submitted] at isOther
      cases isOther
      exact absurd affords short
  | dropped _ _ _ _ _ _ lost =>
      rw [announced] at lost
      contradiction
  | accepted other market isOther fresh hasMarket =>
      rw [submitted] at isOther
      cases isOther
      rw [announceAndMatch_enrolled wellFormed
        (Input.order?_submitted submitted) fresh hasMarket]
  | canceled _ _ _ foreign | marketCreated _ foreign | userFunded _ foreign =>
      rw [requested] at foreign
      contradiction

theorem levels_run {history : History} (wellFormed : WellFormed history.engine)
    {inputs : List Input}
    (others : Along History.step
      (fun history input => history.engine.MeetsOthers input) history inputs) :
    (history.run inputs).engine.levels =
      (changes history.engine inputs).foldl LevelBook.change
        history.engine.levels := by
  induction inputs generalizing history with
  | nil => rfl
  | cons input inputs induction =>
      rw [changes, List.foldl_cons, ← levels_step wellFormed others.1]
      exact @induction (history.step input) (wellFormed_step wellFormed input)
        others.2

/-- The books of a run are, level by level, those of a book of levels that is
told of every order that comes or goes. -/
theorem runSeeded_levels {balances positions : Accounts String}
    {inputs : List Input}
    (others : MeetsAlong
      (fun history input => history.engine.MeetsOthers input) balances
      positions inputs) :
    (runSeeded balances positions inputs).engine.levels =
      (changes (Engine.seeded balances positions) inputs).foldl
        LevelBook.change fun _ _ _ => 0 :=
  levels_run (wellFormed_seeded balances positions) others

def twoSellers : Accounts String :=
  Finmap.insert (positionKey "v" "e" .outcomeYes) ⟨5, 0⟩
    (Finmap.insert (positionKey "w" "e" .outcomeYes) ⟨5, 0⟩ ∅)

def threeAsks : List Input :=
  [.createEvent "e",
    .submit "a1" "e" "v" "LIMIT" "YES" "SELL" 2 4000,
    .submit "a2" "e" "w" "LIMIT" "YES" "SELL" 2 6000,
    .submit "a3" "e" "w" "LIMIT" "YES" "SELL" 3 4000]

def bidAndCancel : List Input :=
  threeAsks ++ [.submit "b" "e" "u" "LIMIT" "YES" "BUY" 7 5000, .cancel "a2"]

theorem levels_bidAndCancel :
    (runSeeded (Finmap.insert "u" ⟨100000, 0⟩ ∅) twoSellers
        bidAndCancel).engine.levels =
      (changes (Engine.seeded (Finmap.insert "u" ⟨100000, 0⟩ ∅) twoSellers)
        bidAndCancel).foldl LevelBook.change (fun _ _ _ => 0) ∧
    (runSeeded (Finmap.insert "u" ⟨100000, 0⟩ ∅) twoSellers
        bidAndCancel).engine.levels "e" .outcomeYes .sideBuy 5000 = 2 := by
  have facts : MeetsAlong
      (fun history input => history.engine.MeetsOthers input)
      (Finmap.insert "u" ⟨100000, 0⟩ ∅) twoSellers bidAndCancel ∧
      openVolume (atPrice ((runSeeded (Finmap.insert "u" ⟨100000, 0⟩ ∅)
        twoSellers bidAndCancel).engine.queue "e" .outcomeYes .sideBuy) 5000) =
          2 := by
    decide +kernel
  refine ⟨runSeeded_levels facts.1, ?_⟩
  unfold Engine.levels
  rw [levelsOf_apply]
  exact facts.2

/-! What a depth says about the next order. -/

def OrderBookEntry.volume (entry : OrderBookEntry) : Int64 × ℤ :=
  (entry.price, entry.quantity.toInt)

private theorem ahead_ne {side : Side} {first second : OrderBookEntry}
    (ahead : OrderBookEntry.ahead side first second) :
    first.price ≠ second.price := by
  rw [Ne, ← Int64.toInt_inj]
  cases side <;>
    simp only [OrderBookEntry.ahead, Int64.lt_iff_toInt_lt] at ahead <;> omega

private theorem not_ahead_behind {side : Side} {first second : OrderBookEntry}
    (ahead : OrderBookEntry.ahead side first second) :
    ¬ side.ahead second.price first.price := by
  cases side <;>
    simp only [OrderBookEntry.ahead, Side.ahead, Int64.lt_iff_toInt_lt]
      at ahead ⊢ <;> omega

private theorem Lists.levels {side : Side} {entries : List OrderBookEntry}
    {orders : List Order} (shown : Lists side entries orders) :
    Tiers.tally (entries.map OrderBookEntry.volume) = levelsOf orders := by
  have nodup : ((entries.map OrderBookEntry.volume).map Prod.fst).Nodup := by
    rw [List.map_map, List.Nodup, List.pairwise_map]
    exact shown.sorted.imp ahead_ne
  ext price
  rw [levelsOf_apply]
  by_cases present : ∃ entry ∈ entries, entry.price = price
  · obtain ⟨entry, member, rfl⟩ := present
    rw [← shown.quantity entry member]
    exact Tiers.tally_of_nodup nodup (List.mem_map_of_mem member)
  · have nothing : atPrice orders price = 0 := by
      rw [shown.prices] at present
      rw [atPrice, Multiset.filter_eq_nil]
      intro order member same
      exact present ⟨order, member, same⟩
    rw [nothing, Tiers.tally_apply_eq_zero]
    · rfl
    · intro item member same
      obtain ⟨entry, isEntry, rfl⟩ := List.mem_map.mp member
      exact present ⟨entry, isEntry, same⟩

/-- The trades of an order are known from the depth before it, if no sum of the
depth wraps: at every price they add up to a walk along the shown entries. -/
theorem runSeeded_depthPredicts {balances positions : Accounts String}
    {inputs : List Input} {surroundings : Surroundings} {depth : Depth}
    {input : Input} {order : Order}
    (answer : ((runSeeded balances positions inputs).engine.step
      ⟨.getDepth (some order.eventID), surroundings⟩).response =
        .successJSON (.depth depth))
    (admitted : (runSeeded balances positions inputs).engine.admitted? input =
      some order)
    (announced : input.surroundings.orderCreatedEmitted = true)
    (others : (runSeeded balances positions inputs).engine.MeetsOthers input)
    (fit : SumsFit ((runSeeded balances positions inputs).engine.listedAt
      order.eventID order.outcome order.side.opposite)) :
    Tiers.tally (((runSeeded balances positions inputs).engine.step
        input).trades.map Trade.volume) =
      Tiers.tally (Tiers.pour order.accepts order.quantity.toInt
        ((depth.levels order.outcome order.side.opposite).map
          OrderBookEntry.volume)) := by
  have wellFormed := wellFormed_runSeeded balances positions inputs
  generalize (runSeeded balances positions inputs).engine = engine at *
  rw [listedAt_eq_queue wellFormed] at fit
  have shown : Lists order.side.opposite
      (depth.levels order.outcome order.side.opposite)
      (engine.queue order.eventID order.outcome order.side.opposite) := by
    rw [levels_of_answer answer]
    exact aggregate_lists _ (queue_resting wellFormed) fit
  have valid := Input.order?_submitted (admitted?_spec admitted).1
  have nonneg : ∀ item ∈ (depth.levels order.outcome order.side.opposite).map
      OrderBookEntry.volume, 0 ≤ item.2 := by
    intro item member
    obtain ⟨entry, isEntry, rfl⟩ := List.mem_map.mp member
    change 0 ≤ entry.quantity.toInt
    rw [shown.quantity entry isEntry, ← levelsOf_apply]
    apply Tiers.tally_nonneg
    intro resting isResting
    obtain ⟨maker, isMaker, rfl⟩ := List.mem_map.mp isResting
    exact le_of_lt (wellFormed.remaining_of_mem isMaker).2
  have sorted : ((depth.levels order.outcome order.side.opposite).map
      OrderBookEntry.volume).Pairwise fun first second =>
        ¬ order.side.opposite.ahead second.1 first.1 := by
    rw [List.pairwise_map]
    exact shown.sorted.imp not_ahead_behind
  have walk := @Tiers.tally_pour _ order.side.opposite.ahead _ _ order.accepts
    (fun ahead accepted => accepts_closed order ahead accepted) _ sorted nonneg
    _ (le_of_lt valid.quantity)
  rw [trades_of_admitted wellFormed admitted announced,
    tradesFor_volume wellFormed valid (others order admitted), walk,
    shown.levels, Order.takes, valid.remaining]
  rfl

/-- A bid for six takes the level at 4000 and a part of the one behind it. -/
theorem depthPredicts_threeAsks :
    Tiers.tally (((runSeeded (Finmap.insert "u" ⟨100000, 0⟩ ∅) twoSellers
        threeAsks).engine.step
          (.submit "b" "e" "u" "LIMIT" "YES" "BUY" 6 7000)).trades.map
            Trade.volume) =
      Tiers.tally [(4000, 5), (6000, 1)] := by
  have facts : (runSeeded (Finmap.insert "u" ⟨100000, 0⟩ ∅) twoSellers
        threeAsks).engine.admitted?
          (.submit "b" "e" "u" "LIMIT" "YES" "BUY" 6 7000) =
            some (pendingYes "b" "u" .sideBuy 6 7000) ∧
      (runSeeded (Finmap.insert "u" ⟨100000, 0⟩ ∅) twoSellers
        threeAsks).engine.MeetsOthers
          (.submit "b" "e" "u" "LIMIT" "YES" "BUY" 6 7000) ∧
      SumsFit ((runSeeded (Finmap.insert "u" ⟨100000, 0⟩ ∅) twoSellers
        threeAsks).engine.queue "e" .outcomeYes .sideSell) := by
    unfold SumsFit
    decide +kernel
  obtain ⟨admitted, others, fit⟩ := facts
  rw [← listedAt_eq_queue (wellFormed_runSeeded _ _ _)] at fit
  exact @runSeeded_depthPredicts _ _ threeAsks ⟨"", true⟩
    ⟨"e", ⟨[], [⟨4000, 5, 20000, 2⟩, ⟨6000, 2, 12000, 1⟩]⟩, ⟨[], []⟩⟩ _ _
    (by decide +kernel) admitted rfl others fit

end Predix
