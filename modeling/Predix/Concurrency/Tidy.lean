import Predix.Book.Step
import Predix.Concurrency.Section

namespace Predix

open Data Word

/-! The books and the order table between two sections. -/

structure Order.Continues (later earlier : Order) : Prop
    extends later.SameTerms earlier where
  id : later.id = earlier.id

namespace Order.Continues

theorem refl (order : Order) : order.Continues order :=
  ⟨.refl order, rfl⟩

theorem trans {first second third : Order} (left : first.Continues second)
    (right : second.Continues third) : first.Continues third :=
  ⟨left.toSameTerms.trans right.toSameTerms, left.id.trans right.id⟩

end Order.Continues

theorem Order.Progressed.continues {later earlier : Order}
    (progressed : later.Progressed earlier) : later.Continues earlier :=
  ⟨progressed.terms, progressed.id⟩

theorem Order.released_continues (order : Order) :
    order.released.Continues order := by
  refine ⟨order.released_terms, ?_⟩
  rw [order.released_eq]
  rfl

theorem Order.settledAll_continues (order : Order) (trades : List Trade) :
    (order.settledAll trades).Continues order := by
  refine ⟨order.settledAll_terms trades, ?_⟩
  rw [order.settledAll_eq]
  rfl

theorem Order.canceled_continues (order : Order) :
    order.canceled.Continues order :=
  ⟨⟨rfl, rfl, rfl, rfl, rfl, rfl, rfl⟩, rfl⟩

/-- An id is registered for a LIMIT order that belongs on one side of one
book. -/
def Engine.BelongsTo (engine : Engine) (id eventID : String)
    (outcome : Outcome) (side : Side) : Prop :=
  ∃ order, engine.orders.lookup id = some order ∧ order.eventID = eventID ∧
    order.outcome = outcome ∧ order.side = side ∧
      order.orderType = .orderTypeLimit

/-- Every listed order is registered, in its own place; the orders that wait
between their two sections are registered and not yet listed. -/
structure Tidy (engine : Engine) (waiting : String → Prop) : Prop where
  keyed : engine.Keyed
  hasMarket : ∀ {id order}, engine.orders.lookup id = some order →
    ∃ market, engine.markets.lookup order.eventID = some market
  priced : ∀ {id order}, engine.orders.lookup id = some order →
    order.orderType = .orderTypeLimit → 0 < order.price.toInt
  listed : ∀ {id eventID outcome side},
    id ∈ engine.slice eventID outcome side →
      engine.BelongsTo id eventID outcome side
  nodup : ∀ eventID outcome side, (engine.slice eventID outcome side).Nodup
  registered : ∀ {id}, waiting id → engine.orders.lookup id ≠ none
  unlisted : ∀ {id}, waiting id → ∀ eventID outcome side,
    id ∉ engine.slice eventID outcome side

theorem tidy_seeded (balances positions : Accounts String) :
    Tidy (Engine.seeded balances positions) (fun _ => False) where
  keyed := (wellFormed_seeded balances positions).keyed
  hasMarket := (wellFormed_seeded balances positions).hasMarket
  priced := by
    intro id order present
    simp [Engine.seeded] at present
  listed := by
    intro id eventID outcome side member
    simp [Engine.slice, Engine.seeded] at member
  nodup := (wellFormed_seeded balances positions).nodup
  registered := False.elim
  unlisted := False.elim

namespace Tidy

variable {engine : Engine} {waiting : String → Prop}

theorem placed (tidy : Tidy engine waiting) {order : Order}
    (present : engine.orders.lookup order.id = some order)
    {eventID : String} {outcome : Outcome} {side : Side}
    (member : order.id ∈ engine.slice eventID outcome side) :
    order.eventID = eventID ∧ order.outcome = outcome ∧ order.side = side := by
  obtain ⟨found, foundPresent, event, outcomes, sides, _⟩ := tidy.listed member
  rw [present] at foundPresent
  cases foundPresent
  exact ⟨event, outcomes, sides⟩

private theorem unlisted_of_fresh (tidy : Tidy engine waiting) {id : String}
    (fresh : engine.orders.lookup id = none) (eventID : String)
    (outcome : Outcome) (side : Side) :
    id ∉ engine.slice eventID outcome side := by
  intro member
  obtain ⟨order, present, _⟩ := tidy.listed member
  rw [fresh] at present
  contradiction

/-- The orders go on; a slice may lose orders, and gain one that no longer
waits in its own place. -/
theorem of_continues (tidy : Tidy engine waiting) {later : Engine}
    {fewer : String → Prop} (fewerOf : ∀ {id}, fewer id → waiting id)
    (markets : ∀ eventID market, engine.markets.lookup eventID = some market →
      ∃ new, later.markets.lookup eventID = some new)
    (orders : FiniteMap.Related Order.Continues later.orders engine.orders)
    (slices : ∀ {id eventID outcome side},
      id ∈ later.slice eventID outcome side →
        id ∈ engine.slice eventID outcome side ∨
          ¬ fewer id ∧ engine.BelongsTo id eventID outcome side)
    (nodup : ∀ eventID outcome side,
      (later.slice eventID outcome side).Nodup) : Tidy later fewer where
  keyed := by
    intro id order present
    obtain ⟨old, oldPresent, continues⟩ := orders.of_left present
    rw [continues.id, tidy.keyed id old oldPresent]
  hasMarket := by
    intro id order present
    obtain ⟨old, oldPresent, continues⟩ := orders.of_left present
    obtain ⟨market, hasMarket⟩ := tidy.hasMarket oldPresent
    rw [continues.eventID]
    exact markets old.eventID market hasMarket
  priced := by
    intro id order present limit
    obtain ⟨old, oldPresent, continues⟩ := orders.of_left present
    rw [continues.price]
    exact tidy.priced oldPresent (continues.orderType.symm.trans limit)
  listed := by
    intro id eventID outcome side member
    have belongs : engine.BelongsTo id eventID outcome side := by
      rcases slices member with old | ⟨_, belongs⟩
      · exact tidy.listed old
      · exact belongs
    obtain ⟨old, oldPresent, event, outcomes, sides, limit⟩ := belongs
    obtain ⟨new, newPresent, continues⟩ := orders.of_right oldPresent
    exact ⟨new, newPresent, continues.eventID.trans event,
      continues.outcome.trans outcomes, continues.side.trans sides,
      continues.orderType.trans limit⟩
  nodup := nodup
  registered := by
    intro id waits absent
    cases present : engine.orders.lookup id with
    | none => exact tidy.registered (fewerOf waits) present
    | some order =>
        obtain ⟨new, newPresent, _⟩ := orders.of_right present
        rw [absent] at newPresent
        contradiction
  unlisted := by
    intro id waits eventID outcome side listed
    rcases slices listed with old | ⟨gone, _⟩
    · exact tidy.unlisted (fewerOf waits) eventID outcome side old
    · exact gone waits

theorem of_ledger (tidy : Tidy engine waiting) {later : Engine}
    (markets : later.markets = engine.markets)
    (orders : later.orders = engine.orders) : Tidy later waiting := by
  obtain ⟨_, _, _, _⟩ := later
  cases markets
  cases orders
  exact ⟨tidy.keyed, tidy.hasMarket, tidy.priced, tidy.listed, tidy.nodup,
    tidy.registered, tidy.unlisted⟩

end Tidy

/-! The first section. -/

section Begin

variable {engine : Engine} {waiting : String → Prop} {order : Order}
  {market : Market} (tidy : Tidy engine waiting)

theorem slice_enrolled (eventID : String) (outcome : Outcome) (side : Side) :
    (engine.enrolled order).slice eventID outcome side =
      engine.slice eventID outcome side := by
  simp only [Engine.slice, enrolled_markets]

include tidy

theorem slice_cancel (present : engine.orders.lookup order.id = some order)
    (hasMarket : engine.markets.lookup order.eventID = some market)
    (eventID : String) (outcome : Outcome) (side : Side) :
    (engine.cancel market order).slice eventID outcome side =
      (engine.slice eventID outcome side).filter
        fun id => decide (id ≠ order.id) := by
  rw [cancel_sameUpToLocks.slice_eq]
  exact slice_closed_of_placed hasMarket tidy.nodup (tidy.placed present)
    eventID outcome side

private theorem tidy_cancel
    (present : engine.orders.lookup order.id = some order)
    (hasMarket : engine.markets.lookup order.eventID = some market) :
    Tidy (engine.cancel market order) waiting := by
  have slices := slice_cancel tidy present hasMarket
  apply tidy.of_continues (fun waits => waits)
  · intro eventID old oldMarket
    rw [cancel_sameUpToLocks.markets]
    change ∃ new, Finmap.lookup eventID
      (Finmap.insert order.eventID _ engine.markets) = some new
    rw [FiniteMap.lookup_insert_eq]
    split
    · exact ⟨_, rfl⟩
    · exact ⟨old, oldMarket⟩
  · intro id
    rw [lookup_cancel_released]
    split
    · rename_i same
      rw [same, present]
      exact .some ((Order.released_continues _).trans
        order.canceled_continues)
    · exact FiniteMap.Related.refl Order.Continues.refl engine.orders id
  · intro id eventID outcome side member
    rw [slices] at member
    exact .inl (List.mem_filter.mp member).1
  · intro eventID outcome side
    rw [slices]
    exact (tidy.nodup eventID outcome side).filter _

theorem tidy_enrolled (submitted : order.Submitted)
    (fresh : engine.orders.lookup order.id = none)
    (hasMarket : engine.markets.lookup order.eventID = some market) :
    Tidy (engine.enrolled order) (fun id => waiting id ∨ id = order.id) where
  keyed := by
    intro id found present
    rw [lookup_enrolled] at present
    split at present
    · rename_i same
      cases present
      exact same.symm
    · exact tidy.keyed id found present
  hasMarket := by
    intro id found present
    rw [enrolled_markets]
    rw [lookup_enrolled] at present
    split at present
    · cases present
      exact ⟨market, hasMarket⟩
    · exact tidy.hasMarket present
  priced := by
    intro id found present
    rw [lookup_enrolled] at present
    split at present
    · cases present
      exact submitted.price
    · exact tidy.priced present
  listed := by
    intro id eventID outcome side member
    rw [slice_enrolled] at member
    obtain ⟨found, present, place⟩ := tidy.listed member
    refine ⟨found, ?_, place⟩
    rw [lookup_enrolled, if_neg, present]
    rintro rfl
    exact tidy.unlisted_of_fresh fresh eventID outcome side member
  nodup := by
    intro eventID outcome side
    rw [slice_enrolled]
    exact tidy.nodup eventID outcome side
  registered := by
    intro id waits
    rw [lookup_enrolled]
    split
    · simp
    · rename_i different
      rcases waits with old | new
      · exact tidy.registered old
      · exact absurd new different
  unlisted := by
    intro id waits eventID outcome side
    rw [slice_enrolled]
    rcases waits with old | rfl
    · exact tidy.unlisted old eventID outcome side
    · exact tidy.unlisted_of_fresh fresh eventID outcome side

private theorem tidy_newMarket {created : String}
    (absent : engine.markets.lookup created = none) :
    Tidy { engine with markets := engine.markets.insert created newMarket }
      waiting := by
  apply tidy.of_continues (fun waits => waits)
  · intro eventID old oldMarket
    rw [FiniteMap.lookup_insert_eq]
    split
    · exact ⟨_, rfl⟩
    · exact ⟨old, oldMarket⟩
  · exact FiniteMap.Related.refl Order.Continues.refl engine.orders
  · intro id eventID outcome side member
    rw [slice_newMarket absent] at member
    exact .inl member
  · intro eventID outcome side
    rw [slice_newMarket absent]
    exact tidy.nodup eventID outcome side

end Begin

def Begun.waiting : Begun → List String
  | .answered _ => []
  | .registered order => [order.id]

theorem Tidy.waitsFor {engine : Engine} {waiting other : String → Prop}
    (tidy : Tidy engine waiting) (same : ∀ {id}, other id → waiting id) :
    Tidy engine other :=
  tidy.of_continues same (fun _ market has => ⟨market, has⟩)
    (.refl Order.Continues.refl _) .inl tidy.nodup

theorem tidy_begin {engine : Engine} {waiting : String → Prop}
    (tidy : Tidy engine waiting) (input : Input) :
    Tidy (beginCommand engine input).1
      (fun id => waiting id ∨ id ∈ (beginCommand engine input).2.waiting) := by
  have opening := beginCommand_opening engine input
  generalize beginCommand engine input = result at opening ⊢
  cases opening with
  | unchanged response idle =>
      simp only [Begun.waiting, List.not_mem_nil, or_false]
      exact tidy
  | opened order message =>
      simp only [Begun.waiting, List.not_mem_nil, or_false]
      exact tidy.of_ledger (opened_markets engine order)
        (opened_orders engine order)
  | canceled req order market requested present live hasMarket chosen =>
      simp only [Begun.waiting, List.not_mem_nil, or_false]
      have ownID := tidy.keyed _ _ present
      rw [← ownID] at present
      exact tidy_cancel tidy present hasMarket
  | marketCreated eventID requested absent =>
      simp only [Begun.waiting, List.not_mem_nil, or_false]
      exact tidy_newMarket tidy absent
  | userFunded userID requested absent =>
      simp only [Begun.waiting, List.not_mem_nil, or_false]
      exact tidy.of_ledger rfl rfl
  | registered order market submitted fresh hasMarket affords =>
      simp only [Begun.waiting, List.mem_singleton]
      exact tidy_enrolled tidy (Input.order?_submitted submitted) fresh
        hasMarket

theorem slice_begin {engine : Engine} {waiting : String → Prop}
    (tidy : Tidy engine waiting) {input : Input} {id eventID : String}
    {outcome : Outcome} {side : Side}
    (member : id ∈ (beginCommand engine input).1.slice eventID outcome side) :
    id ∈ engine.slice eventID outcome side := by
  have opening := beginCommand_opening engine input
  generalize beginCommand engine input = result at opening member
  cases opening with
  | unchanged response idle => exact member
  | opened order message =>
      simp only [Engine.slice, opened_markets] at member
      exact member
  | canceled req order market requested present live hasMarket chosen =>
      have ownID := tidy.keyed _ _ present
      rw [← ownID] at present
      rw [slice_cancel tidy present hasMarket] at member
      exact (List.mem_filter.mp member).1
  | marketCreated created requested absent =>
      rw [slice_newMarket absent] at member
      exact member
  | userFunded userID requested absent => exact member
  | registered order market submitted fresh hasMarket affords =>
      rw [slice_enrolled] at member
      exact member

theorem begin_continues {engine : Engine} {waiting : String → Prop}
    (tidy : Tidy engine waiting) {input : Input} {id : String} {order : Order}
    (present : (beginCommand engine input).1.orders.lookup id = some order) :
    (∃ earlier, engine.orders.lookup id = some earlier ∧
        order.Continues earlier) ∨
      ∃ submitted, input.order? = some submitted ∧
        order.Continues submitted := by
  have kept : ∀ {found}, engine.orders.lookup id = some found →
      ∃ earlier, engine.orders.lookup id = some earlier ∧
        found.Continues earlier :=
    fun {found} isFound => ⟨found, isFound, .refl found⟩
  have opening := beginCommand_opening engine input
  generalize beginCommand engine input = result at opening present
  cases opening with
  | unchanged response idle => exact .inl (kept present)
  | opened opened message =>
      rw [opened_orders] at present
      exact .inl (kept present)
  | canceled req canceled market requested found live hasMarket chosen =>
      have ownID := tidy.keyed _ _ found
      rw [← ownID] at found
      rw [lookup_cancel_released] at present
      split at present
      · rename_i same
        cases present
        rw [same]
        exact .inl ⟨canceled, found, (Order.released_continues _).trans
          canceled.canceled_continues⟩
      · exact .inl (kept present)
  | marketCreated created requested absent => exact .inl (kept present)
  | userFunded userID requested absent => exact .inl (kept present)
  | registered submitted market isSubmitted fresh hasMarket affords =>
      rw [lookup_enrolled] at present
      split at present
      · cases present
        exact .inr ⟨submitted, isSubmitted,
          ⟨⟨rfl, rfl, rfl, rfl, rfl, rfl, rfl⟩, rfl⟩⟩
      · exact .inl (kept present)

theorem begin_fresh {engine : Engine} {input : Input} {id : String}
    (waits : id ∈ (beginCommand engine input).2.waiting) :
    engine.orders.lookup id = none := by
  have opening := beginCommand_opening engine input
  generalize beginCommand engine input = result at opening waits
  cases opening with
  | registered order market submitted fresh hasMarket affords =>
      rw [List.mem_singleton.mp waits]
      exact fresh
  | _ => simp [Begun.waiting] at waits

/-! The second section. -/

theorem load_map_id_sublist {engine : Engine} (keyed : engine.Keyed)
    (ids : List String) :
    ((engine.load ids).map (·.id)).Sublist ids := by
  unfold Engine.load
  induction ids with
  | nil => exact List.Sublist.refl []
  | cons id ids induction =>
      rw [List.filterMap_cons]
      cases present : engine.orders.lookup id with
      | none => exact induction.cons id
      | some order =>
          rw [List.map_cons, keyed id order present]
          exact induction.cons_cons id

section Finish

variable {engine : Engine} {waiting : String → Prop} {order : Order}
  {market : Market} (tidy : Tidy engine waiting)
  (present : engine.orders.lookup order.id = some order)
  (hasMarket : engine.markets.lookup order.eventID = some market)

theorem walk_walking : Walking
    (engine.load ((market.book order.outcome).slice order.side.opposite)) order
    (engine.walk order market).1 (engine.walk order market).2 :=
  matchAgainstBook_walking _ _

theorem walker_progressed : (engine.walker order market).Progressed order := by
  have incoming : (engine.walk order market).1.incoming.Progressed order :=
    walk_walking.incoming
  rw [Engine.walker, Order.Progressed]
  rw [incoming]

@[simp] theorem walker_id : (engine.walker order market).id = order.id :=
  walker_progressed.id

private theorem walker_limit
    (live : (engine.walker order market).status.live = true) :
    order.orderType = .orderTypeLimit := by
  have incoming : (engine.walk order market).1.incoming.Progressed order :=
    walk_walking.incoming
  rw [← incoming.terms.orderType]
  exact (statusAfterMatch_live.mp live).1

include tidy hasMarket in
theorem mem_source {maker : Order}
    (member : maker ∈ engine.load
      ((market.book order.outcome).slice order.side.opposite)) :
    engine.orders.lookup maker.id = some maker ∧
      maker.id ∈ engine.slice order.eventID order.outcome
        order.side.opposite := by
  obtain ⟨id, inSlice, isMaker⟩ := mem_load.mp member
  have ownID := tidy.keyed id maker isMaker
  subst ownID
  rw [slice_of_market hasMarket]
  exact ⟨isMaker, inSlice⟩

theorem finished_markets :
    (engine.finished order market).markets =
      (engine.stored order market).markets := by
  unfold Engine.finished
  simp only
  split
  · unfold Engine.release
    split
    · exact settleAll_markets _ _
    · rw [releaseOrderLocked_markets, settleAll_markets]
  · exact settleAll_markets _ _

theorem lookup_stored (id : String) :
    (engine.stored order market).orders.lookup id =
      if id = order.id then some (engine.walker order market)
      else (FiniteMap.insertAll
        ((engine.walk order market).1.makers.map fun maker =>
          (maker.id, maker)) engine.orders).lookup id := by
  unfold Engine.stored Engine.storeMatch
  rw [FiniteMap.lookup_insert_eq, walker_id]

theorem lookup_stored_self :
    (engine.stored order market).orders.lookup order.id =
      some (engine.walker order market) := by
  rw [lookup_stored, if_pos rfl]

include tidy hasMarket in
theorem lookup_stored_outside {id : String} (other : id ≠ order.id)
    (outside : id ∉ engine.slice order.eventID order.outcome
      order.side.opposite) :
    (engine.stored order market).orders.lookup id =
      engine.orders.lookup id := by
  rw [lookup_stored, if_neg other, FiniteMap.lookup_insertAll_of_notMem]
  rw [List.map_map]
  intro member
  obtain ⟨maker, isMaker, same⟩ := List.mem_map.mp member
  obtain ⟨earlier, inSource, progressed⟩ := walk_walking.makers maker isMaker
  have ownID : maker.id = id := same
  rw [← ownID, progressed.id] at outside
  exact outside (mem_source tidy hasMarket inSource).2

include tidy present hasMarket

theorem stored_progressed : FiniteMap.Related Order.Progressed
    (engine.stored order market).orders engine.orders := by
  intro id
  rw [lookup_stored]
  split
  · rename_i same
    rw [same, present]
    exact .some walker_progressed
  · rcases FiniteMap.lookup_insertAll_cases
        ((engine.walk order market).1.makers.map fun maker =>
          (maker.id, maker)) engine.orders id with
      ⟨later, member, written⟩ | ⟨_, kept⟩
    · obtain ⟨maker, isMaker, isEntry⟩ := List.mem_map.mp member
      cases isEntry
      obtain ⟨earlier, inSource, progressed⟩ :=
        walk_walking.makers later isMaker
      rw [written, progressed.id, (mem_source tidy hasMarket inSource).1]
      exact .some progressed
    · rw [kept]
      exact FiniteMap.Related.refl Order.Progressed.refl engine.orders id

theorem stored_keyed : (engine.stored order market).Keyed := by
  intro id found lookedUp
  obtain ⟨earlier, old, progressed⟩ :=
    (stored_progressed tidy present hasMarket).of_left lookedUp
  rw [progressed.id, tidy.keyed id earlier old]

variable (isWaiting : waiting order.id)

include isWaiting in
omit present in
theorem walk_trade {trade : Trade}
    (member : trade ∈ (engine.walk order market).1.trades) :
    ∃ maker, engine.orders.lookup maker.id = some maker ∧
      maker.id ∈ engine.slice order.eventID order.outcome
        order.side.opposite ∧
      trade = buildTrade order maker trade.quantity ∧
      maker.outcome = order.outcome ∧ maker.userID ≠ order.userID ∧
      maker.id ≠ order.id ∧ 0 < trade.quantity := by
  obtain ⟨maker, inSource, isTrade, outcome, user, positive⟩ :=
    walk_walking.trades trade member
  obtain ⟨registered, inSlice⟩ := mem_source tidy hasMarket inSource
  refine ⟨maker, registered, inSlice, isTrade, outcome, user, ?_, positive⟩
  intro same
  rw [same] at inSlice
  exact tidy.unlisted isWaiting _ _ _ inSlice

include isWaiting

omit present in
theorem walk_distinct : ∀ trade ∈ (engine.walk order market).1.trades,
    trade.orderID ≠ trade.matchOrderID := by
  intro trade member
  obtain ⟨maker, _, _, isTrade, _, _, different, _⟩ :=
    walk_trade tidy hasMarket isWaiting member
  rw [isTrade]
  exact different.symm

def Engine.finishedOrder (engine : Engine) (order : Order) (market : Market)
    (id : String) (found : Order) : Order :=
  let settled := found.settledAll (engine.walk order market).1.trades
  if id = order.id ∧
      ((engine.walker order market).status = .statusFilled ∨
        (engine.walker order market).status = .statusCanceled) then
    settled.released
  else
    settled

theorem lookup_settled_self :
    (settleAll (engine.stored order market)
        (engine.walk order market).1.trades).orders.lookup order.id =
      some ((engine.walker order market).settledAll
        (engine.walk order market).1.trades) := by
  rw [lookup_settleAll (stored_keyed tidy present hasMarket)
    (walk_distinct tidy hasMarket isWaiting), lookup_stored_self]
  rfl

/-- The order whose lock is released is the settled walker. -/
theorem release_settled :
    (settleAll (engine.stored order market)
        (engine.walk order market).1.trades).release order.id =
      releaseOrderLocked
        (settleAll (engine.stored order market)
          (engine.walk order market).1.trades)
        ((engine.walker order market).settledAll
          (engine.walk order market).1.trades) := by
  simp only [Engine.release,
    lookup_settled_self tidy present hasMarket isWaiting]

theorem lookup_finished (id : String) :
    (engine.finished order market).orders.lookup id =
      ((engine.stored order market).orders.lookup id).map
        (engine.finishedOrder order market id) := by
  have settled := lookup_settleAll (stored_keyed tidy present hasMarket)
    (walk_distinct tidy hasMarket isWaiting)
  have own := lookup_settled_self tidy present hasMarket isWaiting
  have ownID : ((engine.walker order market).settledAll
      (engine.walk order market).1.trades).id = order.id :=
    (Order.settledAll_continues _ _).id.trans walker_id
  unfold Engine.finished Engine.finishedOrder
  simp only
  by_cases gone : (engine.walker order market).status = .statusFilled ∨
      (engine.walker order market).status = .statusCanceled
  · rw [if_pos gone, release_settled tidy present hasMarket isWaiting,
      lookup_releaseOrderLocked _ _ (by rw [ownID]; exact own), ownID]
    simp only [gone, and_true]
    split
    · rename_i same
      rw [same, lookup_stored_self]
      rfl
    · rw [settled]
  · rw [if_neg gone]
    simp only [gone, and_false, if_false]
    exact settled id

end Finish

/-! The slices after the second section. -/

section Slices

variable {engine : Engine} {waiting : String → Prop} {order : Order}
  {market : Market}

theorem slice_finished (eventID : String) (outcome : Outcome) (side : Side) :
    (engine.finished order market).slice eventID outcome side =
      (engine.stored order market).slice eventID outcome side := by
  simp only [Engine.slice, finished_markets]

def Engine.shelf (engine : Engine) (order : Order) (market : Market) :
    OrderBook :=
  let book := (market.book order.outcome).setSlice order.side.opposite
    ((engine.walk order market).2.map (·.id))
  if (engine.walker order market).status.live then
    book.setSlice order.side
      ((addToBook
        (engine.load ((market.book order.outcome).slice order.side))
        (engine.walker order market)).map (·.id))
  else
    book

theorem stored_markets :
    (engine.stored order market).markets =
      engine.markets.insert order.eventID
        (market.setBook order.outcome (engine.shelf order market)) := by
  have progressed : (engine.walker order market).Progressed order :=
    walker_progressed
  have terms := progressed.terms
  unfold Engine.stored Engine.storeMatch Engine.shelf
  simp only [terms.eventID, terms.outcome, terms.side,
    OrderBook.slice_setSlice, order.side.opposite_ne.symm, if_false]

theorem slice_stored (eventID : String) (outcome : Outcome) (side : Side) :
    (engine.stored order market).slice eventID outcome side =
      if eventID = order.eventID then
        if outcome = order.outcome then
          (engine.shelf order market).slice side
        else
          (market.book outcome).slice side
      else
        engine.slice eventID outcome side := by
  rw [Engine.slice, stored_markets, FiniteMap.lookup_insert_eq]
  by_cases event : eventID = order.eventID
  · rw [if_pos event, if_pos event]
    simp only [Market.book_setBook]
    split <;> rfl
  · rw [if_neg event, if_neg event]
    rfl

theorem shelf_opposite :
    (engine.shelf order market).slice order.side.opposite =
      (engine.walk order market).2.map (·.id) := by
  unfold Engine.shelf
  simp only
  split <;> simp

theorem shelf_own :
    (engine.shelf order market).slice order.side =
      if (engine.walker order market).status.live then
        (addToBook
          (engine.load ((market.book order.outcome).slice order.side))
          (engine.walker order market)).map (·.id)
      else
        (market.book order.outcome).slice order.side := by
  unfold Engine.shelf
  simp only
  split
  · simp
  · simp [order.side.opposite_ne.symm]

theorem addToBook_ids (orders : List Order) (order : Order) :
    ((addToBook orders order).map (·.id)).Perm
      (orders.map (·.id) ++ [order.id]) := by
  have sorted := (List.perm_insertionSort (Order.sortsBefore order.side)
    (orders ++ [order])).map (·.id)
  rw [List.map_append] at sorted
  exact sorted

variable (tidy : Tidy engine waiting)
  (hasMarket : engine.markets.lookup order.eventID = some market)

include tidy hasMarket

private theorem mem_shelf {id : String} {side : Side}
    (member : id ∈ (engine.shelf order market).slice side) :
    id ∈ engine.slice order.eventID order.outcome side ∨
      id = order.id ∧ side = order.side ∧
        order.orderType = .orderTypeLimit := by
  rw [slice_of_market hasMarket]
  cases Decidable.em (side = order.side) with
  | inl own =>
      subst own
      rw [shelf_own] at member
      split at member
      · rename_i live
        rw [(addToBook_ids _ _).mem_iff, List.mem_append,
          List.mem_singleton, walker_id] at member
        rcases member with old | new
        · exact .inl ((load_map_id_sublist tidy.keyed _).subset old)
        · exact .inr ⟨new, rfl, walker_limit live⟩
      · exact .inl member
  | inr other =>
      rw [Side.eq_opposite_of_ne other, shelf_opposite] at member
      rw [Side.eq_opposite_of_ne other]
      exact .inl ((walk_walking.ids.trans
        (load_map_id_sublist tidy.keyed _)).subset member)

theorem mem_slice_finished {id eventID : String} {outcome : Outcome}
    {side : Side}
    (member : id ∈ (engine.finished order market).slice eventID outcome side) :
    id ∈ engine.slice eventID outcome side ∨
      id = order.id ∧ eventID = order.eventID ∧ outcome = order.outcome ∧
        side = order.side ∧ order.orderType = .orderTypeLimit := by
  rw [slice_finished, slice_stored] at member
  split at member
  · rename_i event
    split at member
    · rename_i outcomes
      rcases mem_shelf tidy hasMarket member with old | ⟨same, sides, limit⟩
      · rw [event, outcomes]
        exact .inl old
      · exact .inr ⟨same, event, outcomes, sides, limit⟩
    · rw [← slice_of_market hasMarket] at member
      rw [event]
      exact .inl member
  · exact .inl member

variable (isWaiting : waiting order.id)

include isWaiting

private theorem nodup_shelf (side : Side) :
    ((engine.shelf order market).slice side).Nodup := by
  have nodup := tidy.nodup order.eventID order.outcome
  have unlisted := tidy.unlisted isWaiting order.eventID order.outcome
  simp only [slice_of_market hasMarket] at nodup unlisted
  cases Decidable.em (side = order.side) with
  | inl own =>
      subst own
      have loaded := load_map_id_sublist tidy.keyed
        ((market.book order.outcome).slice order.side)
      rw [shelf_own]
      split
      · rw [(addToBook_ids _ _).nodup_iff, List.nodup_append]
        refine ⟨loaded.nodup (nodup order.side), List.nodup_singleton _, ?_⟩
        intro id member other isOrder same
        rw [same, List.mem_singleton.mp isOrder, walker_id] at member
        exact unlisted order.side (loaded.subset member)
      · exact nodup order.side
  | inr other =>
      rw [Side.eq_opposite_of_ne other, shelf_opposite]
      exact (walk_walking.ids.trans (load_map_id_sublist tidy.keyed _)).nodup
        (nodup _)

private theorem nodup_slice_finished (eventID : String) (outcome : Outcome)
    (side : Side) :
    ((engine.finished order market).slice eventID outcome side).Nodup := by
  rw [slice_finished, slice_stored]
  split
  · split
    · exact nodup_shelf tidy hasMarket isWaiting side
    · rw [← slice_of_market hasMarket]
      exact tidy.nodup _ _ _
  · exact tidy.nodup _ _ _

theorem finished_continues
    (present : engine.orders.lookup order.id = some order) :
    FiniteMap.Related Order.Continues (engine.finished order market).orders
      engine.orders := by
  have settled : FiniteMap.Related Order.Continues
      (engine.finished order market).orders
      (engine.stored order market).orders := by
    apply FiniteMap.Related.of_map (fun id found => ?_)
      (lookup_finished tidy present hasMarket isWaiting)
    unfold Engine.finishedOrder
    simp only
    split
    · exact (Order.released_continues _).trans
        (Order.settledAll_continues _ _)
    · exact Order.settledAll_continues _ _
  have walked : FiniteMap.Related Order.Continues
      (engine.stored order market).orders engine.orders :=
    (stored_progressed tidy present hasMarket).imp
      fun progressed => progressed.continues
  exact settled.trans (fun first second => first.trans second) walked

private theorem tidy_finished
    (present : engine.orders.lookup order.id = some order)
    {fewer : String → Prop} (fewerOf : ∀ {id}, fewer id → waiting id)
    (gone : ¬ fewer order.id) :
    Tidy (engine.finished order market) fewer := by
  apply tidy.of_continues fewerOf
  · intro eventID old oldMarket
    rw [finished_markets, stored_markets, FiniteMap.lookup_insert_eq]
    split
    · exact ⟨_, rfl⟩
    · exact ⟨old, oldMarket⟩
  · exact finished_continues tidy hasMarket isWaiting present
  · intro id eventID outcome side member
    rcases mem_slice_finished tidy hasMarket member with
      old | ⟨rfl, rfl, rfl, rfl, limit⟩
    · exact .inl old
    · exact .inr ⟨gone, order, present, rfl, rfl, rfl, limit⟩
  · exact nodup_slice_finished tidy hasMarket isWaiting

end Slices

theorem tidy_matchOrder {engine : Engine} {waiting fewer : String → Prop}
    (tidy : Tidy engine waiting) {orderID : String}
    (isWaiting : waiting orderID) (fewerOf : ∀ {id}, fewer id → waiting id)
    (gone : ¬ fewer orderID) :
    Tidy (matchOrder engine orderID).1 fewer := by
  have finishing := matchOrder_finishing tidy.keyed orderID
  generalize matchOrder engine orderID = result at finishing ⊢
  cases finishing with
  | absent absent => exact absurd absent (tidy.registered isWaiting)
  | canceled order present canceled => exact tidy.waitsFor fewerOf
  | rejected order present notCanceled noMarket =>
      obtain ⟨market, hasMarket⟩ := tidy.hasMarket present
      rw [noMarket] at hasMarket
      contradiction
  | matched order market present notCanceled hasMarket =>
      have ownID := tidy.keyed orderID order present
      subst ownID
      dsimp only
      exact tidy_finished tidy hasMarket isWaiting present fewerOf gone

theorem tidy_erase {engine : Engine} {waiting fewer : String → Prop}
    (tidy : Tidy engine waiting) {orderID : String}
    (isWaiting : waiting orderID) (fewerOf : ∀ {id}, fewer id → waiting id)
    (gone : ¬ fewer orderID) :
    Tidy { engine with orders := engine.orders.erase orderID } fewer := by
  have kept : ∀ {id order},
      (engine.orders.erase orderID).lookup id = some order →
        engine.orders.lookup id = some order :=
    fun present => FiniteMap.lookup_of_erase present
  refine ⟨?_, ?_, ?_, ?_, tidy.nodup, ?_, ?_⟩
  · intro id order present
    exact tidy.keyed id order (kept present)
  · intro id order present
    exact tidy.hasMarket (kept present)
  · intro id order present
    exact tidy.priced (kept present)
  · intro id eventID outcome side member
    obtain ⟨order, present, place⟩ := tidy.listed member
    refine ⟨order, ?_, place⟩
    rw [FiniteMap.lookup_erase_eq, if_neg]
    · exact present
    · rintro rfl
      exact tidy.unlisted isWaiting eventID outcome side member
  · intro id waits
    rw [FiniteMap.lookup_erase_eq, if_neg]
    · exact tidy.registered (fewerOf waits)
    · rintro rfl
      exact gone waits
  · intro id waits
    exact tidy.unlisted (fewerOf waits)

theorem matchOrder_continues {engine : Engine} {waiting : String → Prop}
    (tidy : Tidy engine waiting) {orderID : String}
    (isWaiting : waiting orderID) :
    FiniteMap.Related Order.Continues (matchOrder engine orderID).1.orders
      engine.orders := by
  have finishing := matchOrder_finishing tidy.keyed orderID
  generalize matchOrder engine orderID = result at finishing ⊢
  cases finishing with
  | absent absent => exact absurd absent (tidy.registered isWaiting)
  | canceled order present canceled => exact .refl Order.Continues.refl _
  | rejected order present notCanceled noMarket =>
      obtain ⟨market, hasMarket⟩ := tidy.hasMarket present
      rw [noMarket] at hasMarket
      contradiction
  | matched order market present notCanceled hasMarket =>
      have ownID := tidy.keyed orderID order present
      subst ownID
      dsimp only
      exact finished_continues tidy hasMarket isWaiting present

/-- A second section lists its own order only, and trades it against listed
ones only. -/
theorem mem_slice_matchOrder {engine : Engine} {waiting : String → Prop}
    (tidy : Tidy engine waiting) {orderID id eventID : String}
    {outcome : Outcome} {side : Side}
    (member : id ∈
      (matchOrder engine orderID).1.slice eventID outcome side) :
    id ∈ engine.slice eventID outcome side ∨ id = orderID := by
  have finishing := matchOrder_finishing tidy.keyed orderID
  generalize matchOrder engine orderID = result at finishing member
  cases finishing with
  | absent absent => exact .inl member
  | canceled order present canceled => exact .inl member
  | rejected order present notCanceled noMarket => exact .inl member
  | matched order market present notCanceled hasMarket =>
      dsimp only at member
      rcases mem_slice_finished tidy hasMarket member with old | ⟨same, _⟩
      · exact .inl old
      · exact .inr (same.trans (tidy.keyed orderID order present))

theorem matchOrder_trade {engine : Engine} {waiting : String → Prop}
    (tidy : Tidy engine waiting) {orderID : String} {trade : Trade}
    (member : trade ∈ (matchOrder engine orderID).2) :
    trade.orderID = orderID ∧ ∃ eventID outcome side,
      trade.matchOrderID ∈ engine.slice eventID outcome side := by
  have finishing := matchOrder_finishing tidy.keyed orderID
  generalize matchOrder engine orderID = result at finishing member
  cases finishing with
  | absent absent => simp at member
  | canceled order present canceled => simp at member
  | rejected order present notCanceled noMarket => simp at member
  | matched order market present notCanceled hasMarket =>
      obtain ⟨maker, inSource, isTrade, _⟩ := walk_walking.trades trade member
      obtain ⟨_, inSlice⟩ := mem_source tidy hasMarket inSource
      rw [isTrade]
      exact ⟨tidy.keyed orderID order present, _, _, _, inSlice⟩

/-! Whole interleavings. -/

namespace Interleaved

def waiting (state : Interleaved) : List String :=
  state.pending.map (·.2.id)

theorem waiting?_spec {state : Interleaved} {orderID : String}
    {command : Input × Order} (found : state.waiting? orderID = some command) :
    command ∈ state.pending ∧ command.2.id = orderID := by
  have holds := List.find?_some found
  exact ⟨List.mem_of_find?_eq_some found, of_decide_eq_true holds⟩

theorem mem_waiting {state : Interleaved} {orderID : String}
    {command : Input × Order} (found : state.waiting? orderID = some command) :
    orderID ∈ state.waiting := by
  obtain ⟨member, ownID⟩ := waiting?_spec found
  exact List.mem_map.mpr ⟨command, member, ownID⟩

theorem begin_of_answered {state : Interleaved} {input : Input}
    {response : EngineResponse}
    (begun : (beginCommand state.engine input).2 = .answered response) :
    state.begin input =
      { state with
        engine := (beginCommand state.engine input).1
        answered := state.answered ++ [(input, response.success)] } := by
  unfold Interleaved.begin
  generalize beginCommand state.engine input = result at begun ⊢
  obtain ⟨engine, _⟩ := result
  cases begun
  rfl

theorem begin_of_registered {state : Interleaved} {input : Input}
    {order : Order}
    (begun : (beginCommand state.engine input).2 = .registered order) :
    state.begin input =
      { state with
        engine := (beginCommand state.engine input).1
        pending := state.pending ++ [(input, order)] } := by
  unfold Interleaved.begin
  generalize beginCommand state.engine input = result at begun ⊢
  obtain ⟨engine, _⟩ := result
  cases begun
  rfl

theorem begin_engine (state : Interleaved) (input : Input) :
    (state.begin input).engine = (beginCommand state.engine input).1 ∧
      (state.begin input).waiting =
        state.waiting ++ (beginCommand state.engine input).2.waiting ∧
      (state.begin input).trades = state.trades := by
  cases begun : (beginCommand state.engine input).2 with
  | answered response =>
      rw [begin_of_answered begun]
      exact ⟨rfl, (List.append_nil _).symm, rfl⟩
  | registered order =>
      rw [begin_of_registered begun]
      exact ⟨rfl, List.map_append, rfl⟩

theorem finish_engine {state : Interleaved} {orderID : String}
    {command : Input × Order} (found : state.waiting? orderID = some command) :
    (state.finish orderID).engine = (matchOrder state.engine orderID).1 ∧
      (state.finish orderID).trades =
        state.trades ++ (matchOrder state.engine orderID).2 ∧
      (state.finish orderID).waiting =
        (state.pending.erase command).map (·.2.id) := by
  obtain ⟨_, ownID⟩ := waiting?_spec found
  subst ownID
  simp only [Interleaved.finish, found]
  exact ⟨rfl, rfl, rfl⟩

theorem finish_waiting {state : Interleaved} {orderID : String}
    {command : Input × Order} (found : state.waiting? orderID = some command)
    (distinct : state.waiting.Nodup) :
    (state.finish orderID).waiting.Sublist state.waiting ∧
      orderID ∉ (state.finish orderID).waiting := by
  obtain ⟨member, ownID⟩ := waiting?_spec found
  rw [(finish_engine found).2.2]
  constructor
  · exact (List.erase_sublist).map _
  · have ids := (List.perm_cons_erase member).map (·.2.id)
    have nodup := ids.nodup_iff.mp distinct
    rw [List.map_cons, List.nodup_cons, ownID] at nodup
    exact nodup.1

/-- The state between two sections, with every waiting order once. -/
structure Orderly (state : Interleaved) : Prop where
  tidy : Tidy state.engine (· ∈ state.waiting)
  distinct : state.waiting.Nodup

theorem orderly_begin {state : Interleaved} (orderly : state.Orderly)
    (input : Input) : (state.begin input).Orderly := by
  obtain ⟨engine, waiting, _⟩ := state.begin_engine input
  constructor
  · rw [engine, waiting]
    simp only [List.mem_append]
    exact tidy_begin orderly.tidy input
  · rw [waiting, List.nodup_append]
    refine ⟨orderly.distinct, ?_, ?_⟩
    · cases (beginCommand state.engine input).2 with
      | answered response => exact List.nodup_nil
      | registered order => exact List.nodup_singleton _
    · intro id old other new same
      rw [← same] at new
      exact orderly.tidy.registered old (begin_fresh new)

theorem orderly_finish {state : Interleaved} (orderly : state.Orderly)
    (orderID : String) : (state.finish orderID).Orderly := by
  cases found : state.waiting? orderID with
  | none =>
      simp only [Interleaved.finish, found]
      exact orderly
  | some command =>
      obtain ⟨fewer, gone⟩ := finish_waiting found orderly.distinct
      refine ⟨?_, fewer.nodup orderly.distinct⟩
      rw [(finish_engine found).1]
      exact tidy_matchOrder orderly.tidy (mem_waiting found) fewer.mem gone

theorem orderly_step {state : Interleaved} (event : SectionEvent)
    (orderly : state.Orderly) : (state.step event).Orderly := by
  cases event with
  | begin input => exact orderly_begin orderly input
  | finish orderID => exact orderly_finish orderly orderID

end Interleaved

theorem orderly_seeded (balances positions : Accounts String) :
    (Interleaved.start (Engine.seeded balances positions)).Orderly :=
  ⟨(tidy_seeded balances positions).waitsFor (by
    intro id waits
    exact (List.not_mem_nil waits).elim), List.nodup_nil⟩

theorem orderly_runInterleaved (balances positions : Accounts String)
    (events : List SectionEvent) :
    (runInterleaved balances positions events).Orderly :=
  always_runFrom Interleaved.Orderly
    (fun _ event orderly => Interleaved.orderly_step event orderly)
    (orderly_seeded balances positions) events

end Predix
