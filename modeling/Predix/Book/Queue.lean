import Predix.Book.Allocation
import Predix.Ledger.Settlement

namespace Predix

open Data Word

/-! The books read through the order table. -/

/-- The ids on one side of one book; a missing market has none. -/
def Engine.slice (engine : Engine) (eventID : String) (outcome : Outcome)
    (side : Side) : List String :=
  match engine.markets.lookup eventID with
  | none => []
  | some market => (market.book outcome).slice side

/-- The orders on one side of one book. -/
def Engine.queue (engine : Engine) (eventID : String) (outcome : Outcome)
    (side : Side) : List Order :=
  engine.load (engine.slice eventID outcome side)

theorem slice_of_market {engine : Engine} {eventID : String} {market : Market}
    (hasMarket : engine.markets.lookup eventID = some market)
    (outcome : Outcome) (side : Side) :
    engine.slice eventID outcome side = (market.book outcome).slice side := by
  simp only [Engine.slice, hasMarket]

theorem mem_load {engine : Engine} {ids : List String} {order : Order} :
    order ∈ engine.load ids ↔
      ∃ id ∈ ids, engine.orders.lookup id = some order :=
  List.mem_filterMap

theorem load_map_id {engine : Engine} {orders : List Order}
    (registered : ∀ order ∈ orders,
      engine.orders.lookup order.id = some order) :
    engine.load (orders.map (·.id)) = orders := by
  unfold Engine.load
  rw [List.filterMap_map]
  induction orders with
  | nil => rfl
  | cons order orders induction =>
      have head := registered order (by simp)
      have tail := induction fun other member =>
        registered other (by simp [member])
      simp only [List.filterMap_cons, Function.comp_apply, head]
      exact congrArg (order :: ·) tail

theorem load_congr {left right : Engine} {ids : List String}
    (agree : ∀ id ∈ ids, left.orders.lookup id = right.orders.lookup id) :
    left.load ids = right.load ids :=
  List.filterMap_congr agree

/-! The life cycle of one order. -/

/-- The quantities of an order agree with each other and with its status. -/
structure Order.Accounted (order : Order) : Prop where
  quantity : 0 < order.quantity.toInt
  price : order.orderType = .orderTypeLimit → 0 < order.price.toInt
  filledNonneg : 0 ≤ order.filledQuantity.toInt
  remainingNonneg : 0 ≤ order.remainingQuantity.toInt
  balanced : order.filledQuantity.toInt + order.remainingQuantity.toInt =
    order.quantity.toInt
  pending : order.status = .statusPending → order.filledQuantity.toInt = 0
  partly : order.status = .statusPartial →
    0 < order.filledQuantity.toInt ∧
      order.filledQuantity.toInt < order.quantity.toInt
  full : order.status = .statusFilled ↔ order.remainingQuantity.toInt = 0
  notRejected : order.status ≠ .statusRejected

theorem Status.live_iff (status : Status) :
    status.live = true ↔ status = .statusPending ∨ status = .statusPartial := by
  cases status <;> simp [Status.live]

theorem Order.Accounted.remaining_of_live {order : Order}
    (accounted : order.Accounted) (live : order.status.live = true) :
    0 < order.remainingQuantity.toInt := by
  have balanced := accounted.balanced
  have quantity := accounted.quantity
  cases (Status.live_iff order.status).mp live with
  | inl pending =>
      have := accounted.pending pending
      omega
  | inr partly =>
      have := accounted.partly partly
      omega

/-- The state of the books and of the order table between two commands. -/
structure WellFormed (engine : Engine) : Prop where
  keyed : engine.Keyed
  hasMarket : ∀ {id order}, engine.orders.lookup id = some order →
    ∃ market, engine.markets.lookup order.eventID = some market
  accounted : ∀ {id order}, engine.orders.lookup id = some order →
    order.Accounted
  registered : ∀ eventID outcome side,
    (engine.queue eventID outcome side).map (·.id) =
      engine.slice eventID outcome side
  resting : ∀ {eventID outcome side order},
    order ∈ engine.queue eventID outcome side →
      order.orderType = .orderTypeLimit ∧ order.status.live = true ∧
        order.eventID = eventID ∧ order.outcome = outcome ∧ order.side = side
  listed : ∀ {id order}, engine.orders.lookup id = some order →
    order.status.live = true →
      order ∈ engine.queue order.eventID order.outcome order.side
  nodup : ∀ eventID outcome side, (engine.slice eventID outcome side).Nodup
  sorted : ∀ eventID outcome side,
    (engine.queue eventID outcome side).Pairwise (Order.sortsBefore side)
  uncrossed : ∀ {eventID outcome bid ask},
    bid ∈ engine.queue eventID outcome .sideBuy →
      ask ∈ engine.queue eventID outcome .sideSell →
        bid.userID ≠ ask.userID → bid.price.toInt < ask.price.toInt

namespace WellFormed

variable {engine : Engine}

theorem lookup_of_mem (wellFormed : WellFormed engine)
    {eventID : String} {outcome : Outcome} {side : Side} {order : Order}
    (member : order ∈ engine.queue eventID outcome side) :
    engine.orders.lookup order.id = some order := by
  obtain ⟨id, _, present⟩ := mem_load.mp member
  rw [wellFormed.keyed id order present]
  exact present

theorem remaining_of_mem (wellFormed : WellFormed engine)
    {eventID : String} {outcome : Outcome} {side : Side} {order : Order}
    (member : order ∈ engine.queue eventID outcome side) :
    order.resting := by
  have live := (wellFormed.resting member).2.1
  exact ⟨live, (wellFormed.accounted
    (wellFormed.lookup_of_mem member)).remaining_of_live live⟩

theorem id_mem_slice (wellFormed : WellFormed engine)
    {eventID : String} {outcome : Outcome} {side : Side} {id : String} :
    id ∈ engine.slice eventID outcome side ↔
      ∃ order ∈ engine.queue eventID outcome side, order.id = id := by
  rw [← wellFormed.registered, List.mem_map]

theorem queue_ids_nodup (wellFormed : WellFormed engine)
    (eventID : String) (outcome : Outcome) (side : Side) :
    ((engine.queue eventID outcome side).map (·.id)).Nodup := by
  rw [wellFormed.registered]
  exact wellFormed.nodup eventID outcome side

theorem not_mem_slice_of_fresh (wellFormed : WellFormed engine)
    {id : String} (fresh : engine.orders.lookup id = none)
    (eventID : String) (outcome : Outcome) (side : Side) :
    id ∉ engine.slice eventID outcome side := by
  intro member
  obtain ⟨order, orderMember, rfl⟩ := wellFormed.id_mem_slice.mp member
  rw [wellFormed.lookup_of_mem orderMember] at fresh
  contradiction

end WellFormed

theorem wellFormed_seeded (balances positions : Accounts String) :
    WellFormed (Engine.seeded balances positions) where
  keyed := by
    intro id order present
    simp [Engine.seeded] at present
  hasMarket := by
    intro id order present
    simp [Engine.seeded] at present
  accounted := by
    intro id order present
    simp [Engine.seeded] at present
  registered := by
    intro eventID outcome side
    simp [Engine.queue, Engine.slice, Engine.load, Engine.seeded]
  resting := by
    intro eventID outcome side order member
    simp [Engine.queue, Engine.slice, Engine.load, Engine.seeded] at member
  listed := by
    intro id order present
    simp [Engine.seeded] at present
  nodup := by
    intro eventID outcome side
    simp [Engine.slice, Engine.seeded]
  sorted := by
    intro eventID outcome side
    simp [Engine.queue, Engine.slice, Engine.load, Engine.seeded]
  uncrossed := by
    intro eventID outcome bid ask member
    simp [Engine.queue, Engine.slice, Engine.load, Engine.seeded] at member

/-! Locks play no part in it. -/

namespace SameUpToLocks

variable {left right : Engine}

theorem slice_eq (same : SameUpToLocks left right) (eventID : String)
    (outcome : Outcome) (side : Side) :
    right.slice eventID outcome side = left.slice eventID outcome side := by
  simp only [Engine.slice, same.markets]

theorem lookup (same : SameUpToLocks left right) {id : String} {order : Order}
    (present : right.orders.lookup id = some order) :
    ∃ lock, left.orders.lookup id = some (order.withLock lock) := by
  have agree := same.orders id
  rw [present, Option.map_some] at agree
  obtain ⟨old, oldPresent, unlocked⟩ := Option.map_eq_some_iff.mp agree.symm
  refine ⟨old.lockedFunds, ?_⟩
  rw [oldPresent]
  have := congrArg (·.withLock old.lockedFunds) unlocked
  exact congrArg some this

theorem symm (same : SameUpToLocks left right) : SameUpToLocks right left :=
  ⟨same.markets.symm, fun id => (same.orders id).symm⟩

private theorem mem_queue (same : SameUpToLocks left right) {eventID : String}
    {outcome : Outcome} {side : Side} {order : Order}
    (member : order ∈ right.queue eventID outcome side) :
    ∃ lock, order.withLock lock ∈ left.queue eventID outcome side := by
  obtain ⟨id, idMember, present⟩ := mem_load.mp member
  obtain ⟨lock, old⟩ := same.lookup present
  rw [same.slice_eq] at idMember
  exact ⟨lock, mem_load.mpr ⟨id, idMember, old⟩⟩

theorem queue_unlocked (same : SameUpToLocks left right) (eventID : String)
    (outcome : Outcome) (side : Side) :
    (right.queue eventID outcome side).map Order.unlocked =
      (left.queue eventID outcome side).map Order.unlocked := by
  unfold Engine.queue Engine.load
  rw [List.map_filterMap, List.map_filterMap, same.slice_eq]
  exact List.filterMap_congr fun id _ => same.orders id

theorem wellFormed (same : SameUpToLocks left right)
    (wellFormed : WellFormed left) : WellFormed right where
  keyed := by
    intro id order present
    obtain ⟨lock, old⟩ := same.lookup present
    have oldID := wellFormed.keyed id _ old
    exact oldID
  hasMarket := by
    intro id order present
    obtain ⟨lock, old⟩ := same.lookup present
    have oldMarket := wellFormed.hasMarket old
    rw [same.markets]
    exact oldMarket
  accounted := by
    intro id order present
    obtain ⟨lock, old⟩ := same.lookup present
    obtain ⟨quantity, price, filledNonneg, remainingNonneg, balanced, pending,
      partly, full, notRejected⟩ := wellFormed.accounted old
    exact ⟨quantity, price, filledNonneg, remainingNonneg, balanced, pending,
      partly, full, notRejected⟩
  registered := by
    intro eventID outcome side
    have ids := congrArg (·.map Order.id)
      (same.queue_unlocked eventID outcome side)
    simp only [List.map_map] at ids
    rw [same.slice_eq, ← wellFormed.registered]
    exact ids
  resting := by
    intro eventID outcome side order member
    obtain ⟨lock, old⟩ := same.mem_queue member
    have oldResting := wellFormed.resting old
    exact oldResting
  listed := by
    intro id order present live
    obtain ⟨lock, old⟩ := same.lookup present
    have oldListed := wellFormed.listed old live
    obtain ⟨ownID, ownMember, ownPresent⟩ := mem_load.mp oldListed
    have sameID : ownID = id :=
      (wellFormed.keyed ownID _ ownPresent).symm.trans
        (wellFormed.keyed id _ old)
    subst sameID
    refine mem_load.mpr ⟨ownID, ?_, present⟩
    rw [same.slice_eq]
    exact ownMember
  nodup := by
    intro eventID outcome side
    rw [same.slice_eq]
    exact wellFormed.nodup eventID outcome side
  sorted := by
    intro eventID outcome side
    have old := wellFormed.sorted eventID outcome side
    have unlocked : ∀ orders : List Order,
        (orders.map Order.unlocked).Pairwise (Order.sortsBefore side) ↔
          orders.Pairwise (Order.sortsBefore side) := by
      intro orders
      rw [List.pairwise_map]
      rfl
    rw [← unlocked, same.queue_unlocked, unlocked]
    exact old
  uncrossed := by
    intro eventID outcome bid ask bidMember askMember different
    obtain ⟨_, oldBid⟩ := same.mem_queue bidMember
    obtain ⟨_, oldAsk⟩ := same.mem_queue askMember
    have apart := wellFormed.uncrossed oldBid oldAsk
    exact apart different

end SameUpToLocks

end Predix
