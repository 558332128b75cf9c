import Mathlib.Algebra.BigOperators.Finprod
import Predix.Book.Step

namespace Predix

open Data Word

/-! GET_DEPTH sums up the slices of a market, GET_OPEN_ORDERS reads the order
table. -/

def openVolume (orders : Multiset Order) : Int :=
  (orders.map fun order => order.remainingQuantity.toInt).sum

def atPrice (orders : Multiset Order) (price : Int64) : Multiset Order :=
  orders.filter fun order => order.price = price

section Volume

variable {order : Order} {orders : Multiset Order}

@[simp] theorem openVolume_cons :
    openVolume (order ::ₘ orders) =
      order.remainingQuantity.toInt + openVolume orders := by
  simp [openVolume]

@[simp] theorem openVolume_add (left right : Multiset Order) :
    openVolume (left + right) = openVolume left + openVolume right := by
  simp [openVolume]

theorem atPrice_cons_self :
    atPrice (order ::ₘ orders) order.price =
      order ::ₘ atPrice orders order.price :=
  Multiset.filter_cons_of_pos orders rfl

theorem atPrice_cons_of_ne {price : Int64} (different : order.price ≠ price) :
    atPrice (order ::ₘ orders) price = atPrice orders price :=
  Multiset.filter_cons_of_neg orders different

@[simp] theorem atPrice_add (left right : Multiset Order) (price : Int64) :
    atPrice (left + right) price = atPrice left price + atPrice right price :=
  Multiset.filter_add _ left right

theorem card_le_openVolume
    (resting : ∀ order ∈ orders, 0 < order.remainingQuantity.toInt) :
    (orders.card : Int) ≤ openVolume orders := by
  induction orders using Multiset.induction with
  | empty => simp [openVolume]
  | cons order orders induction =>
      have head := resting order (Multiset.mem_cons_self order orders)
      have tail := induction fun other member =>
        resting other (Multiset.mem_cons_of_mem member)
      rw [Multiset.card_cons, openVolume_cons]
      push_cast
      omega

end Volume

/-! The levels of one slice. -/

/-- There is one level for each price, and it sums up the orders at it. -/
structure Tallied (levels : List Level) (orders : Multiset Order) : Prop where
  nodup : (levels.map (·.price)).Nodup
  prices : ∀ price, price ∈ levels.map (·.price) ↔
    ∃ order ∈ orders, order.price = price
  quantity : ∀ level ∈ levels,
    level.quantity.toInt = openVolume (atPrice orders level.price)
  count : ∀ level ∈ levels,
    level.count.toInt = (atPrice orders level.price).card

private theorem addToLevels_prices (levels : List Level) (order : Order) :
    (addToLevels levels order).map (·.price) =
      if order.price ∈ levels.map (·.price) then levels.map (·.price)
      else levels.map (·.price) ++ [order.price] := by
  induction levels with
  | nil => rfl
  | cons level levels induction =>
      rw [addToLevels]
      by_cases same : level.price = order.price
      · simp [same]
      · rw [if_neg same, List.map_cons, induction, List.map_cons]
        simp only [List.mem_cons, Ne.symm same, false_or]
        split <;> rfl

private theorem mem_addToLevels {levels : List Level} {order : Order}
    {level : Level}
    (nodup : (levels.map (·.price)).Nodup)
    (member : level ∈ addToLevels levels order) :
    level ∈ levels ∧ level.price ≠ order.price ∨
      (∃ old ∈ levels, old.price = order.price ∧
        level = ⟨old.price, old.quantity + order.remainingQuantity,
          old.count + 1⟩) ∨
      order.price ∉ levels.map (·.price) ∧
        level = ⟨order.price, order.remainingQuantity, 1⟩ := by
  induction levels with
  | nil => exact .inr (.inr ⟨by simp, List.mem_singleton.mp member⟩)
  | cons head levels induction =>
      rw [List.map_cons, List.nodup_cons] at nodup
      rw [addToLevels] at member
      by_cases same : head.price = order.price
      · rw [if_pos same, List.mem_cons] at member
        rcases member with rfl | later
        · exact .inr (.inl ⟨head, by simp, same, rfl⟩)
        · refine .inl ⟨List.mem_cons_of_mem _ later, fun equal => nodup.1 ?_⟩
          rw [same, ← equal]
          exact List.mem_map_of_mem later
      · rw [if_neg same, List.mem_cons] at member
        rcases member with rfl | later
        · exact .inl ⟨by simp, same⟩
        · rcases induction nodup.2 later with ⟨old, different⟩ |
            ⟨old, oldMember, samePrice, rfl⟩ | ⟨new, rfl⟩
          · exact .inl ⟨List.mem_cons_of_mem _ old, different⟩
          · exact .inr (.inl
              ⟨old, List.mem_cons_of_mem _ oldMember, samePrice, rfl⟩)
          · refine .inr (.inr ⟨?_, rfl⟩)
            rw [List.map_cons, List.mem_cons, not_or]
            exact ⟨Ne.symm same, new⟩

section Tally

variable {levels : List Level} {order : Order} {orders : Multiset Order}
  (tallied : Tallied levels orders)
  (resting : ∀ other ∈ order ::ₘ orders, 0 < other.remainingQuantity.toInt)
  (fits : Fits (openVolume (atPrice (order ::ₘ orders) order.price)))

include tallied

private theorem Tallied.nothing (absent : order.price ∉ levels.map (·.price)) :
    atPrice orders order.price = 0 := by
  rw [tallied.prices] at absent
  rw [atPrice, Multiset.filter_eq_nil]
  intro other member same
  exact absent ⟨other, member, same⟩

include resting fits

private theorem Tallied.add :
    Tallied (addToLevels levels order) (order ::ₘ orders) := by
  have atPriceResting : ∀ other ∈ atPrice (order ::ₘ orders) order.price,
      0 < other.remainingQuantity.toInt :=
    fun other member => resting other (Multiset.mem_of_mem_filter member)
  have counts := card_le_openVolume atPriceResting
  rw [atPrice_cons_self, Multiset.card_cons, openVolume_cons] at counts
  rw [atPrice_cons_self, openVolume_cons] at fits
  have isOpen := resting order (Multiset.mem_cons_self order orders)
  -- the sums of the level the order is added to
  have summed : ∀ level ∈ addToLevels levels order,
      level.quantity.toInt =
          openVolume (atPrice (order ::ₘ orders) level.price) ∧
        level.count.toInt =
          (atPrice (order ::ₘ orders) level.price).card := by
    intro level member
    rcases mem_addToLevels tallied.nodup member with ⟨old, different⟩ |
      ⟨old, oldMember, same, rfl⟩ | ⟨new, rfl⟩
    · rw [atPrice_cons_of_ne (Ne.symm different)]
      exact ⟨tallied.quantity level old, tallied.count level old⟩
    · have quantity := tallied.quantity old oldMember
      have count := tallied.count old oldMember
      simp only [same] at quantity count ⊢
      rw [atPrice_cons_self, openVolume_cons, Multiset.card_cons]
      unfold Fits at fits
      have one : (1 : Int64).toInt = 1 := by decide
      constructor
      · rw [toInt_add (by unfold Fits; omega), quantity, add_comm]
      · rw [toInt_add (by unfold Fits; push_cast at counts; omega), count, one]
        push_cast
        rfl
    · simp only [atPrice_cons_self, tallied.nothing new, openVolume_cons,
        Multiset.card_cons, Multiset.card_zero]
      exact ⟨by simp [openVolume], by decide⟩
  refine ⟨?_, ?_, fun level member => (summed level member).1,
    fun level member => (summed level member).2⟩
  · rw [addToLevels_prices]
    split
    · exact tallied.nodup
    · rename_i new
      exact tallied.nodup.append (by simp) (by simpa using new)
  · intro price
    rw [addToLevels_prices]
    have old := tallied.prices price
    simp only [Multiset.mem_cons, exists_eq_or_imp, ← old]
    split
    · rename_i known
      constructor
      · exact .inr
      · rintro (rfl | before)
        · exact known
        · exact before
    · rw [List.mem_append, List.mem_singleton, or_comm, eq_comm]

end Tally

private theorem tallied_foldl {orders : List Order} {levels : List Level}
    {done : Multiset Order} (tallied : Tallied levels done)
    (resting : ∀ order ∈ done + orders, 0 < order.remainingQuantity.toInt)
    (fits : ∀ order ∈ done + orders,
      Fits (openVolume (atPrice (done + orders) order.price))) :
    Tallied (orders.foldl addToLevels levels) (done + orders) := by
  induction orders generalizing levels done with
  | nil => simpa using tallied
  | cons order orders induction =>
      have moved : done + ↑(order :: orders) = (order ::ₘ done) + ↑orders := by
        rw [← Multiset.cons_coe, Multiset.add_cons, Multiset.cons_add]
      rw [moved] at resting fits ⊢
      refine induction (tallied.add ?_ ?_) resting fits
      · exact fun other member =>
          resting other (Multiset.mem_add.mpr (.inl member))
      · -- what is summed up so far is a part of the whole
        have whole := fits order (by simp)
        have rest := @card_le_openVolume (atPrice orders order.price)
          fun other member => resting other (Multiset.mem_add.mpr
            (.inr (Multiset.mem_of_mem_filter member)))
        have part := @card_le_openVolume (atPrice (order ::ₘ done) order.price)
          fun other member => resting other (Multiset.mem_add.mpr
            (.inl (Multiset.mem_of_mem_filter member)))
        rw [atPrice_add, openVolume_add] at whole
        exact Fits.of_between (by decide : Fits 0) whole (by omega) (by omega)

/-! One side of the depth. -/

/-- The best price comes first, and no price twice. -/
def OrderBookEntry.ahead (side : Side) (left right : OrderBookEntry) : Prop :=
  match side with
  | .sideBuy => right.price < left.price
  | .sideSell => left.price < right.price

instance OrderBookEntry.sortsBefore_total (side : Side) :
    Std.Total (OrderBookEntry.sortsBefore side) where
  total left right := by
    cases side <;>
      simp only [OrderBookEntry.sortsBefore, Int64.le_iff_toInt_le] <;> omega

instance OrderBookEntry.sortsBefore_trans (side : Side) :
    IsTrans OrderBookEntry (OrderBookEntry.sortsBefore side) where
  trans first second third := by
    cases side <;>
      simp only [OrderBookEntry.sortsBefore, Int64.le_iff_toInt_le] <;> omega

structure Lists (side : Side) (entries : List OrderBookEntry)
    (orders : Multiset Order) : Prop where
  sorted : entries.Pairwise (OrderBookEntry.ahead side)
  prices : ∀ price, (∃ entry ∈ entries, entry.price = price) ↔
    ∃ order ∈ orders, order.price = price
  quantity : ∀ entry ∈ entries,
    entry.quantity.toInt = openVolume (atPrice orders entry.price)
  count : ∀ entry ∈ entries,
    entry.orderCount.toInt = (atPrice orders entry.price).card

structure Shows (side : Side) (entries : List OrderBookEntry)
    (orders : Multiset Order) : Prop extends Lists side entries orders where
  total : ∀ entry ∈ entries,
    entry.total.toInt = entry.price.toInt * entry.quantity.toInt

/-- No sum over the orders of one price wraps. -/
def SumsFit (orders : Multiset Order) : Prop :=
  ∀ order ∈ orders, Fits (openVolume (atPrice orders order.price))

/-- Nor does the value of such a sum. -/
def VolumesFit (orders : Multiset Order) : Prop :=
  SumsFit orders ∧ ∀ order ∈ orders,
    Fits (order.price.toInt * openVolume (atPrice orders order.price))

def Level.entry (level : Level) : OrderBookEntry :=
  { price := level.price
    quantity := level.quantity
    total := level.price * level.quantity
    orderCount := level.count }

private theorem ahead_of_sorted {side : Side} {entries : List OrderBookEntry}
    (nodup : (entries.map (·.price)).Nodup)
    (sorted : entries.Pairwise (OrderBookEntry.sortsBefore side)) :
    entries.Pairwise (OrderBookEntry.ahead side) := by
  rw [List.Nodup, List.pairwise_map] at nodup
  refine (nodup.and sorted).imp ?_
  rintro left right ⟨different, before⟩
  rw [Ne, ← Int64.toInt_inj] at different
  cases side <;>
    simp only [OrderBookEntry.sortsBefore, OrderBookEntry.ahead,
      Int64.le_iff_toInt_le, Int64.lt_iff_toInt_lt] at before ⊢ <;> omega

theorem aggregate_lists (side : Side) {orders : List Order}
    (resting : ∀ order ∈ orders, order.resting)
    (fit : SumsFit orders) : Lists side (aggregate side orders) orders := by
  have counted : orders.filter (fun order => order.status.live &&
      decide (0 < order.remainingQuantity)) = orders := by
    rw [List.filter_eq_self]
    intro order member
    obtain ⟨live, remaining⟩ := resting order member
    simp [live, zero_lt_iff.mpr remaining]
  have tallied : Tallied (orders.foldl addToLevels []) orders := by
    have fold := @tallied_foldl orders [] 0
      ⟨by simp, by simp, by simp, by simp⟩
    rw [zero_add] at fold
    exact fold (fun order member => (resting order member).2) fit
  have entries : aggregate side orders =
      ((orders.foldl addToLevels []).map Level.entry).insertionSort
        (OrderBookEntry.sortsBefore side) := by
    unfold aggregate
    rw [counted]
    rfl
  generalize orders.foldl addToLevels [] = levels at tallied entries
  have members : ∀ {entry}, entry ∈ aggregate side orders ↔
      ∃ level ∈ levels, level.entry = entry := by
    intro entry
    rw [entries, List.mem_insertionSort, List.mem_map]
  have nodup : ((aggregate side orders).map (·.price)).Nodup := by
    rw [entries]
    refine (((List.perm_insertionSort _ _).map _).nodup_iff).mpr ?_
    rw [List.map_map]
    exact tallied.nodup
  refine ⟨ahead_of_sorted nodup ?_, ?_, ?_, ?_⟩
  · rw [entries]
    exact List.pairwise_insertionSort _ _
  · intro price
    rw [← tallied.prices price, List.mem_map]
    constructor
    · rintro ⟨entry, member, rfl⟩
      obtain ⟨level, levelMember, rfl⟩ := members.mp member
      exact ⟨level, levelMember, rfl⟩
    · rintro ⟨level, levelMember, rfl⟩
      exact ⟨level.entry, members.mpr ⟨level, levelMember, rfl⟩, rfl⟩
  · intro entry member
    obtain ⟨level, levelMember, rfl⟩ := members.mp member
    exact tallied.quantity level levelMember
  · intro entry member
    obtain ⟨level, levelMember, rfl⟩ := members.mp member
    exact tallied.count level levelMember

private theorem aggregate_total {side : Side} {orders : List Order}
    {entry : OrderBookEntry} (member : entry ∈ aggregate side orders) :
    entry.total = entry.price * entry.quantity := by
  unfold aggregate at member
  rw [List.mem_insertionSort, List.mem_map] at member
  obtain ⟨level, _, rfl⟩ := member
  rfl

private theorem aggregate_shows (side : Side) {orders : List Order}
    (resting : ∀ order ∈ orders, order.resting)
    (fit : VolumesFit orders) : Shows side (aggregate side orders) orders := by
  have lists := aggregate_lists side resting fit.1
  refine ⟨lists, ?_⟩
  intro entry member
  obtain ⟨order, isOrder, samePrice⟩ :=
    (lists.prices entry.price).mp ⟨entry, member, rfl⟩
  have value := fit.2 order isOrder
  rw [samePrice, ← lists.quantity entry member] at value
  rw [aggregate_total member, toInt_mul value]

/-! The two answers. -/

def Depth.levels (depth : Depth) (outcome : Outcome) (side : Side) :
    List OrderBookEntry :=
  let shown := match outcome with
    | .outcomeYes => depth.yes
    | .outcomeNo => depth.no
  match side with
  | .sideBuy => shown.bids
  | .sideSell => shown.asks

/-- What GET_OPEN_ORDERS returns for one user. -/
def Engine.listedFor (engine : Engine) (eventID userID : String) :
    Multiset Order :=
  match (engine.step ⟨.getOpenOrders (some ⟨eventID, userID⟩),
      ⟨"", true⟩⟩).response with
  | .successJSON (.openOrders orders) => orders
  | _ => 0

/-- What GET_OPEN_ORDERS returns for all users together. -/
noncomputable def Engine.listedOrders (engine : Engine) (eventID : String) :
    Multiset Order :=
  ∑ᶠ userID, engine.listedFor eventID userID

/-- The listed orders of one outcome and side. -/
noncomputable def Engine.listedAt (engine : Engine) (eventID : String)
    (outcome : Outcome) (side : Side) : Multiset Order :=
  (engine.listedOrders eventID).filter fun order =>
    order.outcome = outcome ∧ order.side = side

private theorem finsum_filter {α κ : Type} [DecidableEq α] [DecidableEq κ]
    (items : Multiset α) (key : α → κ) :
    ∑ᶠ value, items.filter (fun item => key item = value) = items := by
  rw [finsum_eq_sum_of_support_subset (s := (items.map key).toFinset)]
  · ext item
    rw [Multiset.count_sum']
    simp only [Multiset.count_filter]
    rw [Finset.sum_ite_eq]
    split
    · rfl
    · rename_i absent
      rw [eq_comm, Multiset.count_eq_zero]
      intro member
      exact absent (Multiset.mem_toFinset.mpr
        (Multiset.mem_map_of_mem key member))
  · intro value inSupport
    obtain ⟨item, member⟩ := Multiset.exists_mem_of_ne_zero inSupport
    rw [Multiset.mem_filter] at member
    rw [← member.2, Finset.mem_coe, Multiset.mem_toFinset]
    exact Multiset.mem_map_of_mem key member.1

private theorem listedOrders_eq (engine : Engine) (eventID : String) :
    engine.listedOrders eventID =
      (engine.orders.entries.map fun entry => entry.2).filter fun order =>
        order.eventID = eventID ∧ order.status.live = true := by
  rw [← finsum_filter ((engine.orders.entries.map fun entry =>
    entry.2).filter _) Order.userID]
  apply finsum_congr
  intro userID
  rw [Multiset.filter_filter]
  apply Multiset.filter_congr
  intro order _
  tauto

/-- The listed orders of one outcome and side are those of its slice. -/
theorem listedAt_eq_queue {engine : Engine} (wellFormed : WellFormed engine)
    (eventID : String) (outcome : Outcome) (side : Side) :
    engine.listedAt eventID outcome side =
      engine.queue eventID outcome side := by
  have entered : ∀ {order : Order},
      order ∈ engine.orders.entries.map (fun entry => entry.2) ↔
        engine.orders.lookup order.id = some order := by
    intro order
    rw [Multiset.mem_map]
    constructor
    · rintro ⟨⟨id, found⟩, member, rfl⟩
      have present := Finmap.mem_lookup_iff.mpr member
      rw [wellFormed.keyed id found present]
      exact present
    · intro present
      exact ⟨⟨order.id, order⟩, Finmap.mem_lookup_iff.mp present, rfl⟩
  have entries : (engine.orders.entries.map fun entry => entry.2).Nodup := by
    apply Multiset.Nodup.map_on _ engine.orders.nodup_entries
    rintro ⟨id, order⟩ member ⟨otherID, other⟩ otherMember same
    have ownID := wellFormed.keyed id order (Finmap.mem_lookup_iff.mpr member)
    have otherOwn := wellFormed.keyed otherID other
      (Finmap.mem_lookup_iff.mpr otherMember)
    simp only at same
    rw [← ownID, ← otherOwn, same]
  unfold Engine.listedAt
  rw [listedOrders_eq]
  apply (Multiset.Nodup.ext ((entries.filter _).filter _) ?_).mpr
  · intro order
    rw [Multiset.mem_filter, Multiset.mem_filter, entered, Multiset.mem_coe]
    constructor
    · rintro ⟨⟨present, rfl, live⟩, rfl, rfl⟩
      exact wellFormed.listed present live
    · intro member
      obtain ⟨_, live, event, sameOutcome, sameSide⟩ := wellFormed.resting member
      exact ⟨⟨wellFormed.lookup_of_mem member, event, live⟩, sameOutcome,
        sameSide⟩
  · exact Multiset.coe_nodup.mpr
      (List.Nodup.of_map _ (wellFormed.queue_ids_nodup eventID outcome side))

theorem levels_of_answer {engine : Engine} {eventID : String}
    {surroundings : Surroundings} {depth : Depth}
    (answer : (engine.step ⟨.getDepth (some eventID), surroundings⟩).response =
      .successJSON (.depth depth))
    (outcome : Outcome) (side : Side) :
    depth.levels outcome side =
      aggregate side (engine.queue eventID outcome side) := by
  cases found : engine.markets.lookup eventID with
  | none =>
      simp [Engine.step, handleMessage, handleGetDepth, found,
        Reply.unchanged] at answer
  | some market =>
      have isDepth : engine.depth eventID market = depth := by
        simpa [Engine.step, handleMessage, handleGetDepth, found,
          Reply.unchanged] using answer
      rw [← isDepth, Engine.queue, slice_of_market found]
      cases outcome <;> cases side <;> rfl

theorem queue_resting {engine : Engine} (wellFormed : WellFormed engine)
    {eventID : String} {outcome : Outcome} {side : Side} :
    ∀ order ∈ engine.queue eventID outcome side, order.resting :=
  fun _ member => ⟨(wellFormed.resting member).2.1,
    (wellFormed.remaining_of_mem member).2⟩

/-- In every state a run reaches, what GET_DEPTH returns shows the orders that
GET_OPEN_ORDERS returns for all users. -/
theorem runSeeded_depthShows (balances positions : Accounts String)
    (inputs : List Input) {eventID : String} {surroundings : Surroundings}
    {depth : Depth}
    (answer : ((runSeeded balances positions inputs).engine.step
      ⟨.getDepth (some eventID), surroundings⟩).response =
        .successJSON (.depth depth))
    (outcome : Outcome) (side : Side)
    (fit : VolumesFit ((runSeeded balances positions inputs).engine.listedAt
      eventID outcome side)) :
    Shows side (depth.levels outcome side)
      ((runSeeded balances positions inputs).engine.listedAt eventID outcome
        side) := by
  have wellFormed := wellFormed_runSeeded balances positions inputs
  generalize (runSeeded balances positions inputs).engine = engine
    at answer fit wellFormed ⊢
  rw [listedAt_eq_queue wellFormed] at fit ⊢
  rw [levels_of_answer answer]
  exact aggregate_shows side (queue_resting wellFormed) fit

def threeBids : List Input :=
  [.createEvent "e",
    .submit "o1" "e" "u" "LIMIT" "YES" "BUY" 1 5000,
    .submit "o2" "e" "v" "LIMIT" "YES" "BUY" 1 6000,
    .submit "o3" "e" "v" "LIMIT" "YES" "BUY" 2 5000]

theorem depthShows_threeBids :
    Shows .sideBuy [⟨6000, 1, 6000, 1⟩, ⟨5000, 3, 15000, 2⟩]
      ((runSeeded (Finmap.insert "u" ⟨20000, 0⟩
          (Finmap.insert "v" ⟨20000, 0⟩ ∅)) ∅ threeBids).engine.listedAt "e"
        .outcomeYes .sideBuy) := by
  have fit : VolumesFit ((runSeeded (Finmap.insert "u" ⟨20000, 0⟩
      (Finmap.insert "v" ⟨20000, 0⟩ ∅)) ∅ threeBids).engine.listedAt "e"
        .outcomeYes .sideBuy) := by
    rw [listedAt_eq_queue (wellFormed_runSeeded _ _ _)]
    unfold VolumesFit SumsFit
    decide +kernel
  exact @runSeeded_depthShows _ _ threeBids "e" ⟨"", true⟩
    ⟨"e", ⟨[⟨6000, 1, 6000, 1⟩, ⟨5000, 3, 15000, 2⟩], []⟩, ⟨[], []⟩⟩
    (by decide +kernel) .outcomeYes .sideBuy fit

end Predix
