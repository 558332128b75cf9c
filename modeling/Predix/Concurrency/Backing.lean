import Predix.Concurrency.Cancel
import Predix.Ledger.Holdings

namespace Predix

open Data Word

/-! The cash ledger between two sections: what orders may still have to pay is
reserved for them, also while they wait to be matched. -/

namespace Leg

variable {leg : Leg} {engine : Engine} {order : Order}

/-! Settling a list of trades in any state. -/

section Settle

variable {trades : List Trade} (keyed : engine.Keyed)
  (debits : leg.DebitsAll engine trades) (sound : leg.Sound engine)
  (amounts : leg.AmountsNonneg trades) (adequate : leg.Adequate engine trades)
  (solvent : ∀ key, 0 ≤ leg.gap engine key)
  (fits : ∀ key, Fits ((leg.account engine key).available.toInt +
    Transfer.received key (trades.map leg.transfer)))

include keyed debits sound amounts adequate solvent in
theorem paid_le_reserved (key : String) :
    Transfer.paid key (trades.map leg.transfer) ≤
      (leg.account engine key).reserved.toInt := by
  have paid := paid_le_locked keyed debits sound.locks amounts adequate key
  have before := solvent key
  unfold gap at before
  omega

include amounts fits in
theorem settleAll_available (key : String) :
    (leg.account (settleAll engine trades) key).available.toInt =
      (leg.account engine key).available.toInt +
        Transfer.received key (trades.map leg.transfer) := by
  rw [account, leg.accounts_settleAll]
  exact Transfer.applyAll_available _ _ key amounts.transfers (fits key)

include keyed debits sound amounts adequate solvent

theorem settleAll_reserved (key : String) :
    (leg.account (settleAll engine trades) key).reserved.toInt =
      (leg.account engine key).reserved.toInt -
        Transfer.paid key (trades.map leg.transfer) := by
  have covered := paid_le_reserved keyed debits sound amounts adequate solvent
    key
  have applied := Transfer.applyAll_reserved (leg.accounts engine) _ key
    amounts.transfers (sound.reserved key)
  rw [account, leg.accounts_settleAll, applied]
  change max 0 ((leg.account engine key).reserved.toInt - _) = _
  omega

private theorem gap_settleAll (key : String) :
    leg.gap (settleAll engine trades) key = leg.gap engine key := by
  unfold gap
  rw [settleAll_reserved keyed debits sound amounts adequate solvent,
    locked_settleAll keyed debits sound.locks amounts adequate]
  omega

include fits

private theorem holdings_settleAll (key : String) :
    leg.holdings (settleAll engine trades) key =
      leg.holdings engine key + leg.net trades key := by
  unfold holdings Account.holdings net Transfer.net
  rw [settleAll_available amounts fits,
    settleAll_reserved keyed debits sound amounts adequate solvent]
  omega

private theorem Sound.settleAll : leg.Sound (settleAll engine trades) where
  available := by
    intro key
    have old := sound.available key
    have received := Transfer.received_nonneg amounts.transfers key
    rw [settleAll_available amounts fits]
    omega
  reserved := by
    intro key
    have covered := paid_le_reserved keyed debits sound amounts adequate
      solvent key
    rw [settleAll_reserved keyed debits sound amounts adequate solvent]
    omega
  locks := sound.locks.settleAll keyed debits amounts

end Settle

/-! Releasing a registered order in any state. -/

section Release

variable (present : engine.orders.lookup order.id = some order)
  (sound : leg.Sound engine)

include present sound

theorem lock_nonneg (sameSide : order.side = leg.side) :
    0 ≤ order.lockedFunds.toInt :=
  sound.locks order.id order present sameSide

private theorem gap_release (solvent : ∀ key, 0 ≤ leg.gap engine key)
    (key : String) :
    leg.gap (releaseOrderLocked engine order) key = leg.gap engine key := by
  have nonneg := lock_nonneg present sound
  have weight := weight_le_locked present sound key
  have before := solvent key
  unfold gap at before ⊢
  rw [release_reserved nonneg sound.reserved,
    locked_release present nonneg]
  omega

variable (refund : ∀ key, Fits ((leg.account engine key).available.toInt +
  leg.weight key order))

include refund

private theorem Sound.release :
    leg.Sound (releaseOrderLocked engine order) where
  available := by
    intro key
    have old := sound.available key
    have weight := sound.locks.weight present key
    rw [release_available (lock_nonneg present sound) key (refund key)]
    omega
  reserved := by
    intro key
    rw [release_reserved (lock_nonneg present sound) sound.reserved]
    omega
  locks := sound.locks.release present (lock_nonneg present sound)

private theorem holdings_released (solvent : ∀ key, 0 ≤ leg.gap engine key)
    (key : String) :
    leg.holdings (releaseOrderLocked engine order) key =
      leg.holdings engine key := by
  have weight := weight_le_locked present sound key
  have before := solvent key
  unfold gap at before
  exact holdings_release (lock_nonneg present sound) sound.reserved key
    (refund key) (by omega)

end Release

end Leg

/-! Backed orders. -/

/-- A limit order that has what it may still have to pay locked. -/
structure Order.Backed (order : Order) : Prop where
  limit : order.orderType = .orderTypeLimit
  remaining : 0 ≤ order.remainingQuantity.toInt
  funded : order.side = .sideBuy → order.status ≠ .statusCanceled →
    order.remainingQuantity.toInt * order.price.toInt ≤
      order.lockedFunds.toInt

structure Engine.Backed (engine : Engine) : Prop where
  sound : Leg.cash.Sound engine
  solvent : ∀ userID, 0 ≤ Leg.cash.gap engine userID
  orders : ∀ {id order}, engine.orders.lookup id = some order → order.Backed

theorem backed_seeded {balances : Accounts String}
    (unreserved : balances.Unreserved) (positions : Accounts String) :
    (Engine.seeded balances positions).Backed where
  sound := Leg.sound_seeded .cash unreserved
  solvent := fun userID =>
    le_of_eq (Leg.gap_seeded .cash unreserved userID).symm
  orders := by
    intro id order present
    contradiction

/-- What a user is worth changes as the account does, unless the user gets an
entry: then it may be less than the starting balance. -/
theorem worth_le {before after : Engine} {userID : String} {change : Int}
    (kept : before.balances.KeptIn after.balances)
    (held : Leg.cash.holdings after userID ≤
      Leg.cash.holdings before userID + change)
    (nonneg : before.balances.lookup userID = none → 0 ≤ change) :
    after.worth userID ≤ before.worth userID + change := by
  by_cases entered : after.balances.lookup userID ≠ none
  · have least := holdings_le_worth before userID
    rw [worth_of_entered entered]
    omega
  · rw [not_not] at entered
    have absent := kept userID entered
    have change := nonneg absent
    simp only [Engine.worth, entered, absent]
    omega

/-- A section that settles these trades: the ledger stays backed, the trades
are paid out of what their buyers were worth before, and they are all that
makes anybody richer. -/
structure Engine.PaysFor (before after : Engine) (trades : List Trade) :
    Prop where
  backed : after.Backed
  amounts : Leg.cash.AmountsNonneg trades
  paid : ∀ userID,
    Transfer.paid userID (trades.map Leg.cash.transfer) ≤ before.worth userID
  worth : ∀ userID,
    after.worth userID ≤ before.worth userID + Leg.cash.net trades userID

theorem Engine.Backed.worth_nonneg {engine : Engine} (backed : engine.Backed)
    (userID : String) : 0 ≤ engine.worth userID := by
  have available := backed.sound.available userID
  have reserved := backed.sound.reserved userID
  have least := holdings_le_worth engine userID
  unfold Leg.holdings Account.holdings at least
  omega

theorem paysFor_nothing {before after : Engine} (backed : before.Backed)
    (kept : after.Backed)
    (worth : ∀ userID, after.worth userID ≤ before.worth userID) :
    before.PaysFor after [] where
  backed := kept
  amounts := by
    intro trade member
    contradiction
  paid := backed.worth_nonneg
  worth := by
    intro userID
    rw [Leg.net_nil, Int.add_zero]
    exact worth userID

theorem paysFor_unchanged {engine : Engine} (backed : engine.Backed) :
    engine.PaysFor engine [] :=
  paysFor_nothing backed backed fun _ => le_refl _

/-- The command submits no market order, and no cash amount of its first
section leaves the range of int64. -/
structure Engine.BeginsBacked (engine : Engine) (input : Input) : Prop where
  limit : ∀ order ∈ input.order?, order.orderType = .orderTypeLimit
  exact : engine.BeginsExactly input
  reserve : ∀ order ∈ engine.admitted? input, order.side = .sideBuy →
    Fits ((engine.balances.account order.userID).reserved.toInt +
      engine.exactHold order)

instance (engine : Engine) (input : Input) :
    Decidable (engine.BeginsBacked input) :=
  decidable_of_iff
    ((∀ order ∈ input.order?, order.orderType = .orderTypeLimit) ∧
      engine.BeginsExactly input ∧
      ∀ order ∈ engine.admitted? input, order.side = .sideBuy →
        Fits ((engine.balances.account order.userID).reserved.toInt +
          engine.exactHold order))
    ⟨fun ⟨limit, exact, reserve⟩ => ⟨limit, exact, reserve⟩,
      fun ⟨limit, exact, reserve⟩ => ⟨limit, exact, reserve⟩⟩

section Begin

variable {engine : Engine} {order : Order} {market : Market}
  (backed : engine.Backed)

include backed

private theorem backed_opened : (engine.opened order).Backed where
  sound := backed.sound.of_same (opened_orders engine order)
    (Leg.account_opened .cash engine order)
  solvent := by
    intro userID
    rw [Leg.gap_of_same .cash (opened_orders engine order)
      (fun key => by rw [Leg.account_opened])]
    exact backed.solvent userID
  orders := by
    intro id found present
    rw [opened_orders] at present
    exact backed.orders present

private theorem backed_cancel
    (present : engine.orders.lookup order.id = some order)
    (refund : order.side = .sideBuy →
      Fits ((engine.balances.account order.userID).available.toInt +
        order.lockedFunds.toInt)) :
    (engine.cancel market order).Backed where
  sound := backed.sound.cancel present refund
  solvent := by
    intro userID
    rw [Leg.gap_cancel market present backed.sound backed.solvent]
    exact backed.solvent userID
  orders := by
    intro id found lookedUp
    rw [lookup_cancel_released] at lookedUp
    split at lookedUp
    · cases lookedUp
      have old := backed.orders present
      refine ⟨?_, ?_, ?_⟩
      · rw [(Order.released_terms _).orderType]
        exact old.limit
      · rw [Order.released_eq]
        exact old.remaining
      · intro _ live
        rw [Order.released_status] at live
        exact absurd rfl live
    · exact backed.orders lookedUp

private theorem backed_funded {userID : String}
    (absent : engine.balances.lookup userID = none) :
    Engine.Backed
      { engine with
        balances := engine.balances.insert userID
          ⟨defaultStartingBalance, 0⟩ } where
  sound := by
    refine ⟨?_, ?_, backed.sound.locks⟩
    · intro key
      rw [account_funded]
      split
      · decide
      · exact backed.sound.available key
    · intro key
      rw [account_funded]
      split
      · decide
      · exact backed.sound.reserved key
  solvent := by
    intro key
    rw [gap_funded absent]
    exact backed.solvent key
  orders := backed.orders

variable (submitted : order.Submitted)
  (limit : order.orderType = .orderTypeLimit)
  (fresh : engine.orders.lookup order.id = none)
  (reserves : Leg.cash.Reserves engine order)
  (product : order.side = .sideBuy →
    Fits (order.quantity.toInt * order.price.toInt))

omit backed in
theorem account_enrolled (userID : String) :
    Leg.cash.account (engine.enrolled order) userID =
      Leg.cash.account (engine.frozen order) userID := rfl

include submitted limit fresh reserves product in
private theorem backed_enrolled : (engine.enrolled order).Backed where
  sound := by
    have frozen := backed.sound.frozen reserves
    refine ⟨frozen.available, frozen.reserved, ?_⟩
    intro id found present side
    rw [lookup_enrolled] at present
    split at present
    · cases present
      exact reserves.nonneg side
    · exact backed.sound.locks id found present side
  solvent := by
    intro userID
    have before := backed.solvent userID
    unfold Leg.gap at before ⊢
    rw [account_enrolled, reserves.frozen_reserved, Leg.locked_enrolled fresh]
    omega
  orders := by
    intro id found present
    rw [lookup_enrolled] at present
    split at present
    · cases present
      refine ⟨limit, ?_, ?_⟩
      · change 0 ≤ order.remainingQuantity.toInt
        exact le_of_lt (submitted_open submitted)
      · intro side _
        have lock := lockFor_buy engine submitted side fun _ => product side
        simp only [Engine.exactHold, limit] at lock
        change order.remainingQuantity.toInt * order.price.toInt ≤
          (engine.lockFor order).toInt
        rw [submitted.remaining, lock]
    · exact backed.orders present

omit backed in
include reserves in
private theorem holdings_enrolled (userID : String) :
    Leg.cash.holdings (engine.enrolled order) userID =
      Leg.cash.holdings engine userID := by
  unfold Leg.holdings Account.holdings
  rw [account_enrolled, reserves.frozen_available, reserves.frozen_reserved]
  omega

end Begin

theorem paysFor_begin {engine : Engine} {waiting : String → Prop}
    (tidy : Tidy engine waiting) (backed : engine.Backed) {input : Input}
    (begins : engine.BeginsBacked input) :
    engine.PaysFor (beginCommand engine input).1 [] := by
  have opening := beginCommand_opening engine input
  generalize beginCommand engine input = result at opening ⊢
  have same : ∀ {later : Engine}, engine.balances.KeptIn later.balances →
      (∀ userID, Leg.cash.holdings later userID =
        Leg.cash.holdings engine userID) →
      ∀ userID, later.worth userID ≤ engine.worth userID := by
    intro later kept held userID
    have held : Leg.cash.holdings later userID ≤
        Leg.cash.holdings engine userID + 0 := by
      rw [held, Int.add_zero]
    have le := worth_le kept held fun _ => Int.le_refl 0
    rw [Int.add_zero] at le
    exact le
  cases opening with
  | unchanged response idle => exact paysFor_unchanged backed
  | opened order message =>
      exact paysFor_nothing backed (backed_opened backed)
        (same (Leg.cash.keptIn_opened engine order) fun _ =>
          Leg.holdings_opened _)
  | canceled req order market requested present live hasMarket chosen =>
      have ownID := tidy.keyed _ _ present
      rw [← ownID] at present
      have refund := begins.exact.2 order chosen
      apply paysFor_nothing backed (backed_cancel backed present refund)
      apply same
      · exact Leg.cash.keptIn_release (engine.closed market order)
          order.canceled
      · exact Leg.holdings_cancel present backed.sound backed.solvent refund
  | marketCreated eventID requested absent =>
      exact paysFor_nothing backed
        ⟨⟨backed.sound.available, backed.sound.reserved, backed.sound.locks⟩,
          backed.solvent, backed.orders⟩ fun _ => le_refl _
  | userFunded userID requested absent =>
      apply paysFor_nothing backed (backed_funded backed absent)
      intro other
      simp only [Engine.worth, FiniteMap.lookup_insert_eq]
      split
      · rename_i same
        rw [same, absent]
        decide
      · exact le_refl _
  | registered order market submitted fresh hasMarket affords =>
      have valid := Input.order?_submitted submitted
      have admitted := admitted?_eq submitted fresh hasMarket affords
      have limit := begins.limit order submitted
      have product := begins.exact.1 order admitted
      have reserves := reserves_cash valid affords backed.sound product
        (begins.reserve order admitted)
      apply paysFor_nothing backed (backed_enrolled backed valid limit fresh
        reserves fun side => product side limit)
      apply same
      · exact Leg.cash.keptIn_frozen engine order
      · exact holdings_enrolled reserves

/-- An order that is taken out of the table leaves its reservation behind. -/
theorem backed_erase {engine : Engine} (backed : engine.Backed)
    (orderID : String) :
    Engine.Backed
      { engine with orders := engine.orders.erase orderID } where
  sound := ⟨backed.sound.available, backed.sound.reserved,
    fun id found present =>
      backed.sound.locks id found (FiniteMap.lookup_of_erase present)⟩
  solvent := by
    intro userID
    have before := backed.solvent userID
    have smaller : Leg.cash.locked
        { engine with orders := engine.orders.erase orderID } userID ≤
          Leg.cash.locked engine userID :=
      FiniteMap.total_erase_le _
        (fun id order present => backed.sound.locks.weight present userID)
        orderID
    unfold Leg.gap at before ⊢
    change 0 ≤ (Leg.cash.account engine userID).reserved.toInt - _
    omega
  orders := fun present => backed.orders (FiniteMap.lookup_of_erase present)

theorem paysFor_erase {engine : Engine} (backed : engine.Backed)
    (orderID : String) :
    engine.PaysFor { engine with orders := engine.orders.erase orderID } [] :=
  paysFor_nothing backed (backed_erase backed orderID) fun _ => le_refl _

/-! The second section. -/

def Engine.Fills (engine : Engine) (order : Order) (market : Market)
    (fills : List Fill) : Prop :=
  Filling (engine.load ((market.book order.outcome).slice order.side.opposite))
    order (engine.walk order market).1 (engine.walk order market).2 fills

theorem exists_fills {engine : Engine} {waiting : String → Prop}
    {order : Order} {market : Market} (tidy : Tidy engine waiting)
    (hasMarket : engine.markets.lookup order.eventID = some market)
    (nonneg : 0 ≤ order.remainingQuantity.toInt) :
    ∃ fills, engine.Fills order market fills := by
  apply matchAgainstBook_filling _ nonneg
  apply (load_map_id_sublist tidy.keyed _).nodup
  rw [← slice_of_market hasMarket]
  exact tidy.nodup _ _ _

section Finish

variable {engine : Engine} {waiting : String → Prop} {order : Order}
  {market : Market} {fills : List Fill} (tidy : Tidy engine waiting)
  (isWaiting : waiting order.id)
  (present : engine.orders.lookup order.id = some order)
  (hasMarket : engine.markets.lookup order.eventID = some market)
  (isFills : engine.Fills order market fills)

include tidy isWaiting hasMarket isFills

theorem fills_maker {fill : Fill} (member : fill ∈ fills) :
    engine.orders.lookup fill.maker.id = some fill.maker ∧
      fill.maker.id ≠ order.id ∧ fill.maker.eventID = order.eventID ∧
      fill.maker.outcome = order.outcome ∧
      fill.maker.side = order.side.opposite := by
  obtain ⟨registered, inSlice⟩ :=
    mem_source tidy hasMarket (isFills.fromSource fill member)
  refine ⟨registered, ?_, tidy.placed registered inSlice⟩
  intro same
  rw [same] at inSlice
  exact tidy.unlisted isWaiting _ _ _ inSlice

theorem lookup_stored_maker {fill : Fill} (member : fill ∈ fills) :
    (engine.stored order market).orders.lookup fill.maker.id =
      some fill.filled := by
  rw [lookup_stored,
    if_neg (fills_maker tidy isWaiting hasMarket isFills member).2.1]
  apply FiniteMap.lookup_insertAll_of_mem
  · rw [isFills.makers, List.map_map, List.map_map]
    change (fills.map fun fill => fill.filled.id).Nodup
    simp only [Fill.filled_id]
    exact isFills.distinct
  · rw [isFills.makers, ← fill.filled_id]
    exact List.mem_map.mpr ⟨fill.filled, List.mem_map_of_mem member, rfl⟩

omit tidy isWaiting hasMarket in
private theorem lookup_stored_other {id : String} (notTaker : id ≠ order.id)
    (notMaker : ∀ fill ∈ fills, fill.maker.id ≠ id) :
    (engine.stored order market).orders.lookup id =
      engine.orders.lookup id := by
  rw [lookup_stored, if_neg notTaker, FiniteMap.lookup_insertAll_of_notMem]
  rw [isFills.makers, List.map_map, List.map_map]
  intro member
  obtain ⟨fill, isFill, same⟩ := List.mem_map.mp member
  exact notMaker fill isFill (fill.filled_id.symm.trans same)

private theorem stored_cases {id : String} {found : Order}
    (lookedUp : (engine.stored order market).orders.lookup id = some found) :
    (id = order.id ∧ found = engine.walker order market) ∨
      (∃ fill ∈ fills, id = fill.maker.id ∧ found = fill.filled) ∨
      (id ≠ order.id ∧ (∀ fill ∈ fills, fill.maker.id ≠ id) ∧
        engine.orders.lookup id = some found) := by
  by_cases isTaker : id = order.id
  · rw [isTaker, lookup_stored_self] at lookedUp
    cases lookedUp
    exact .inl ⟨isTaker, rfl⟩
  · by_cases isMaker : ∃ fill ∈ fills, fill.maker.id = id
    · obtain ⟨fill, member, rfl⟩ := isMaker
      rw [lookup_stored_maker tidy isWaiting hasMarket isFills member]
        at lookedUp
      cases lookedUp
      exact .inr (.inl ⟨fill, member, rfl, rfl⟩)
    · simp only [not_exists, not_and] at isMaker
      rw [lookup_stored_other isFills isTaker isMaker] at lookedUp
      exact .inr (.inr ⟨isTaker, isMaker, lookedUp⟩)

theorem debits_stored (leg : Leg) :
    leg.DebitsAll (engine.stored order market)
      (engine.walk order market).1.trades := by
  intro trade member
  rw [isFills.trades] at member
  obtain ⟨fill, isFill, rfl⟩ := List.mem_map.mp member
  obtain ⟨_, different, event, outcome, across⟩ :=
    fills_maker tidy isWaiting hasMarket isFills isFill
  have taker : (engine.stored order market).orders.lookup
      (engine.walker order market).id = some (engine.walker order market) := by
    rw [walker_id]
    exact lookup_stored_self
  have maker : (engine.stored order market).orders.lookup fill.filled.id =
      some fill.filled := by
    rw [fill.filled_id]
    exact lookup_stored_maker tidy isWaiting hasMarket isFills isFill
  exact Leg.debits_fill taker maker walker_id fill.filled_id
    walker_progressed.terms fill.filled_terms different event outcome across

include present in
omit isWaiting isFills in
private theorem locked_stored (leg : Leg) (key : String) :
    leg.locked (engine.stored order market) key = leg.locked engine key := by
  apply (stored_progressed tidy present hasMarket).total_eq
  intro later earlier progressed
  unfold Leg.weight
  rw [progressed.terms.side, leg.key_of_terms progressed.terms,
    progressed.lockedFunds]

variable (backed : engine.Backed)
  (exact : engine.MatchesExactly order market)

omit tidy isWaiting hasMarket in
include backed present in
private theorem taker_pays (side : order.side = .sideBuy) :
    namedSum Trade.exactCost (engine.walk order market).1.trades order.id ≤
      filledSum fills * order.price.toInt := by
  rw [isFills.trades, namedSum_taker]
  apply cost_le_of_prices
  intro fill member
  exact ⟨(isFills.quantity fill member).1,
    counterparty_price side (backed.orders present).limit
      (isFills.eligible fill member)⟩

private theorem maker_pays {fill : Fill} (member : fill ∈ fills) :
    namedSum Trade.exactCost (engine.walk order market).1.trades
        fill.maker.id =
      fill.quantity.toInt * fill.maker.price.toInt := by
  rw [isFills.trades, namedSum_maker _ _ isFills.distinct
    (fun other isFill =>
      (fills_maker tidy isWaiting hasMarket isFills isFill).2.1) member]
  rfl

omit tidy isWaiting hasMarket in
private theorem walker_remaining :
    (engine.walker order market).remainingQuantity.toInt =
      order.remainingQuantity.toInt - filledSum fills := by
  have remaining := isFills.remaining
  change (engine.walk order market).1.incoming.remainingQuantity.toInt = _
  omega

include present backed exact

/-- Every order that may pay had what it pays locked, and keeps what it may
still have to pay. -/
theorem stored_backed (notCanceled : order.status ≠ .statusCanceled)
    {id : String} {found : Order}
    (lookedUp : (engine.stored order market).orders.lookup id = some found) :
    found.orderType = .orderTypeLimit ∧ 0 ≤ found.remainingQuantity.toInt ∧
      (found.side = .sideBuy →
        Leg.cash.drawn id (engine.walk order market).1.trades ≤
            found.lockedFunds.toInt ∧
          (found.status ≠ .statusCanceled →
            found.remainingQuantity.toInt * found.price.toInt +
                Leg.cash.drawn id (engine.walk order market).1.trades ≤
              found.lockedFunds.toInt)) := by
  rw [drawn_eq_namedSum (walk_costs exact)]
  rcases stored_cases tidy isWaiting hasMarket isFills lookedUp with
    ⟨rfl, rfl⟩ | ⟨fill, member, rfl, rfl⟩ | ⟨notTaker, notMaker, old⟩
  · have ordered := backed.orders present
    have walked : (engine.walker order market).Progressed order :=
      walker_progressed
    have terms := walked.terms
    have remaining := walker_remaining isFills
    have left : 0 ≤ (engine.walker order market).remainingQuantity.toInt :=
      isFills.nonneg
    refine ⟨terms.orderType.trans ordered.limit, left, ?_⟩
    intro side
    rw [terms.side] at side
    have pays := taker_pays present isFills backed side
    have funded := ordered.funded side notCanceled
    have price := tidy.priced present ordered.limit
    have rest := Int.mul_nonneg left (le_of_lt price)
    rw [remaining, Int.sub_mul] at rest
    rw [walked.lockedFunds, terms.price, remaining, Int.sub_mul]
    exact ⟨by omega, fun _ => by omega⟩
  · obtain ⟨registered, _⟩ :=
      fills_maker tidy isWaiting hasMarket isFills member
    obtain ⟨positive, within⟩ := isFills.quantity fill member
    have made := backed.orders registered
    have remaining := fill.filled_remaining (le_of_lt positive) within
    refine ⟨fill.filled_terms.orderType.trans made.limit, by omega, ?_⟩
    intro side
    rw [fill.filled_terms.side] at side
    have live := isCounterparty_live (isFills.eligible fill member)
    have notCanceled : fill.maker.status ≠ .statusCanceled := by
      intro canceled
      rw [canceled] at live
      contradiction
    have funded := made.funded side notCanceled
    have price := tidy.priced registered made.limit
    have rest : 0 ≤ (fill.maker.remainingQuantity.toInt -
        fill.quantity.toInt) * fill.maker.price.toInt :=
      Int.mul_nonneg (by omega) (le_of_lt price)
    rw [Int.sub_mul] at rest
    rw [maker_pays tidy isWaiting hasMarket isFills member,
      fill.filled_lockedFunds, fill.filled_terms.price, remaining, Int.sub_mul]
    exact ⟨by omega, fun _ => by omega⟩
  · have kept := backed.orders old
    have nothing : namedSum Trade.exactCost
        (engine.walk order market).1.trades id = 0 := by
      rw [isFills.trades]
      exact namedSum_other _ _ notTaker notMaker
    rw [nothing]
    refine ⟨kept.limit, kept.remaining, ?_⟩
    intro side
    refine ⟨backed.sound.locks id found old side, fun live => ?_⟩
    rw [Int.add_zero]
    exact kept.funded side live

variable (notCanceled : order.status ≠ .statusCanceled)

include notCanceled in
theorem adequate_stored :
    Leg.cash.Adequate (engine.stored order market)
      (engine.walk order market).1.trades := by
  intro id found lookedUp side
  exact ((stored_backed tidy isWaiting present hasMarket isFills backed exact
    notCanceled lookedUp).2.2 side).1

omit tidy isWaiting present hasMarket isFills backed exact in
theorem account_stored (userID : String) :
    Leg.cash.account (engine.stored order market) userID =
      Leg.cash.account engine userID := rfl

omit isWaiting isFills exact in
theorem sound_stored : Leg.cash.Sound (engine.stored order market) where
  available := by
    intro userID
    rw [account_stored]
    exact backed.sound.available userID
  reserved := by
    intro userID
    rw [account_stored]
    exact backed.sound.reserved userID
  locks := by
    intro id later lookedUp side
    obtain ⟨earlier, old, progressed⟩ :=
      (stored_progressed tidy present hasMarket).of_left lookedUp
    rw [progressed.terms.side] at side
    rw [progressed.lockedFunds]
    exact backed.sound.locks id earlier old side

omit isWaiting isFills exact in
theorem solvent_stored (userID : String) :
    0 ≤ Leg.cash.gap (engine.stored order market) userID := by
  have before := backed.solvent userID
  unfold Leg.gap at before ⊢
  rw [locked_stored tidy present hasMarket, account_stored]
  exact before

omit tidy isWaiting present hasMarket isFills backed in
theorem stored_room (userID : String) :
    Fits ((Leg.cash.account (engine.stored order market) userID).available.toInt +
      Transfer.received userID
        ((engine.walk order market).1.trades.map Leg.cash.transfer)) := by
  rw [account_stored]
  exact walk_room exact userID

include notCanceled

private theorem holdings_settledUp (userID : String) :
    Leg.cash.holdings (engine.settledUp order market) userID =
      Leg.cash.holdings engine userID +
        Leg.cash.net (engine.walk order market).1.trades userID := by
  have held : Leg.cash.holdings (engine.stored order market) userID =
      Leg.cash.holdings engine userID := by
    unfold Leg.holdings
    rw [account_stored]
  rw [← held, Engine.settledUp]
  exact Leg.holdings_settleAll (stored_keyed tidy present hasMarket)
    (debits_stored tidy isWaiting hasMarket isFills .cash)
    (sound_stored tidy present hasMarket backed)
    (walk_amounts tidy isWaiting hasMarket exact)
    (adequate_stored tidy isWaiting present hasMarket isFills backed exact
      notCanceled)
    (solvent_stored tidy present hasMarket backed) (stored_room exact) userID

/-- The trades of a walk are paid out of what was reserved before it. -/
theorem walk_paid (userID : String) :
    Transfer.paid userID
        ((engine.walk order market).1.trades.map Leg.cash.transfer) ≤
      Leg.cash.holdings engine userID := by
  have paid := Leg.paid_le_reserved (stored_keyed tidy present hasMarket)
    (debits_stored tidy isWaiting hasMarket isFills .cash)
    (sound_stored tidy present hasMarket backed)
    (walk_amounts tidy isWaiting hasMarket exact)
    (adequate_stored tidy isWaiting present hasMarket isFills backed exact
      notCanceled)
    (solvent_stored tidy present hasMarket backed) userID
  have available := backed.sound.available userID
  rw [account_stored] at paid
  unfold Leg.holdings Account.holdings
  omega

private theorem backed_settledUp : (engine.settledUp order market).Backed where
  sound := Leg.Sound.settleAll (stored_keyed tidy present hasMarket)
    (debits_stored tidy isWaiting hasMarket isFills .cash)
    (sound_stored tidy present hasMarket backed)
    (walk_amounts tidy isWaiting hasMarket exact)
    (adequate_stored tidy isWaiting present hasMarket isFills backed exact
      notCanceled)
    (solvent_stored tidy present hasMarket backed) (stored_room exact)
  solvent := by
    intro userID
    unfold Engine.settledUp
    rw [Leg.gap_settleAll (stored_keyed tidy present hasMarket)
      (debits_stored tidy isWaiting hasMarket isFills .cash)
      (sound_stored tidy present hasMarket backed)
      (walk_amounts tidy isWaiting hasMarket exact)
      (adequate_stored tidy isWaiting present hasMarket isFills backed exact
        notCanceled)
      (solvent_stored tidy present hasMarket backed)]
    exact solvent_stored tidy present hasMarket backed userID
  orders := by
    intro id later lookedUp
    rw [lookup_settledUp tidy isWaiting present hasMarket] at lookedUp
    obtain ⟨found, stored, rfl⟩ := Option.map_eq_some_iff.mp lookedUp
    obtain ⟨limit, remaining, funded⟩ := stored_backed tidy isWaiting present
      hasMarket isFills backed exact notCanceled stored
    have ownID := stored_keyed tidy present hasMarket id found stored
    have terms := found.settledAll_terms (engine.walk order market).1.trades
    obtain ⟨_, sameRemaining, sameStatus⟩ :=
      found.settledAll_progress (engine.walk order market).1.trades
    refine ⟨terms.orderType.trans limit, ?_, ?_⟩
    · rw [sameRemaining]
      exact remaining
    · intro side live
      rw [terms.side] at side
      rw [sameStatus] at live
      have locks := (sound_stored tidy present hasMarket backed).locks id found
        stored side
      have lock := Leg.settledAll_lockedFunds side locks
        (walk_amounts tidy isWaiting hasMarket exact)
      have covered := (funded side).2 live
      rw [ownID] at lock
      rw [sameRemaining, terms.price]
      omega

end Finish

private theorem backed_release {engine : Engine} {order : Order}
    (backed : engine.Backed)
    (present : engine.orders.lookup order.id = some order)
    (refund : order.side = .sideBuy →
      Fits ((engine.balances.account order.userID).available.toInt +
        order.lockedFunds.toInt))
    (done : order.status ≠ .statusCanceled → order.remainingQuantity = 0) :
    (releaseOrderLocked engine order).Backed where
  sound := Leg.Sound.release present backed.sound
    (Leg.cash.weight_fits refund)
  solvent := by
    intro userID
    rw [Leg.gap_release present backed.sound backed.solvent]
    exact backed.solvent userID
  orders := by
    intro id found lookedUp
    rw [lookup_releaseOrderLocked engine order present] at lookedUp
    split at lookedUp
    · cases lookedUp
      have old := backed.orders present
      refine ⟨(Order.released_terms _).orderType.trans old.limit, ?_, ?_⟩
      · rw [Order.released_eq]
        exact old.remaining
      · intro side live
        rw [(Order.released_terms _).side] at side
        rw [Order.released_status] at live
        have nonneg := backed.sound.locks _ _ present side
        have nothing : order.released.remainingQuantity = 0 := by
          rw [Order.released_eq]
          exact done live
        rw [nothing, Order.released_lockedFunds]
        simp only [Int64.toInt_zero, Int.zero_mul]
        omega
    · exact backed.orders lookedUp

section Finished

variable {engine : Engine} {waiting : String → Prop} {order : Order}
  {market : Market} (tidy : Tidy engine waiting)
  (isWaiting : waiting order.id)
  (present : engine.orders.lookup order.id = some order)
  (notCanceled : order.status ≠ .statusCanceled)
  (hasMarket : engine.markets.lookup order.eventID = some market)
  (backed : engine.Backed) (exact : engine.MatchesExactly order market)

include tidy isWaiting present hasMarket

theorem finished_eq :
    engine.finished order market =
      if (engine.walker order market).status = .statusFilled ∨
          (engine.walker order market).status = .statusCanceled then
        releaseOrderLocked (engine.settledUp order market)
          ((engine.walker order market).settledAll
            (engine.walk order market).1.trades)
      else
        engine.settledUp order market := by
  unfold Engine.finished Engine.settledUp
  simp only
  rw [release_settled tidy present hasMarket isWaiting]

include notCanceled backed exact

private theorem backed_finished :
    (engine.finished order market).Backed ∧
      ∀ userID, Leg.cash.holdings (engine.finished order market) userID =
        Leg.cash.holdings engine userID +
          Leg.cash.net (engine.walk order market).1.trades userID := by
  obtain ⟨fills, isFills⟩ :=
    exists_fills tidy hasMarket (backed.orders present).remaining
  have settled := backed_settledUp tidy isWaiting present hasMarket isFills
    backed exact notCanceled
  have held := holdings_settledUp tidy isWaiting present hasMarket isFills
    backed exact notCanceled
  rw [finished_eq tidy isWaiting present hasMarket]
  split
  · rename_i gone
    have own : (engine.settledUp order market).orders.lookup order.id =
        some ((engine.walker order market).settledAll
          (engine.walk order market).1.trades) :=
      lookup_settled_self tidy present hasMarket isWaiting
    have continues := (Order.settledAll_continues
      (engine.walker order market) (engine.walk order market).1.trades).trans
        walker_progressed.continues
    obtain ⟨_, sameRemaining, sameStatus⟩ :=
      (engine.walker order market).settledAll_progress
        (engine.walk order market).1.trades
    generalize (engine.walker order market).settledAll _ = walker at *
    have registered : (engine.settledUp order market).orders.lookup walker.id =
        some walker := by
      rw [continues.id]
      exact own
    have refund : walker.side = .sideBuy →
        Fits (((engine.settledUp order market).balances.account
          walker.userID).available.toInt + walker.lockedFunds.toInt) := by
      intro side
      rw [continues.userID]
      exact exact.2 (continues.side.symm.trans side) walker own
    refine ⟨backed_release settled registered refund ?_, ?_⟩
    · intro live
      rw [sameStatus] at live
      rw [sameRemaining]
      exact statusAfterMatch_filled (gone.resolve_right live)
    · intro userID
      rw [Leg.holdings_released registered settled.sound
        (Leg.cash.weight_fits refund) settled.solvent]
      exact held userID
  · exact ⟨settled, held⟩

omit notCanceled backed exact in
private theorem finished_keptIn :
    engine.balances.KeptIn (engine.finished order market).balances := by
  have settled : engine.balances.KeptIn
      (engine.settledUp order market).balances := by
    unfold Engine.settledUp
    rw [settleAll_balances]
    exact Transfer.keptIn_applyAll engine.balances _
  rw [finished_eq tidy isWaiting present hasMarket]
  split
  · exact settled.trans (Leg.cash.keptIn_release _ _)
  · exact settled

private theorem paysFor_finished :
    engine.PaysFor (engine.finished order market)
      (engine.walk order market).1.trades := by
  obtain ⟨fills, isFills⟩ :=
    exists_fills tidy hasMarket (backed.orders present).remaining
  obtain ⟨kept, held⟩ := backed_finished tidy isWaiting present notCanceled
    hasMarket backed exact
  have amounts := walk_amounts tidy isWaiting hasMarket exact
  have paid := walk_paid tidy isWaiting present hasMarket isFills backed exact
    notCanceled
  refine ⟨kept, amounts,
    fun userID => (paid userID).trans (holdings_le_worth engine userID), ?_⟩
  intro userID
  apply worth_le
  · exact finished_keptIn tidy isWaiting present hasMarket
  · exact le_of_eq (held userID)
  · intro absent
    have received := Transfer.received_nonneg amounts.transfers userID
    have nothing : Leg.cash.holdings engine userID = 0 := by
      simp [Leg.holdings, Leg.account, Leg.accounts, Accounts.account, absent]
    have paid := paid userID
    unfold Leg.net Transfer.net
    omega

end Finished

theorem paysFor_matchOrder {engine : Engine} {waiting : String → Prop}
    (tidy : Tidy engine waiting) {orderID : String}
    (isWaiting : waiting orderID) (backed : engine.Backed)
    (exact : engine.FinishesExactly orderID) :
    engine.PaysFor (matchOrder engine orderID).1
      (matchOrder engine orderID).2 := by
  have finishing := matchOrder_finishing tidy.keyed orderID
  generalize matchOrder engine orderID = result at finishing ⊢
  cases finishing with
  | absent absent => exact paysFor_unchanged backed
  | canceled order present canceled => exact paysFor_unchanged backed
  | rejected order present notCanceled noMarket =>
      obtain ⟨market, hasMarket⟩ := tidy.hasMarket present
      rw [noMarket] at hasMarket
      contradiction
  | matched order market present notCanceled hasMarket =>
      have ownID := tidy.keyed orderID order present
      subst ownID
      exact paysFor_finished tidy isWaiting present notCanceled hasMarket
        backed (exact order present notCanceled market hasMarket)

end Predix
