import Predix.Ledger.Leg

namespace Predix

open Data Word

/-! What an accepted or canceled order does to one leg of the ledger. -/

def Engine.remnant (engine : Engine) (order : Order) : Order :=
  (engine.taker order).settledAll (engine.tradesFor order)

def Engine.settled (engine : Engine) (order : Order) (market : Market) :
    Engine :=
  settleAll (engine.walked order market) (engine.tradesFor order)

section Remnant

variable {engine : Engine} {order : Order} {market : Market}
  (wellFormed : WellFormed engine) (submitted : order.Submitted)
  (fresh : engine.orders.lookup order.id = none)
  (hasMarket : engine.markets.lookup order.eventID = some market)

include wellFormed submitted fresh hasMarket

theorem lookup_settled (id : String) :
    (engine.settled order market).orders.lookup id =
      ((engine.walked order market).orders.lookup id).map
        (·.settledAll (engine.tradesFor order)) :=
  lookup_settleAll
    (wellFormed_walked wellFormed submitted fresh hasMarket).keyed
    (fun _ member => tradesFor_distinct wellFormed fresh member) id

omit wellFormed submitted fresh hasMarket in
theorem remnant_id : (engine.remnant order).id = order.id := by
  unfold Engine.remnant
  rw [Order.settledAll_eq]
  exact taker_id _ _

omit wellFormed submitted fresh hasMarket in
variable (engine order) in
theorem remnant_terms : (engine.remnant order).SameTerms order :=
  ((engine.taker order).settledAll_terms _).trans (taker_terms engine order)

omit wellFormed submitted fresh hasMarket in
variable (engine order) in
theorem remnant_status :
    (engine.remnant order).status = (engine.taker order).status :=
  ((engine.taker order).settledAll_progress _).2.2

omit wellFormed fresh hasMarket in
variable (engine) in
theorem remnant_remaining :
    (engine.remnant order).remainingQuantity.toInt =
      order.quantity.toInt - filledSum (engine.fillsFor order) := by
  rw [← taker_remaining engine submitted]
  exact congrArg Int64.toInt
    ((engine.taker order).settledAll_progress _).2.1

omit wellFormed fresh hasMarket in
variable (engine) in
theorem remnant_filled :
    (engine.remnant order).filledQuantity.toInt =
      filledSum (engine.fillsFor order) := by
  rw [← taker_filled engine submitted]
  exact congrArg Int64.toInt ((engine.taker order).settledAll_progress _).1

theorem lookup_settled_taker :
    (engine.settled order market).orders.lookup (engine.remnant order).id =
      some (engine.remnant order) := by
  rw [remnant_id, lookup_settled wellFormed submitted fresh hasMarket,
    lookup_walked_taker]
  rfl

theorem matched_eq :
    engine.matched order market =
      if (engine.taker order).status.live then
        engine.settled order market
      else
        releaseOrderLocked (engine.settled order market)
          (engine.remnant order) := by
  have lookedUp := lookup_settled_taker wellFormed submitted fresh hasMarket
  rw [remnant_id] at lookedUp
  have released : (engine.settled order market).release order.id =
      releaseOrderLocked (engine.settled order market)
        (engine.remnant order) := by
    simp only [Engine.release, lookedUp]
  rw [← released]
  rfl

private theorem lookup_matched_self :
    (engine.matched order market).orders.lookup order.id =
      some (if (engine.taker order).status.live then engine.remnant order
        else (engine.remnant order).released) := by
  have present := lookup_settled_taker wellFormed submitted fresh hasMarket
  rw [matched_eq wellFormed submitted fresh hasMarket]
  split
  · rw [remnant_id] at present
    exact present
  · rw [lookup_releaseOrderLocked _ _ present, remnant_id, if_pos rfl]

theorem lookup_matched_of_ne {id : String} (different : id ≠ order.id) :
    (engine.matched order market).orders.lookup id =
      ((engine.walked order market).orders.lookup id).map
        (·.settledAll (engine.tradesFor order)) := by
  have present := lookup_settled_taker wellFormed submitted fresh hasMarket
  rw [matched_eq wellFormed submitted fresh hasMarket,
    ← lookup_settled wellFormed submitted fresh hasMarket]
  split
  · rfl
  · rw [lookup_releaseOrderLocked _ _ present, remnant_id, if_neg different]

theorem lookup_matched_maker {fill : Fill}
    (member : fill ∈ engine.fillsFor order) :
    (engine.matched order market).orders.lookup fill.maker.id =
      some (fill.filled.settledAll (engine.tradesFor order)) := by
  rw [lookup_matched_of_ne wellFormed submitted fresh hasMarket
    (fillsFor_ne_fresh wellFormed fresh member),
    lookup_walked_maker wellFormed fresh member]
  rfl

theorem lookup_matched_other {id : String} (notTaker : id ≠ order.id)
    (notMaker : ∀ fill ∈ engine.fillsFor order, fill.maker.id ≠ id) :
    (engine.matched order market).orders.lookup id =
      engine.orders.lookup id := by
  rw [lookup_matched_of_ne wellFormed submitted fresh hasMarket notTaker,
    lookup_walked_other notTaker notMaker]
  cases present : engine.orders.lookup id with
  | none => rfl
  | some found =>
      rw [Option.map_some, Order.settledAll_of_unnamed]
      intro trade member named
      obtain ⟨fill, fillMember, rfl⟩ := List.mem_map.mp member
      rw [wellFormed.keyed id found present] at named
      rcases trade_names.mp named with taker | maker
      · exact notTaker taker.symm
      · exact notMaker fill fillMember maker

/-- What an accepted order makes of the orders registered before it and of
itself. -/
inductive AfterMatch (engine : Engine) (order : Order) :
    String → Order → Prop where
  | resting (live : (engine.taker order).status.live = true) :
      AfterMatch engine order order.id (engine.remnant order)
  | released (closed : (engine.taker order).status.live = false) :
      AfterMatch engine order order.id (engine.remnant order).released
  | maker (fill : Fill) (member : fill ∈ engine.fillsFor order) :
      AfterMatch engine order fill.maker.id
        (fill.filled.settledAll (engine.tradesFor order))
  | other {id : String} {found : Order} (notTaker : id ≠ order.id)
      (notMaker : ∀ fill ∈ engine.fillsFor order, fill.maker.id ≠ id)
      (present : engine.orders.lookup id = some found) :
      AfterMatch engine order id found

theorem afterMatch {id : String} {found : Order}
    (present : (engine.matched order market).orders.lookup id = some found) :
    AfterMatch engine order id found := by
  rcases walked_cases engine order id with rfl | ⟨fill, member, rfl⟩ |
    ⟨notTaker, notMaker⟩
  · rw [lookup_matched_self wellFormed submitted fresh hasMarket] at present
    split at present
    · rename_i live
      cases present
      exact .resting live
    · rename_i closed
      cases present
      exact .released (Bool.eq_false_iff.mpr closed)
  · rw [lookup_matched_maker wellFormed submitted fresh hasMarket member]
      at present
    cases present
    exact .maker fill member
  · rw [lookup_matched_other wellFormed submitted fresh hasMarket notTaker
      notMaker] at present
    exact .other notTaker notMaker present

end Remnant

namespace Leg

variable {leg : Leg} {engine : Engine} {order : Order} {market : Market}

structure Sound (leg : Leg) (engine : Engine) : Prop where
  available : ∀ key, 0 ≤ (leg.account engine key).available.toInt
  reserved : ∀ key, 0 ≤ (leg.account engine key).reserved.toInt
  locks : leg.LocksNonneg engine

/-- What is reserved of an account beyond the locks of its orders. -/
def gap (leg : Leg) (engine : Engine) (key : String) : Int :=
  (leg.account engine key).reserved.toInt - leg.locked engine key

/-! Releasing. -/

section Release

variable (registered : engine.orders.lookup order.id = some order)
  (lockNonneg : order.side = leg.side → 0 ≤ order.lockedFunds.toInt)

include registered lockNonneg in
theorem locked_release (key : String) :
    leg.locked (releaseOrderLocked engine order) key =
      leg.locked engine key - leg.weight key order := by
  have put : ∀ lock, FiniteMap.total (fun _ order => leg.weight key order)
      (engine.orders.insert order.id (order.withLock lock)) =
        leg.locked engine key - leg.weight key order +
          leg.weight key (order.withLock lock) :=
    fun _ => FiniteMap.total_insert_of_lookup _ _ registered
  unfold releaseOrderLocked
  by_cases nothing : order.lockedFunds ≤ 0
  · rw [if_pos nothing]
    rw [le_zero_iff] at nothing
    unfold weight
    split
    · rename_i both
      have := lockNonneg both.1
      omega
    · omega
  · rw [if_neg nothing]
    have zero : leg.weight key (order.withLock 0) = 0 := by
      unfold weight
      split
      · exact Int64.toInt_zero
      · rfl
    have released := put 0
    rw [zero, add_zero] at released
    split
    · exact released
    · exact released

theorem account_release (key : String) :
    leg.account (releaseOrderLocked engine order) key =
      if order.side = leg.side ∧ leg.key order = key ∧
          0 < order.lockedFunds.toInt then
        (leg.account engine key).unfreeze order.lockedFunds
      else
        leg.account engine key := by
  unfold account
  rw [leg.accounts_releaseOrderLocked]
  by_cases locked : order.side = leg.side ∧ 0 < order.lockedFunds.toInt
  · rw [if_pos locked, Accounts.account_update]
    by_cases owned : key = leg.key order
    · rw [if_pos owned, if_pos ⟨locked.1, owned.symm, locked.2⟩, owned]
    · rw [if_neg owned, if_neg fun all => owned all.2.1.symm]
  · rw [if_neg locked, if_neg fun all => locked ⟨all.1, all.2.2⟩]

include lockNonneg in
theorem release_reserved (reservedNonneg :
      ∀ key, 0 ≤ (leg.account engine key).reserved.toInt) (key : String) :
    (leg.account (releaseOrderLocked engine order) key).reserved.toInt =
      max 0 ((leg.account engine key).reserved.toInt -
        leg.weight key order) := by
  have reserved := reservedNonneg key
  rw [account_release]
  unfold weight
  split
  · rename_i all
    rw [if_pos ⟨all.1, all.2.1⟩,
      Account.unfreeze_reserved reserved (le_of_lt all.2.2)]
  · rename_i notAll
    split
    · rename_i both
      have := lockNonneg both.1
      have : ¬ 0 < order.lockedFunds.toInt :=
        fun positive => notAll ⟨both.1, both.2, positive⟩
      omega
    · omega

include lockNonneg in
theorem release_available (key : String)
    (fits : Fits ((leg.account engine key).available.toInt +
      leg.weight key order)) :
    (leg.account (releaseOrderLocked engine order) key).available.toInt =
      (leg.account engine key).available.toInt + leg.weight key order := by
  rw [account_release]
  unfold weight at fits ⊢
  split
  · rename_i all
    rw [if_pos ⟨all.1, all.2.1⟩] at fits ⊢
    exact Account.unfreeze_available fits
  · rename_i notAll
    split
    · rename_i both
      have := lockNonneg both.1
      have : ¬ 0 < order.lockedFunds.toInt :=
        fun positive => notAll ⟨both.1, both.2, positive⟩
      omega
    · omega

include registered lockNonneg in
theorem LocksNonneg.release (locks : leg.LocksNonneg engine) :
    leg.LocksNonneg (releaseOrderLocked engine order) := by
  intro id found present sameSide
  rw [lookup_releaseOrderLocked engine order registered] at present
  split at present
  · cases present
    have := lockNonneg (order.released_terms.side.symm.trans sameSide)
    rw [Order.released_lockedFunds]
    omega
  · exact locks id found present sameSide

theorem totalHeld_release (counted : String → Bool)
    (fits : Fits ((leg.account engine (leg.key order)).available.toInt +
      leg.weight (leg.key order) order))
    (covered : leg.weight (leg.key order) order ≤
      (leg.account engine (leg.key order)).reserved.toInt) :
    (leg.accounts (releaseOrderLocked engine order)).totalHeld counted =
      (leg.accounts engine).totalHeld counted := by
  rw [leg.accounts_releaseOrderLocked]
  split
  · rename_i both
    obtain ⟨sameSide, positive⟩ := both
    rw [leg.weight_of_same sameSide, if_pos rfl] at fits covered
    apply Accounts.totalHeld_update_of_holdings
    have available := Account.unfreeze_available fits
    have held : 0 ≤ (leg.account engine (leg.key order)).reserved.toInt := by
      omega
    have reserved := Account.unfreeze_reserved held (le_of_lt positive)
    change ((leg.account engine (leg.key order)).unfreeze _).holdings =
      (leg.account engine (leg.key order)).holdings
    unfold Account.holdings
    rw [available, reserved]
    omega
  · rfl

end Release

/-! Freezing. -/

section Freeze

variable (leg engine order) in
def frozenAt (key : String) : Int :=
  leg.weight key (engine.registered order)

theorem frozenAt_eq (key : String) :
    leg.frozenAt engine order key =
      if order.side = leg.side ∧ leg.key order = key then
        (engine.lockFor order).toInt
      else
        0 := by
  have sameKey : leg.key (engine.registered order) = leg.key order :=
    leg.key_withLock order (engine.lockFor order)
  unfold frozenAt weight
  rw [sameKey]
  rfl

structure Reserves (leg : Leg) (engine : Engine) (order : Order) : Prop where
  nonneg : order.side = leg.side → 0 ≤ (engine.lockFor order).toInt
  covered : order.side = leg.side → (engine.lockFor order).toInt ≤
    (leg.account engine (leg.key order)).available.toInt
  fits : order.side = leg.side →
    Fits ((leg.account engine (leg.key order)).reserved.toInt +
      (engine.lockFor order).toInt)

variable (reserves : leg.Reserves engine order)

include reserves in
theorem Reserves.frozenAt_nonneg (key : String) :
    0 ≤ leg.frozenAt engine order key := by
  rw [frozenAt_eq]
  split
  · rename_i both
    exact reserves.nonneg both.1
  · exact le_refl 0

include reserves in
theorem Reserves.frozenAt_le
    (available : ∀ key, 0 ≤ (leg.account engine key).available.toInt)
    (key : String) :
    leg.frozenAt engine order key ≤
      (leg.account engine key).available.toInt := by
  rw [frozenAt_eq]
  split
  · rename_i both
    rw [← both.2]
    exact reserves.covered both.1
  · exact available key

theorem account_frozen (key : String) :
    leg.account (engine.frozen order) key =
      if order.side = leg.side ∧ leg.key order = key then
        (leg.account engine key).freeze (engine.lockFor order)
      else
        leg.account engine key := by
  unfold account
  rw [leg.accounts_frozen]
  by_cases sameSide : order.side = leg.side
  · rw [if_pos sameSide, Accounts.account_update]
    by_cases owned : key = leg.key order
    · rw [if_pos owned, if_pos ⟨sameSide, owned.symm⟩, owned]
    · rw [if_neg owned, if_neg fun both => owned both.2.symm]
  · rw [if_neg sameSide, if_neg fun both => sameSide both.1]

include reserves in
theorem Reserves.frozen_available (key : String) :
    (leg.account (engine.frozen order) key).available.toInt =
      (leg.account engine key).available.toInt -
        leg.frozenAt engine order key := by
  rw [account_frozen, frozenAt_eq]
  split
  · rename_i both
    have covered := reserves.covered both.1
    rw [both.2] at covered
    exact Account.freeze_available (reserves.nonneg both.1) covered
  · omega

include reserves in
theorem Reserves.frozen_reserved (key : String) :
    (leg.account (engine.frozen order) key).reserved.toInt =
      (leg.account engine key).reserved.toInt +
        leg.frozenAt engine order key := by
  rw [account_frozen, frozenAt_eq]
  split
  · rename_i both
    have fits := reserves.fits both.1
    rw [both.2] at fits
    exact Account.freeze_reserved fits
  · omega

include reserves in
theorem Reserves.totalHeld_frozen (counted : String → Bool) :
    (leg.accounts (engine.frozen order)).totalHeld counted =
      (leg.accounts engine).totalHeld counted := by
  rw [leg.accounts_frozen]
  split
  · rename_i sameSide
    apply Accounts.totalHeld_update_of_holdings
    have available := Account.freeze_available (reserves.nonneg sameSide)
      (reserves.covered sameSide)
    have reserved := Account.freeze_reserved (reserves.fits sameSide)
    change ((leg.account engine (leg.key order)).freeze _).holdings =
      (leg.account engine (leg.key order)).holdings
    unfold Account.holdings
    rw [available, reserved]
    omega
  · rfl

end Freeze

/-! The walk. -/

theorem accounts_walked (leg : Leg) (engine : Engine) (order : Order)
    (market : Market) :
    leg.accounts (engine.walked order market) =
      leg.accounts (engine.frozen order) := by
  cases leg <;> rfl

private theorem weight_filled (leg : Leg) (key : String) (fill : Fill) :
    leg.weight key fill.filled = leg.weight key fill.maker := by
  rw [fill.filled_eq]
  cases leg <;> rfl

private theorem weight_taker (leg : Leg) (key : String) (engine : Engine)
    (order : Order) :
    leg.weight key (engine.taker order) = leg.frozenAt engine order key := by
  rw [taker_eq]
  cases leg <;> rfl

theorem locked_enrolled (fresh : engine.orders.lookup order.id = none)
    (key : String) :
    leg.locked (engine.enrolled order) key =
      leg.locked engine key + leg.frozenAt engine order key := by
  unfold locked
  rw [enrolled_orders]
  exact FiniteMap.total_insert_of_notMem
    (fun _ order => leg.weight key order) (engine.registered order) fresh

section Walk

variable (wellFormed : WellFormed engine)
  (fresh : engine.orders.lookup order.id = none)

include wellFormed fresh

theorem locked_walked (key : String) :
    leg.locked (engine.walked order market) key =
      leg.locked engine key + leg.frozenAt engine order key := by
  have admitted : FiniteMap.total (fun _ order => leg.weight key order)
      (engine.enrolled order).orders =
        leg.locked engine key + leg.frozenAt engine order key :=
    locked_enrolled fresh key
  have made : FiniteMap.total (fun _ order => leg.weight key order)
      (FiniteMap.insertAll (engine.makerEntries order)
        (engine.enrolled order).orders) =
        leg.locked engine key + leg.frozenAt engine order key := by
    rw [FiniteMap.total_insertAll, admitted]
    · rw [makerEntries_keys]
      exact fillsFor_ids_nodup wellFormed
    · intro entry member
      unfold Engine.makerEntries at member
      rw [List.map_map] at member
      obtain ⟨fill, fillMember, rfl⟩ := List.mem_map.mp member
      refine ⟨fill.maker, ?_, leg.weight_filled key fill⟩
      change (engine.enrolled order).orders.lookup fill.filled.id = _
      rw [fill.filled_id, lookup_enrolled,
        if_neg (fillsFor_ne_fresh wellFormed fresh fillMember)]
      exact (fillsFor_maker wellFormed fillMember).1
  have own : (FiniteMap.insertAll (engine.makerEntries order)
      (engine.enrolled order).orders).lookup order.id =
        some (engine.registered order) := by
    rw [FiniteMap.lookup_insertAll_of_notMem, lookup_enrolled, if_pos rfl]
    rw [makerEntries_keys]
    intro member
    obtain ⟨fill, fillMember, same⟩ := List.mem_map.mp member
    exact fillsFor_ne_fresh wellFormed fresh fillMember same
  have written : leg.locked (engine.walked order market) key =
      leg.locked engine key + leg.frozenAt engine order key -
        leg.weight key (engine.registered order) +
          leg.weight key (engine.taker order) := by
    rw [← made, locked, walked_orders,
      FiniteMap.total_insert_of_lookup _ _ own]
  rw [written, weight_taker]
  unfold frozenAt
  omega

theorem debits_walked :
    leg.DebitsAll (engine.walked order market) (engine.tradesFor order) := by
  intro trade member
  obtain ⟨fill, fillMember, rfl⟩ := List.mem_map.mp member
  obtain ⟨_, _, event, outcome, across⟩ :=
    fillsFor_maker wellFormed fillMember
  have taker : (engine.walked order market).orders.lookup
      (engine.taker order).id = some (engine.taker order) := by
    rw [taker_id]
    exact lookup_walked_taker
  have maker : (engine.walked order market).orders.lookup fill.filled.id =
      some fill.filled := by
    rw [fill.filled_id]
    exact lookup_walked_maker wellFormed fresh fillMember
  exact debits_fill taker maker (taker_id engine order) fill.filled_id
    (taker_terms engine order) fill.filled_terms
    (fillsFor_ne_fresh wellFormed fresh fillMember) event outcome across

theorem LocksNonneg.walked (locks : leg.LocksNonneg engine)
    (reserves : leg.Reserves engine order) :
    leg.LocksNonneg (engine.walked order market) := by
  intro id found present sameSide
  cases afterWalk wellFormed fresh present with
  | taker =>
      rw [(taker_terms engine order).side] at sameSide
      rw [taker_lockedFunds]
      exact reserves.nonneg sameSide
  | maker fill member =>
      rw [fill.filled_terms.side] at sameSide
      rw [fill.filled_lockedFunds]
      exact locks _ _ (fillsFor_maker wellFormed member).1 sameSide
  | other _ _ present => exact locks id found present sameSide

end Walk

/-! Settlement and release. -/

section Matched

variable (leg) in
structure Settles (engine : Engine) (order : Order) : Prop where
  amounts : leg.AmountsNonneg (engine.tradesFor order)
  fits : ∀ key, Fits ((leg.account engine key).available.toInt +
    Transfer.received key ((engine.tradesFor order).map leg.transfer))

variable (wellFormed : WellFormed engine) (submitted : order.Submitted)
  (fresh : engine.orders.lookup order.id = none)
  (hasMarket : engine.markets.lookup order.eventID = some market)
  (sound : leg.Sound engine) (reserves : leg.Reserves engine order)
  (settles : leg.Settles engine order)

include wellFormed submitted fresh hasMarket sound reserves in
/-- With adequate locks the reserved side covers what the fills pay. -/
theorem paid_le_frozen
    (amounts : leg.AmountsNonneg (engine.tradesFor order))
    (adequate : leg.Adequate (engine.walked order market)
      (engine.tradesFor order))
    (solvent : ∀ key, 0 ≤ leg.gap engine key) (key : String) :
    Transfer.paid key ((engine.tradesFor order).map leg.transfer) ≤
      (leg.account (engine.frozen order) key).reserved.toInt := by
  have paid := paid_le_locked
    (wellFormed_walked wellFormed submitted fresh hasMarket).keyed
    (debits_walked wellFormed fresh)
    (LocksNonneg.walked wellFormed fresh sound.locks reserves) amounts
    adequate key
  have before := solvent key
  unfold gap at before
  rw [locked_walked wellFormed fresh] at paid
  rw [reserves.frozen_reserved]
  omega

include sound reserves settles

omit sound reserves settles in
theorem account_settled (key : String) :
    leg.account (engine.settled order market) key =
      (Transfer.applyAll (leg.accounts (engine.frozen order))
        ((engine.tradesFor order).map leg.transfer)).account key := by
  rw [account, Engine.settled, leg.accounts_settleAll, accounts_walked]

variable (market) in
theorem settled_available (key : String) :
    (leg.account (engine.settled order market) key).available.toInt =
      (leg.account engine key).available.toInt -
        leg.frozenAt engine order key +
        Transfer.received key
          ((engine.tradesFor order).map leg.transfer) := by
  have frozen := reserves.frozen_available key
  have nonneg := reserves.frozenAt_nonneg key
  have le := reserves.frozenAt_le sound.available key
  have received := Transfer.received_nonneg settles.amounts.transfers key
  have fits := settles.fits key
  rw [account_settled, Transfer.applyAll_available _ _ _
    settles.amounts.transfers]
  · change (leg.account (engine.frozen order) key).available.toInt + _ = _
    rw [frozen]
  · change Fits ((leg.account (engine.frozen order) key).available.toInt + _)
    rw [frozen]
    exact Fits.of_between (by decide : Fits 0) fits (by omega) (by omega)

variable (market) in
theorem settled_reserved (key : String) :
    (leg.account (engine.settled order market) key).reserved.toInt =
      max 0 ((leg.account engine key).reserved.toInt +
        leg.frozenAt engine order key -
        Transfer.paid key ((engine.tradesFor order).map leg.transfer)) := by
  have frozen := reserves.frozen_reserved key
  have nonneg := reserves.frozenAt_nonneg key
  have old := sound.reserved key
  rw [account_settled, Transfer.applyAll_reserved _ _ _
    settles.amounts.transfers]
  · change max 0 ((leg.account (engine.frozen order) key).reserved.toInt - _) =
      _
    rw [frozen]
  · change 0 ≤ (leg.account (engine.frozen order) key).reserved.toInt
    omega

omit sound in
theorem remnant_lockedFunds (sameSide : order.side = leg.side) :
    (engine.remnant order).lockedFunds.toInt =
      max 0 ((engine.lockFor order).toInt -
        leg.drawn order.id (engine.tradesFor order)) := by
  have takerLock := taker_lockedFunds engine order
  have lock := settledAll_lockedFunds
    ((taker_terms engine order).side.trans sameSide)
    (by rw [takerLock]; exact reserves.nonneg sameSide) settles.amounts
  rw [takerLock, taker_id] at lock
  exact lock

omit sound reserves settles in
theorem maker_lockedFunds {fill : Fill}
    (sameSide : fill.maker.side = leg.side)
    (nonneg : 0 ≤ fill.maker.lockedFunds.toInt)
    (amounts : leg.AmountsNonneg (engine.tradesFor order)) :
    (fill.filled.settledAll (engine.tradesFor order)).lockedFunds.toInt =
      max 0 (fill.maker.lockedFunds.toInt -
        leg.drawn fill.maker.id (engine.tradesFor order)) := by
  have filledLock := fill.filled_lockedFunds
  have lock := settledAll_lockedFunds (fill.filled_terms.side.trans sameSide)
    (by rw [filledLock]; exact nonneg) amounts
  rw [filledLock, fill.filled_id] at lock
  exact lock

omit sound reserves settles in
private theorem weight_remnant (key : String) :
    leg.weight key (engine.remnant order) =
      if order.side = leg.side ∧ leg.key order = key then
        (engine.remnant order).lockedFunds.toInt
      else
        0 := by
  have sameKey := leg.key_of_terms (remnant_terms engine order)
  unfold weight
  rw [(remnant_terms engine order).side, sameKey]

omit sound in
theorem weight_remnant_bounds (key : String) :
    0 ≤ leg.weight key (engine.remnant order) ∧
      leg.weight key (engine.remnant order) ≤
        leg.frozenAt engine order key := by
  rw [weight_remnant, frozenAt_eq]
  split
  · rename_i both
    have drawn := settles.amounts.drawn order.id
    have nonneg := reserves.nonneg both.1
    rw [remnant_lockedFunds reserves settles both.1]
    omega
  · omega

theorem settled_room (key : String) :
    Fits ((leg.account (engine.settled order market) key).available.toInt +
      leg.weight key (engine.remnant order)) := by
  have available := settled_available market sound reserves
    settles key
  have received := Transfer.received_nonneg settles.amounts.transfers key
  have frozen := reserves.frozenAt_le sound.available key
  obtain ⟨nonneg, le⟩ := weight_remnant_bounds reserves settles key
  rw [available]
  exact Fits.of_between (by decide : Fits 0) (settles.fits key) (by omega)
    (by omega)

include wellFormed submitted fresh hasMarket

theorem locks_settled : leg.LocksNonneg (engine.settled order market) := by
  have walked : leg.LocksNonneg (engine.walked order market) :=
    LocksNonneg.walked wellFormed fresh sound.locks reserves
  exact walked.settleAll
    (wellFormed_walked wellFormed submitted fresh hasMarket).keyed
    (debits_walked wellFormed fresh) settles.amounts

theorem Sound.settled : leg.Sound (engine.settled order market) where
  available := by
    intro key
    have received := Transfer.received_nonneg settles.amounts.transfers key
    have frozen := reserves.frozenAt_le sound.available key
    rw [settled_available market sound reserves settles]
    omega
  reserved := by
    intro key
    rw [settled_reserved market sound reserves settles]
    omega
  locks := locks_settled wellFormed submitted fresh hasMarket sound reserves
    settles

theorem remnant_nonneg (sameSide : (engine.remnant order).side = leg.side) :
    0 ≤ (engine.remnant order).lockedFunds.toInt :=
  locks_settled wellFormed submitted fresh hasMarket sound reserves settles _ _
    (lookup_settled_taker wellFormed submitted fresh hasMarket) sameSide

theorem Sound.matched : leg.Sound (engine.matched order market) := by
  have settled := sound.settled wellFormed submitted fresh hasMarket reserves
    settles
  rw [matched_eq wellFormed submitted fresh hasMarket]
  split
  · exact settled
  · have present := lookup_settled_taker wellFormed submitted fresh hasMarket
    have nonneg := remnant_nonneg wellFormed submitted fresh hasMarket sound
      reserves settles
    refine ⟨?_, ?_, settled.locks.release present nonneg⟩
    · intro key
      have old := settled.available key
      have weight := (weight_remnant_bounds reserves settles key).1
      rw [release_available nonneg key
        (settled_room sound reserves settles key)]
      omega
    · intro key
      rw [release_reserved nonneg settled.reserved]
      omega

theorem gap_matched_nonpos (backed : ∀ key, leg.gap engine key ≤ 0)
    (key : String) : leg.gap (engine.matched order market) key ≤ 0 := by
  have settled := sound.settled wellFormed submitted fresh hasMarket reserves
    settles
  have walkedKeyed :=
    (wellFormed_walked wellFormed submitted fresh hasMarket).keyed
  have lower := locked_settleAll_ge walkedKeyed
    (debits_walked wellFormed fresh)
    (LocksNonneg.walked wellFormed fresh sound.locks reserves)
    settles.amounts key
  rw [locked_walked wellFormed fresh] at lower
  have lockedNonneg := settled.locks.locked key
  have reserved := settled_reserved market sound reserves settles
    key
  have before := backed key
  unfold gap at before
  have settledGap : leg.gap (engine.settled order market) key ≤ 0 := by
    unfold gap
    change _ ≤ leg.locked (engine.settled order market) key at lower
    omega
  rw [matched_eq wellFormed submitted fresh hasMarket]
  split
  · exact settledGap
  · have present := lookup_settled_taker wellFormed submitted fresh hasMarket
    have nonneg := remnant_nonneg wellFormed submitted fresh hasMarket sound
      reserves settles
    have released := (settled.locks.release present nonneg).locked key
    rw [locked_release present nonneg] at released
    unfold gap at settledGap ⊢
    rw [release_reserved nonneg settled.reserved,
      locked_release present nonneg]
    omega

section Exact

variable
  (adequate : leg.Adequate (engine.walked order market)
    (engine.tradesFor order))
  (solvent : ∀ key, 0 ≤ leg.gap engine key)

include adequate solvent

theorem settled_exact (key : String) :
    (leg.account (engine.settled order market) key).reserved.toInt =
        (leg.account engine key).reserved.toInt +
          leg.frozenAt engine order key -
          Transfer.paid key ((engine.tradesFor order).map leg.transfer) ∧
      leg.locked (engine.settled order market) key =
        leg.locked engine key + leg.frozenAt engine order key -
          Transfer.paid key ((engine.tradesFor order).map leg.transfer) := by
  have settled := sound.settled wellFormed submitted fresh hasMarket reserves
    settles
  have walkedKeyed :=
    (wellFormed_walked wellFormed submitted fresh hasMarket).keyed
  have locked := locked_settleAll walkedKeyed (debits_walked wellFormed fresh)
    (LocksNonneg.walked wellFormed fresh sound.locks reserves)
    settles.amounts adequate key
  rw [locked_walked wellFormed fresh] at locked
  change leg.locked (engine.settled order market) key = _ at locked
  have lockedNonneg := settled.locks.locked key
  have reserved := settled_reserved market sound reserves settles
    key
  have before := solvent key
  unfold gap at before
  refine ⟨?_, locked⟩
  omega

theorem remnant_covered (key : String) :
    leg.weight key (engine.remnant order) ≤
      (leg.account (engine.settled order market) key).reserved.toInt := by
  have settled := sound.settled wellFormed submitted fresh hasMarket reserves
    settles
  obtain ⟨reserved, locked⟩ := settled_exact wellFormed submitted fresh
    hasMarket sound reserves settles adequate solvent key
  have weight := FiniteMap.weight_le_total
    (fun _ order => leg.weight key order)
    (fun _ _ present => settled.locks.weight present key)
    (lookup_settled_taker wellFormed submitted fresh hasMarket)
  change _ ≤ leg.locked (engine.settled order market) key at weight
  have before := solvent key
  unfold gap at before
  omega

/-- With adequate locks an accepted order leaves every gap as it was. -/
theorem gap_matched (key : String) :
    leg.gap (engine.matched order market) key = leg.gap engine key := by
  have settled := sound.settled wellFormed submitted fresh hasMarket reserves
    settles
  obtain ⟨reserved, locked⟩ := settled_exact wellFormed submitted fresh
    hasMarket sound reserves settles adequate solvent key
  have covered := remnant_covered wellFormed submitted fresh hasMarket sound
    reserves settles adequate solvent key
  rw [matched_eq wellFormed submitted fresh hasMarket]
  unfold gap
  split
  · omega
  · have present := lookup_settled_taker wellFormed submitted fresh hasMarket
    have nonneg := remnant_nonneg wellFormed submitted fresh hasMarket sound
      reserves settles
    rw [release_reserved nonneg settled.reserved,
      locked_release present nonneg]
    omega

/-- With adequate locks an accepted order moves holdings between accounts of
one class only. -/
theorem totalHeld_matched (counted : String → Bool)
    (sameClass : ∀ trade ∈ engine.tradesFor order,
      counted (leg.transfer trade).payer = counted (leg.transfer trade).payee) :
    (leg.accounts (engine.matched order market)).totalHeld counted =
      (leg.accounts engine).totalHeld counted := by
  have settledTotal :
      (leg.accounts (engine.settled order market)).totalHeld counted =
        (leg.accounts engine).totalHeld counted := by
    unfold Engine.settled
    rw [leg.accounts_settleAll, accounts_walked, Transfer.applyAll_totalHeld,
      reserves.totalHeld_frozen]
    · intro transfer member
      obtain ⟨trade, tradeMember, rfl⟩ := List.mem_map.mp member
      exact sameClass trade tradeMember
    · exact settles.amounts.transfers
    · exact paid_le_frozen wellFormed submitted fresh hasMarket sound reserves
        settles.amounts adequate solvent
    · intro key
      change Fits ((leg.account (engine.frozen order) key).available.toInt + _)
      have nonneg := reserves.frozenAt_nonneg key
      have le := reserves.frozenAt_le sound.available key
      have received :=
        Transfer.received_nonneg settles.amounts.transfers key
      rw [reserves.frozen_available]
      exact Fits.of_between (by decide : Fits 0) (settles.fits key) (by omega)
        (by omega)
  rw [matched_eq wellFormed submitted fresh hasMarket]
  split
  · exact settledTotal
  · rw [totalHeld_release, settledTotal]
    · exact settled_room sound reserves settles _
    · exact remnant_covered wellFormed submitted fresh hasMarket sound
        reserves settles adequate solvent _

end Exact

end Matched

end Leg

end Predix
