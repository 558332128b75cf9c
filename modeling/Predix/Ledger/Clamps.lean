import Predix.Ledger.Canceled

namespace Predix

open Data Word

/-! When the cut-offs at zero of settlement and release cut nothing off. -/

namespace Leg

variable {leg : Leg}

/-- Neither the payer's reserved side nor a lock falls below zero when a trade
is settled. -/
structure SettlesUnclamped (leg : Leg) (engine : Engine) (trade : Trade) :
    Prop where
  reserved : 0 ≤ (leg.account engine (leg.transfer trade).payer).reserved -
    (leg.transfer trade).amount
  locks : ∀ id order, engine.orders.lookup id = some order →
    trade.names id → order.side = leg.side →
      0 ≤ order.lockedFunds - order.unlockFor trade

/-- The reserved side does not fall below zero when a lock is released. -/
def ReleaseUnclamped (leg : Leg) (engine : Engine) (order : Order) : Prop :=
  order.side = leg.side → 0 < order.lockedFunds →
    0 ≤ (leg.account engine (leg.key order)).reserved - order.lockedFunds

/-- No clamp a command reaches on this leg is taken with a negative value. -/
structure Unclamped (leg : Leg) (engine : Engine) (input : Input) : Prop where
  settle : ∀ order ∈ engine.admitted? input,
    input.surroundings.orderCreatedEmitted = true →
    ∀ market, engine.markets.lookup order.eventID = some market →
    ∀ done trade rest, engine.tradesFor order = done ++ trade :: rest →
      leg.SettlesUnclamped (settleAll (engine.walked order market) done) trade
  release : ∀ order ∈ engine.admitted? input,
    input.surroundings.orderCreatedEmitted = true →
    ∀ market, engine.markets.lookup order.eventID = some market →
    (engine.taker order).status.live = false →
      leg.ReleaseUnclamped (engine.settled order market)
        (engine.remnant order)
  cancel : ∀ order ∈ engine.canceled? input,
    ∀ market, engine.markets.lookup order.eventID = some market →
      leg.ReleaseUnclamped (engine.closed market order) order.canceled

theorem sub_nonneg_of_le {left right : Int64}
    (rightNonneg : 0 ≤ right.toInt) (le : right.toInt ≤ left.toInt) :
    0 ≤ left - right := by
  rw [Int64.le_iff_toInt_le, toInt_sub_of_le rightNonneg le, Int64.toInt_zero]
  omega

section Settle

variable {engine : Engine} {done rest : List Trade} {trade : Trade}
  (keyed : engine.Keyed)
  (debits : leg.DebitsAll engine (done ++ trade :: rest))
  (locks : leg.LocksNonneg engine)
  (nonneg : leg.AmountsNonneg (done ++ trade :: rest))
  (adequate : leg.Adequate engine (done ++ trade :: rest))

include keyed debits locks nonneg adequate

private theorem adequate_rest :
    leg.Adequate (settleAll engine done) (trade :: rest) := by
  have doneNonneg : leg.AmountsNonneg done :=
    fun other member => nonneg other (by simp [member])
  intro id order present sameSide
  rw [lookup_settleAll keyed
    fun other member => debits.distinct (by simp [member])] at present
  obtain ⟨old, oldPresent, rfl⟩ := Option.map_eq_some_iff.mp present
  have oldSide := (old.settledAll_terms done).side.symm.trans sameSide
  have covered := adequate id old oldPresent oldSide
  have split : leg.drawn id (done ++ trade :: rest) =
      leg.drawn id done + leg.drawn id (trade :: rest) :=
    namedSum_append done (trade :: rest)
  rw [settledAll_lockedFunds oldSide (locks id old oldPresent oldSide)
    doneNonneg, keyed id old oldPresent]
  omega

private theorem settlesUnclamped
    (solvent : ∀ key, leg.locked engine key ≤
      (leg.account engine key).reserved.toInt) :
    leg.SettlesUnclamped (settleAll engine done) trade := by
  have doneNonneg : leg.AmountsNonneg done :=
    fun other member => nonneg other (by simp [member])
  have restNonneg : leg.AmountsNonneg rest :=
    fun other member => nonneg other (by simp [member])
  have amountNonneg : 0 ≤ (leg.transfer trade).amount.toInt :=
    nonneg trade (by simp)
  have doneDebits : leg.DebitsAll engine done :=
    fun other member => debits other (by simp [member])
  have doneAdequate : leg.Adequate engine done := by
    intro id order present sameSide
    have covered := adequate id order present sameSide
    have split : leg.drawn id (done ++ trade :: rest) =
        leg.drawn id done + leg.drawn id (trade :: rest) :=
      namedSum_append done (trade :: rest)
    have later : 0 ≤ leg.drawn id (trade :: rest) :=
      AmountsNonneg.drawn
        (fun other member => nonneg other (List.mem_append_right done member))
        id
    omega
  -- what the earlier trades have left of a lock still covers this trade
  have restLocks := locks.settleAll keyed doneDebits doneNonneg
  have rests := adequate_rest keyed debits locks nonneg adequate
  have covers : ∀ id order,
      (settleAll engine done).orders.lookup id = some order →
        trade.names id → order.side = leg.side →
          (leg.transfer trade).amount.toInt ≤ order.lockedFunds.toInt := by
    intro id order present named sameSide
    have covered := rests id order present sameSide
    rw [drawn_cons, if_pos named] at covered
    have later := restNonneg.drawn id
    omega
  have same := settleAll_sameUpToLocks done keyed
    fun other member => debits.distinct (by simp [member])
  obtain ⟨payer, other, debit⟩ := debits.of_sameUpToLocks same trade (by simp)
  constructor
  case reserved =>
    have amount := covers payer.id payer debit.payerPresent debit.named_payer
      debit.payerSide
    have lock := restLocks.lock_le debit.payerPresent debit.payerSide
    rw [debit.owner] at lock
    have locked := locked_settleAll keyed doneDebits locks doneNonneg
      doneAdequate (leg.transfer trade).payer
    have before := solvent (leg.transfer trade).payer
    have lockedNonneg := locks.locked (leg.transfer trade).payer
    have reserved := Transfer.applyAll_reserved (leg.accounts engine)
      (done.map leg.transfer) (leg.transfer trade).payer doneNonneg.transfers
      (lockedNonneg.trans before)
    rw [← leg.accounts_settleAll] at reserved
    apply sub_nonneg_of_le amountNonneg
    change _ ≤ ((leg.accounts (settleAll engine done)).account
      (leg.transfer trade).payer).reserved.toInt
    rw [reserved]
    change _ ≤ max 0 ((leg.account engine
      (leg.transfer trade).payer).reserved.toInt - _)
    omega
  case locks =>
    intro id order present named sameSide
    rw [leg.unlockFor_eq sameSide]
    exact sub_nonneg_of_le amountNonneg
      (covers id order present named sameSide)

end Settle

private theorem releaseUnclamped {engine : Engine} {order : Order}
    (covered : leg.weight (leg.key order) order ≤
      (leg.account engine (leg.key order)).reserved.toInt) :
    leg.ReleaseUnclamped engine order := by
  intro sameSide positive
  rw [leg.weight_of_same sameSide, if_pos rfl] at covered
  rw [zero_lt_iff] at positive
  exact sub_nonneg_of_le (le_of_lt positive) covered

section Command

variable {engine : Engine} {input : Input}

/-- Adequate and solvent, a command is never clamped. -/
theorem unclamped (wellFormed : WellFormed engine) (sound : leg.Sound engine)
    (solvent : ∀ key, 0 ≤ leg.gap engine key)
    (reserves : ∀ order ∈ engine.admitted? input, leg.Reserves engine order)
    (settles : ∀ order ∈ engine.admitted? input,
      input.surroundings.orderCreatedEmitted = true →
        leg.Settles engine order)
    (adequate : ∀ order ∈ engine.admitted? input,
      input.surroundings.orderCreatedEmitted = true → ∀ market,
        leg.Adequate (engine.walked order market)
          (engine.tradesFor order)) :
    leg.Unclamped engine input where
  settle := by
    intro order admitted emitted market hasMarket done trade rest split
    obtain ⟨submitted, fresh, _, _⟩ := admitted?_spec admitted
    have valid := Input.order?_submitted submitted
    have room := settles order admitted emitted
    have enough := adequate order admitted emitted market
    have frozen := reserves order admitted
    have debits : leg.DebitsAll (engine.walked order market)
        (engine.tradesFor order) := debits_walked wellFormed fresh
    have amounts := room.amounts
    rw [split] at enough debits amounts
    apply settlesUnclamped
      (wellFormed_walked wellFormed valid fresh hasMarket).keyed debits
      (LocksNonneg.walked wellFormed fresh sound.locks frozen) amounts enough
    intro key
    have before := solvent key
    unfold gap at before
    rw [locked_walked wellFormed fresh]
    change _ ≤ ((leg.accounts (engine.walked order market)).account
      key).reserved.toInt
    rw [accounts_walked]
    have reserved := frozen.frozen_reserved key
    change ((leg.accounts (engine.frozen order)).account
      key).reserved.toInt = _ at reserved
    omega
  release := by
    intro order admitted emitted market hasMarket _
    obtain ⟨submitted, fresh, _, _⟩ := admitted?_spec admitted
    exact releaseUnclamped (remnant_covered wellFormed
      (Input.order?_submitted submitted) fresh hasMarket sound
      (reserves order admitted) (settles order admitted emitted)
      (adequate order admitted emitted market) solvent _)
  cancel := by
    intro order chosen market _
    obtain ⟨present, _⟩ := canceled?_spec wellFormed chosen
    have weight := weight_le_locked present sound (leg.key order)
    have before := solvent (leg.key order)
    unfold gap at before
    apply releaseUnclamped
    rw [key_canceled, weight_canceled, account, accounts_closed]
    change _ ≤ (leg.account engine (leg.key order)).reserved.toInt
    omega

end Command

end Leg

end Predix
