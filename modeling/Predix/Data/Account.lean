import Mathlib.Algebra.BigOperators.Finprod
import Predix.Data.FiniteMap
import Predix.Data.Word

namespace Predix.Data

open Word

/-- What one owner holds of one asset. `available` can be spent at once;
`reserved` is frozen behind open commitments. -/
structure Account where
  available : Int64
  reserved : Int64
  deriving DecidableEq, Repr

namespace Account

def empty : Account := ⟨0, 0⟩

def freeze (account : Account) (amount : Int64) : Account :=
  ⟨account.available - amount, account.reserved + amount⟩

/-- Pay an amount out of the reserved side, which is cut off at zero. -/
def spend (account : Account) (amount : Int64) : Account :=
  { account with reserved := clampZero (account.reserved - amount) }

def credit (account : Account) (amount : Int64) : Account :=
  { account with available := account.available + amount }

def unfreeze (account : Account) (amount : Int64) : Account :=
  ⟨account.available + amount, clampZero (account.reserved - amount)⟩

def holdings (account : Account) : Int :=
  account.available.toInt + account.reserved.toInt

@[simp] theorem holdings_empty : empty.holdings = 0 := rfl

@[simp] theorem spend_available (account : Account) (amount : Int64) :
    (account.spend amount).available = account.available := rfl

@[simp] theorem credit_reserved (account : Account) (amount : Int64) :
    (account.credit amount).reserved = account.reserved := rfl

theorem spend_reserved {account : Account} {amount : Int64}
    (reservedNonneg : 0 ≤ account.reserved.toInt)
    (amountNonneg : 0 ≤ amount.toInt) :
    (account.spend amount).reserved.toInt =
      max 0 (account.reserved.toInt - amount.toInt) := by
  simp only [spend, toInt_clampZero]
  rw [toInt_sub_of_nonneg reservedNonneg amountNonneg]

theorem credit_available {account : Account} {amount : Int64}
    (fits : Fits (account.available.toInt + amount.toInt)) :
    (account.credit amount).available.toInt =
      account.available.toInt + amount.toInt :=
  toInt_add fits

theorem freeze_available {account : Account} {amount : Int64}
    (amountNonneg : 0 ≤ amount.toInt)
    (covered : amount.toInt ≤ account.available.toInt) :
    (account.freeze amount).available.toInt =
      account.available.toInt - amount.toInt :=
  toInt_sub_of_le amountNonneg covered

theorem freeze_reserved {account : Account} {amount : Int64}
    (fits : Fits (account.reserved.toInt + amount.toInt)) :
    (account.freeze amount).reserved.toInt =
      account.reserved.toInt + amount.toInt :=
  toInt_add fits

theorem unfreeze_available {account : Account} {amount : Int64}
    (fits : Fits (account.available.toInt + amount.toInt)) :
    (account.unfreeze amount).available.toInt =
      account.available.toInt + amount.toInt :=
  toInt_add fits

theorem unfreeze_reserved {account : Account} {amount : Int64}
    (reservedNonneg : 0 ≤ account.reserved.toInt)
    (amountNonneg : 0 ≤ amount.toInt) :
    (account.unfreeze amount).reserved.toInt =
      max 0 (account.reserved.toInt - amount.toInt) := by
  simp only [unfreeze, toInt_clampZero]
  rw [toInt_sub_of_nonneg reservedNonneg amountNonneg]

/-- What is frozen and released again has not moved. The sums may wrap on the
way; only the cut at zero needs the reserved side not to be negative. -/
theorem unfreeze_freeze {account : Account}
    (nonneg : 0 ≤ account.reserved.toInt) (amount : Int64) :
    (account.freeze amount).unfreeze amount = account := by
  have reserved : clampZero account.reserved = account.reserved := by
    rw [← Int64.toInt_inj, toInt_clampZero]
    omega
  unfold freeze unfreeze
  rw [Int64.sub_add_cancel, Int64.add_sub_cancel, reserved]

end Account

abbrev Accounts (K : Type) := FiniteMap K Account

namespace Accounts

variable {K : Type} [DecidableEq K]

def account (accounts : Accounts K) (key : K) : Account :=
  (accounts.lookup key).getD Account.empty

def update (accounts : Accounts K) (key : K) (change : Account → Account) :
    Accounts K :=
  accounts.insert key (change (accounts.account key))

theorem account_update (accounts : Accounts K) (key other : K)
    (change : Account → Account) :
    (accounts.update key change).account other =
      if other = key then change (accounts.account key)
      else accounts.account other := by
  unfold update
  rw [account, FiniteMap.lookup_insert_eq]
  split
  · rfl
  · rfl

@[simp] theorem account_update_self (accounts : Accounts K) (key : K)
    (change : Account → Account) :
    (accounts.update key change).account key =
      change (accounts.account key) := by
  rw [account_update, if_pos rfl]

theorem account_update_of_ne (accounts : Accounts K) {key other : K}
    (change : Account → Account) (different : other ≠ key) :
    (accounts.update key change).account other = accounts.account other := by
  rw [account_update, if_neg different]

/-- No entry is ever removed. -/
def KeptIn (old new : Accounts K) : Prop :=
  ∀ key, new.lookup key = none → old.lookup key = none

theorem KeptIn.refl (accounts : Accounts K) : accounts.KeptIn accounts :=
  fun _ absent => absent

theorem KeptIn.trans {first second third : Accounts K}
    (left : first.KeptIn second) (right : second.KeptIn third) :
    first.KeptIn third :=
  fun key absent => left key (right key absent)

theorem keptIn_insert (accounts : Accounts K) (key : K) (account : Account) :
    accounts.KeptIn (Finmap.insert key account accounts) := by
  intro other absent
  rw [FiniteMap.lookup_insert_eq] at absent
  split at absent
  · contradiction
  · exact absent

theorem keptIn_update (accounts : Accounts K) (key : K)
    (change : Account → Account) : accounts.KeptIn (accounts.update key change) :=
  keptIn_insert accounts key _

theorem keptIn_of_update {accounts : Accounts K} {key : K}
    (entered : accounts.lookup key ≠ none) (change : Account → Account) :
    (accounts.update key change).KeptIn accounts := by
  intro other absent
  have different : other ≠ key := by
    rintro rfl
    exact entered absent
  rw [update, FiniteMap.lookup_insert_eq, if_neg different]
  exact absent

theorem KeptIn.entered {old new : Accounts K} (kept : old.KeptIn new) {key : K}
    (entered : old.lookup key ≠ none) : new.lookup key ≠ none :=
  fun absent => entered (kept key absent)

theorem lookup_update_self (accounts : Accounts K) (key : K)
    (change : Account → Account) :
    (accounts.update key change).lookup key =
      some (change (accounts.account key)) :=
  Finmap.lookup_insert accounts

theorem lookup_update_of_ne (accounts : Accounts K) {key other : K}
    (different : other ≠ key) (change : Account → Account) :
    (accounts.update key change).lookup other = accounts.lookup other := by
  rw [update, FiniteMap.lookup_insert_eq, if_neg different]

theorem update_id {accounts : Accounts K} {key : K}
    (present : accounts.lookup key ≠ none) : accounts.update key id = accounts := by
  obtain ⟨account, found⟩ := Option.ne_none_iff_exists'.mp present
  unfold update Accounts.account
  rw [found]
  exact FiniteMap.insert_self found

section Agree

variable {keys : K → Prop} {left right : Accounts K}

theorem account_of_agree (agree : FiniteMap.AgreeOn keys left right) {key : K}
    (inside : keys key) : left.account key = right.account key := by
  rw [account, account, agree key inside]

theorem agreeOn_update (agree : FiniteMap.AgreeOn keys left right) {key : K}
    (inside : keys key) (change : Account → Account) :
    FiniteMap.AgreeOn keys (left.update key change)
      (right.update key change) := by
  rw [update, update, account_of_agree agree inside]
  exact agree.insert key _

theorem agreeOn_update_outside {key : K} (outside : ¬ keys key)
    (accounts : Accounts K) (change : Account → Account) :
    FiniteMap.AgreeOn keys accounts (accounts.update key change) :=
  FiniteMap.AgreeOn.insert_outside outside accounts _

end Agree

/-- The sum of all holdings over the accounts of one class. -/
def totalHeld (counted : K → Bool) (accounts : Accounts K) : Int :=
  FiniteMap.total
    (fun key account => if counted key then account.holdings else 0) accounts

theorem update_update_self (accounts : Accounts K) (key : K)
    (first second : Account → Account) :
    (accounts.update key first).update key second =
      accounts.update key (second ∘ first) := by
  rw [update, account_update_self]
  exact Finmap.insert_insert accounts

theorem update_comm (accounts : Accounts K) {key other : K}
    (first second : Account → Account) (different : key ≠ other) :
    (accounts.update key first).update other second =
      (accounts.update other second).update key first := by
  rw [update, account_update_of_ne accounts first different.symm]
  rw [update, update, account_update_of_ne accounts second different]
  exact Finmap.insert_insert_of_ne accounts different

private theorem total_update (weight : K → Account → Int)
    (accounts : Accounts K)
    (key : K) (change : Account → Account)
    (emptyWeight : weight key Account.empty = 0) :
    FiniteMap.total weight (accounts.update key change) =
      FiniteMap.total weight accounts - weight key (accounts.account key) +
        weight key (change (accounts.account key)) := by
  unfold update
  cases present : accounts.lookup key with
  | none =>
      have held : accounts.account key = Account.empty := by
        rw [account, present, Option.getD_none]
      rw [FiniteMap.total_insert_of_notMem weight _ present, held, emptyWeight]
      omega
  | some old =>
      have held : accounts.account key = old := by
        rw [account, present, Option.getD_some]
      rw [FiniteMap.total_insert_of_lookup weight _ present, held]

theorem totalHeld_update (counted : K → Bool) (accounts : Accounts K)
    (key : K) (change : Account → Account) :
    totalHeld counted (accounts.update key change) =
      totalHeld counted accounts +
        (if counted key then
          (change (accounts.account key)).holdings -
            (accounts.account key).holdings
        else 0) := by
  unfold totalHeld
  rw [total_update]
  · split
    · omega
    · omega
  · simp

theorem totalHeld_update_of_holdings (counted : K → Bool)
    (accounts : Accounts K) (key : K) (change : Account → Account)
    (same : (change (accounts.account key)).holdings =
      (accounts.account key).holdings) :
    totalHeld counted (accounts.update key change) =
      totalHeld counted accounts := by
  rw [totalHeld_update, same, sub_self, ite_self, add_zero]

theorem holdings_le_totalHeld {counted : K → Bool} {accounts : Accounts K}
    (nonneg : ∀ key, 0 ≤ (accounts.account key).available.toInt ∧
      0 ≤ (accounts.account key).reserved.toInt)
    {key : K} (isCounted : counted key = true) :
    (accounts.account key).holdings ≤ totalHeld counted accounts := by
  have weights : ∀ other account, accounts.lookup other = some account →
      0 ≤ (if counted other then account.holdings else 0) := by
    intro other account present
    have both := nonneg other
    rw [Accounts.account, present, Option.getD_some] at both
    split
    · unfold Account.holdings
      omega
    · exact le_refl 0
  cases present : accounts.lookup key with
  | none =>
      rw [Accounts.account, present, Option.getD_none, Account.holdings_empty]
      exact FiniteMap.total_nonneg weights
  | some account =>
      have le := FiniteMap.weight_le_total _ weights present
      rw [if_pos isCounted] at le
      rw [Accounts.account, present, Option.getD_some]
      exact le

theorem finsum_holdings {U : Type} {counted : K → Bool} {key : U → K}
    (injective : Function.Injective key)
    (enumerates : ∀ other, counted other = true ↔ other ∈ Set.range key)
    (accounts : Accounts K) :
    ∑ᶠ owner, (accounts.account (key owner)).holdings =
      totalHeld counted accounts := by
  have absent : ∀ other, other ∉ accounts.keys →
      (accounts.account other).holdings = 0 := by
    intro other notKey
    rw [Finmap.mem_keys, ← Finmap.lookup_eq_none] at notKey
    rw [account, notKey]
    rfl
  rw [← finsum_mem_range (f := fun other => (accounts.account other).holdings)
    injective, finsum_mem_def, finsum_eq_sum_of_support_subset (s := accounts.keys),
    totalHeld, FiniteMap.total_eq_sum_keys]
  · apply Finset.sum_congr rfl
    intro other member
    rw [Finmap.mem_keys, Finmap.mem_iff] at member
    obtain ⟨found, present⟩ := member
    rw [present, Option.elim_some]
    by_cases inClass : counted other = true
    · rw [Set.indicator_of_mem ((enumerates other).mp inClass), if_pos inClass,
        account, present, Option.getD_some]
    · rw [Set.indicator_of_notMem fun inRange =>
        inClass ((enumerates other).mpr inRange), if_neg inClass]
  · intro other inSupport
    by_contra notKey
    apply inSupport
    rw [Set.indicator_apply_eq_zero]
    exact fun _ => absent other notKey

def Unreserved (accounts : Accounts K) : Prop :=
  ∀ key account, accounts.lookup key = some account →
    0 ≤ account.available.toInt ∧ account.reserved.toInt = 0

theorem Unreserved.account {accounts : Accounts K}
    (unreserved : accounts.Unreserved) (key : K) :
    0 ≤ (accounts.account key).available.toInt ∧
      (accounts.account key).reserved.toInt = 0 := by
  unfold Accounts.account
  cases present : accounts.lookup key with
  | none => exact ⟨le_refl 0, rfl⟩
  | some account => exact unreserved key account present

theorem unreserved_empty : Unreserved (∅ : Accounts K) := by
  intro key account present
  simp at present

theorem Unreserved.insert {accounts : Accounts K}
    (unreserved : accounts.Unreserved) (key : K) {available : Int64}
    (nonneg : 0 ≤ available.toInt) :
    Unreserved (Finmap.insert key ⟨available, 0⟩ accounts) := by
  intro other account present
  rw [FiniteMap.lookup_insert_eq] at present
  split at present
  · cases present
    exact ⟨nonneg, rfl⟩
  · exact unreserved other account present

end Accounts

/-- A payment out of one account's reserved side into another's available
side. -/
structure Transfer (K : Type) where
  payer : K
  payee : K
  amount : Int64

namespace Transfer

variable {K : Type} [DecidableEq K]

def apply (accounts : Accounts K) (transfer : Transfer K) : Accounts K :=
  (accounts.update transfer.payer (·.spend transfer.amount)).update
    transfer.payee (·.credit transfer.amount)

def applyAll (accounts : Accounts K) (transfers : List (Transfer K)) :
    Accounts K :=
  transfers.foldl apply accounts

theorem keptIn_applyAll (accounts : Accounts K)
    (transfers : List (Transfer K)) :
    accounts.KeptIn (applyAll accounts transfers) := by
  induction transfers generalizing accounts with
  | nil => exact .refl accounts
  | cons transfer transfers induction =>
      exact ((accounts.keptIn_update _ _).trans
        (Accounts.keptIn_update _ _ _)).trans
          (induction (apply accounts transfer))

theorem agreeOn_applyAll_outside {keys : K → Prop}
    {transfers : List (Transfer K)}
    (outside : ∀ transfer ∈ transfers,
      ¬ keys transfer.payer ∧ ¬ keys transfer.payee)
    (accounts : Accounts K) :
    FiniteMap.AgreeOn keys accounts (applyAll accounts transfers) := by
  induction transfers generalizing accounts with
  | nil => exact .refl keys accounts
  | cons transfer transfers induction =>
      obtain ⟨payer, payee⟩ := outside transfer (by simp)
      have head : FiniteMap.AgreeOn keys accounts (apply accounts transfer) :=
        (Accounts.agreeOn_update_outside payer accounts _).trans
          (Accounts.agreeOn_update_outside payee _ _)
      exact head.trans
        (induction (fun other member => outside other (by simp [member])) _)

theorem keptIn_of_applyAll {accounts : Accounts K}
    {transfers : List (Transfer K)}
    (entered : ∀ transfer ∈ transfers,
      accounts.lookup transfer.payer ≠ none ∧
        accounts.lookup transfer.payee ≠ none) :
    (applyAll accounts transfers).KeptIn accounts := by
  induction transfers generalizing accounts with
  | nil => exact .refl accounts
  | cons transfer transfers induction =>
      obtain ⟨payer, payee⟩ := entered transfer (by simp)
      have forth : accounts.KeptIn (apply accounts transfer) :=
        (accounts.keptIn_update _ _).trans (Accounts.keptIn_update _ _ _)
      have back : (apply accounts transfer).KeptIn accounts :=
        (Accounts.keptIn_of_update
          ((accounts.keptIn_update _ _).entered payee) _).trans
            (Accounts.keptIn_of_update payer _)
      have tail : (applyAll (apply accounts transfer) transfers).KeptIn
          (apply accounts transfer) := by
        apply induction
        intro other member
        obtain ⟨otherPayer, otherPayee⟩ := entered other (by simp [member])
        exact ⟨forth.entered otherPayer, forth.entered otherPayee⟩
      exact tail.trans back

/-- Crediting first and paying afterwards is the same transfer: the two sides
of an account do not interfere. -/
theorem apply_eq_credit_spend (accounts : Accounts K)
    (transfer : Transfer K) :
    (accounts.update transfer.payee (·.credit transfer.amount)).update
        transfer.payer (·.spend transfer.amount) =
      apply accounts transfer := by
  unfold apply
  by_cases same : transfer.payer = transfer.payee
  · rw [same, Accounts.update_update_self, Accounts.update_update_self]
    rfl
  · exact Accounts.update_comm accounts _ _ (Ne.symm same)

def paid (key : K) (transfers : List (Transfer K)) : Int :=
  (transfers.map fun transfer =>
    if transfer.payer = key then transfer.amount.toInt else 0).sum

/-- What a list of transfers brings into one account. -/
def received (key : K) (transfers : List (Transfer K)) : Int :=
  (transfers.map fun transfer =>
    if transfer.payee = key then transfer.amount.toInt else 0).sum

@[simp] theorem paid_nil (key : K) : paid key [] = 0 := rfl

@[simp] theorem received_nil (key : K) : received key [] = 0 := rfl

theorem paid_cons (key : K) (transfer : Transfer K)
    (transfers : List (Transfer K)) :
    paid key (transfer :: transfers) =
      (if transfer.payer = key then transfer.amount.toInt else 0) +
        paid key transfers := rfl

theorem received_cons (key : K) (transfer : Transfer K)
    (transfers : List (Transfer K)) :
    received key (transfer :: transfers) =
      (if transfer.payee = key then transfer.amount.toInt else 0) +
        received key transfers := rfl

section Nonneg

variable {transfers : List (Transfer K)}
  (nonneg : ∀ transfer ∈ transfers, 0 ≤ transfer.amount.toInt) (key : K)

include nonneg

private theorem moved_nonneg (party : Transfer K → K) :
    0 ≤ (transfers.map fun transfer =>
      if party transfer = key then transfer.amount.toInt else 0).sum := by
  apply List.sum_nonneg
  intro amount member
  obtain ⟨transfer, transferMember, rfl⟩ := List.mem_map.mp member
  split
  · exact nonneg transfer transferMember
  · exact le_refl 0

theorem paid_nonneg : 0 ≤ paid key transfers :=
  moved_nonneg nonneg key Transfer.payer

theorem received_nonneg : 0 ≤ received key transfers :=
  moved_nonneg nonneg key Transfer.payee

end Nonneg

theorem received_of_absent {transfers : List (Transfer K)} {key : K}
    (absent : ∀ transfer ∈ transfers, transfer.payee ≠ key) :
    received key transfers = 0 := by
  apply List.sum_eq_zero
  intro amount member
  obtain ⟨transfer, transferMember, rfl⟩ := List.mem_map.mp member
  exact if_neg (absent transfer transferMember)

private theorem apply_available (accounts : Accounts K)
    (transfer : Transfer K) (key : K)
    (fits : transfer.payee = key →
      Fits ((accounts.account key).available.toInt + transfer.amount.toInt)) :
    ((apply accounts transfer).account key).available.toInt =
      (accounts.account key).available.toInt +
        (if transfer.payee = key then transfer.amount.toInt else 0) := by
  have payerSide :
      ((accounts.update transfer.payer (·.spend transfer.amount)).account
        key).available = (accounts.account key).available := by
    rw [Accounts.account_update]
    split
    · rename_i same
      rw [same]
      rfl
    · rfl
  unfold apply
  by_cases payee : transfer.payee = key
  · rw [payee, Accounts.account_update_self, if_pos rfl]
    rw [Account.credit_available]
    · rw [payerSide]
    · rw [payerSide]
      exact fits payee
  · rw [Accounts.account_update_of_ne _ _ (Ne.symm payee), payerSide,
      if_neg payee, add_zero]

private theorem apply_reserved (accounts : Accounts K)
    (transfer : Transfer K) (key : K)
    (reservedNonneg : 0 ≤ (accounts.account key).reserved.toInt)
    (amountNonneg : 0 ≤ transfer.amount.toInt) :
    ((apply accounts transfer).account key).reserved.toInt =
      max 0 ((accounts.account key).reserved.toInt -
        (if transfer.payer = key then transfer.amount.toInt else 0)) := by
  have payeeSide : ((apply accounts transfer).account key).reserved =
      ((accounts.update transfer.payer (·.spend transfer.amount)).account
        key).reserved := by
    unfold apply
    rw [Accounts.account_update]
    split
    · rename_i same
      rw [same]
      rfl
    · rfl
  rw [payeeSide]
  by_cases payer : transfer.payer = key
  · rw [payer, Accounts.account_update_self, if_pos rfl,
      Account.spend_reserved reservedNonneg amountNonneg]
  · rw [Accounts.account_update_of_ne _ _ (Ne.symm payer), if_neg payer]
    omega

theorem applyAll_available (accounts : Accounts K)
    (transfers : List (Transfer K)) (key : K)
    (nonneg : ∀ transfer ∈ transfers, 0 ≤ transfer.amount.toInt)
    (fits : Fits ((accounts.account key).available.toInt +
      received key transfers)) :
    ((applyAll accounts transfers).account key).available.toInt =
      (accounts.account key).available.toInt + received key transfers := by
  induction transfers generalizing accounts with
  | nil => simp [applyAll]
  | cons transfer transfers induction =>
      have tailNonneg : ∀ later ∈ transfers, 0 ≤ later.amount.toInt :=
        fun later member => nonneg later (by simp [member])
      have tailReceived := received_nonneg tailNonneg key
      have headNonneg := nonneg transfer (by simp)
      rw [received_cons] at fits ⊢
      have headAvailable := apply_available accounts transfer key (by
        intro payee
        rw [if_pos payee] at fits
        apply Fits.of_between
          (fits_toInt (accounts.account key).available) fits
        · omega
        · omega)
      change ((applyAll (apply accounts transfer) transfers).account
        key).available.toInt = _
      rw [induction _ tailNonneg (by rw [headAvailable, add_assoc]; exact fits),
        headAvailable, add_assoc]

/-- The reserved side shrinks by what is paid, cut off at zero. The cuts of
the single transfers add up to one cut. -/
theorem applyAll_reserved (accounts : Accounts K)
    (transfers : List (Transfer K)) (key : K)
    (nonneg : ∀ transfer ∈ transfers, 0 ≤ transfer.amount.toInt)
    (reservedNonneg : 0 ≤ (accounts.account key).reserved.toInt) :
    ((applyAll accounts transfers).account key).reserved.toInt =
      max 0 ((accounts.account key).reserved.toInt - paid key transfers) := by
  induction transfers generalizing accounts with
  | nil =>
      simp only [applyAll, List.foldl_nil, paid_nil]
      omega
  | cons transfer transfers induction =>
      have tailNonneg : ∀ later ∈ transfers, 0 ≤ later.amount.toInt :=
        fun later member => nonneg later (by simp [member])
      have tailPaid := paid_nonneg tailNonneg key
      have headReserved := apply_reserved accounts transfer key
        reservedNonneg (nonneg transfer (by simp))
      change ((applyAll (apply accounts transfer) transfers).account
        key).reserved.toInt = _
      rw [induction _ tailNonneg (by rw [headReserved]; omega), headReserved,
        paid_cons]
      omega

section Covered

variable {accounts : Accounts K} {transfer : Transfer K}
  {transfers : List (Transfer K)}
  (nonneg : ∀ later ∈ transfer :: transfers, 0 ≤ later.amount.toInt)
  (covered : ∀ key, paid key (transfer :: transfers) ≤
    (accounts.account key).reserved.toInt)

include nonneg covered

private theorem head_covered :
    transfer.amount.toInt ≤
      (accounts.account transfer.payer).reserved.toInt := by
  have total := covered transfer.payer
  have tail := paid_nonneg
    (fun later member => nonneg later (List.mem_cons_of_mem _ member))
    transfer.payer
  rw [paid_cons, if_pos rfl] at total
  omega

private theorem tail_covered (key : K) :
    paid key transfers ≤
      ((apply accounts transfer).account key).reserved.toInt := by
  have total := covered key
  have reserved := le_trans (paid_nonneg nonneg key) total
  rw [paid_cons] at total
  rw [apply_reserved accounts transfer key reserved (nonneg transfer (by simp))]
  omega

end Covered

private theorem spend_totalHeld (counted : K → Bool) {accounts : Accounts K}
    {key : K} {amount : Int64} (nonneg : 0 ≤ amount.toInt)
    (covered : amount.toInt ≤ (accounts.account key).reserved.toInt) :
    Accounts.totalHeld counted (accounts.update key (·.spend amount)) =
      Accounts.totalHeld counted accounts -
        (if counted key then amount.toInt else 0) := by
  have holdings : ((accounts.account key).spend amount).holdings =
      (accounts.account key).holdings - amount.toInt := by
    unfold Account.holdings
    rw [Account.spend_reserved (le_trans nonneg covered) nonneg,
      Account.spend_available]
    omega
  rw [Accounts.totalHeld_update, holdings]
  split <;> omega

private theorem spend_keeps_available (accounts : Accounts K) (key other : K)
    (amount : Int64) :
    ((accounts.update key (·.spend amount)).account other).available =
      (accounts.account other).available := by
  rw [Accounts.account_update]
  split
  · rename_i same
    rw [same]
    rfl
  · rfl

private theorem apply_totalHeld (counted : K → Bool) {accounts : Accounts K}
    {transfer : Transfer K}
    (sameClass : counted transfer.payer = counted transfer.payee)
    (nonneg : 0 ≤ transfer.amount.toInt)
    (covered : transfer.amount.toInt ≤
      (accounts.account transfer.payer).reserved.toInt)
    (fits : Fits ((accounts.account transfer.payee).available.toInt +
      transfer.amount.toInt)) :
    Accounts.totalHeld counted (apply accounts transfer) =
      Accounts.totalHeld counted accounts := by
  have payee : (((accounts.update transfer.payer
      (·.spend transfer.amount)).account transfer.payee).credit
        transfer.amount).holdings =
      ((accounts.update transfer.payer
        (·.spend transfer.amount)).account transfer.payee).holdings +
          transfer.amount.toInt := by
    unfold Account.holdings
    rw [Account.credit_available, Account.credit_reserved]
    · omega
    · rw [spend_keeps_available]
      exact fits
  unfold apply
  rw [Accounts.totalHeld_update, payee, spend_totalHeld counted nonneg covered,
    sameClass]
  split <;> omega

/-- Covered transfers only move holdings between accounts of one class. -/
theorem applyAll_totalHeld (counted : K → Bool) (accounts : Accounts K)
    (transfers : List (Transfer K))
    (sameClass : ∀ transfer ∈ transfers,
      counted transfer.payer = counted transfer.payee)
    (nonneg : ∀ transfer ∈ transfers, 0 ≤ transfer.amount.toInt)
    (covered : ∀ key,
      paid key transfers ≤ (accounts.account key).reserved.toInt)
    (fits : ∀ key, Fits ((accounts.account key).available.toInt +
      received key transfers)) :
    Accounts.totalHeld counted (applyAll accounts transfers) =
      Accounts.totalHeld counted accounts := by
  induction transfers generalizing accounts with
  | nil => rfl
  | cons transfer transfers induction =>
      have tailNonneg : ∀ later ∈ transfers, 0 ≤ later.amount.toInt :=
        fun later member => nonneg later (by simp [member])
      have headNonneg := nonneg transfer (by simp)
      have headFits : ∀ key, transfer.payee = key →
          Fits ((accounts.account key).available.toInt +
            transfer.amount.toInt) := by
        intro key payee
        have total := fits key
        have tail := received_nonneg tailNonneg key
        rw [received_cons, if_pos payee] at total
        exact Fits.of_between (fits_toInt (accounts.account key).available)
          total (by omega) (by omega)
      have headCovered := head_covered nonneg covered
      have reservedNonneg : ∀ key,
          0 ≤ (accounts.account key).reserved.toInt :=
        fun key => le_trans (paid_nonneg nonneg key) (covered key)
      change Accounts.totalHeld counted
        (applyAll (apply accounts transfer) transfers) = _
      rw [induction (apply accounts transfer)
        (fun later member => sameClass later (by simp [member])) tailNonneg]
      · exact apply_totalHeld counted (sameClass transfer (by simp))
          headNonneg headCovered (headFits transfer.payee rfl)
      · exact tail_covered nonneg covered
      · intro key
        have total := fits key
        rw [received_cons] at total
        rw [apply_available accounts transfer key (headFits key), add_assoc]
        exact total

private theorem credited_le_totalHeld {counted : K → Bool}
    {accounts : Accounts K}
    {transfer : Transfer K} (payerIn : counted transfer.payer = true)
    (payeeIn : counted transfer.payee = true)
    (nonneg : 0 ≤ transfer.amount.toInt)
    (covered : transfer.amount.toInt ≤
      (accounts.account transfer.payer).reserved.toInt)
    (available : ∀ key, 0 ≤ (accounts.account key).available.toInt)
    (reserved : ∀ key, 0 ≤ (accounts.account key).reserved.toInt) :
    (accounts.account transfer.payee).available.toInt +
        transfer.amount.toInt ≤ Accounts.totalHeld counted accounts := by
  -- once the payer has paid, the payee's account is still below the rest
  have rest := spend_totalHeld counted nonneg covered
  rw [if_pos payerIn] at rest
  have spentNonneg : ∀ other,
      0 ≤ ((accounts.update transfer.payer
        (·.spend transfer.amount)).account other).available.toInt ∧
      0 ≤ ((accounts.update transfer.payer
        (·.spend transfer.amount)).account other).reserved.toInt := by
    intro other
    rw [spend_keeps_available]
    refine ⟨available other, ?_⟩
    rw [Accounts.account_update]
    split
    · rw [Account.spend_reserved (reserved _) nonneg]
      omega
    · exact reserved other
  have held := Accounts.holdings_le_totalHeld spentNonneg payeeIn
  have left := (spentNonneg transfer.payee).2
  unfold Account.holdings at held
  rw [spend_keeps_available] at held
  omega

/-- In a class whose sum is in range no account can be credited out of range:
what it has and receives was there before. -/
theorem received_le_totalHeld {counted : K → Bool} {accounts : Accounts K}
    {transfers : List (Transfer K)}
    (inClass : ∀ transfer ∈ transfers, counted transfer.payer = true ∧
      counted transfer.payee = true)
    (nonneg : ∀ transfer ∈ transfers, 0 ≤ transfer.amount.toInt)
    (covered : ∀ key,
      paid key transfers ≤ (accounts.account key).reserved.toInt)
    (available : ∀ key, 0 ≤ (accounts.account key).available.toInt)
    (fits : Fits (Accounts.totalHeld counted accounts))
    {key : K} (isCounted : counted key = true) :
    (accounts.account key).available.toInt + received key transfers ≤
      Accounts.totalHeld counted accounts := by
  induction transfers generalizing accounts with
  | nil =>
      have reserved := le_trans (paid_nonneg nonneg key) (covered key)
      have held := Accounts.holdings_le_totalHeld
        (fun other => ⟨available other,
          le_trans (paid_nonneg nonneg other) (covered other)⟩) isCounted
      unfold Account.holdings at held
      rw [received_nil, add_zero]
      omega
  | cons transfer transfers induction =>
      obtain ⟨payerIn, payeeIn⟩ := inClass transfer (by simp)
      have tailNonneg : ∀ later ∈ transfers, 0 ≤ later.amount.toInt :=
        fun later member => nonneg later (by simp [member])
      have headNonneg := nonneg transfer (by simp)
      have headCovered := head_covered nonneg covered
      have reservedNonneg : ∀ key,
          0 ≤ (accounts.account key).reserved.toInt :=
        fun key => le_trans (paid_nonneg nonneg key) (covered key)
      have headLe := credited_le_totalHeld payerIn payeeIn headNonneg
        headCovered available reservedNonneg
      have headFits : Fits
          ((accounts.account transfer.payee).available.toInt +
            transfer.amount.toInt) :=
        Fits.of_between (fits_toInt (accounts.account transfer.payee).available)
          fits (by omega) headLe
      have credited : ∀ other,
          ((apply accounts transfer).account other).available.toInt =
            (accounts.account other).available.toInt +
              (if transfer.payee = other then transfer.amount.toInt
                else 0) := fun other => by
        apply apply_available
        rintro rfl
        exact headFits
      have sum := apply_totalHeld counted (payerIn.trans payeeIn.symm)
        headNonneg headCovered headFits
      have tail := @induction (apply accounts transfer)
        (fun later member => inClass later (by simp [member])) tailNonneg
        (tail_covered nonneg covered)
        (fun other => by
          have old := available other
          rw [credited]
          split <;> omega)
        (by rw [sum]; exact fits)
      rw [credited, sum] at tail
      rw [received_cons, ← add_assoc]
      exact tail

end Transfer

end Predix.Data
