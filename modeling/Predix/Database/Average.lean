import Mathlib.Algebra.Order.Field.Basic
import Mathlib.Tactic.Linarith
import Mathlib.Tactic.Ring
import Predix.Database.Settlement
import Predix.Database.Orders

namespace Predix

open Data Word

/-! The average price of a position. A sale enters the weighted average with
negative weight. -/

structure PositionChange where
  side : Side
  quantity : Int64
  price : Int64
  deriving DecidableEq

namespace PositionChange

variable (change : PositionChange)

def shares : Int :=
  match change.side with
  | .sideBuy => numericFromInt change.quantity
  | .sideSell => numericFromInt (-change.quantity)

def avgPrice : Rat := (change.price.toInt : Rat) / 10000

end PositionChange

namespace Database

def settlePosition (db : Database) (key : PositionID)
    (change : PositionChange) : Except QueryError Database :=
  db.upsertPosition key.userID key.eventID key.outcome.text change.shares
    change.avgPrice

def settlePositions (db : Database) (key : PositionID)
    (changes : List PositionChange) : Except QueryError Database :=
  changes.foldlM (fun db change => db.settlePosition key change) db

end Database

/-- A position row together with the prices of the trades behind it. -/
structure Holding where
  row : Option PositionRow
  prices : List Rat

def Between (value : Rat) (prices : List Rat) : Prop :=
  (∃ price ∈ prices, price ≤ value) ∧ ∃ price ∈ prices, value ≤ price

instance (value : Rat) (prices : List Rat) : Decidable (Between value prices) :=
  inferInstanceAs (Decidable (_ ∧ _))

/-- The gain of a sale over the average is no more than the shares that are
left lose when their average falls to the lowest of some prices, and its loss
no more than they gain when it rises to the highest. -/
def PositionRow.Covers (row : PositionRow) (change : PositionChange)
    (prices : List Rat) : Prop :=
  (∃ price ∈ prices,
    (change.avgPrice - row.avgPrice) * (-change.shares : Int) ≤
      (row.avgPrice - price) * (row.shares + change.shares : Int)) ∧
  ∃ price ∈ prices,
    (row.avgPrice - change.avgPrice) * (-change.shares : Int) ≤
      (price - row.avgPrice) * (row.shares + change.shares : Int)

instance (row : PositionRow) (change : PositionChange) (prices : List Rat) :
    Decidable (row.Covers change prices) :=
  inferInstanceAs (Decidable (_ ∧ _))

namespace Holding

def empty : Holding := ⟨none, []⟩

def step (holding : Holding) (change : PositionChange) : Holding where
  row := match holding.row with
    | none => some ⟨change.shares, change.avgPrice⟩
    | some row =>
        some ⟨row.shares + change.shares,
          Database.averagePrice row change.shares change.avgPrice⟩
  prices := holding.prices ++ [change.avgPrice]

def run (changes : List PositionChange) : Holding :=
  runFrom step empty changes

def shares (holding : Holding) : Int :=
  match holding.row with
  | none => 0
  | some row => row.shares

/-- Something is traded, and nothing is sold that is not there. -/
def Held (holding : Holding) (change : PositionChange) : Prop :=
  0 < change.quantity.toInt ∧ 0 ≤ holding.shares + change.shares

instance (holding : Holding) (change : PositionChange) :
    Decidable (holding.Held change) :=
  inferInstanceAs (Decidable (_ ∧ _))

def Averaged (holding : Holding) : Prop :=
  ∀ row ∈ holding.row, Between row.avgPrice holding.prices

/-- Every sale that leaves shares is covered by them. -/
def SaleCovered (holding : Holding) (change : PositionChange) : Prop :=
  ∀ row ∈ holding.row, change.side = .sideSell →
    row.shares + change.shares ≠ 0 →
      row.Covers change (holding.prices ++ [change.avgPrice])

instance (holding : Holding) (change : PositionChange) :
    Decidable (holding.SaleCovered change) :=
  inferInstanceAs (Decidable (∀ row ∈ holding.row, _))

end Holding

private theorem between_last (price : Rat) (prices : List Rat) :
    Between price (prices ++ [price]) :=
  ⟨⟨price, by simp, le_refl price⟩, price, by simp, le_refl price⟩

private theorem between_mean {value price weight added : Rat}
    {prices : List Rat}
    (between : Between value prices) (nonneg : 0 ≤ weight)
    (positive : 0 < added) :
    Between ((value * weight + price * added) / (weight + added))
      (prices ++ [price]) := by
  obtain ⟨⟨low, lowMember, below⟩, high, highMember, above⟩ := between
  have total : 0 < weight + added := by linarith
  constructor
  · rcases le_total low price with le | ge
    · refine ⟨low, by simp [lowMember], (le_div_iff₀ total).mpr ?_⟩
      nlinarith
    · refine ⟨price, by simp, (le_div_iff₀ total).mpr ?_⟩
      nlinarith
  · rcases le_total price high with le | ge
    · refine ⟨high, by simp [highMember], (div_le_iff₀ total).mpr ?_⟩
      nlinarith
    · refine ⟨price, by simp, (div_le_iff₀ total).mpr ?_⟩
      nlinarith

/-- When the mean stays between some prices as weight is taken off. -/
theorem between_rest_iff {value price weight taken : Rat} {prices : List Rat}
    (left : 0 < weight + taken) :
    Between ((value * weight + price * taken) / (weight + taken)) prices ↔
      (∃ bound ∈ prices, (price - value) * -taken ≤
        (value - bound) * (weight + taken)) ∧
      ∃ bound ∈ prices, (value - price) * -taken ≤
        (bound - value) * (weight + taken) := by
  have low : ∀ bound : Rat,
      bound ≤ (value * weight + price * taken) / (weight + taken) ↔
        (price - value) * -taken ≤ (value - bound) * (weight + taken) := by
    intro bound
    rw [le_div_iff₀ left]
    constructor <;> intro le <;> linarith
  have high : ∀ bound : Rat,
      (value * weight + price * taken) / (weight + taken) ≤ bound ↔
        (value - price) * -taken ≤ (bound - value) * (weight + taken) := by
    intro bound
    rw [div_le_iff₀ left]
    constructor <;> intro le <;> linarith
  unfold Between
  simp only [low, high]

private theorem PositionChange.shares_buy {change : PositionChange}
    (side : change.side = .sideBuy) (positive : 0 < change.quantity.toInt) :
    0 < change.shares := by
  simp only [shares, side, numericFromInt]
  omega

namespace Holding

variable {holding : Holding} {change : PositionChange}

theorem shares_step :
    (holding.step change).shares = holding.shares + change.shares := by
  cases row : holding.row with
  | none => simp [shares, step, row]
  | some old => simp [shares, step, row]

private theorem averaged_step_iff (averaged : holding.Averaged)
    (nonneg : 0 ≤ holding.shares) (held : holding.Held change) :
    (holding.step change).Averaged ↔ holding.SaleCovered change := by
  obtain ⟨traded, covered⟩ := held
  cases isRow : holding.row with
  | none =>
      have first : (holding.step change).Averaged := by
        intro row member
        simp only [step, isRow, Option.mem_some_iff] at member
        rw [← member]
        exact between_last change.avgPrice holding.prices
      refine iff_of_true first fun row member => ?_
      rw [isRow] at member
      cases member
  | some row =>
      have between := averaged row isRow
      simp only [Holding.shares, isRow] at nonneg covered
      have average : (holding.step change).Averaged ↔
          Between (Database.averagePrice row change.shares change.avgPrice)
            (holding.prices ++ [change.avgPrice]) := by
        simp [Averaged, step, isRow]
      have condition : holding.SaleCovered change ↔
          (change.side = .sideSell → row.shares + change.shares ≠ 0 →
            row.Covers change (holding.prices ++ [change.avgPrice])) := by
        simp [SaleCovered, isRow]
      rw [average, condition, Database.averagePrice]
      by_cases closed : row.shares + change.shares = 0
      · -- the price of the trade that closes the position
        rw [if_pos closed]
        exact iff_of_true (between_last _ _)
          fun _ remains => absurd closed remains
      · rw [if_neg closed]
        cases side : change.side with
        | sideBuy =>
            refine iff_of_true ?_ fun impossible => by cases impossible
            have bought := PositionChange.shares_buy side traded
            push_cast
            exact between_mean between (by exact_mod_cast nonneg)
              (by exact_mod_cast bought)
        | sideSell =>
            have remains : 0 < row.shares + change.shares := by omega
            have left : (0 : Rat) < row.shares + change.shares := by
              exact_mod_cast remains
            unfold PositionRow.Covers
            push_cast
            rw [between_rest_iff left]
            exact ⟨fun both _ _ => both, fun all => all rfl closed⟩

theorem run_append (done : List PositionChange) (change : PositionChange) :
    run (done ++ [change]) = (run done).step change :=
  runFrom_append step empty done [change]

private theorem run_prices (changes : List PositionChange) :
    (run changes).prices = changes.map PositionChange.avgPrice := by
  induction changes using List.reverseRecOn with
  | nil => rfl
  | append_singleton done change induction =>
      rw [run_append, List.map_append, ← induction]
      rfl

end Holding

namespace Database

variable {db later : Database} {key : PositionID}

private theorem settlePosition_row {change : PositionChange} {holding : Holding}
    (same : db.positions.lookup key = holding.row)
    (done : db.settlePosition key change = .ok later) :
    later.positions.lookup key = (holding.step change).row := by
  obtain ⟨outcome, parsed, _, _, rfl⟩ := upsertPosition_ok.mp done
  rw [Outcome.parse_text] at parsed
  cases parsed
  refine (Finmap.lookup_insert _).trans ?_
  unfold Holding.step
  rw [← same, positionWith]
  cases db.positions.lookup key <;> rfl

private theorem settlePositions_row {changes : List PositionChange}
    (absent : db.positions.lookup key = none)
    (done : db.settlePositions key changes = .ok later) :
    later.positions.lookup key = (Holding.run changes).row := by
  induction changes using List.reverseRecOn generalizing later with
  | nil =>
      cases done
      exact absent
  | append_singleton changes change induction =>
      unfold settlePositions at done
      rw [List.foldlM_append] at done
      obtain ⟨middle, before, last⟩ := bind_ok.mp done
      rw [List.foldlM_cons] at last
      obtain ⟨written, settled, rest⟩ := bind_ok.mp last
      cases rest
      rw [Holding.run_append]
      exact settlePosition_row (induction before) settled

/-- The average of a position stays between the prices of its trades exactly
as long as the sales that leave shares are covered by them. -/
theorem avgPrice_between_iff {final : Database}
    {changes : List PositionChange} (absent : db.positions.lookup key = none)
    (settled : db.settlePositions key changes = .ok final)
    (held : Along Holding.step Holding.Held Holding.empty changes) :
    (∀ done rest later, changes = done ++ rest →
      db.settlePositions key done = .ok later →
        ∀ row ∈ later.positions.lookup key,
          Between row.avgPrice (done.map PositionChange.avgPrice)) ↔
      Along Holding.step Holding.SaleCovered Holding.empty changes := by
  have throughout : (∀ done rest, changes = done ++ rest →
      (Holding.run done).Averaged ∧ 0 ≤ (Holding.run done).shares) ↔
        Along Holding.step Holding.SaleCovered Holding.empty changes := by
    refine throughout_iff_along_of
      (fun holding : Holding => holding.Averaged ∧ 0 ≤ holding.shares) ?_ ?_ held
    · rintro holding change ⟨averaged, nonneg⟩ allowed
      rw [Holding.averaged_step_iff averaged nonneg allowed,
        Holding.shares_step]
      exact and_iff_left allowed.2
    · exact ⟨fun row impossible => (by cases impossible), le_refl 0⟩
  rw [← throughout]
  constructor
  · intro between done rest split
    subst split
    unfold settlePositions at settled
    rw [List.foldlM_append] at settled
    obtain ⟨later, before, _⟩ := bind_ok.mp settled
    constructor
    · intro row present
      rw [Holding.run_prices]
      refine between done rest later rfl before row ?_
      rw [settlePositions_row absent before]
      exact present
    · exact invariant_runFrom (fun holding : Holding => 0 ≤ holding.shares)
        (fun _ _ _ allowed => by rw [Holding.shares_step]; exact allowed.2)
        (le_refl 0) (along_append.mp held).1
  · intro averaged done rest later split settled row present
    rw [settlePositions_row absent settled] at present
    have within := (averaged done rest split).1 row present
    rw [Holding.run_prices] at within
    exact within

def coveredSale : List PositionChange :=
  [⟨.sideBuy, 2, 3000⟩, ⟨.sideBuy, 2, 5000⟩, ⟨.sideSell, 2, 4500⟩]

theorem between_coveredSale :
    ∃ final row, emptyTables.settlePositions
        ⟨shortID 1, shortID 3, .outcomeYes⟩ coveredSale = .ok final ∧
      final.positions.lookup ⟨shortID 1, shortID 3, .outcomeYes⟩ = some row ∧
      Between row.avgPrice (coveredSale.map PositionChange.avgPrice) := by
  have isThere : ((emptyTables.settlePositions
      ⟨shortID 1, shortID 3, .outcomeYes⟩ coveredSale).toOption.bind
        (·.positions.lookup ⟨shortID 1, shortID 3, .outcomeYes⟩)).isSome =
          true := by
    decide +kernel
  cases settled : emptyTables.settlePositions
      ⟨shortID 1, shortID 3, .outcomeYes⟩ coveredSale with
  | error message =>
      rw [settled] at isThere
      cases isThere
  | ok final =>
      rw [settled] at isThere
      obtain ⟨row, present⟩ := Option.isSome_iff_exists.mp isThere
      exact ⟨final, row, rfl, present,
        (avgPrice_between_iff rfl settled (by decide +kernel)).mpr
          (by decide +kernel) coveredSale [] final rfl settled row present⟩

def gainfulSale : List PositionChange :=
  [⟨.sideBuy, 2, 3000⟩, ⟨.sideSell, 1, 9000⟩]

/-- The average of the share that is left is negative. -/
theorem gainfulSale_negative :
    (emptyTables.settlePositions ⟨shortID 1, shortID 3, .outcomeYes⟩
      gainfulSale).toOption.bind
        (·.positions.lookup ⟨shortID 1, shortID 3, .outcomeYes⟩) =
      some ⟨100000000, -3 / 10⟩ := by
  decide +kernel

end Database

end Predix
