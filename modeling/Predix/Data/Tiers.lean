import Mathlib.Algebra.BigOperators.Finsupp.Basic
import Mathlib.Algebra.Order.Ring.Int

namespace Predix.Data.Tiers

/-! Amounts that lie at the places of an order, and a demand that goes through
them from the first place on. -/

variable {P : Type}

noncomputable def tally (items : List (P × ℤ)) : P →₀ ℤ :=
  (items.map fun item => Finsupp.single item.1 item.2).sum

@[simp] theorem tally_nil : tally ([] : List (P × ℤ)) = 0 := rfl

@[simp] theorem tally_cons (item : P × ℤ) (items : List (P × ℤ)) :
    tally (item :: items) = Finsupp.single item.1 item.2 + tally items := by
  simp [tally]

@[simp] theorem tally_append (first second : List (P × ℤ)) :
    tally (first ++ second) = tally first + tally second := by
  simp [tally]

theorem tally_perm {first second : List (P × ℤ)} (perm : first.Perm second) :
    tally first = tally second :=
  (perm.map _).sum_eq

noncomputable def total (amounts : P →₀ ℤ) : ℤ :=
  amounts.sum fun _ amount => amount

@[simp] theorem total_tally (items : List (P × ℤ)) :
    total (tally items) = (items.map Prod.snd).sum := by
  induction items with
  | nil => simp [total]
  | cons item items induction =>
      unfold total at induction ⊢
      rw [tally_cons, Finsupp.sum_add_index' (by simp) (by simp),
        Finsupp.sum_single_index rfl, induction]
      simp

theorem tally_apply_eq_zero {items : List (P × ℤ)} {place : P}
    (elsewhere : ∀ item ∈ items, item.1 ≠ place) : tally items place = 0 := by
  induction items with
  | nil => simp
  | cons item items induction =>
      rw [List.forall_mem_cons] at elsewhere
      rw [tally_cons, Finsupp.add_apply, induction elsewhere.2,
        Finsupp.single_eq_of_ne elsewhere.1.symm, add_zero]

theorem tally_of_nodup {items : List (P × ℤ)}
    (nodup : (items.map Prod.fst).Nodup) {item : P × ℤ}
    (member : item ∈ items) : tally items item.1 = item.2 := by
  induction items with
  | nil => cases member
  | cons head items induction =>
      rw [List.map_cons, List.nodup_cons] at nodup
      rw [tally_cons, Finsupp.add_apply]
      rcases List.mem_cons.mp member with rfl | later
      · rw [Finsupp.single_eq_same, tally_apply_eq_zero, add_zero]
        intro other isOther same
        exact nodup.1 (same ▸ List.mem_map_of_mem isOther)
      · have elsewhere : item.1 ≠ head.1 := fun same =>
          nodup.1 (same ▸ List.mem_map_of_mem later)
        rw [Finsupp.single_eq_of_ne elsewhere, zero_add,
          induction nodup.2 later]

theorem tally_nonneg {items : List (P × ℤ)}
    (nonneg : ∀ item ∈ items, 0 ≤ item.2) (place : P) :
    0 ≤ tally items place := by
  induction items with
  | nil => simp
  | cons item items induction =>
      rw [List.forall_mem_cons] at nonneg
      rw [tally_cons, Finsupp.add_apply]
      refine Int.add_nonneg ?_ (induction nonneg.2)
      classical
      rw [Finsupp.single_apply]
      split
      · exact nonneg.1
      · exact Int.le_refl 0

/-- Items are served in their order, each at most with what it has, until the
demand is met or a place is not acceptable. -/
def pour (accepts : P → Bool) : ℤ → List (P × ℤ) → List (P × ℤ)
  | _, [] => []
  | demand, (place, amount) :: items =>
      if demand ≤ 0 then
        []
      else if accepts place then
        (place, min demand amount) ::
          pour accepts (demand - min demand amount) items
      else
        []

variable (ahead : P → P → Prop) [DecidableRel ahead]

noncomputable def before (amounts : P →₀ ℤ) (place : P) : ℤ :=
  amounts.sum fun other amount => if ahead other place then amount else 0

/-- What a demand takes at one place: as much as there is, of what the places
ahead leave of the demand. -/
noncomputable def share (accepts : P → Bool) (demand : ℤ) (amounts : P →₀ ℤ)
    (place : P) : ℤ :=
  if accepts place then
    min (amounts place) (max 0 (demand - before ahead amounts place))
  else
    0

noncomputable def taken (accepts : P → Bool) (demand : ℤ)
    (amounts : P →₀ ℤ) : P →₀ ℤ :=
  Finsupp.onFinset amounts.support (share ahead accepts demand amounts) (by
    intro place some
    rw [Finsupp.mem_support_iff]
    intro nothing
    apply some
    simp [share, nothing])

section Before

variable (item : P × ℤ) (items : List (P × ℤ)) (place : P)

@[simp] theorem before_zero : before ahead 0 place = 0 := by
  simp [before]

theorem before_cons :
    before ahead (tally (item :: items)) place =
      (if ahead item.1 place then item.2 else 0) +
        before ahead (tally items) place := by
  unfold before
  rw [tally_cons, Finsupp.sum_add_index', Finsupp.sum_single_index]
  · split <;> rfl
  · intro other
    split <;> rfl
  · intro other first second
    split <;> simp

variable {items place}

theorem before_nonneg (nonneg : ∀ item ∈ items, 0 ≤ item.2) :
    0 ≤ before ahead (tally items) place := by
  induction items with
  | nil => simp
  | cons item items induction =>
      rw [List.forall_mem_cons] at nonneg
      rw [before_cons]
      have rest := induction nonneg.2
      have head := nonneg.1
      split <;> omega

private theorem before_eq_zero (behind : ∀ item ∈ items, ¬ ahead item.1 place) :
    before ahead (tally items) place = 0 := by
  induction items with
  | nil => simp
  | cons item items induction =>
      rw [List.forall_mem_cons] at behind
      rw [before_cons, if_neg behind.1, induction behind.2, add_zero]

end Before

variable {ahead} [IsStrictTotalOrder P ahead] {accepts : P → Bool}

omit [IsStrictTotalOrder P ahead] in
private theorem share_of_met {items : List (P × ℤ)}
    (nonneg : ∀ item ∈ items, 0 ≤ item.2) {demand : ℤ} (met : demand ≤ 0)
    (place : P) : share ahead accepts demand (tally items) place = 0 := by
  have volume := tally_nonneg nonneg place
  have earlier := @before_nonneg _ ahead _ _ place nonneg
  unfold share
  split
  · omega
  · rfl

/-- What is poured over sorted items adds up to what the demand takes of their
tally: the items of one place do not matter one by one. -/
theorem tally_pour
    (closed : ∀ {place other}, ahead place other → accepts other = true →
      accepts place = true)
    {items : List (P × ℤ)}
    (sorted : items.Pairwise fun first second => ¬ ahead second.1 first.1)
    (nonneg : ∀ item ∈ items, 0 ≤ item.2) {demand : ℤ} (wanted : 0 ≤ demand) :
    tally (pour accepts demand items) =
      taken ahead accepts demand (tally items) := by
  ext place
  change _ = share ahead accepts demand (tally items) place
  induction items generalizing demand with
  | nil => simp [pour, share]
  | cons item items induction =>
      by_cases met : demand ≤ 0
      · rw [share_of_met nonneg met, pour, if_pos met, tally_nil,
          Finsupp.zero_apply]
      obtain ⟨own, amount⟩ := item
      rw [List.forall_mem_cons] at nonneg
      rw [List.pairwise_cons] at sorted
      have rest := @induction sorted.2 nonneg.2 (demand - min demand amount)
        (by omega)
      have volume := tally_nonneg nonneg.2 place
      have earlier := @before_nonneg _ ahead _ _ place nonneg.2
      have head := nonneg.1
      unfold share at rest ⊢
      rw [before_cons, tally_cons, Finsupp.add_apply, pour, if_neg met]
      dsimp only
      rcases trichotomous_of ahead own place with first | rfl | last
      · -- the item lies ahead of the place
        have other : own ≠ place := by
          rintro rfl
          exact irrefl_of ahead own first
        rw [if_pos first, Finsupp.single_eq_of_ne other.symm]
        cases accepted : accepts own with
        | false =>
            have refused : accepts place = false := by
              rw [← Bool.not_eq_true]
              intro acceptable
              rw [closed first acceptable] at accepted
              contradiction
            simp [refused]
        | true =>
            rw [if_pos rfl, tally_cons, Finsupp.add_apply,
              Finsupp.single_eq_of_ne other.symm, rest]
            split <;> omega
      · -- nothing lies ahead of the first item
        have none := before_eq_zero ahead sorted.1
        rw [if_neg (irrefl_of ahead own), Finsupp.single_eq_same, none]
        rw [none] at rest
        cases accepted : accepts own with
        | false => simp
        | true =>
            rw [if_pos rfl, tally_cons, Finsupp.add_apply,
              Finsupp.single_eq_same, rest, accepted]
            simp only [if_true]
            omega
      · -- the place lies ahead of every item
        have other : own ≠ place := by
          rintro rfl
          exact irrefl_of ahead own last
        have nothing : tally items place = 0 := by
          apply tally_apply_eq_zero
          rintro item member rfl
          exact sorted.1 item member last
        rw [Finsupp.single_eq_of_ne other.symm, nothing]
        rw [nothing] at rest
        split
        · rw [tally_cons, Finsupp.add_apply,
            Finsupp.single_eq_of_ne other.symm, rest]
          split <;> omega
        · rw [tally_nil, Finsupp.zero_apply]
          split <;> omega

end Predix.Data.Tiers
