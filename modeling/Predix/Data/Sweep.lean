import Mathlib.Data.List.Basic
import Mathlib.Tactic.Common

namespace Predix.Data

/-! A loop that keeps looking for the first eligible item of a list and
consumes it, whole or in part, until it is done or no item is eligible. Under
the laws below it is one pass over the list. -/

structure SweepRule (σ α : Type) where
  done : σ → Bool
  eligible : σ → α → Bool
  take : σ → α → σ
  leave : σ → α → Option α

namespace SweepRule

variable {σ α : Type}

/-- The two laws: consuming an item does not change which items are eligible,
and an item is left behind only by the step that finishes the loop. -/
structure Lawful (rule : SweepRule σ α) : Prop where
  eligible_take : ∀ state item,
    rule.done state = false → rule.eligible state item = true →
      rule.eligible (rule.take state item) = rule.eligible state
  done_of_leave : ∀ state item rest,
    rule.done state = false → rule.eligible state item = true →
      rule.leave state item = some rest →
        rule.done (rule.take state item) = true

def loop (rule : SweepRule σ α) : Nat → σ → List α → σ × List α
  | 0, state, items => (state, items)
  | fuel + 1, state, items =>
      if rule.done state then
        (state, items)
      else
        match items.findIdx? (rule.eligible state) with
        | none => (state, items)
        | some index =>
            match items[index]? with
            | none => (state, items)
            | some item =>
                match rule.leave state item with
                | none =>
                    rule.loop fuel (rule.take state item) (items.eraseIdx index)
                | some rest =>
                    rule.loop fuel (rule.take state item) (items.set index rest)

def pass (rule : SweepRule σ α) : σ → List α → σ × List α
  | state, [] => (state, [])
  | state, item :: items =>
      if rule.done state then
        (state, item :: items)
      else if rule.eligible state item then
        match rule.leave state item with
        | none => rule.pass (rule.take state item) items
        | some rest => (rule.take state item, rest :: items)
      else
        ((rule.pass state items).1, item :: (rule.pass state items).2)

theorem pass_of_done {rule : SweepRule σ α} {state : σ}
    (done : rule.done state = true) (items : List α) :
    rule.pass state items = (state, items) := by
  cases items with
  | nil => rfl
  | cons item items => simp [pass, done]

private theorem loop_of_done {rule : SweepRule σ α} {state : σ}
    (done : rule.done state = true) (fuel : Nat) (items : List α) :
    rule.loop fuel state items = (state, items) := by
  cases fuel with
  | zero => rfl
  | succ fuel => simp [loop, done]

private theorem pass_append_of_ineligible {rule : SweepRule σ α} {state : σ}
    {skipped : List α}
    (ineligible : ∀ item ∈ skipped, rule.eligible state item = false)
    (items : List α) :
    rule.pass state (skipped ++ items) =
      ((rule.pass state items).1, skipped ++ (rule.pass state items).2) := by
  induction skipped with
  | nil => rfl
  | cons item skipped induction =>
      cases done : rule.done state with
      | true => simp [pass_of_done done]
      | false =>
          have itemIneligible := ineligible item (by simp)
          rw [List.cons_append]
          simp only [pass, done, itemIneligible, Bool.false_eq_true, if_false]
          rw [induction fun later member => ineligible later (by simp [member])]
          rfl

private theorem split_of_findIdx? {eligible : α → Bool} {items : List α}
    {index : Nat} (found : items.findIdx? eligible = some index) :
    ∃ skipped item rest,
      items = skipped ++ item :: rest ∧ skipped.length = index ∧
        eligible item = true ∧ ∀ other ∈ skipped, eligible other = false := by
  rw [List.findIdx?_eq_some_iff_getElem] at found
  obtain ⟨inside, eligibleItem, before⟩ := found
  refine ⟨items.take index, items[index], items.drop (index + 1), ?_, ?_,
    eligibleItem, ?_⟩
  · rw [← List.drop_eq_getElem_cons inside, List.take_append_drop]
  · rw [List.length_take]
    omega
  · intro other member
    obtain ⟨position, bound, rfl⟩ := List.getElem_of_mem member
    rw [List.length_take] at bound
    rw [List.getElem_take]
    have notEligible := before position (by omega)
    simpa using notEligible

/-- With more fuel than items the loop is the single pass. -/
theorem loop_eq_pass {rule : SweepRule σ α} (lawful : rule.Lawful)
    {fuel : Nat} {state : σ} {items : List α}
    (enough : items.length < fuel) :
    rule.loop fuel state items = rule.pass state items := by
  -- a round either ends the loop or takes an item, so fuel and items shrink
  -- together
  induction fuel generalizing state items with
  | zero => omega
  | succ fuel induction =>
      cases done : rule.done state with
      | true => rw [loop_of_done done, pass_of_done done]
      | false =>
          cases found : items.findIdx? (rule.eligible state) with
          | none =>
              have ineligible : ∀ item ∈ items,
                  rule.eligible state item = false := by
                rw [List.findIdx?_eq_none_iff] at found
                exact found
              have passed := pass_append_of_ineligible ineligible []
              rw [List.append_nil] at passed
              rw [passed]
              simp [loop, done, found, pass]
          | some index =>
              obtain ⟨skipped, item, rest, rfl, rfl, eligibleItem, ineligible⟩ :=
                split_of_findIdx? found
              rw [pass_append_of_ineligible ineligible]
              simp only [loop, done, found, pass, eligibleItem,
                Bool.false_eq_true, if_false, if_true]
              rw [List.getElem?_append_right (Nat.le_refl _), Nat.sub_self,
                List.getElem?_cons_zero]
              have sameEligible :=
                lawful.eligible_take state item done eligibleItem
              cases left : rule.leave state item with
              | none =>
                  have erased : (skipped ++ item :: rest).eraseIdx
                      skipped.length = skipped ++ rest := by
                    rw [List.eraseIdx_append_of_length_le (Nat.le_refl _),
                      Nat.sub_self, List.eraseIdx_cons_zero]
                  simp only [left, erased]
                  rw [List.length_append, List.length_cons] at enough
                  rw [induction (by rw [List.length_append]; omega),
                    pass_append_of_ineligible]
                  intro other member
                  rw [sameEligible]
                  exact ineligible other member
              | some remainder =>
                  -- an item is only left behind when the state is done
                  have replaced : (skipped ++ item :: rest).set
                      skipped.length remainder =
                        skipped ++ remainder :: rest := by
                    rw [List.set_append_right _ _ (Nat.le_refl _), Nat.sub_self,
                      List.set_cons_zero]
                  simp only [left, replaced]
                  rw [loop_of_done
                    (lawful.done_of_leave state item remainder done
                      eligibleItem left)]

private theorem eligible_pass {rule : SweepRule σ α} (lawful : rule.Lawful)
    (state : σ) (items : List α) :
    rule.eligible (rule.pass state items).1 = rule.eligible state := by
  induction items generalizing state with
  | nil => rfl
  | cons item items induction =>
      simp only [pass]
      cases done : rule.done state with
      | true => rfl
      | false =>
          cases eligible : rule.eligible state item with
          | false => exact induction state
          | true =>
              have same := lawful.eligible_take state item done eligible
              cases rule.leave state item with
              | none => exact (induction _).trans same
              | some rest => exact same

theorem pass_ended {rule : SweepRule σ α} (lawful : rule.Lawful)
    (state : σ) (items : List α) :
    rule.done (rule.pass state items).1 = true ∨
      ∀ item ∈ (rule.pass state items).2,
        rule.eligible (rule.pass state items).1 item = false := by
  induction items generalizing state with
  | nil => right; simp [pass]
  | cons item items induction =>
      simp only [pass]
      cases done : rule.done state with
      | true => exact .inl done
      | false =>
          cases eligible : rule.eligible state item with
          | false =>
              -- the item is passed over and stays ineligible
              refine (induction state).imp id ?_
              intro others other member
              rcases List.mem_cons.mp member with rfl | later
              · exact (congrFun (eligible_pass lawful state items) other).trans
                  eligible
              · exact others other later
          | true =>
              cases left : rule.leave state item with
              | none => exact induction _
              | some rest =>
                  exact .inl
                    (lawful.done_of_leave state item rest done eligible left)

end SweepRule

end Predix.Data
