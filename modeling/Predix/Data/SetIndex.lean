import Mathlib.Data.Finset.Basic
import Predix.Data.FiniteMap

namespace Predix.Data

/-! Sets kept under keys; a set that becomes empty is taken out. -/

abbrev SetIndex (K C : Type) := FiniteMap K (Finset C)

namespace SetIndex

variable {K C : Type} [DecidableEq K] [DecidableEq C]

def members (index : SetIndex K C) (key : K) : Finset C :=
  (index.lookup key).getD ∅

def add (index : SetIndex K C) (key : K) (member : C) : SetIndex K C :=
  index.insert key (insert member (index.members key))

def remove (index : SetIndex K C) (key : K) (member : C) : SetIndex K C :=
  match index.lookup key with
  | none => index
  | some set =>
      if set.erase member = ∅ then index.erase key
      else index.insert key (set.erase member)

def shrink (member : C) : Option (Finset C) → Option (Finset C)
  | none => none
  | some set =>
      if set.erase member = ∅ then none else some (set.erase member)

theorem lookup_add (index : SetIndex K C) (key other : K) (member : C) :
    (index.add key member).lookup other =
      if other = key then some (insert member (index.members key))
      else index.lookup other :=
  FiniteMap.lookup_insert_eq _ _ _ _

theorem lookup_remove (index : SetIndex K C) (key other : K) (member : C) :
    (index.remove key member).lookup other =
      if other = key then shrink member (index.lookup key)
      else index.lookup other := by
  unfold remove
  cases present : index.lookup key with
  | none =>
      simp only [shrink]
      by_cases same : other = key
      · rw [if_pos same, same, present]
      · rw [if_neg same]
  | some set =>
      simp only [shrink]
      split
      · rw [FiniteMap.lookup_erase_eq]
      · rw [FiniteMap.lookup_insert_eq]

private theorem shrink_shrink (member : C) (entry : Option (Finset C)) :
    shrink member (shrink member entry) = shrink member entry := by
  cases entry with
  | none => rfl
  | some set =>
      by_cases last : set.erase member = ∅
      · simp only [shrink, if_pos last]
      · simp only [shrink, if_neg last, Finset.erase_idem]

theorem getD_shrink (member : C) (entry : Option (Finset C)) :
    (shrink member entry).getD ∅ = (entry.getD ∅).erase member := by
  cases entry with
  | none => rfl
  | some set =>
      by_cases last : set.erase member = ∅
      · simp only [shrink, if_pos last, Option.getD_none]
        exact last.symm
      · simp only [shrink, if_neg last, Option.getD_some]

instance (member : C) : RightCommutative
    fun (index : SetIndex K C) (key : K) => index.remove key member where
  right_comm := by
    intro index first second
    apply Finmap.ext_lookup
    intro other
    by_cases same : first = second
    · rw [same]
    · simp only [lookup_remove, if_neg same, if_neg (Ne.symm same)]
      by_cases isSecond : other = second
      · rw [if_pos isSecond, if_neg fun isFirst =>
          same (isFirst.symm.trans isSecond), if_pos isSecond]
      · rw [if_neg isSecond, if_neg isSecond]

/-- Take a member out of every entry, in whatever order a loop over the map
meets them. -/
def removeEverywhere (index : SetIndex K C) (member : C) : SetIndex K C :=
  index.keys.val.foldl (fun index key => index.remove key member) index

private theorem lookup_foldl_remove (keys : Multiset K) (index : SetIndex K C)
    (key : K) (member : C) :
    (keys.foldl (fun index key => index.remove key member) index).lookup key =
      if key ∈ keys then shrink member (index.lookup key)
      else index.lookup key := by
  induction keys using Multiset.induction generalizing index with
  | empty => simp
  | cons first keys induction =>
      rw [Multiset.foldl_cons, induction, lookup_remove]
      by_cases isFirst : key = first
      · rw [if_pos isFirst, isFirst, if_pos (Multiset.mem_cons_self _ _),
          shrink_shrink, ite_self]
      · rw [if_neg isFirst]
        simp only [Multiset.mem_cons, isFirst, false_or]

theorem lookup_removeEverywhere (index : SetIndex K C) (key : K)
    (member : C) :
    (index.removeEverywhere member).lookup key =
      shrink member (index.lookup key) := by
  rw [removeEverywhere, lookup_foldl_remove]
  split
  · rfl
  · rename_i absent
    have none : index.lookup key = none := Finmap.lookup_eq_none.mpr
      fun present => absent (Finmap.mem_keys.mpr present)
    rw [none]
    rfl

/-! Members and entries. -/

section Members

variable (index : SetIndex K C) (key other : K) (member : C)

theorem members_add :
    (index.add key member).members other =
      if other = key then insert member (index.members key)
      else index.members other := by
  unfold members
  rw [lookup_add]
  split
  · rfl
  · rfl

theorem members_remove :
    (index.remove key member).members other =
      if other = key then (index.members key).erase member
      else index.members other := by
  unfold members
  rw [lookup_remove]
  split
  · exact getD_shrink member _
  · rfl

theorem members_removeEverywhere :
    (index.removeEverywhere member).members key =
      (index.members key).erase member := by
  unfold members
  rw [lookup_removeEverywhere, getD_shrink]

end Members

def NoEmpty (index : SetIndex K C) : Prop :=
  ∀ key, index.lookup key ≠ some ∅

variable {index : SetIndex K C}

theorem shrink_ne (member : C) (entry : Option (Finset C)) :
    shrink member entry ≠ some ∅ := by
  unfold shrink
  split
  · simp
  · split
    · simp
    · rename_i left
      simpa using left

theorem NoEmpty.add (noEmpty : index.NoEmpty) (key : K) (member : C) :
    (index.add key member).NoEmpty := by
  intro other
  rw [lookup_add]
  split
  · simp
  · exact noEmpty other

theorem NoEmpty.remove (noEmpty : index.NoEmpty) (key : K) (member : C) :
    (index.remove key member).NoEmpty := by
  intro other
  rw [lookup_remove]
  split
  · exact shrink_ne member _
  · exact noEmpty other

theorem noEmpty_removeEverywhere (index : SetIndex K C) (member : C) :
    (index.removeEverywhere member).NoEmpty := by
  intro key
  rw [lookup_removeEverywhere]
  exact shrink_ne member _

end SetIndex

end Predix.Data
