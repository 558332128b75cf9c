import Mathlib.Algebra.BigOperators.Group.Finset.Basic
import Mathlib.Algebra.BigOperators.Group.Multiset.Basic
import Mathlib.Algebra.Order.Group.Int
import Mathlib.Algebra.Order.BigOperators.Group.Multiset
import Mathlib.Data.Finmap

namespace Predix.Data

/-- A finite map with one value type. Equality is extensional. -/
abbrev FiniteMap (K V : Type) := Finmap fun _ : K => V

namespace FiniteMap

variable {K V : Type} [DecidableEq K]

theorem lookup_insert_eq (map : FiniteMap K V) (key other : K) (value : V) :
    Finmap.lookup other (map.insert key value) =
      if other = key then some value else map.lookup other := by
  split
  · rename_i same
    subst other
    exact Finmap.lookup_insert map
  · rename_i different
    exact Finmap.lookup_insert_of_ne map different

theorem lookup_insert_ne_none {map : FiniteMap K V} {key other : K} (value : V)
    (there : map.lookup other ≠ none) :
    Finmap.lookup other (map.insert key value) ≠ none := by
  rw [lookup_insert_eq]
  split
  · simp
  · exact there

theorem lookup_erase_eq (map : FiniteMap K V) (key other : K) :
    (map.erase key).lookup other =
      if other = key then none else map.lookup other := by
  split
  · rename_i same
    rw [same]
    exact Finmap.lookup_erase key map
  · rename_i different
    exact Finmap.lookup_erase_ne different

theorem lookup_of_erase {map : FiniteMap K V} {key other : K} {value : V}
    (present : (map.erase key).lookup other = some value) :
    map.lookup other = some value := by
  rw [lookup_erase_eq] at present
  split at present
  · contradiction
  · exact present

theorem insert_erase (map : FiniteMap K V) (key : K) (value : V) :
    (map.erase key).insert key value = map.insert key value := by
  apply Finmap.ext_lookup
  intro other
  rw [lookup_insert_eq, lookup_insert_eq]
  split
  · rfl
  · rename_i different
    exact Finmap.lookup_erase_ne different

theorem erase_insert {map : FiniteMap K V} {key : K} (value : V)
    (absent : map.lookup key = none) :
    (map.insert key value).erase key = map := by
  apply Finmap.ext_lookup
  intro other
  by_cases same : other = key
  · subst other
    rw [Finmap.lookup_erase, absent]
  · rw [Finmap.lookup_erase_ne same, Finmap.lookup_insert_of_ne map same]

theorem erase_of_lookup_none {map : FiniteMap K V} {key : K}
    (absent : map.lookup key = none) : map.erase key = map := by
  apply Finmap.ext_lookup
  intro other
  rw [lookup_erase_eq]
  split
  · rename_i same
    rw [same, absent]
  · rfl

theorem insert_self {map : FiniteMap K V} {key : K} {value : V}
    (present : map.lookup key = some value) : map.insert key value = map := by
  apply Finmap.ext_lookup
  intro other
  rw [lookup_insert_eq]
  split
  · rename_i same
    rw [same, present]
  · rfl

/-! Sums of a weight over the entries of a map. -/

def total (weight : K → V → Int) (map : FiniteMap K V) : Int :=
  (map.entries.map fun entry => weight entry.1 entry.2).sum

theorem total_insert_of_notMem (weight : K → V → Int)
    {map : FiniteMap K V} {key : K} (value : V)
    (absent : map.lookup key = none) :
    total weight (map.insert key value) = total weight map + weight key value := by
  unfold total
  rw [Finmap.entries_insert_of_notMem (Finmap.lookup_eq_none.mp absent),
    Multiset.map_cons, Multiset.sum_cons, add_comm]

theorem total_insert (weight : K → V → Int) (map : FiniteMap K V)
    (key : K) (value : V) :
    total weight (map.insert key value) =
      total weight (map.erase key) + weight key value := by
  rw [← insert_erase map key value]
  exact total_insert_of_notMem weight value (Finmap.lookup_erase key map)

theorem total_of_lookup (weight : K → V → Int)
    {map : FiniteMap K V} {key : K} {value : V}
    (present : map.lookup key = some value) :
    total weight map = total weight (map.erase key) + weight key value := by
  rw [← total_insert, insert_self present]

theorem total_insert_of_lookup (weight : K → V → Int)
    {map : FiniteMap K V} {key : K} {old : V} (value : V)
    (present : map.lookup key = some old) :
    total weight (map.insert key value) =
      total weight map - weight key old + weight key value := by
  rw [total_insert, total_of_lookup weight present]
  omega

theorem total_insert_elim (weight : K → V → Int) (map : FiniteMap K V)
    (key : K) (value : V) :
    total weight (map.insert key value) =
      total weight map - (map.lookup key).elim 0 (weight key) +
        weight key value := by
  cases found : map.lookup key with
  | none =>
      rw [total_insert_of_notMem weight value found, Option.elim_none]
      omega
  | some old =>
      rw [total_insert_of_lookup weight value found, Option.elim_some]

theorem total_congr {left right : K → V → Int} {map : FiniteMap K V}
    (agree : ∀ key value, map.lookup key = some value →
      left key value = right key value) :
    total left map = total right map := by
  unfold total
  apply congrArg Multiset.sum
  apply Multiset.map_congr rfl
  intro entry member
  exact agree entry.1 entry.2 (Finmap.lookup_eq_some_iff.mpr member)

theorem total_nonneg {weight : K → V → Int} {map : FiniteMap K V}
    (nonneg : ∀ key value, map.lookup key = some value →
      0 ≤ weight key value) :
    0 ≤ total weight map := by
  apply Multiset.sum_nonneg
  intro amount member
  obtain ⟨entry, entryMember, rfl⟩ := Multiset.mem_map.mp member
  exact nonneg entry.1 entry.2 (Finmap.lookup_eq_some_iff.mpr entryMember)

theorem weight_le_total (weight : K → V → Int) {map : FiniteMap K V}
    (nonneg : ∀ key value, map.lookup key = some value →
      0 ≤ weight key value)
    {key : K} {value : V} (present : map.lookup key = some value) :
    weight key value ≤ total weight map := by
  have restNonneg : 0 ≤ total weight (map.erase key) := by
    apply total_nonneg
    intro other otherValue otherPresent
    by_cases same : other = key
    · subst other
      rw [Finmap.lookup_erase] at otherPresent
      contradiction
    · rw [Finmap.lookup_erase_ne same] at otherPresent
      exact nonneg other otherValue otherPresent
  rw [total_of_lookup weight present]
  omega

theorem total_erase_le (weight : K → V → Int) {map : FiniteMap K V}
    (nonneg : ∀ key value, map.lookup key = some value →
      0 ≤ weight key value) (key : K) :
    total weight (map.erase key) ≤ total weight map := by
  cases present : map.lookup key with
  | none => rw [erase_of_lookup_none present]
  | some value =>
      have weightNonneg := nonneg key value present
      rw [total_of_lookup weight present]
      omega

theorem total_le_total {left right : K → V → Int} {map : FiniteMap K V}
    (le : ∀ key value, map.lookup key = some value →
      left key value ≤ right key value) :
    total left map ≤ total right map := by
  apply Multiset.sum_map_le_sum_map
  intro entry member
  exact le entry.1 entry.2 (Finmap.lookup_eq_some_iff.mpr member)

theorem total_eq_zero {weight : K → V → Int} {map : FiniteMap K V}
    (zero : ∀ key value, map.lookup key = some value →
      weight key value = 0) :
    total weight map = 0 := by
  apply Multiset.sum_eq_zero
  intro amount member
  obtain ⟨entry, entryMember, rfl⟩ := Multiset.mem_map.mp member
  exact zero entry.1 entry.2 (Finmap.lookup_eq_some_iff.mpr entryMember)

theorem total_eq_sum_keys (weight : K → V → Int) (map : FiniteMap K V) :
    total weight map =
      ∑ key ∈ map.keys, (map.lookup key).elim 0 (weight key) := by
  unfold total
  change _ = ((map.entries.map Sigma.fst).map _).sum
  rw [Multiset.map_map]
  apply congrArg Multiset.sum
  apply Multiset.map_congr rfl
  intro entry member
  have present : map.lookup entry.1 = some entry.2 :=
    Finmap.lookup_eq_some_iff.mpr member
  simp only [Function.comp_apply, present, Option.elim_some]

/-! Writing a list of entries, in order. -/

def insertAll (entries : List (K × V)) (map : FiniteMap K V) :
    FiniteMap K V :=
  entries.foldl (fun current entry => current.insert entry.1 entry.2) map

@[simp] theorem insertAll_cons (entry : K × V) (entries : List (K × V))
    (map : FiniteMap K V) :
    insertAll (entry :: entries) map =
      insertAll entries (map.insert entry.1 entry.2) := rfl

theorem lookup_insertAll_of_notMem {entries : List (K × V)}
    (map : FiniteMap K V) {key : K} (absent : key ∉ entries.map Prod.fst) :
    (insertAll entries map).lookup key = map.lookup key := by
  induction entries generalizing map with
  | nil => rfl
  | cons entry entries induction =>
      rw [List.map_cons, List.mem_cons, not_or] at absent
      rw [insertAll_cons, induction _ absent.2,
        Finmap.lookup_insert_of_ne map absent.1]

theorem lookup_insertAll_cases (entries : List (K × V)) (map : FiniteMap K V)
    (key : K) :
    (∃ value, (key, value) ∈ entries ∧
      (insertAll entries map).lookup key = some value) ∨
    (key ∉ entries.map Prod.fst ∧
      (insertAll entries map).lookup key = map.lookup key) := by
  induction entries generalizing map with
  | nil => exact .inr ⟨by simp, rfl⟩
  | cons entry entries induction =>
      rw [insertAll_cons]
      rcases induction (map.insert entry.1 entry.2) with
        ⟨value, member, written⟩ | ⟨absent, kept⟩
      · exact .inl ⟨value, by simp [member], written⟩
      · rw [kept, lookup_insert_eq]
        by_cases same : key = entry.1
        · subst same
          exact .inl ⟨entry.2, by simp, if_pos rfl⟩
        · exact .inr ⟨by simp [same, absent], if_neg same⟩

theorem lookup_insertAll_of_mem {entries : List (K × V)}
    (map : FiniteMap K V) (distinct : (entries.map Prod.fst).Nodup)
    {key : K} {value : V} (member : (key, value) ∈ entries) :
    (insertAll entries map).lookup key = some value := by
  induction entries generalizing map with
  | nil => simp at member
  | cons entry entries induction =>
      rw [List.map_cons, List.nodup_cons] at distinct
      rw [insertAll_cons]
      rcases List.mem_cons.mp member with rfl | tailMember
      · rw [lookup_insertAll_of_notMem _ distinct.1]
        exact Finmap.lookup_insert map
      · exact induction _ distinct.2 tailMember

theorem total_insertAll (weight : K → V → Int) {entries : List (K × V)}
    {map : FiniteMap K V} (distinct : (entries.map Prod.fst).Nodup)
    (unchanged : ∀ entry ∈ entries, ∃ old,
      map.lookup entry.1 = some old ∧
        weight entry.1 entry.2 = weight entry.1 old) :
    total weight (insertAll entries map) = total weight map := by
  induction entries generalizing map with
  | nil => rfl
  | cons entry entries induction =>
      rw [List.map_cons, List.nodup_cons] at distinct
      obtain ⟨old, present, sameWeight⟩ := unchanged entry (by simp)
      rw [insertAll_cons, induction distinct.2]
      · rw [total_insert_of_lookup weight entry.2 present, sameWeight]
        omega
      · intro later member
        obtain ⟨laterOld, laterPresent, laterWeight⟩ :=
          unchanged later (by simp [member])
        refine ⟨laterOld, ?_, laterWeight⟩
        rw [Finmap.lookup_insert_of_ne map, laterPresent]
        intro same
        exact distinct.1 (same ▸ List.mem_map_of_mem member)

/-! Maps that agree on some of the keys. -/

def AgreeOn (keys : K → Prop) (left right : FiniteMap K V) : Prop :=
  ∀ key, keys key → left.lookup key = right.lookup key

namespace AgreeOn

variable {keys : K → Prop} {left right : FiniteMap K V}

theorem refl (keys : K → Prop) (map : FiniteMap K V) : AgreeOn keys map map :=
  fun _ _ => rfl

theorem symm (agree : AgreeOn keys left right) : AgreeOn keys right left :=
  fun key inside => (agree key inside).symm

theorem trans {middle : FiniteMap K V} (first : AgreeOn keys left middle)
    (second : AgreeOn keys middle right) : AgreeOn keys left right :=
  fun key inside => (first key inside).trans (second key inside)

theorem mono {fewer : K → Prop} (agree : AgreeOn keys left right)
    (fewerOf : ∀ {key}, fewer key → keys key) : AgreeOn fewer left right :=
  fun key inside => agree key (fewerOf inside)

theorem insert (agree : AgreeOn keys left right) (key : K) (value : V) :
    AgreeOn keys (left.insert key value) (right.insert key value) := by
  intro other inside
  rw [lookup_insert_eq, lookup_insert_eq, agree other inside]

theorem insert_outside {key : K} (outside : ¬ keys key)
    (map : FiniteMap K V) (value : V) :
    AgreeOn keys map (map.insert key value) := by
  intro other inside
  rw [lookup_insert_eq, if_neg]
  rintro rfl
  exact outside inside

theorem erase (agree : AgreeOn keys left right) (key : K) :
    AgreeOn keys (left.erase key) (right.erase key) := by
  intro other inside
  rw [lookup_erase_eq, lookup_erase_eq, agree other inside]

theorem erase_outside {key : K} (outside : ¬ keys key)
    (map : FiniteMap K V) : AgreeOn keys map (map.erase key) := by
  intro other inside
  rw [lookup_erase_eq, if_neg]
  rintro rfl
  exact outside inside

theorem insertAll (agree : AgreeOn keys left right)
    (entries : List (K × V)) :
    AgreeOn keys (insertAll entries left) (insertAll entries right) := by
  induction entries generalizing left right with
  | nil => exact agree
  | cons entry entries induction =>
      exact induction (agree.insert entry.1 entry.2)

theorem insertAll_outside {entries : List (K × V)}
    (outside : ∀ entry ∈ entries, ¬ keys entry.1) (map : FiniteMap K V) :
    AgreeOn keys map (FiniteMap.insertAll entries map) := by
  intro key inside
  rw [lookup_insertAll_of_notMem]
  intro member
  obtain ⟨entry, isEntry, same⟩ := List.mem_map.mp member
  rw [← same] at inside
  exact outside entry isEntry inside

end AgreeOn

/-! Maps with the same keys. -/

def Related (relation : V → V → Prop) (left right : FiniteMap K V) : Prop :=
  ∀ key, Option.Rel relation (left.lookup key) (right.lookup key)

namespace Related

variable {relation : V → V → Prop} {left right : FiniteMap K V}

theorem refl (reflexive : ∀ value, relation value value)
    (map : FiniteMap K V) : Related relation map map := by
  intro key
  cases map.lookup key with
  | none => exact .none
  | some value => exact .some (reflexive value)

theorem trans (transitive : ∀ {first second third}, relation first second →
      relation second third → relation first third)
    {middle : FiniteMap K V} (first : Related relation left middle)
    (second : Related relation middle right) : Related relation left right := by
  intro key
  have before := first key
  have after := second key
  generalize left.lookup key = leftValue at before ⊢
  generalize middle.lookup key = middleValue at before after
  generalize right.lookup key = rightValue at after ⊢
  cases before with
  | none => exact after
  | some related =>
      cases after with
      | some later => exact .some (transitive related later)

theorem imp {weaker : V → V → Prop} (related : Related relation left right)
    (weaken : ∀ {first second}, relation first second →
      weaker first second) : Related weaker left right := by
  intro key
  have both := related key
  generalize left.lookup key = leftValue at both ⊢
  generalize right.lookup key = rightValue at both ⊢
  cases both with
  | none => exact .none
  | some holds => exact .some (weaken holds)

theorem of_left (related : Related relation left right) {key : K} {value : V}
    (present : left.lookup key = some value) :
    ∃ other, right.lookup key = some other ∧ relation value other := by
  have both := related key
  rw [present] at both
  generalize right.lookup key = found at both ⊢
  cases both with
  | some holds => exact ⟨_, rfl, holds⟩

theorem of_right (related : Related relation left right) {key : K} {value : V}
    (present : right.lookup key = some value) :
    ∃ other, left.lookup key = some other ∧ relation other value := by
  have both := related key
  rw [present] at both
  generalize left.lookup key = found at both ⊢
  cases both with
  | some holds => exact ⟨_, rfl, holds⟩

theorem of_map {change : K → V → V}
    (changed : ∀ key value, relation (change key value) value)
    (lookups : ∀ key, left.lookup key = (right.lookup key).map (change key)) :
    Related relation left right := by
  intro key
  rw [lookups]
  cases right.lookup key with
  | none => exact .none
  | some value => exact .some (changed key value)

theorem total_eq {weight : V → Int} (related : Related relation left right)
    (same : ∀ {first second}, relation first second →
      weight first = weight second) :
    total (fun _ value => weight value) left =
      total (fun _ value => weight value) right := by
  have keys : left.keys = right.keys := by
    ext key
    rw [Finmap.mem_keys, Finmap.mem_keys, Finmap.mem_iff, Finmap.mem_iff]
    constructor
    · rintro ⟨value, present⟩
      obtain ⟨other, otherPresent, _⟩ := related.of_left present
      exact ⟨other, otherPresent⟩
    · rintro ⟨value, present⟩
      obtain ⟨other, otherPresent, _⟩ := related.of_right present
      exact ⟨other, otherPresent⟩
  rw [total_eq_sum_keys, total_eq_sum_keys, keys]
  apply Finset.sum_congr rfl
  intro key _
  have both := related key
  generalize left.lookup key = leftValue at both ⊢
  generalize right.lookup key = rightValue at both ⊢
  cases both with
  | none => rfl
  | some holds => exact same holds

end Related

end FiniteMap

end Predix.Data
