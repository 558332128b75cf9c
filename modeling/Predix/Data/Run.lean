namespace Predix.Data

/-! Runs of a state machine that takes one input at a time. -/

variable {S I : Type}

def runFrom (step : S → I → S) (state : S) (inputs : List I) : S :=
  inputs.foldl step state

/-- A condition holds of every input of a run and the state it meets. -/
def Along (step : S → I → S) (condition : S → I → Prop) :
    S → List I → Prop
  | _, [] => True
  | state, input :: inputs =>
      condition state input ∧ Along step condition (step state input) inputs

instance Along.decidable (step : S → I → S) (condition : S → I → Prop)
    [∀ state input, Decidable (condition state input)] :
    ∀ state inputs, Decidable (Along step condition state inputs)
  | _, [] => .isTrue trivial
  | state, input :: inputs =>
      have := Along.decidable step condition (step state input) inputs
      inferInstanceAs (Decidable (condition state input ∧
        Along step condition (step state input) inputs))

theorem runFrom_append (step : S → I → S) (state : S)
    (first second : List I) :
    runFrom step state (first ++ second) =
      runFrom step (runFrom step state first) second :=
  List.foldl_append

/-- What holds at the start and is kept by every conforming step holds at the
end of every conforming run. -/
theorem invariant_runFrom {step : S → I → S} {condition : S → I → Prop}
    (invariant : S → Prop)
    (kept : ∀ state input, invariant state → condition state input →
      invariant (step state input))
    {state : S} {inputs : List I} (initially : invariant state)
    (meets : Along step condition state inputs) :
    invariant (runFrom step state inputs) := by
  induction inputs generalizing state with
  | nil => exact initially
  | cons input inputs induction =>
      exact induction (kept state input initially meets.1) meets.2

theorem related_runFrom {T : Type} {step : S → I → S} {other : T → I → T}
    {condition : S → I → Prop} (related : S → T → Prop)
    (kept : ∀ left right input, related left right → condition left input →
      related (step left input) (other right input))
    {left : S} {right : T} {inputs : List I} (initially : related left right)
    (meets : Along step condition left inputs) :
    related (runFrom step left inputs) (runFrom other right inputs) := by
  induction inputs generalizing left right with
  | nil => exact initially
  | cons input inputs induction =>
      exact induction (kept left right input initially meets.1) meets.2

theorem along_and {step : S → I → S} {first second : S → I → Prop}
    {state : S} {inputs : List I} (left : Along step first state inputs)
    (right : Along step second state inputs) :
    Along step (fun state input => first state input ∧ second state input)
      state inputs := by
  induction inputs generalizing state with
  | nil => trivial
  | cons input inputs induction =>
      exact ⟨⟨left.1, right.1⟩, induction left.2 right.2⟩

theorem along_imp {step : S → I → S} {first second : S → I → Prop}
    (imp : ∀ state input, first state input → second state input) {state : S}
    {inputs : List I} (meets : Along step first state inputs) :
    Along step second state inputs := by
  induction inputs generalizing state with
  | nil => trivial
  | cons input inputs induction =>
      exact ⟨imp state input meets.1, induction meets.2⟩

theorem along_true (step : S → I → S) (state : S) (inputs : List I) :
    Along step (fun _ _ => True) state inputs := by
  induction inputs generalizing state with
  | nil => trivial
  | cons input inputs induction =>
      exact ⟨trivial, induction (step state input)⟩

theorem along_of_forall (step : S → I → S) {condition : I → Prop} (state : S)
    {inputs : List I} (all : ∀ input ∈ inputs, condition input) :
    Along step (fun _ input => condition input) state inputs := by
  induction inputs generalizing state with
  | nil => trivial
  | cons input inputs induction =>
      rw [List.forall_mem_cons] at all
      exact ⟨all.1, induction (step state input) all.2⟩

theorem always_runFrom {step : S → I → S} (invariant : S → Prop)
    (kept : ∀ state input, invariant state → invariant (step state input))
    {state : S} (initially : invariant state) (inputs : List I) :
    invariant (runFrom step state inputs) :=
  invariant_runFrom invariant (fun state input holds _ => kept state input holds)
    initially (along_true step state inputs)

theorem along_append {step : S → I → S} {condition : S → I → Prop}
    {state : S} {first second : List I} :
    Along step condition state (first ++ second) ↔
      Along step condition state first ∧
        Along step condition (runFrom step state first) second := by
  induction first generalizing state with
  | nil => simp [Along, runFrom]
  | cons input first induction =>
      simp only [List.cons_append, Along, induction, runFrom,
        List.foldl_cons, and_assoc]

/-- If a condition decides, in the states it leads to, whether an allowed step
is good, it decides whether a run of allowed steps is good throughout. -/
theorem throughout_iff_along_within {step : S → I → S}
    {allowed condition : S → I → Prop} (within good : S → Prop)
    (ensured : ∀ state, within state → good state)
    (decides : ∀ state input, within state → allowed state input →
      (good (step state input) ↔ condition state input))
    (kept : ∀ state input, within state → allowed state input →
      condition state input → within (step state input))
    {state : S} (initially : within state) {inputs : List I}
    (meets : Along step allowed state inputs) :
    (∀ done rest, inputs = done ++ rest → good (runFrom step state done)) ↔
      Along step condition state inputs := by
  induction inputs generalizing state with
  | nil =>
      refine ⟨fun _ => trivial, fun _ done rest split => ?_⟩
      rw [(List.append_eq_nil_iff.mp split.symm).1]
      exact ensured state initially
  | cons input inputs induction =>
      have iff := decides state input initially meets.1
      constructor
      · intro throughout
        have conforms := iff.mp (throughout [input] inputs rfl)
        have next := kept state input initially meets.1 conforms
        refine ⟨conforms, (induction next meets.2).mp fun done rest split => ?_⟩
        exact throughout (input :: done) rest (by rw [split]; rfl)
      · intro conforms done rest split
        have next := kept state input initially meets.1 conforms.1
        cases done with
        | nil => exact ensured state initially
        | cons first done =>
            rw [List.cons_append, List.cons.injEq] at split
            obtain ⟨rfl, tailSplit⟩ := split
            exact (induction next meets.2).mpr conforms.2 done rest tailSplit

theorem throughout_iff_along_of {step : S → I → S}
    {allowed condition : S → I → Prop} (invariant : S → Prop)
    (decides : ∀ state input, invariant state → allowed state input →
      (invariant (step state input) ↔ condition state input))
    {state : S} (initially : invariant state) {inputs : List I}
    (meets : Along step allowed state inputs) :
    (∀ done rest, inputs = done ++ rest →
      invariant (runFrom step state done)) ↔
      Along step condition state inputs :=
  throughout_iff_along_within invariant invariant (fun _ holds => holds)
    decides (fun state input holds isAllowed =>
      (decides state input holds isAllowed).mpr) initially meets

theorem throughout_iff_along {step : S → I → S} {condition : S → I → Prop}
    (invariant : S → Prop)
    (decides : ∀ state input, invariant state →
      (invariant (step state input) ↔ condition state input))
    {state : S} (initially : invariant state) (inputs : List I) :
    (∀ done rest, inputs = done ++ rest →
      invariant (runFrom step state done)) ↔
      Along step condition state inputs :=
  throughout_iff_along_of invariant
    (fun state input holds _ => decides state input holds) initially
    (along_true step state inputs)

/-- If no allowed step makes good what is lost, and a condition decides which of
them lose something, it decides whether anything is lost in a run. -/
theorem runFrom_iff_along_of {step : S → I → S}
    {allowed condition : S → I → Prop} (invariant good : S → Prop)
    (kept : ∀ state input, invariant state → allowed state input →
      invariant (step state input))
    (decides : ∀ state input, invariant state → allowed state input →
      (good (step state input) ↔ good state ∧ condition state input))
    {state : S} (initially : invariant state) {inputs : List I}
    (meets : Along step allowed state inputs) :
    good (runFrom step state inputs) ↔
      good state ∧ Along step condition state inputs := by
  induction inputs generalizing state with
  | nil => simp [runFrom, Along]
  | cons input inputs induction =>
      change good (runFrom step (step state input) inputs) ↔
        good state ∧ condition state input ∧
          Along step condition (step state input) inputs
      rw [induction (kept state input initially meets.1) meets.2,
        decides state input initially meets.1, and_assoc]

theorem runFrom_iff_along {step : S → I → S} {condition : S → I → Prop}
    (invariant good : S → Prop)
    (kept : ∀ state input, invariant state → invariant (step state input))
    (decides : ∀ state input, invariant state →
      (good (step state input) ↔ good state ∧ condition state input))
    {state : S} (initially : invariant state) (inputs : List I) :
    good (runFrom step state inputs) ↔
      good state ∧ Along step condition state inputs :=
  runFrom_iff_along_of invariant good
    (fun state input holds _ => kept state input holds)
    (fun state input holds _ => decides state input holds) initially
    (along_true step state inputs)

/-! Runs that only ever grow. -/

section Growth

variable {step : S → I → S} (invariant : S → Prop) (condition : I → Prop)
  {grows : S → S → Prop} (refl : ∀ state, grows state state)
  (trans : ∀ {first second third}, grows first second → grows second third →
    grows first third)
  (kept : ∀ {state input}, invariant state → condition input →
    invariant (step state input))
  (increasing : ∀ {state input}, invariant state → condition input →
    grows state (step state input))

include refl trans kept increasing

theorem grows_runFrom {state : S} {inputs : List I} (holds : invariant state)
    (all : ∀ input ∈ inputs, condition input) :
    grows state (runFrom step state inputs) := by
  induction inputs generalizing state with
  | nil => exact refl state
  | cons input inputs induction =>
      have head := all input (by simp)
      exact trans (increasing holds head)
        (induction (kept holds head) fun later member =>
          all later (by simp [member]))

/-- If a step that does not grow changes nothing, a run ends where it started
only when none of its inputs would change anything there. -/
theorem runFrom_eq_self_iff
    (strict : ∀ {state input}, invariant state → condition input →
      grows (step state input) state → step state input = state)
    {state : S} {inputs : List I} (holds : invariant state)
    (all : ∀ input ∈ inputs, condition input) :
    runFrom step state inputs = state ↔
      ∀ input ∈ inputs, step state input = state := by
  induction inputs with
  | nil => simp [runFrom]
  | cons input inputs induction =>
      have head := all input (by simp)
      have tail : ∀ later ∈ inputs, condition later :=
        fun later member => all later (by simp [member])
      have rest := induction tail
      rw [List.forall_mem_cons, ← rest]
      change runFrom step (step state input) inputs = state ↔ _
      constructor
      · intro back
        have same : step state input = state := by
          apply strict holds head
          have after := grows_runFrom invariant condition refl trans kept
            increasing (kept holds head) tail
          rw [back] at after
          exact after
        rw [same] at back
        exact ⟨same, back⟩
      · rintro ⟨same, back⟩
        rw [same]
        exact back

end Growth

/-! Logs, in which an entry is judged by the entries before it. -/

theorem splits_nil {α : Type} {property : List α → α → Prop} :
    ∀ before entry after, [] = before ++ entry :: after →
      property before entry := by
  intro before entry after split
  have length := congrArg List.length split
  simp at length

theorem splits_append {α : Type} {property : List α → α → Prop}
    {log : List α} {last : α}
    (old : ∀ before entry after, log = before ++ entry :: after →
      property before entry)
    (new : property log last) :
    ∀ before entry after, log ++ [last] = before ++ entry :: after →
      property before entry := by
  intro before entry after split
  rcases List.eq_nil_or_concat after with rfl | ⟨rest, final, rfl⟩
  · obtain ⟨rfl, same⟩ := List.append_inj' split rfl
    cases same
    exact new
  · have shorter : log ++ [last] = (before ++ entry :: rest) ++ [final] := by
      rw [split]
      simp
    exact old before entry rest (List.append_inj' shorter rfl).1

end Predix.Data
