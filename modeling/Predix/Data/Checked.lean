namespace Predix.Data

/-! Computations that stop at the first error. -/

variable {E F A B : Type}

def require (condition : Prop) [Decidable condition] (error : E) :
    Except E Unit :=
  if condition then .ok () else .error error

def present (error : E) : Option A → Except E A
  | none => .error error
  | some value => .ok value

def orElse (error : F) : Except E A → Except F A
  | .error _ => .error error
  | .ok value => .ok value

@[simp] theorem require_ok {condition : Prop} [Decidable condition]
    {error : E} {done : Unit} :
    require condition error = .ok done ↔ condition := by
  unfold require
  split <;> simp_all

@[simp] theorem require_error {condition : Prop} [Decidable condition]
    {error found : E} :
    require condition error = .error found ↔ ¬ condition ∧ error = found := by
  unfold require
  split <;> simp_all

@[simp] theorem present_ok {error : E} {option : Option A} {value : A} :
    present error option = .ok value ↔ option = some value := by
  cases option <;> simp [present]

@[simp] theorem present_error {error found : E} {option : Option A} :
    present error option = .error found ↔ option = none ∧ error = found := by
  cases option <;> simp [present]

@[simp] theorem orElse_ok {error : F} {result : Except E A} {value : A} :
    orElse error result = .ok value ↔ result = .ok value := by
  cases result <;> simp [orElse]

@[simp] theorem orElse_error {error found : F} {result : Except E A} :
    orElse error result = .error found ↔
      (∃ cause, result = .error cause) ∧ error = found := by
  cases result <;> simp [orElse]

@[simp] theorem map_ok {result : Except E A} {change : A → B} {value : B} :
    change <$> result = .ok value ↔
      ∃ middle, result = .ok middle ∧ change middle = value := by
  cases result <;> simp [Functor.map, Except.map]

@[simp] theorem map_error {result : Except E A} {change : A → B} {error : E} :
    change <$> result = .error error ↔ result = .error error := by
  cases result <;> simp [Functor.map, Except.map]

@[simp] theorem pure_ok {value found : A} :
    (pure value : Except E A) = .ok found ↔ value = found :=
  ⟨Except.ok.inj, congrArg _⟩

theorem bind_ok {result : Except E A} {next : A → Except E B} {value : B} :
    (result >>= next) = .ok value ↔
      ∃ middle, result = .ok middle ∧ next middle = .ok value := by
  cases result with
  | error error => simp [bind, Except.bind]
  | ok middle => simp [bind, Except.bind]

theorem bind_succeeds {result : Except E A} {next : A → Except E B}
    {middle : A} (done : result = .ok middle)
    (rest : ∃ value, next middle = .ok value) :
    ∃ value, (result >>= next) = .ok value := by
  obtain ⟨value, ends⟩ := rest
  exact ⟨value, bind_ok.mpr ⟨middle, done, ends⟩⟩

theorem require_succeeds {condition : Prop} [Decidable condition] {error : E}
    {next : Unit → Except E B} (holds : condition)
    (rest : ∃ value, next () = .ok value) :
    ∃ value, (require condition error >>= next) = .ok value :=
  bind_succeeds (require_ok.mpr holds) rest

theorem bind_error {result : Except E A} {next : A → Except E B} {error : E} :
    (result >>= next) = .error error ↔
      result = .error error ∨
        ∃ middle, result = .ok middle ∧ next middle = .error error := by
  cases result with
  | error found => simp [bind, Except.bind]
  | ok middle => simp [bind, Except.bind]

theorem bind_error_of_ne {result : Except E A} {next : A → Except E B}
    {error : E} (other : result ≠ .error error)
    (failed : (result >>= next) = .error error) :
    ∃ middle, result = .ok middle ∧ next middle = .error error :=
  (bind_error.mp failed).resolve_left other

theorem require_fails {condition : Prop} [Decidable condition] {error : E}
    {next : Unit → Except E B} (fails : ¬ condition) :
    (require condition error >>= next) = .error error :=
  bind_error.mpr (.inl (require_error.mpr ⟨fails, rfl⟩))

/-- What the first part gives, if the whole ends or fails with an error that the
first part cannot give. -/
theorem first_ok {result : Except E A} {next : A → Except E B} {error : E}
    (other : result ≠ .error error)
    (ends : (∃ value, (result >>= next) = .ok value) ∨
      (result >>= next) = .error error) :
    ∃ middle, result = .ok middle := by
  rcases ends with ⟨value, done⟩ | failed
  · obtain ⟨middle, first, _⟩ := bind_ok.mp done
    exact ⟨middle, first⟩
  · obtain ⟨middle, first, _⟩ := bind_error_of_ne other failed
    exact ⟨middle, first⟩

end Predix.Data
