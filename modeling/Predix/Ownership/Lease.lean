import Mathlib.Logic.Function.Basic
import Predix.Data.Run

namespace Predix

open Data

/-! Who owns a partition: the lease key, the fencing counter and the ownership
loops of any number of engines. -/

/-- How a Redis command ends for its caller. An unanswered one is carried out,
but the caller gets an error. -/
inductive Call where
  | answered
  | unanswered
  | failed
  deriving DecidableEq, Repr

namespace Lease

/-- SET NX, and whether it set the key. The expiry time is not kept: a lease
may expire at any moment. -/
def acquire (lease : Option String) (instanceID : String) :
    Option String × Bool :=
  match lease with
  | none => (some instanceID, true)
  | some owner => (some owner, false)

/-- `compareAndRenew`: the answer is whether the lease is still ours. -/
def renew (lease : Option String) (instanceID : String) : Bool :=
  decide (lease = some instanceID)

def release (lease : Option String) (instanceID : String) : Option String :=
  if lease = some instanceID then none else lease

end Lease

def FencingTokens.next (counter : Option Nat) : Nat :=
  counter.getD 0 + 1

/-- Where an engine stands in `runPartition`. Acquisitions are numbered in the
order in which they happen; the flag of an owner says whether its partition
context is canceled. -/
inductive Phase where
  | down
  | competing
  | acquired (acquisition : Nat)
  | owning (acquisition token : Nat) (canceled : Bool)
  | leaving
  deriving DecidableEq, Repr

/-- The first three fields are the system. The others remember its past: how
often the lease was acquired, which acquisition drew each token so far, and the
newest acquisition whose engine has obtained its token. -/
structure Ownership where
  lease : Option String
  counter : Option Nat
  phase : String → Phase
  acquisitions : Nat
  draws : List Nat
  fenced : Nat

def Ownership.start : Ownership := ⟨none, none, fun _ => .down, 0, [], 0⟩

inductive OwnershipInput where
  | start (engine : String)
  | acquire (engine : String) (call : Call)
  | next (engine : String) (call : Call)
  | renew (engine : String) (call : Call)
  /-- The consumer returns. It does so when its context is canceled, or when
  the command group cannot be set up. -/
  | leave (engine : String) (noGroup : Bool)
  | release (engine : String) (call : Call)
  | expire
  | crash (engine : String)
  deriving DecidableEq, Repr

namespace Ownership

def setPhase (ownership : Ownership) (engine : String) (phase : Phase) :
    Ownership :=
  { ownership with phase := Function.update ownership.phase engine phase }

/-- INCR on behalf of an acquisition. -/
def draw (ownership : Ownership) (acquisition : Nat) : Ownership :=
  { ownership with
    counter := some (FencingTokens.next ownership.counter)
    draws := ownership.draws ++ [acquisition] }

/-- One attempt to acquire the lease. An unanswered SET NX leaves a lease
behind that its engine does not know of. -/
def acquire (ownership : Ownership) (engine : String) : Call → Ownership
  | .failed => ownership
  | .unanswered =>
      { ownership with lease := (Lease.acquire ownership.lease engine).1 }
  | .answered =>
      match Lease.acquire ownership.lease engine with
      | (_, false) => ownership
      | (lease, true) =>
          { ownership.setPhase engine (.acquired (ownership.acquisitions + 1))
            with
            lease := lease
            acquisitions := ownership.acquisitions + 1 }

/-- Draw the token. Without an answer the lease is given back. -/
def next (ownership : Ownership) (engine : String) (acquisition : Nat) :
    Call → Ownership
  | .failed => ownership.setPhase engine .leaving
  | .unanswered => (ownership.draw acquisition).setPhase engine .leaving
  | .answered =>
      { (ownership.draw acquisition).setPhase engine
          (.owning acquisition (FencingTokens.next ownership.counter) false)
        with fenced := max ownership.fenced acquisition }

/-- One tick of `renewLease`. An error is ignored. -/
def renew (ownership : Ownership) (engine : String) (acquisition token : Nat) :
    Call → Ownership
  | .answered =>
      if Lease.renew ownership.lease engine then ownership
      else ownership.setPhase engine (.owning acquisition token true)
  | _ => ownership

def release (ownership : Ownership) (engine : String) (call : Call) :
    Ownership :=
  { ownership.setPhase engine .competing with
    lease :=
      if call = .failed then ownership.lease
      else Lease.release ownership.lease engine }

/-- An input that does not fit the phase of its engine does nothing. -/
def step (ownership : Ownership) : OwnershipInput → Ownership
  | .start engine =>
      match ownership.phase engine with
      | .down => ownership.setPhase engine .competing
      | _ => ownership
  | .acquire engine call =>
      match ownership.phase engine with
      | .competing => ownership.acquire engine call
      | _ => ownership
  | .next engine call =>
      match ownership.phase engine with
      | .acquired acquisition => ownership.next engine acquisition call
      | _ => ownership
  | .renew engine call =>
      match ownership.phase engine with
      | .owning acquisition token _ =>
          ownership.renew engine acquisition token call
      | _ => ownership
  | .leave engine noGroup =>
      match ownership.phase engine with
      | .owning _ _ canceled =>
          if canceled || noGroup then ownership.setPhase engine .leaving
          else ownership
      | _ => ownership
  | .release engine call =>
      match ownership.phase engine with
      | .leaving => ownership.release engine call
      | _ => ownership
  | .expire => { ownership with lease := none }
  | .crash engine => ownership.setPhase engine .down

end Ownership

/-! What one input can do, said once. -/

def Phase.Tokenless : Phase → Prop
  | .down | .competing | .leaving => True
  | .acquired _ | .owning _ _ _ => False

theorem Phase.Tokenless.ne_acquired {phase : Phase}
    (tokenless : phase.Tokenless) (acquisition : Nat) :
    phase ≠ .acquired acquisition := by
  rintro rfl
  exact tokenless

private theorem Phase.Tokenless.ne_owning {phase : Phase}
    (tokenless : phase.Tokenless) (acquisition token : Nat)
    (canceled : Bool) : phase ≠ .owning acquisition token canceled := by
  rintro rfl
  exact tokenless

inductive Transition (ownership : Ownership) :
    OwnershipInput → Ownership → Prop
  | idle (input : OwnershipInput) : Transition ownership input ownership
  /-- The lease is set or removed by somebody who gets no further by it. -/
  | released (input : OwnershipInput) (lease : Option String)
      (notTaken : ∀ engine ∈ lease, ownership.lease = some engine ∨
        ownership.phase engine = .competing) :
      Transition ownership input { ownership with lease := lease }
  | moved (input : OwnershipInput) (engine : String) (phase : Phase)
      (lease : Option String) (tokenless : phase.Tokenless)
      (notTaken : ∀ engine ∈ lease, ownership.lease = some engine) :
      Transition ownership input
        { ownership.setPhase engine phase with lease := lease }
  | acquired (engine : String) (call : Call)
      (competing : ownership.phase engine = .competing)
      (free : ownership.lease = none) :
      Transition ownership (.acquire engine call)
        { ownership.setPhase engine (.acquired (ownership.acquisitions + 1))
          with
          lease := some engine
          acquisitions := ownership.acquisitions + 1 }
  | spent (engine : String) (call : Call) (acquisition : Nat)
      (acquired : ownership.phase engine = .acquired acquisition)
      (reached : call ≠ .failed) :
      Transition ownership (.next engine call)
        ((ownership.draw acquisition).setPhase engine .leaving)
  | fenced (engine : String) (call : Call) (acquisition : Nat)
      (acquired : ownership.phase engine = .acquired acquisition)
      (reached : call ≠ .failed) :
      Transition ownership (.next engine call)
        { (ownership.draw acquisition).setPhase engine
            (.owning acquisition (FencingTokens.next ownership.counter) false)
          with fenced := max ownership.fenced acquisition }
  | canceled (input : OwnershipInput) (engine : String)
      (acquisition token : Nat) (canceled : Bool)
      (owning : ownership.phase engine = .owning acquisition token canceled) :
      Transition ownership input
        (ownership.setPhase engine (.owning acquisition token true))

private theorem acquire_transition {ownership : Ownership} {engine : String}
    (competing : ownership.phase engine = .competing) (call : Call) :
    Transition ownership (.acquire engine call)
      (ownership.acquire engine call) := by
  cases call with
  | failed => exact .idle _
  | unanswered =>
      apply Transition.released
      intro owner holds
      unfold Lease.acquire at holds
      cases taken : ownership.lease with
      | none =>
          rw [taken] at holds
          cases holds
          exact .inr competing
      | some holder =>
          rw [taken] at holds
          exact .inl holds
  | answered =>
      unfold Ownership.acquire
      cases taken : ownership.lease with
      | none => exact .acquired engine _ competing taken
      | some holder => exact .idle _

private theorem next_transition {ownership : Ownership} {engine : String}
    {acquisition : Nat}
    (acquired : ownership.phase engine = .acquired acquisition) (call : Call) :
    Transition ownership (.next engine call)
      (ownership.next engine acquisition call) := by
  cases call with
  | failed =>
      exact .moved _ engine .leaving ownership.lease trivial
        fun _ holds => holds
  | unanswered => exact .spent engine _ acquisition acquired (by simp)
  | answered => exact .fenced engine _ acquisition acquired (by simp)

theorem step_transition (ownership : Ownership) (input : OwnershipInput) :
    Transition ownership input (ownership.step input) := by
  have same : ∀ engine ∈ ownership.lease, ownership.lease = some engine :=
    fun _ holds => holds
  cases input with
  | start engine =>
      simp only [Ownership.step]
      split
      · exact .moved _ engine .competing ownership.lease trivial same
      · exact .idle _
  | acquire engine call =>
      simp only [Ownership.step]
      split
      · rename_i competing
        exact acquire_transition competing call
      · exact .idle _
  | next engine call =>
      simp only [Ownership.step]
      split
      · rename_i acquisition acquired
        exact next_transition acquired call
      · exact .idle _
  | renew engine call =>
      simp only [Ownership.step]
      split
      · rename_i acquisition token canceled owning
        unfold Ownership.renew
        split
        · split
          · exact .idle _
          · exact .canceled _ engine acquisition token canceled owning
        · exact .idle _
      · exact .idle _
  | leave engine noGroup =>
      simp only [Ownership.step]
      split
      · split
        · exact .moved _ engine .leaving ownership.lease trivial same
        · exact .idle _
      · exact .idle _
  | release engine call =>
      simp only [Ownership.step]
      split
      · apply Transition.moved _ engine .competing _ trivial
        intro owner holds
        split at holds
        · exact holds
        · unfold Lease.release at holds
          split at holds
          · contradiction
          · exact holds
      · exact .idle _
  | expire => exact .released _ none (by simp)
  | crash engine =>
      exact .moved _ engine .down ownership.lease trivial same

/-! Acquisitions and tokens. -/

/-- The token was drawn by this acquisition. -/
def Ownership.Issued (ownership : Ownership) (acquisition token : Nat) :
    Prop :=
  ∃ index, token = index + 1 ∧ ownership.draws[index]? = some acquisition

structure Ownership.Numbered (ownership : Ownership) : Prop where
  counter : ownership.counter =
    if ownership.draws = [] then none else some ownership.draws.length
  drawn : ∀ acquisition ∈ ownership.draws,
    acquisition ≤ ownership.acquisitions
  acquired : ∀ {engine acquisition},
    ownership.phase engine = .acquired acquisition →
      acquisition ≤ ownership.acquisitions ∧ acquisition ∉ ownership.draws
  distinct : ∀ {first second acquisition},
    ownership.phase first = .acquired acquisition →
      ownership.phase second = .acquired acquisition → first = second
  owning : ∀ {engine acquisition token canceled},
    ownership.phase engine = .owning acquisition token canceled →
      ownership.Issued acquisition token
  fenced : ownership.fenced = 0 ∨ ownership.fenced ∈ ownership.draws

theorem numbered_start : Ownership.start.Numbered where
  counter := rfl
  drawn := by simp [Ownership.start]
  acquired := by simp [Ownership.start]
  distinct := by simp [Ownership.start]
  owning := by simp [Ownership.start]
  fenced := .inl rfl

theorem Ownership.Numbered.next {ownership : Ownership}
    (numbered : ownership.Numbered) :
    FencingTokens.next ownership.counter = ownership.draws.length + 1 := by
  rw [FencingTokens.next, numbered.counter]
  split
  · rename_i none
    simp [none]
  · rfl

private theorem Ownership.Issued.draw {ownership : Ownership}
    {acquisition token : Nat} (issued : ownership.Issued acquisition token)
    (other : Nat) : (ownership.draw other).Issued acquisition token := by
  obtain ⟨index, rfl, drew⟩ := issued
  refine ⟨index, rfl, ?_⟩
  change (ownership.draws ++ [other])[index]? = _
  obtain ⟨inside, -⟩ := List.getElem?_eq_some_iff.mp drew
  rw [List.getElem?_append_left inside]
  exact drew

private theorem Ownership.Numbered.issues {ownership : Ownership}
    (numbered : ownership.Numbered) (acquisition : Nat) :
    (ownership.draw acquisition).Issued acquisition
      (FencingTokens.next ownership.counter) := by
  refine ⟨ownership.draws.length, numbered.next, ?_⟩
  exact List.getElem?_concat_length

section Phases

variable {ownership : Ownership} {engine other : String} {phase : Phase}

theorem setPhase_eq :
    (ownership.setPhase engine phase).phase other =
      if other = engine then phase else ownership.phase other :=
  Function.update_apply _ _ _ _

theorem acquired_setPhase {acquisition : Nat}
    (acquired : (ownership.setPhase engine phase).phase other =
      .acquired acquisition) :
    phase = .acquired acquisition ∧ other = engine ∨
      ownership.phase other = .acquired acquisition := by
  rw [setPhase_eq] at acquired
  split at acquired
  · rename_i same
    exact .inl ⟨acquired, same⟩
  · exact .inr acquired

theorem owning_setPhase {acquisition token : Nat} {canceled : Bool}
    (owning : (ownership.setPhase engine phase).phase other =
      .owning acquisition token canceled) :
    phase = .owning acquisition token canceled ∧ other = engine ∨
      ownership.phase other = .owning acquisition token canceled := by
  rw [setPhase_eq] at owning
  split at owning
  · rename_i same
    exact .inl ⟨owning, same⟩
  · exact .inr owning

end Phases

section Numbered

variable {ownership : Ownership} {engine : String} {phase : Phase}

private theorem Ownership.Numbered.setPhase (numbered : ownership.Numbered)
    (notAcquired : ∀ acquisition, phase ≠ .acquired acquisition)
    (issued : ∀ {acquisition token canceled},
      phase = .owning acquisition token canceled →
        ownership.Issued acquisition token) :
    (ownership.setPhase engine phase).Numbered where
  counter := numbered.counter
  drawn := numbered.drawn
  acquired := by
    intro other acquisition acquired
    rcases acquired_setPhase acquired with ⟨same, -⟩ | before
    · exact absurd same (notAcquired acquisition)
    · exact numbered.acquired before
  distinct := by
    intro first second acquisition left right
    rcases acquired_setPhase left with ⟨same, -⟩ | leftBefore
    · exact absurd same (notAcquired acquisition)
    rcases acquired_setPhase right with ⟨same, -⟩ | rightBefore
    · exact absurd same (notAcquired acquisition)
    exact numbered.distinct leftBefore rightBefore
  owning := by
    intro other acquisition token canceled owning
    rcases owning_setPhase owning with ⟨same, -⟩ | before
    · exact issued same
    · exact numbered.owning before
  fenced := numbered.fenced

private theorem Ownership.Numbered.setLease (numbered : ownership.Numbered)
    (lease : Option String) :
    ({ ownership with lease := lease } : Ownership).Numbered :=
  ⟨numbered.counter, numbered.drawn, numbered.acquired, numbered.distinct,
    numbered.owning, numbered.fenced⟩

private theorem numbered_acquired (numbered : ownership.Numbered) :
    ({ ownership.setPhase engine (.acquired (ownership.acquisitions + 1)) with
        lease := some engine
        acquisitions := ownership.acquisitions + 1 } : Ownership).Numbered where
  counter := numbered.counter
  drawn := fun acquisition drawn =>
    Nat.le_succ_of_le (numbered.drawn acquisition drawn)
  acquired := by
    intro other acquisition acquired
    rcases acquired_setPhase acquired with ⟨newest, -⟩ | before
    · cases newest
      refine ⟨Nat.le_refl _, fun drawn => ?_⟩
      have older := numbered.drawn _ drawn
      omega
    · obtain ⟨older, undrawn⟩ := numbered.acquired before
      exact ⟨Nat.le_succ_of_le older, undrawn⟩
  distinct := by
    intro first second acquisition left right
    rcases acquired_setPhase left with ⟨newest, rfl⟩ | leftBefore
    · cases newest
      rcases acquired_setPhase right with ⟨-, rfl⟩ | rightBefore
      · rfl
      · have older := (numbered.acquired rightBefore).1
        omega
    · rcases acquired_setPhase right with ⟨newest, rfl⟩ | rightBefore
      · cases newest
        have older := (numbered.acquired leftBefore).1
        omega
      · exact numbered.distinct leftBefore rightBefore
  owning := by
    intro other acquisition token canceled owning
    rcases owning_setPhase owning with ⟨different, -⟩ | before
    · contradiction
    · exact numbered.owning before
  fenced := numbered.fenced

/-- The engine that draws a token leaves the phase in which it could draw
another. -/
theorem numbered_draw {acquisition : Nat} (numbered : ownership.Numbered)
    (acquired : ownership.phase engine = .acquired acquisition)
    (next : ∀ other, phase ≠ .acquired other)
    (owning : ∀ {other token canceled},
      phase = .owning other token canceled →
        other = acquisition ∧ token = FencingTokens.next ownership.counter) :
    ((ownership.draw acquisition).setPhase engine phase).Numbered where
  counter := by
    change some (FencingTokens.next ownership.counter) =
      if ownership.draws ++ [acquisition] = [] then none
      else some (ownership.draws ++ [acquisition]).length
    rw [numbered.next, if_neg (by simp)]
    simp
  drawn := by
    intro other drawn
    rcases List.mem_append.mp drawn with before | new
    · exact numbered.drawn other before
    · rw [List.mem_singleton.mp new]
      exact (numbered.acquired acquired).1
  acquired := by
    intro other pending otherAcquired
    rcases acquired_setPhase otherAcquired with ⟨same, -⟩ | before
    · exact absurd same (next pending)
    · obtain ⟨older, undrawn⟩ := numbered.acquired before
      refine ⟨older, fun drawn => ?_⟩
      rcases List.mem_append.mp drawn with earlier | new
      · exact undrawn earlier
      · -- Two engines cannot wait for the token of one acquisition.
        cases List.mem_singleton.mp new
        cases numbered.distinct before acquired
        rw [setPhase_eq, if_pos rfl] at otherAcquired
        exact next _ otherAcquired
  distinct := by
    intro first second pending left right
    rcases acquired_setPhase left with ⟨same, -⟩ | leftBefore
    · exact absurd same (next pending)
    rcases acquired_setPhase right with ⟨same, -⟩ | rightBefore
    · exact absurd same (next pending)
    exact numbered.distinct leftBefore rightBefore
  owning := by
    intro other owner token canceled isOwning
    rcases owning_setPhase isOwning with ⟨same, -⟩ | before
    · obtain ⟨rfl, rfl⟩ := owning same
      exact numbered.issues owner
    · exact (numbered.owning before).draw acquisition
  fenced := by
    rcases numbered.fenced with none | drawn
    · exact .inl none
    · exact .inr (List.mem_append_left _ drawn)

theorem numbered_step (numbered : ownership.Numbered)
    (input : OwnershipInput) : (ownership.step input).Numbered := by
  have transition := step_transition ownership input
  generalize ownership.step input = after at transition ⊢
  cases transition with
  | idle => exact numbered
  | released _ lease _ => exact numbered.setLease lease
  | moved _ engine phase lease tokenless _ =>
      apply Ownership.Numbered.setLease
      exact numbered.setPhase tokenless.ne_acquired fun same =>
        absurd same (tokenless.ne_owning _ _ _)
  | acquired engine call _ _ => exact numbered_acquired numbered
  | spent engine call acquisition acquired _ =>
      exact numbered_draw numbered acquired (by simp) (by simp)
  | fenced engine call acquisition acquired _ =>
      have drawn : ((ownership.draw acquisition).setPhase engine
          (.owning acquisition (FencingTokens.next ownership.counter)
            false)).Numbered :=
        numbered_draw numbered acquired (by simp) fun same => by
          cases same
          exact ⟨rfl, rfl⟩
      refine ⟨drawn.counter, drawn.drawn, drawn.acquired, drawn.distinct,
        drawn.owning, .inr ?_⟩
      change max ownership.fenced acquisition ∈
        ownership.draws ++ [acquisition]
      rcases numbered.fenced with none | before
      · rw [none, Nat.zero_max]
        exact List.mem_append_right _ (List.mem_singleton_self _)
      · rcases Nat.le_total ownership.fenced acquisition with newer | older
        · rw [Nat.max_eq_right newer]
          exact List.mem_append_right _ (List.mem_singleton_self _)
        · rw [Nat.max_eq_left older]
          exact List.mem_append_left _ before
  | canceled _ engine acquisition token canceled owning =>
      exact numbered.setPhase (by simp) fun same => by
        cases same
        exact numbered.owning owning

end Numbered

/-! The lease and the token go to engines that compete for them. -/

theorem lease_step {ownership : Ownership} {input : OwnershipInput}
    {engine : String} (holds : (ownership.step input).lease = some engine) :
    ownership.lease = some engine ∨ ownership.phase engine = .competing := by
  have transition := step_transition ownership input
  generalize ownership.step input = after at transition holds
  cases transition with
  | idle => exact .inl holds
  | released _ lease notTaken => exact notTaken engine holds
  | moved _ _ _ lease _ notTaken => exact .inl (notTaken engine holds)
  | acquired _ _ competing _ =>
      cases holds
      exact .inr competing
  | spent _ _ _ _ _ => exact .inl holds
  | fenced _ _ _ _ _ => exact .inl holds
  | canceled _ _ _ _ _ _ => exact .inl holds

theorem acquired_step {ownership : Ownership} {input : OwnershipInput}
    {engine : String} {acquisition : Nat}
    (acquired : (ownership.step input).phase engine =
      .acquired acquisition) :
    ownership.phase engine = .acquired acquisition ∨
      ownership.phase engine = .competing := by
  have transition := step_transition ownership input
  generalize ownership.step input = after at transition acquired
  cases transition with
  | idle => exact .inl acquired
  | released _ _ _ => exact .inl acquired
  | moved _ _ _ _ tokenless _ =>
      rcases acquired_setPhase acquired with ⟨same, -⟩ | before
      · exact absurd same (tokenless.ne_acquired acquisition)
      · exact .inl before
  | acquired _ _ competing _ =>
      rcases acquired_setPhase acquired with ⟨-, rfl⟩ | before
      · exact .inr competing
      · exact .inl before
  | spent _ _ _ _ _ =>
      rcases acquired_setPhase acquired with ⟨different, -⟩ | before
      · contradiction
      · exact .inl before
  | fenced _ _ _ _ _ =>
      rcases acquired_setPhase acquired with ⟨different, -⟩ | before
      · contradiction
      · exact .inl before
  | canceled _ _ _ _ _ _ =>
      rcases acquired_setPhase acquired with ⟨different, -⟩ | before
      · contradiction
      · exact .inl before

/-! Tokens, once drawn, stay drawn. -/

theorem draws_step (ownership : Ownership) (input : OwnershipInput) :
    ownership.draws <+: (ownership.step input).draws := by
  have transition := step_transition ownership input
  generalize ownership.step input = after at transition ⊢
  cases transition with
  | idle => exact List.prefix_rfl
  | released _ _ _ => exact List.prefix_rfl
  | moved _ _ _ _ _ _ => exact List.prefix_rfl
  | acquired _ _ _ _ => exact List.prefix_rfl
  | spent _ _ acquisition _ _ => exact List.prefix_append _ _
  | fenced _ _ acquisition _ _ => exact List.prefix_append _ _
  | canceled _ _ _ _ _ _ => exact List.prefix_rfl

theorem issued_step {ownership : Ownership} {acquisition token : Nat}
    (issued : ownership.Issued acquisition token) (input : OwnershipInput) :
    (ownership.step input).Issued acquisition token := by
  obtain ⟨index, rfl, drew⟩ := issued
  obtain ⟨later, more⟩ := draws_step ownership input
  refine ⟨index, rfl, ?_⟩
  obtain ⟨inside, -⟩ := List.getElem?_eq_some_iff.mp drew
  rw [← more, List.getElem?_append_left inside]
  exact drew

/-! Tokens drawn in the order of the acquisitions. -/

def Phase.NotBefore (drawn : Nat) : Phase → Prop
  | .acquired acquisition => drawn ≤ acquisition
  | _ => True

instance (drawn : Nat) (phase : Phase) : Decidable (phase.NotBefore drawn) :=
  match phase with
  | .acquired acquisition => inferInstanceAs (Decidable (drawn ≤ acquisition))
  | .down | .competing | .owning _ _ _ | .leaving => .isTrue trivial

/-- No token is drawn on behalf of an acquisition after a newer acquisition has
drawn its own. -/
def Ownership.DrawsInOrder (ownership : Ownership) : OwnershipInput → Prop
  | .next engine call => call ≠ .failed →
      ∀ drawn ∈ ownership.draws, (ownership.phase engine).NotBefore drawn
  | _ => True

instance (ownership : Ownership) (input : OwnershipInput) :
    Decidable (ownership.DrawsInOrder input) :=
  match input with
  | .next engine call => inferInstanceAs (Decidable (call ≠ .failed →
      ∀ drawn ∈ ownership.draws, (ownership.phase engine).NotBefore drawn))
  | .start _ | .acquire _ _ | .renew _ _ | .leave _ _ | .release _ _
  | .expire | .crash _ => .isTrue trivial

theorem sorted_step {ownership : Ownership} {input : OwnershipInput}
    (numbered : ownership.Numbered)
    (sorted : ownership.draws.Pairwise (· < ·))
    (inOrder : ownership.DrawsInOrder input) :
    (ownership.step input).draws.Pairwise (· < ·) := by
  have drew : ∀ {engine call acquisition},
      ownership.phase engine = .acquired acquisition → call ≠ .failed →
        input = .next engine call →
          (ownership.draws ++ [acquisition]).Pairwise (· < ·) := by
    intro engine call acquisition acquired reached same
    subst same
    refine List.pairwise_append.mpr ⟨sorted, List.pairwise_singleton _ _, ?_⟩
    intro drawn before newest new
    rw [List.mem_singleton.mp new]
    have older := inOrder reached drawn before
    rw [acquired] at older
    refine Nat.lt_of_le_of_ne older fun same => ?_
    rw [same] at before
    exact (numbered.acquired acquired).2 before
  have transition := step_transition ownership input
  generalize ownership.step input = after at transition ⊢
  cases transition with
  | idle => exact sorted
  | released _ _ _ => exact sorted
  | moved _ _ _ _ _ _ => exact sorted
  | acquired _ _ _ _ => exact sorted
  | spent engine call acquisition acquired reached =>
      exact drew acquired reached rfl
  | fenced engine call acquisition acquired reached =>
      exact drew acquired reached rfl
  | canceled _ _ _ _ _ _ => exact sorted

end Predix
