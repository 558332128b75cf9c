import Mathlib.Data.List.Infix
import Predix.Ownership.Fencing

namespace Predix

open Data

/-! The sequence numbers of the envelopes of one partition. An engine counts in
memory, from zero at every start; its journal and the stream outlive it. Leases
are left out: any running engine may emit. -/

section Appearances

variable {α : Type} (number : α → Nat)

def FirstAppearances (stream : List α) : Prop :=
  ∀ before line after, stream = before ++ line :: after → line ∉ before →
    ∀ earlier ∈ before, number earlier < number line

variable {number}

theorem FirstAppearances.append {stream : List α} {line : α}
    (appearances : FirstAppearances number stream)
    (larger : line ∉ stream →
      ∀ earlier ∈ stream, number earlier < number line) :
    FirstAppearances number (stream ++ [line]) :=
  splits_append appearances larger

private theorem FirstAppearances.appendAll {stream lines : List α}
    (appearances : FirstAppearances number stream)
    (sorted : lines.Pairwise fun first second => number first < number second)
    (larger : ∀ line ∈ lines, line ∉ stream →
      ∀ earlier ∈ stream, number earlier < number line) :
    FirstAppearances number (stream ++ lines) := by
  induction lines generalizing stream with
  | nil =>
      rw [List.append_nil]
      exact appearances
  | cons line lines induction =>
      rw [List.pairwise_cons] at sorted
      rw [← List.singleton_append, ← List.append_assoc]
      apply induction
        (appearances.append (larger line List.mem_cons_self)) sorted.2
      intro other member new earlier inStream
      rcases List.mem_append.mp inStream with old | isLine
      · exact larger other (List.mem_cons_of_mem line member)
          (fun known => new (List.mem_append_left [line] known)) earlier old
      · rw [List.mem_singleton.mp isLine]
        exact sorted.1 other member

end Appearances

private theorem republished_isPrefix {α : Type} (broadcast : α → Bool)
    (lines : List α) (publications : List Publication) :
    (republished broadcast lines publications).1 <+: lines := by
  induction lines generalizing publications with
  | nil => exact List.prefix_rfl
  | cons line lines induction =>
      cases publications with
      | nil => exact List.nil_prefix
      | cons publication publications =>
          simp only [republished]
          split
          · split
            · exact (List.prefix_cons_inj line).mpr (induction publications)
            · exact List.prefix_append [line] lines
          · exact List.nil_prefix

private theorem streamed_isPrefix {α : Type} (outcome : RecoverOutcome)
    (broadcast : α → Bool) (journal : List α) :
    outcome.streamed broadcast journal <+: journal := by
  unfold RecoverOutcome.streamed
  split
  · exact republished_isPrefix broadcast journal outcome.publications
  · exact List.nil_prefix

/-! The engines of a partition. -/

structure NumberedEnvelope extends Envelope where
  sequence : Nat
  deriving DecidableEq, Repr

structure EngineProcess where
  sequence : Nat
  stamped : Option NumberedEnvelope
  deriving DecidableEq, Repr

structure Numbering where
  process : String → Option EngineProcess
  journal : String → List NumberedEnvelope
  stream : List NumberedEnvelope
  issued : List NumberedEnvelope

def Numbering.start : Numbering := ⟨fun _ => none, fun _ => [], [], []⟩

inductive NumberingInput where
  /-- `newEngine`, and the recovery of the outbox. -/
  | start (engine : String) (outcome : RecoverOutcome)
  | crash (engine : String)
  /-- The number is drawn and the envelope built. -/
  | stamp (engine : String) (envelope : Envelope)
  /-- The rest of `emitEventP`. -/
  | publish (engine : String) (outcome : EmitOutcome)
  /-- An emission of another partition truncates the journal they share. -/
  | truncate (engine : String)

namespace Numbering

def setProcess (numbering : Numbering) (engine : String)
    (process : Option EngineProcess) : Numbering :=
  { numbering with
    process := Function.update numbering.process engine process }

def recover (numbering : Numbering) (engine : String)
    (outcome : RecoverOutcome) : Numbering :=
  { numbering with
    journal := Function.update numbering.journal engine
      (outcome.journaled (·.event.broadcast) (numbering.journal engine))
    stream := numbering.stream ++
      outcome.streamed (·.event.broadcast) (numbering.journal engine) }

def stamp (numbering : Numbering) (engine : String)
    (envelope : NumberedEnvelope) : Numbering :=
  { numbering.setProcess engine (some ⟨envelope.sequence, some envelope⟩) with
    issued := numbering.issued ++ [envelope] }

def publish (numbering : Numbering) (engine : String) (sequence : Nat)
    (envelope : NumberedEnvelope) (outcome : EmitOutcome) : Numbering :=
  { numbering.setProcess engine (some ⟨sequence, none⟩) with
    journal := Function.update numbering.journal engine
      (outcome.journaled envelope.event.broadcast (numbering.journal engine)
        envelope)
    stream := numbering.stream ++ outcome.streamed envelope }

def step (numbering : Numbering) : NumberingInput → Numbering
  | .start engine outcome =>
      match numbering.process engine with
      | some _ => numbering
      | none =>
          (numbering.recover engine outcome).setProcess engine
            (some ⟨0, none⟩)
  | .crash engine => numbering.setProcess engine none
  | .stamp engine envelope =>
      match numbering.process engine with
      | some ⟨sequence, none⟩ =>
          numbering.stamp engine ⟨envelope, sequence + 1⟩
      | _ => numbering
  | .publish engine outcome =>
      match numbering.process engine with
      | some ⟨sequence, some envelope⟩ =>
          numbering.publish engine sequence envelope outcome
      | _ => numbering
  | .truncate engine =>
      { numbering with
        journal := Function.update numbering.journal engine [] }

def run (numbering : Numbering) (inputs : List NumberingInput) : Numbering :=
  runFrom step numbering inputs

/-- Sequence numbers tell envelopes apart and give their order. -/
structure Identifies (numbering : Numbering) : Prop where
  distinct : ∀ first ∈ numbering.stream, ∀ second ∈ numbering.stream,
    first ≠ second → first.sequence ≠ second.sequence
  inOrder : FirstAppearances NumberedEnvelope.sequence numbering.stream

/-- An engine gives out a number only if no larger one was given out, so that
there was no other process before it. And an envelope that enters the stream
leaves no journal with older envelopes that have not. -/
def Continuous (numbering : Numbering) : NumberingInput → Prop
  | .stamp engine _ => ∀ process ∈ numbering.process engine,
      ∀ envelope ∈ numbering.issued, envelope.sequence ≤ process.sequence
  | .publish engine outcome => ∀ process ∈ numbering.process engine,
      ∀ envelope ∈ process.stamped, outcome.streamed envelope ≠ [] →
        ¬ outcome.clears envelope.event.broadcast →
          ∀ line ∈ numbering.journal engine, line ∈ numbering.stream
  | _ => True

instance (numbering : Numbering) (input : NumberingInput) :
    Decidable (numbering.Continuous input) :=
  match input with
  | .stamp engine _ =>
      inferInstanceAs (Decidable (∀ process ∈ numbering.process engine,
        ∀ envelope ∈ numbering.issued,
          envelope.sequence ≤ process.sequence))
  | .publish engine outcome =>
      inferInstanceAs (Decidable (∀ process ∈ numbering.process engine,
        ∀ envelope ∈ process.stamped, outcome.streamed envelope ≠ [] →
          ¬ outcome.clears envelope.event.broadcast →
            ∀ line ∈ numbering.journal engine, line ∈ numbering.stream))
  | .start _ _ | .crash _ | .truncate _ => .isTrue trivial

/-- One engine name has made every number; the others hold nothing. -/
structure Idle (numbering : Numbering) (engine : String) : Prop where
  journal : numbering.journal engine = []
  process : ∀ process ∈ numbering.process engine,
    process.sequence = 0 ∧ process.stamped = none

structure Ordered (numbering : Numbering) : Prop where
  increasing : numbering.issued.Pairwise fun first second =>
    first.sequence < second.sequence
  positive : ∀ {envelope}, envelope ∈ numbering.issued →
    0 < envelope.sequence
  streamed : ∀ {envelope}, envelope ∈ numbering.stream →
    envelope ∈ numbering.issued
  journaled : ∀ {engine envelope}, envelope ∈ numbering.journal engine →
    envelope ∈ numbering.issued
  sole : ∃ author, ∀ engine, engine ≠ author → numbering.Idle engine
  counted : ∀ {engine process}, numbering.process engine = some process →
    process.sequence ≠ 0 → numbering.issued ≠ [] ∧
      ∀ envelope ∈ numbering.issued, envelope.sequence ≤ process.sequence
  stamped : ∀ {engine process envelope},
    numbering.process engine = some process →
    process.stamped = some envelope →
      envelope ∈ numbering.issued ∧ envelope.sequence = process.sequence ∧
        ∀ line ∈ numbering.journal engine, line.sequence < envelope.sequence
  sorted : ∀ engine, (numbering.journal engine).Pairwise
    fun first second => first.sequence < second.sequence
  missing : ∀ {engine line}, line ∈ numbering.journal engine →
    line ∉ numbering.stream →
      ∀ earlier ∈ numbering.stream, earlier.sequence < line.sequence
  inOrder : FirstAppearances NumberedEnvelope.sequence numbering.stream

theorem ordered_start : Ordered .start where
  increasing := .nil
  positive issued := nomatch issued
  streamed streamed := nomatch streamed
  journaled journaled := nomatch journaled
  sole := ⟨"", fun _ _ => ⟨rfl, fun _ found => nomatch found⟩⟩
  counted found := nomatch found
  stamped found := nomatch found
  sorted _ := .nil
  missing journaled := nomatch journaled
  inOrder := splits_nil

variable {numbering : Numbering} {engine : String}

theorem Ordered.distinct (ordered : numbering.Ordered)
    {first second : NumberedEnvelope} (firstIssued : first ∈ numbering.issued)
    (secondIssued : second ∈ numbering.issued) (different : first ≠ second) :
    first.sequence ≠ second.sequence := by
  have apart : numbering.issued.Pairwise fun first second =>
      first.sequence ≠ second.sequence :=
    ordered.increasing.imp fun smaller => Nat.ne_of_lt smaller
  have symmetric : Std.Symm fun first second : NumberedEnvelope =>
      first.sequence ≠ second.sequence := ⟨fun _ _ => Ne.symm⟩
  exact apart.forall firstIssued secondIssued different

theorem Ordered.alone (ordered : numbering.Ordered) {process : EngineProcess}
    (found : numbering.process engine = some process)
    (counted : process.sequence ≠ 0) {other : String} (different : other ≠ engine) :
    numbering.Idle other := by
  obtain ⟨author, idle⟩ := ordered.sole
  by_cases same : engine = author
  · exact idle other (same ▸ different)
  · exact absurd ((idle engine same).process process found).1 counted

private theorem Ordered.oneJournal (ordered : numbering.Ordered)
    {other : String}
    {line foreign : NumberedEnvelope} (member : line ∈ numbering.journal engine)
    (stray : foreign ∈ numbering.journal other) : other = engine := by
  obtain ⟨author, idle⟩ := ordered.sole
  by_contra different
  by_cases same : engine = author
  · rw [(idle other (same ▸ different)).journal] at stray
    cases stray
  · rw [(idle engine same).journal] at member
    cases member

theorem process_setProcess (numbering : Numbering) (engine other : String)
    (process : Option EngineProcess) :
    (numbering.setProcess engine process).process other =
      if other = engine then process else numbering.process other :=
  Function.update_apply _ _ _ _

private theorem journal_recover (numbering : Numbering) (engine other : String)
    (outcome : RecoverOutcome) :
    (numbering.recover engine outcome).journal other =
      if other = engine then
        outcome.journaled (·.event.broadcast) (numbering.journal engine)
      else
        numbering.journal other :=
  Function.update_apply _ _ _ _

private theorem journal_publish (numbering : Numbering) (engine other : String)
    (sequence : Nat) (envelope : NumberedEnvelope) (outcome : EmitOutcome) :
    (numbering.publish engine sequence envelope outcome).journal other =
      if other = engine then
        outcome.journaled envelope.event.broadcast (numbering.journal engine)
          envelope
      else
        numbering.journal other :=
  Function.update_apply _ _ _ _

private theorem Ordered.setProcess (ordered : numbering.Ordered)
    {process : Option EngineProcess}
    (fresh : ∀ known ∈ process, known.sequence = 0 ∧ known.stamped = none) :
    (numbering.setProcess engine process).Ordered := by
  have kept : ∀ {other known},
      (numbering.setProcess engine process).process other = some known →
      (known.sequence = 0 ∧ known.stamped = none) ∨
        numbering.process other = some known := by
    intro other known found
    rw [process_setProcess] at found
    split at found
    · exact .inl (fresh known found)
    · exact .inr found
  refine { ordered with sole := ?_, counted := ?_, stamped := ?_ }
  · obtain ⟨author, idle⟩ := ordered.sole
    refine ⟨author, fun other different => ⟨(idle other different).journal, ?_⟩⟩
    intro known found
    rcases kept found with untouched | old
    · exact untouched
    · exact (idle other different).process known old
  · intro other known found counted
    rcases kept found with untouched | old
    · exact absurd untouched.1 counted
    · exact ordered.counted old counted
  · intro other known envelope found inHand
    rcases kept found with untouched | old
    · rw [untouched.2] at inHand
      cases inHand
    · exact ordered.stamped old inHand

/-- The lines of a journal reach the stream in their order, and those that do
not are the last. -/
theorem Ordered.recover (ordered : numbering.Ordered)
    (outcome : RecoverOutcome) :
    (numbering.recover engine outcome).Ordered := by
  have kept : ∀ {other line},
      line ∈ (numbering.recover engine outcome).journal other →
      line ∈ numbering.journal other := by
    intro other line member
    rw [journal_recover] at member
    split at member
    · next same =>
        rw [same]
        exact mem_recovered (.inr member)
    · exact member
  obtain ⟨rest, split⟩ :=
    streamed_isPrefix outcome (·.event.broadcast) (numbering.journal engine)
  have sorted := ordered.sorted engine
  rw [← split, List.pairwise_append] at sorted
  refine { ordered with
    streamed := ?_, journaled := ?_, sole := ?_, stamped := ?_, sorted := ?_
    missing := ?_, inOrder := ?_ }
  · intro envelope member
    rcases List.mem_append.mp member with old | recovered
    · exact ordered.streamed old
    · exact ordered.journaled (mem_recovered (.inl recovered))
  · exact fun member => ordered.journaled (kept member)
  · obtain ⟨author, idle⟩ := ordered.sole
    refine ⟨author, fun other different => ⟨?_, (idle other different).process⟩⟩
    apply List.eq_nil_iff_forall_not_mem.mpr
    intro line member
    have old := kept member
    rw [(idle other different).journal] at old
    cases old
  · intro other process envelope found inHand
    obtain ⟨issued, same, newest⟩ := ordered.stamped found inHand
    exact ⟨issued, same, fun line member => newest line (kept member)⟩
  · intro other
    rw [journal_recover]
    unfold RecoverOutcome.journaled
    split
    · split
      · exact .nil
      · exact ordered.sorted engine
    · exact ordered.sorted other
  · intro other line member new earlier streamed
    have old := kept member
    have unseen : line ∉ numbering.stream :=
      fun known => new (List.mem_append_left _ known)
    rcases List.mem_append.mp streamed with known | recovered
    · exact ordered.missing old unseen earlier known
    · have same := ordered.oneJournal (mem_recovered (.inl recovered)) old
      rw [same, ← split] at old
      rcases List.mem_append.mp old with first | last
      · exact absurd (List.mem_append_right _ first) new
      · exact sorted.2.2 earlier recovered line last
  · apply ordered.inOrder.appendAll sorted.1
    intro line recovered new
    exact ordered.missing (mem_recovered (.inl recovered)) new

private theorem Ordered.idle_of_unissued (ordered : numbering.Ordered)
    (nothing : numbering.issued = []) (engine : String) :
    numbering.Idle engine := by
  constructor
  · apply List.eq_nil_iff_forall_not_mem.mpr
    intro line member
    have issued := ordered.journaled member
    rw [nothing] at issued
    cases issued
  · intro process member
    constructor
    · by_contra counted
      exact (ordered.counted member counted).1 nothing
    · by_contra inHand
      obtain ⟨held, isHeld⟩ := Option.ne_none_iff_exists'.mp inHand
      have issued := (ordered.stamped member isHeld).1
      rw [nothing] at issued
      cases issued

private theorem Ordered.stamp (ordered : numbering.Ordered) {sequence : Nat}
    (found : numbering.process engine = some ⟨sequence, none⟩)
    (largest : ∀ envelope ∈ numbering.issued, envelope.sequence ≤ sequence)
    (envelope : Envelope) :
    (numbering.stamp engine ⟨envelope, sequence + 1⟩).Ordered := by
  -- Whoever counted before would have issued a number above zero.
  have alone : ∀ other, other ≠ engine → numbering.Idle other := by
    intro other different
    by_cases first : sequence = 0
    · have nothing : numbering.issued = [] := by
        apply List.eq_nil_iff_forall_not_mem.mpr
        intro known issued
        have bound := largest known issued
        have positive := ordered.positive issued
        omega
      exact ordered.idle_of_unissued nothing other
    · exact ordered.alone found first different
  have process : ∀ {other known},
      (numbering.stamp engine ⟨envelope, sequence + 1⟩).process other =
        some known → known.sequence ≠ 0 ∨ known.stamped ≠ none →
      other = engine ∧
        known = ⟨sequence + 1, some ⟨envelope, sequence + 1⟩⟩ := by
    intro other known member busy
    have found := (process_setProcess numbering engine other _).symm.trans member
    split at found
    · next same => exact ⟨same, (Option.some.inj found).symm⟩
    · next different =>
        have idle := (alone other different).process known found
        rw [idle.1, idle.2] at busy
        simp at busy
  refine { ordered with
    increasing := ?_, positive := ?_, streamed := ?_, journaled := ?_
    sole := ?_, counted := ?_, stamped := ?_ }
  · apply List.pairwise_append.mpr
    refine ⟨ordered.increasing, List.pairwise_singleton _ _, ?_⟩
    intro earlier issued later isLater
    rw [List.mem_singleton.mp isLater]
    exact Nat.lt_succ_of_le (largest earlier issued)
  · intro known member
    rcases List.mem_append.mp member with old | new
    · exact ordered.positive old
    · rw [List.mem_singleton.mp new]
      exact Nat.succ_pos sequence
  · exact fun member => List.mem_append_left _ (ordered.streamed member)
  · exact fun member => List.mem_append_left _ (ordered.journaled member)
  · refine ⟨engine, fun other different => ⟨(alone other different).journal, ?_⟩⟩
    intro known member
    by_contra busy
    exact different (process member (not_and_or.mp busy)).1
  · intro other known member counted
    obtain ⟨_, rfl⟩ := process member (.inl counted)
    refine ⟨List.append_ne_nil_of_right_ne_nil _ (List.cons_ne_nil _ _), ?_⟩
    intro line issued
    rcases List.mem_append.mp issued with old | new
    · exact Nat.le_succ_of_le (largest line old)
    · rw [List.mem_singleton.mp new]
  · intro other known held member isHeld
    obtain ⟨rfl, rfl⟩ := process member
      (.inr (Option.ne_none_iff_exists'.mpr ⟨held, isHeld⟩))
    cases isHeld
    refine ⟨List.mem_append_right _ (List.mem_singleton_self _), rfl, ?_⟩
    intro line journaled
    exact Nat.lt_succ_of_le (largest line (ordered.journaled journaled))

private theorem mem_streamed_synced {outcome : EmitOutcome}
    {envelope line : NumberedEnvelope}
    (member : line ∈ outcome.streamed envelope) :
    line = envelope ∧ outcome.append = .synced := by
  unfold EmitOutcome.streamed at member
  split at member
  · next accepted => exact ⟨List.mem_singleton.mp member, accepted.1⟩
  · cases member

section Publish

variable (ordered : numbering.Ordered) {sequence : Nat}
  {envelope : NumberedEnvelope} {outcome : EmitOutcome}
  (found : numbering.process engine = some ⟨sequence, some envelope⟩)

include ordered found

theorem Ordered.counts : sequence ≠ 0 := by
  obtain ⟨issued, sameSequence, _⟩ := ordered.stamped found rfl
  have positive := ordered.positive issued
  change envelope.sequence = sequence at sameSequence
  omega

theorem Ordered.newest (new : envelope ∉ numbering.stream) :
    ∀ earlier ∈ numbering.stream, earlier.sequence < envelope.sequence := by
  intro earlier streamed
  obtain ⟨issued, sameSequence, _⟩ := ordered.stamped found rfl
  change envelope.sequence = sequence at sameSequence
  have known := ordered.streamed streamed
  have bound := (ordered.counted found (ordered.counts found)).2 earlier known
  change earlier.sequence ≤ sequence at bound
  have apart := ordered.distinct known issued (fun same => new (same ▸ streamed))
  omega

private theorem Ordered.sorted_journaled (broadcast : Bool) :
    (outcome.journaled broadcast (numbering.journal engine) envelope).Pairwise
      fun first second => first.sequence < second.sequence := by
  have grown : (numbering.journal engine ++ [envelope]).Pairwise
      fun first second => first.sequence < second.sequence := by
    apply List.pairwise_append.mpr
    refine ⟨ordered.sorted engine, List.pairwise_singleton _ _, ?_⟩
    intro line member last isLast
    rw [List.mem_singleton.mp isLast]
    exact (ordered.stamped found rfl).2.2 line member
  unfold EmitOutcome.journaled
  split
  · exact ordered.sorted engine
  · exact grown
  · split
    · exact .nil
    · exact grown

/-- A line that the stream misses comes after all that is in the stream. -/
theorem Ordered.missing_publish
    (nothingMissing : outcome.streamed envelope ≠ [] →
      ¬ outcome.clears envelope.event.broadcast →
        ∀ line ∈ numbering.journal engine, line ∈ numbering.stream)
    {line : NumberedEnvelope}
    (member : line ∈ outcome.journaled envelope.event.broadcast
      (numbering.journal engine) envelope)
    (new : line ∉ numbering.stream ++ outcome.streamed envelope) :
    ∀ earlier ∈ numbering.stream ++ outcome.streamed envelope,
      earlier.sequence < line.sequence := by
  intro earlier streamed
  have unseen : line ∉ numbering.stream :=
    fun known => new (List.mem_append_left _ known)
  rcases List.mem_append.mp streamed with known | added
  · rcases mem_journaled member with old | rfl
    · exact ordered.missing old unseen earlier known
    · exact ordered.newest found unseen earlier known
  · obtain ⟨_, synced⟩ := mem_streamed_synced added
    have kept : ¬ outcome.clears envelope.event.broadcast := by
      intro clears
      simp only [EmitOutcome.journaled, synced, if_pos clears] at member
      cases member
    rcases mem_journaled member with old | isLine
    · exact absurd (nothingMissing (List.ne_nil_of_mem added) kept line old)
        unseen
    · rw [mem_streamed added, ← isLine] at added
      exact absurd (List.mem_append_right _ (isLine ▸ added)) new

private theorem Ordered.publish
    (nothingMissing : outcome.streamed envelope ≠ [] →
      ¬ outcome.clears envelope.event.broadcast →
        ∀ line ∈ numbering.journal engine, line ∈ numbering.stream) :
    (numbering.publish engine sequence envelope outcome).Ordered := by
  have issued := (ordered.stamped found rfl).1
  have counted := ordered.counts found
  have alone : ∀ other, other ≠ engine → numbering.Idle other :=
    fun other different => ordered.alone found counted different
  have process : ∀ {other known},
      (numbering.publish engine sequence envelope outcome).process other =
        some known → other = engine ∧ known = ⟨sequence, none⟩ ∨
          other ≠ engine ∧ numbering.process other = some known := by
    intro other known member
    have found := (process_setProcess numbering engine other _).symm.trans member
    split at found
    · next same => exact .inl ⟨same, (Option.some.inj found).symm⟩
    · next different => exact .inr ⟨different, found⟩
  refine { ordered with
    streamed := ?_, journaled := ?_, sole := ?_, counted := ?_, stamped := ?_
    sorted := ?_, missing := ?_, inOrder := ?_ }
  · intro line member
    rcases List.mem_append.mp member with old | new
    · exact ordered.streamed old
    · rw [mem_streamed new]
      exact issued
  · intro other line member
    rw [journal_publish] at member
    split at member
    · rcases mem_journaled member with old | rfl
      · exact ordered.journaled old
      · exact issued
    · exact ordered.journaled member
  · refine ⟨engine, fun other different => ⟨?_, fun known member => ?_⟩⟩
    · rw [journal_publish, if_neg different]
      exact (alone other different).journal
    · rcases process member with ⟨same, _⟩ | ⟨_, old⟩
      · exact absurd same different
      · exact (alone other different).process known old
  · intro other known member busy
    rcases process member with ⟨_, rfl⟩ | ⟨_, old⟩
    · have known := ordered.counted found counted
      exact known
    · exact ordered.counted old busy
  · intro other known held member isHeld
    rcases process member with ⟨_, rfl⟩ | ⟨different, old⟩
    · cases isHeld
    · rw [((alone other different).process known old).2] at isHeld
      cases isHeld
  · intro other
    rw [journal_publish]
    split
    · exact ordered.sorted_journaled found envelope.event.broadcast
    · exact ordered.sorted other
  · intro other line member
    rw [journal_publish] at member
    split at member
    · exact ordered.missing_publish found nothingMissing member
    · next different =>
        rw [(alone other different).journal] at member
        cases member
  · change FirstAppearances _ (numbering.stream ++ outcome.streamed envelope)
    unfold EmitOutcome.streamed
    split
    · exact ordered.inOrder.append (ordered.newest found)
    · rw [List.append_nil]
      exact ordered.inOrder

end Publish

private theorem Ordered.truncate (ordered : numbering.Ordered) :
    (numbering.step (.truncate engine)).Ordered := by
  have kept : ∀ {other line},
      line ∈ (numbering.step (.truncate engine)).journal other →
      line ∈ numbering.journal other := by
    intro other line member
    have found : line ∈ if other = engine then [] else
        numbering.journal other := by
      rw [← Function.update_apply]
      exact member
    split at found
    · cases found
    · exact found
  refine { ordered with
    journaled := ?_, sole := ?_, stamped := ?_, sorted := ?_, missing := ?_ }
  · exact fun member => ordered.journaled (kept member)
  · obtain ⟨author, idle⟩ := ordered.sole
    refine ⟨author, fun other different => ⟨?_, (idle other different).process⟩⟩
    apply List.eq_nil_iff_forall_not_mem.mpr
    intro line member
    have old := kept member
    rw [(idle other different).journal] at old
    cases old
  · intro other process envelope found inHand
    obtain ⟨issued, same, newest⟩ := ordered.stamped found inHand
    exact ⟨issued, same, fun line member => newest line (kept member)⟩
  · intro other
    change (Function.update numbering.journal engine [] other).Pairwise _
    rw [Function.update_apply]
    split
    · exact .nil
    · exact ordered.sorted other
  · exact fun member new => ordered.missing (kept member) new

theorem Ordered.step (ordered : numbering.Ordered) (input : NumberingInput)
    (continuous : numbering.Continuous input) :
    (numbering.step input).Ordered := by
  cases input with
  | start engine outcome =>
      simp only [Numbering.step]
      split
      · exact ordered
      · apply (ordered.recover outcome).setProcess
        intro known isKnown
        cases isKnown
        exact ⟨rfl, rfl⟩
  | crash engine => exact ordered.setProcess fun known isKnown => nomatch isKnown
  | stamp engine envelope =>
      simp only [Numbering.step]
      split
      · next sequence found =>
          exact ordered.stamp found (continuous _ found) envelope
      · exact ordered
  | publish engine outcome =>
      simp only [Numbering.step]
      split
      · next sequence envelope found =>
          exact ordered.publish found (continuous _ found envelope rfl)
      · exact ordered
  | truncate engine => exact ordered.truncate

private theorem Ordered.identifies (ordered : numbering.Ordered) :
    numbering.Identifies where
  distinct _ first _ second different :=
    ordered.distinct (ordered.streamed first) (ordered.streamed second) different
  inOrder := ordered.inOrder

/-- While every number comes from one process and nothing overtakes a line of
the journal, sequence numbers identify envelopes and give their order. -/
theorem sequence_identifies (inputs : List NumberingInput)
    (continuous : Along step Continuous .start inputs) :
    (run .start inputs).Identifies :=
  (invariant_runFrom Ordered
    (fun _ input ordered continuous => ordered.step input continuous)
    ordered_start continuous).identifies

/-- Two emissions meet a stream that refuses them; a restart recovers both. -/
theorem identifies_recovered :
    (run .start
      [.start "a" ⟨true, [], true⟩, .stamp "a" ⟨"x", .orderCanceled "x"⟩,
        .publish "a" ⟨.synced, ⟨false, false⟩, true⟩,
        .stamp "a" ⟨"y", .orderCanceled "y"⟩,
        .publish "a" ⟨.synced, ⟨false, false⟩, true⟩, .crash "a",
        .start "a" ⟨true, [⟨true, true⟩, ⟨true, true⟩], true⟩]).Identifies :=
  sequence_identifies _ (by decide)

/-- A restarted engine counts from zero again. -/
theorem restarted_repeatsSequence :
    ¬ (run .start
      [.start "a" ⟨true, [], true⟩, .stamp "a" ⟨"x", .orderCanceled "x"⟩,
        .publish "a" ⟨.synced, ⟨true, true⟩, true⟩, .crash "a",
        .start "a" ⟨true, [], true⟩, .stamp "a" ⟨"y", .orderCanceled "y"⟩,
        .publish "a" ⟨.synced, ⟨true, true⟩, true⟩]).Identifies := by
  intro identifies
  exact identifies.distinct ⟨⟨"x", .orderCanceled "x"⟩, 1⟩ (by decide)
    ⟨⟨"y", .orderCanceled "y"⟩, 1⟩ (by decide) (by decide) rfl

end Numbering

end Predix
