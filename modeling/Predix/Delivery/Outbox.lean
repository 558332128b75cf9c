import Predix.Engine.Run

namespace Predix

open Data

/-! The outbox: a journal of envelopes on disk, in front of the `events:out`
stream. -/

/-- An envelope has an id of its own. Partition, fencing token, sequence and
creation time are left out: nothing below reads them. -/
structure Envelope where
  id : String
  event : Event
  deriving DecidableEq, Repr

/-- Trades are also sent to the WebSocket channel. -/
def Event.broadcast : Event → Bool
  | .tradeExecuted _ => true
  | _ => false

/-- How `Append` ends: the line is written and synced, written only, or not
written. The last two are errors. -/
inductive AppendOutcome where
  | synced
  | unsynced
  | failed
  deriving DecidableEq, Repr

structure Publication where
  added : Bool
  published : Bool
  deriving DecidableEq, Repr

structure EmitOutcome where
  append : AppendOutcome
  publication : Publication
  truncated : Bool
  deriving DecidableEq, Repr

structure RecoverOutcome where
  readable : Bool
  publications : List Publication
  truncated : Bool
  deriving DecidableEq, Repr

structure Outbox where
  journal : List Envelope
  stream : List Envelope
  appended : List Envelope
  deriving DecidableEq, Repr

def Outbox.empty : Outbox := ⟨[], [], []⟩

def publishEnvelope (stream : List Envelope) (envelope : Envelope)
    (broadcast : Bool) (publication : Publication) : List Envelope × Bool :=
  if publication.added then
    (stream ++ [envelope], !broadcast || publication.published)
  else
    (stream, false)

def Outbox.reset (outbox : Outbox) (truncated : Bool) : Outbox :=
  if truncated then { outbox with journal := [] } else outbox

/-- Write the envelope to the journal, publish it, and drop the journal when
every target has accepted it. The flag is false when an error is returned. -/
def Outbox.emitEventP (outbox : Outbox) (envelope : Envelope)
    (broadcast : Bool) (outcome : EmitOutcome) : Outbox × Bool :=
  match outcome.append with
  | .failed => (outbox, false)
  | .unsynced =>
      ({ outbox with journal := outbox.journal ++ [envelope] }, false)
  | .synced =>
      let (stream, accepted) := publishEnvelope outbox.stream envelope
        broadcast outcome.publication
      let outbox : Outbox :=
        { journal := outbox.journal ++ [envelope]
          stream := stream
          appended := outbox.appended ++ [envelope] }
      if accepted then
        (outbox.reset outcome.truncated, true)
      else
        (outbox, false)

def republishAll (stream : List Envelope) :
    List Envelope → List Publication → List Envelope × Bool
  | [], _ => (stream, true)
  | _ :: _, [] => (stream, false)
  | line :: lines, publication :: publications =>
      let (stream, accepted) := publishEnvelope stream line
        line.event.broadcast publication
      if accepted then
        republishAll stream lines publications
      else
        (stream, false)

/-- `Recover`. An unreadable journal and a refused line leave it as it is;
`Start` goes on either way. -/
def Outbox.recover (outbox : Outbox) (outcome : RecoverOutcome) : Outbox :=
  if outcome.readable then
    let (stream, accepted) :=
      republishAll outbox.stream outbox.journal outcome.publications
    let outbox := { outbox with stream := stream }
    if accepted then outbox.reset outcome.truncated else outbox
  else
    outbox

inductive OutboxInput where
  | emit (envelope : Envelope) (broadcast : Bool) (outcome : EmitOutcome)
  | recover (outcome : RecoverOutcome)
  deriving DecidableEq, Repr

def Outbox.step (outbox : Outbox) : OutboxInput → Outbox
  | .emit envelope broadcast outcome =>
      (outbox.emitEventP envelope broadcast outcome).1
  | .recover outcome => outbox.recover outcome

def Outbox.run (outbox : Outbox) (inputs : List OutboxInput) : Outbox :=
  runFrom Outbox.step outbox inputs

/-! What is kept. -/

/-- Every envelope that was appended is in the stream or still in the
journal. -/
def Outbox.KeepsAll (outbox : Outbox) : Prop :=
  ∀ envelope ∈ outbox.appended,
    envelope ∈ outbox.stream ∨ envelope ∈ outbox.journal

instance (outbox : Outbox) : Decidable outbox.KeepsAll :=
  inferInstanceAs (Decidable (∀ envelope ∈ outbox.appended, _))

def EmitOutcome.clears (outcome : EmitOutcome) (broadcast : Bool) : Prop :=
  outcome.append = .synced ∧ outcome.publication.added = true ∧
    (broadcast = true → outcome.publication.published = true) ∧
    outcome.truncated = true

instance (outcome : EmitOutcome) (broadcast : Bool) :
    Decidable (outcome.clears broadcast) :=
  inferInstanceAs (Decidable (_ ∧ _))

/-- When an emission is about to clear the journal, nothing in it still waits
for the stream but the envelope itself. -/
def Outbox.Published (outbox : Outbox) : OutboxInput → Prop
  | .emit envelope broadcast outcome =>
      outcome.clears broadcast → ∀ line ∈ outbox.journal,
        line ∈ outbox.appended → line ∈ outbox.stream ∨ line = envelope
  | .recover _ => True

instance (outbox : Outbox) (input : OutboxInput) :
    Decidable (outbox.Published input) := by
  cases input <;> unfold Outbox.Published <;> infer_instance

theorem keepsAll_empty : Outbox.empty.KeepsAll := by
  intro envelope member
  simp [Outbox.empty] at member

theorem mem_publishEnvelope (stream : List Envelope) (envelope : Envelope)
    (broadcast : Bool) (publication : Publication) {other : Envelope}
    (member : other ∈ stream) :
    other ∈ (publishEnvelope stream envelope broadcast publication).1 := by
  unfold publishEnvelope
  split
  · exact List.mem_append_left _ member
  · exact member

private theorem publishEnvelope_accepted {stream : List Envelope}
    {envelope : Envelope} {broadcast : Bool} {publication : Publication}
    (accepted :
      (publishEnvelope stream envelope broadcast publication).2 = true) :
    (publishEnvelope stream envelope broadcast publication).1 =
      stream ++ [envelope] := by
  unfold publishEnvelope at accepted ⊢
  split
  · rfl
  · rename_i refused
    rw [if_neg refused] at accepted
    contradiction

private theorem mem_republishAll {stream lines : List Envelope}
    {publications : List Publication} {other : Envelope}
    (member : other ∈ stream) :
    other ∈ (republishAll stream lines publications).1 := by
  induction lines generalizing stream publications with
  | nil => exact member
  | cons line lines induction =>
      cases publications with
      | nil => exact member
      | cons publication publications =>
          have now := mem_publishEnvelope stream line line.event.broadcast
            publication member
          unfold republishAll
          cases published : publishEnvelope stream line line.event.broadcast
              publication with
          | mk later accepted =>
              rw [published] at now
              cases accepted with
              | false => exact now
              | true => exact induction now

theorem republishAll_accepted {stream lines : List Envelope}
    {publications : List Publication}
    (complete : (republishAll stream lines publications).2 = true) :
    (republishAll stream lines publications).1 = stream ++ lines := by
  induction lines generalizing stream publications with
  | nil => exact (List.append_nil stream).symm
  | cons line lines induction =>
      cases publications with
      | nil => contradiction
      | cons publication publications =>
          unfold republishAll at complete ⊢
          cases published : publishEnvelope stream line line.event.broadcast
              publication with
          | mk later accepted =>
              rw [published] at complete
              cases accepted with
              | false => contradiction
              | true =>
                  have added := publishEnvelope_accepted
                    (congrArg Prod.snd published)
                  rw [published] at added
                  change later = stream ++ [line] at added
                  rw [List.append_cons, ← added]
                  exact induction complete

private theorem republishAll_complete {stream lines : List Envelope}
    {publications : List Publication}
    (complete : (republishAll stream lines publications).2 = true)
    {line : Envelope} (member : line ∈ lines) :
    line ∈ (republishAll stream lines publications).1 := by
  rw [republishAll_accepted complete]
  exact List.mem_append_right stream member

section Step

variable {outbox : Outbox} {envelope : Envelope} {broadcast : Bool}
  {outcome : EmitOutcome}

private theorem emitEventP_of_clears (clears : outcome.clears broadcast) :
    outbox.emitEventP envelope broadcast outcome =
      (⟨[], outbox.stream ++ [envelope], outbox.appended ++ [envelope]⟩,
        true) := by
  obtain ⟨append, added, published, truncated⟩ := clears
  have accepted : (!broadcast || outcome.publication.published) = true := by
    cases broadcast with
    | false => rfl
    | true => rw [published rfl]; rfl
  simp only [Outbox.emitEventP, append, publishEnvelope, added, if_pos,
    accepted, Outbox.reset, truncated]

variable (outbox envelope) in
private theorem emitEventP_of_not_clears (stays : ¬ outcome.clears broadcast) :
    (∀ line ∈ outbox.journal,
      line ∈ (outbox.emitEventP envelope broadcast outcome).1.journal) ∧
    (∀ line ∈ outbox.stream,
      line ∈ (outbox.emitEventP envelope broadcast outcome).1.stream) ∧
    ∀ line ∈ (outbox.emitEventP envelope broadcast outcome).1.appended,
      line ∈ outbox.appended ∨
        line ∈ (outbox.emitEventP envelope broadcast outcome).1.journal := by
  unfold Outbox.emitEventP
  cases append : outcome.append with
  | failed => exact ⟨fun _ member => member, fun _ member => member,
      fun _ member => .inl member⟩
  | unsynced =>
      exact ⟨fun _ member => List.mem_append_left _ member,
        fun _ member => member, fun _ member => .inl member⟩
  | synced =>
      have kept : ∀ line ∈ outbox.appended ++ [envelope],
          line ∈ outbox.appended ∨ line ∈ outbox.journal ++ [envelope] := by
        intro line member
        rcases List.mem_append.mp member with old | new
        · exact .inl old
        · exact .inr (List.mem_append_right _ new)
      have grown : ∀ line ∈ outbox.stream, line ∈ (publishEnvelope
          outbox.stream envelope broadcast outcome.publication).1 :=
        fun line member => mem_publishEnvelope _ _ _ _ member
      simp only
      cases accepted : (publishEnvelope outbox.stream envelope broadcast
          outcome.publication).2 with
      | false =>
          exact ⟨fun _ member => List.mem_append_left _ member, grown, kept⟩
      | true =>
          have notTruncated : outcome.truncated = false := by
            by_contra truncated
            rw [Bool.not_eq_false] at truncated
            unfold publishEnvelope at accepted
            split at accepted
            · rename_i added
              apply stays
              refine ⟨append, added, fun isBroadcast => ?_, truncated⟩
              rw [isBroadcast] at accepted
              exact accepted
            · contradiction
          simp only [Outbox.reset, notTruncated]
          exact ⟨fun _ member => List.mem_append_left _ member, grown, kept⟩

theorem keepsAll_recover (keeps : outbox.KeepsAll)
    (outcome : RecoverOutcome) : (outbox.recover outcome).KeepsAll := by
  have grown : ∀ line ∈ outbox.stream, line ∈ (republishAll outbox.stream
      outbox.journal outcome.publications).1 :=
    fun _ member => mem_republishAll member
  have complete : (republishAll outbox.stream outbox.journal
      outcome.publications).2 = true → ∀ line ∈ outbox.journal,
        line ∈ (republishAll outbox.stream outbox.journal
          outcome.publications).1 :=
    fun complete _ member => republishAll_complete complete member
  unfold Outbox.recover
  split
  · generalize republishAll outbox.stream outbox.journal outcome.publications =
      republished at grown complete
    obtain ⟨stream, accepted⟩ := republished
    cases accepted with
    | false =>
        intro envelope member
        rcases keeps envelope member with streamed | journaled
        · exact .inl (grown envelope streamed)
        · exact .inr journaled
    | true =>
        have streamed : ∀ envelope ∈ outbox.appended, envelope ∈ stream := by
          intro envelope appended
          rcases keeps envelope appended with streamed | journaled
          · exact grown envelope streamed
          · exact complete rfl envelope journaled
        simp only [if_true, Outbox.reset]
        split
        · exact fun envelope member => .inl (streamed envelope member)
        · exact fun envelope member => .inl (streamed envelope member)
  · exact keeps

/-- Whether an emission keeps everything is decided by what waits in the
journal. -/
theorem keepsAll_emit_iff (keeps : outbox.KeepsAll) :
    (outbox.step (.emit envelope broadcast outcome)).KeepsAll ↔
      outbox.Published (.emit envelope broadcast outcome) := by
  by_cases clears : outcome.clears broadcast
  · simp only [Outbox.step, emitEventP_of_clears clears, Outbox.Published]
    constructor
    · intro after _ line _ appended
      have kept := after line (List.mem_append_left _ appended)
      simpa using kept
    · intro published line member
      left
      rcases List.mem_append.mp member with old | new
      · rcases keeps line old with streamed | journaled
        · exact List.mem_append_left _ streamed
        · rcases published clears line journaled old with streamed | same
          · exact List.mem_append_left _ streamed
          · exact List.mem_append_right _ (List.mem_singleton.mpr same)
      · exact List.mem_append_right _ new
  · have published : outbox.Published (.emit envelope broadcast outcome) :=
      fun isClearing => absurd isClearing clears
    obtain ⟨journal, stream, appended⟩ :=
      emitEventP_of_not_clears outbox envelope clears
    refine ⟨fun _ => published, fun _ line member => ?_⟩
    rcases appended line member with old | journaled
    · rcases keeps line old with streamed | journaled
      · exact .inl (stream line streamed)
      · exact .inr (journal line journaled)
    · exact .inr journaled

theorem keepsAll_step_iff (keeps : outbox.KeepsAll) (input : OutboxInput) :
    (outbox.step input).KeepsAll ↔ outbox.Published input := by
  cases input with
  | emit envelope broadcast outcome => exact keepsAll_emit_iff keeps
  | recover outcome =>
      exact ⟨fun _ => trivial, fun _ => keepsAll_recover keeps outcome⟩

end Step

/-- Nothing appended is lost in any state of a run exactly when no emission
clears the journal over an envelope that still waits for the stream. -/
theorem outbox_keepsAll_iff (inputs : List OutboxInput) :
    (∀ done rest, inputs = done ++ rest → (Outbox.empty.run done).KeepsAll) ↔
      Along Outbox.step Outbox.Published Outbox.empty inputs :=
  throughout_iff_along Outbox.KeepsAll
    (fun _ input keeps => keepsAll_step_iff keeps input)
    keepsAll_empty inputs

/-- The first envelope waits in the journal while the stream is down. The
second goes through and takes the journal with it. -/
theorem outbox_dropsWaiting :
    ¬ (Outbox.empty.run
      [.emit ⟨"x", .orderCanceled "o1"⟩ false
          ⟨.synced, ⟨false, false⟩, false⟩,
        .emit ⟨"y", .orderCanceled "o2"⟩ false
          ⟨.synced, ⟨true, true⟩, true⟩]).KeepsAll := by
  decide

end Predix
